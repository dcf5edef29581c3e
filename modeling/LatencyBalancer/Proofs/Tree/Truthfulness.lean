import LatencyBalancer.Proofs.Tree.Descent

/-!
# Answers on any arena

Links may dangle or run in a circle here, nodes may be shared, and weights need not add up.  Even
so the positions of a descent stay above zero and never wrap around, and what is answered can be
borne out by the nodes within reach of the root.  A descent is cut off one node after it must have
visited some node twice, so that only a circle of links can cut it off.
-/

namespace LatencyBalancer

open Relation (ReflTransGen TransGen)

universe u

variable {Item : Type u}

/-! ### Trails -/

section Trails

variable {nodes : Array (Node Item)} {index : Nat} {trail : List Nat}

theorem reflTransGen_of_isChain (chain : (index :: trail).IsChain (Links nodes)) :
    ∀ place ∈ index :: trail, ReflTransGen (Links nodes) index place := by
  intro place visited
  rcases List.mem_cons.mp visited with rfl | later
  · exact .refl
  · have onward : (index :: trail).Pairwise (TransGen (Links nodes)) :=
      (chain.imp fun _ _ linked => .single linked).pairwise
    exact ((List.pairwise_cons.mp onward).1 place later).to_reflTransGen

theorem lt_size_of_isChain (chain : (index :: trail).IsChain (Links nodes)) :
    ∀ place ∈ (index :: trail).dropLast, place < nodes.size := by
  induction trail generalizing index with
  | nil => simp
  | cons next trail inductionHypothesis =>
      obtain ⟨linked, later⟩ := List.isChain_cons_cons.mp chain
      rw [List.dropLast_cons_cons, List.forall_mem_cons]
      exact ⟨linked.lt_size, inductionHypothesis later⟩

/-- Without a circle no trail comes back to a node, so it takes no more steps than there are
nodes. -/
theorem length_le_of_acyclicFrom (acyclic : AcyclicFrom nodes index)
    (chain : (index :: trail).IsChain (Links nodes)) : trail.length ≤ nodes.size := by
  have onward : (index :: trail).Pairwise (TransGen (Links nodes)) :=
    (chain.imp fun _ _ linked => .single linked).pairwise
  have distinct : (index :: trail).Nodup := by
    refine onward.imp_of_mem fun {place _} visited _ walk => ?_
    rintro rfl
    exact acyclic place (reflTransGen_of_isChain chain place visited) walk
  have inside : (index :: trail).dropLast ⊆ List.range nodes.size := fun place visited =>
    List.mem_range.mpr (lt_size_of_isChain chain place visited)
  have fewer := ((distinct.sublist (List.dropLast_sublist _)).subperm inside).length_le
  simpa using fewer

theorem exists_circle_of_isChain (chain : (index :: trail).IsChain (Links nodes))
    (long : nodes.size < trail.length) :
    ∃ place, ReflTransGen (Links nodes) index place ∧ TransGen (Links nodes) place place := by
  by_contra none
  simp only [not_exists, not_and] at none
  exact Nat.not_le.mpr long (length_le_of_acyclicFrom none chain)

end Trails

/-- An answer to a descent from a node that the nodes below it bear out. -/
inductive BorneOut (nodes : Array (Node Item)) (root : Nat) : Except TreeError Item → Prop where
  | item {place : Nat} {weight : UInt64} {item : Item} :
      ReflTransGen (Links nodes) root place →
      nodes[place]? = some (.leaf weight item) →
      BorneOut nodes root (.ok item)
  | dangling {place child : Nat} :
      ReflTransGen (Links nodes) root place →
      Links nodes place child →
      nodes[child]? = none →
      BorneOut nodes root (.error (.danglingNode child))
  | cycle {place : Nat} :
      ReflTransGen (Links nodes) root place →
      TransGen (Links nodes) place place →
      BorneOut nodes root (.error (.cycle nodes.size))

/-- One step of a descent in whole numbers, which do not wrap around. -/
inductive Passes (nodes : Array (Node Item)) : Nat → Nat → Nat → Nat → Prop where
  | single {index left position : Nat} {weight : UInt64} :
      nodes[index]? = some (.branch weight left none) →
      Passes nodes index position left position
  | left {index left right position : Nat} {weight : UInt64} {child : Node Item} :
      nodes[index]? = some (.branch weight left (some right)) →
      nodes[left]? = some child →
      position ≤ child.weight.toNat →
      Passes nodes index position left position
  | right {index left right position : Nat} {weight : UInt64} {child : Node Item} :
      nodes[index]? = some (.branch weight left (some right)) →
      nodes[left]? = some child →
      child.weight.toNat < position →
      Passes nodes index position right (position - child.weight.toNat)

namespace Passes

variable {nodes : Array (Node Item)} {index next position rest : Nat}

theorem links (passes : Passes nodes index position next rest) : Links nodes index next := by
  cases passes with
  | single present | left present | right present => exact ⟨_, present, by simp [Node.children]⟩

theorem bounds (passes : Passes nodes index position next rest) (positive : 0 < position) :
    0 < rest ∧ rest ≤ position := by
  cases passes with
  | single | left => exact ⟨positive, Nat.le_refl _⟩
  | right _ _ beyond => exact ⟨Nat.sub_pos_of_lt beyond, Nat.sub_le _ _⟩

end Passes

namespace WeightTree

variable {tree : WeightTree Item} {root index next visits : Nat} {draw position rest : UInt64}

/-! ### Steps -/

theorem step_missing (missing : tree.nodes[index]? = none) (position : UInt64) :
    tree.step index position = .error (.danglingNode index) := by
  have absent : tree.lookup index = .error (.danglingNode index) :=
    lookup_eq_error_iff.mpr ⟨missing, rfl⟩
  simp only [step, absent]

theorem step_missing_left {left right : Nat} {weight : UInt64}
    (present : tree.nodes[index]? = some (.branch weight left (some right)))
    (missing : tree.nodes[left]? = none) (position : UInt64) :
    tree.step index position = .error (.danglingNode left) := by
  have found : tree.lookup index = .ok (.branch weight left (some right)) :=
    lookup_eq_ok_iff.mpr present
  have absent : tree.lookup left = .error (.danglingNode left) :=
    lookup_eq_error_iff.mpr ⟨missing, rfl⟩
  simp only [step, found, absent]

theorem step_cases (tree : WeightTree Item) (index : Nat) (position : UInt64) :
    (tree.nodes[index]? = none ∧ tree.step index position = .error (.danglingNode index)) ∨
      (∃ weight item, tree.nodes[index]? = some (.leaf weight item) ∧
        tree.step index position = .ok (.arrived item)) ∨
      (∃ child, Links tree.nodes index child ∧ tree.nodes[child]? = none ∧
        tree.step index position = .error (.danglingNode child)) ∨
      ∃ next rest, Passes tree.nodes index position.toNat next rest.toNat ∧
        tree.step index position = .ok (.onward next rest) := by
  match present : tree.nodes[index]? with
  | none => exact .inl ⟨rfl, step_missing present position⟩
  | some (.leaf weight item) => exact .inr (.inl ⟨weight, item, rfl, step_leaf present position⟩)
  | some (.branch weight left none) =>
      exact .inr (.inr (.inr ⟨left, position, .single present, step_single present position⟩))
  | some (.branch weight left (some right)) =>
      cases leftPresent : tree.nodes[left]? with
      | none =>
          exact .inr (.inr (.inl ⟨left, ⟨_, present, by simp [Node.children]⟩, leftPresent,
            step_missing_left present leftPresent position⟩))
      | some child =>
          have stepped := step_double present leftPresent position
          refine .inr (.inr (.inr ?_))
          by_cases within : position ≤ child.weight
          · rw [if_pos within] at stepped
            exact ⟨left, position,
              .left present leftPresent (UInt64.le_iff_toNat_le.mp within), stepped⟩
          · rw [if_neg within] at stepped
            obtain ⟨beyond, exact⟩ := toNat_sub_weight within
            refine ⟨right, position - child.weight, ?_, stepped⟩
            rw [exact]
            exact .right present leftPresent beyond

/-- A step goes on exactly as it does in whole numbers. -/
theorem passes_of_step (stepped : tree.step index position = .ok (.onward next rest)) :
    Passes tree.nodes index position.toNat next rest.toNat := by
  rcases tree.step_cases index position with
    ⟨_, same⟩ | ⟨_, _, _, same⟩ | ⟨_, _, _, same⟩ | ⟨_, _, passes, same⟩
  · rw [stepped] at same
    contradiction
  · rw [stepped] at same
    simp at same
  · rw [stepped] at same
    contradiction
  · rw [stepped] at same
    obtain ⟨rfl, rfl⟩ := Step.onward.inj (Except.ok.inj same)
    exact passes

/-! ### Descents -/

/-- A descent is borne out, or it is cut off after as many links as it was allowed visits. -/
theorem borneOut_descend_or (present : root < tree.nodes.size)
    (reached : ReflTransGen (Links tree.nodes) root index) :
    BorneOut tree.nodes root (tree.descend visits index position) ∨
      tree.descend visits index position = .error (.cycle tree.nodes.size) ∧
        ∃ trail, trail.length = visits ∧ (index :: trail).IsChain (Links tree.nodes) := by
  induction visits generalizing index position with
  | zero => exact .inr ⟨rfl, [], rfl, List.isChain_singleton index⟩
  | succ visits inductionHypothesis =>
      unfold descend
      rcases tree.step_cases index position with
        ⟨missing, same⟩ | ⟨weight, item, leaf, same⟩ | ⟨child, linked, missing, same⟩ |
          ⟨next, rest, passes, same⟩
      · simp only [same]
        rcases reached.cases_tail with rfl | ⟨parent, above, linked⟩
        · rw [Array.getElem?_eq_getElem present] at missing
          contradiction
        · exact .inl (.dangling above linked missing)
      · simp only [same]
        exact .inl (.item reached leaf)
      · simp only [same]
        exact .inl (.dangling reached linked missing)
      · simp only [same]
        refine (inductionHypothesis (reached.tail passes.links)).imp_right ?_
        rintro ⟨cut, trail, length, chain⟩
        refine ⟨cut, next :: trail, by rw [List.length_cons, length], ?_⟩
        exact List.isChain_cons_cons.mpr ⟨passes.links, chain⟩

/-- A descent that is allowed one visit more than there are nodes is cut off by a circle only. -/
theorem borneOut_descend (present : root < tree.nodes.size) (position : UInt64) :
    BorneOut tree.nodes root (tree.descend (tree.nodes.size + 1) root position) := by
  rcases borneOut_descend_or present .refl with borneOut | ⟨cut, trail, length, chain⟩
  · exact borneOut
  · obtain ⟨place, reached, circle⟩ := exists_circle_of_isChain chain (by omega)
    rw [cut]
    exact .cycle reached circle

/-! ### Samples -/

/-- The places that the descent of a draw comes through: nodes, each with a position. -/
inductive ComesThrough (tree : WeightTree Item) (draw : UInt64) : Nat → UInt64 → Prop where
  | root : ComesThrough tree draw tree.root (draw + 1)
  | onward {index next : Nat} {position rest : UInt64} :
      ComesThrough tree draw index position →
      tree.step index position = .ok (.onward next rest) →
      ComesThrough tree draw next rest

/-- The descent of a draw is one in whole numbers: the first position is the number after the draw,
no later one is zero or larger, and every step is a step in whole numbers. -/
structure Unwrapped (tree : WeightTree Item) (draw : UInt64) : Prop where
  first : (draw + 1).toNat = draw.toNat + 1
  positive : ∀ index position, tree.ComesThrough draw index position → 1 ≤ position.toNat
  bounded : ∀ index position, tree.ComesThrough draw index position →
    position.toNat ≤ draw.toNat + 1
  passes : ∀ index position next rest, tree.ComesThrough draw index position →
    tree.step index position = .ok (.onward next rest) →
    Passes tree.nodes index position.toNat next rest.toNat

theorem unwrapped_of_lt (inside : draw < tree.totalWeight) : tree.Unwrapped draw := by
  have first := (sample_eq_descend inside).2
  have bounds : ∀ index position, tree.ComesThrough draw index position →
      0 < position.toNat ∧ position.toNat ≤ draw.toNat + 1 := by
    intro index position visited
    induction visited with
    | root => omega
    | onward _ stepped inductionHypothesis =>
        obtain ⟨positive, bounded⟩ := inductionHypothesis
        obtain ⟨stillPositive, smaller⟩ := (passes_of_step stepped).bounds positive
        exact ⟨stillPositive, smaller.trans bounded⟩
  exact ⟨first, fun index position visited => (bounds index position visited).1,
    fun index position visited => (bounds index position visited).2,
    fun _ _ _ _ _ stepped => passes_of_step stepped⟩

theorem borneOut_sample (inside : draw < tree.totalWeight) :
    BorneOut tree.nodes tree.root (tree.sample draw) := by
  obtain ⟨root, present, _⟩ := exists_root_of_lt inside
  rw [(sample_eq_descend inside).1]
  exact borneOut_descend (Array.getElem?_eq_some_iff.mp present).1 _

theorem sample_cases (tree : WeightTree Item) (draw : UInt64) :
    (tree.nodes[tree.root]? = none ∧ tree.sample draw = .error (.danglingNode tree.root)) ∨
      (∃ root, tree.nodes[tree.root]? = some root ∧ root.weight ≤ draw ∧
        tree.sample draw = .error (.drawOutOfRange draw root.weight)) ∨
      ∃ root, tree.nodes[tree.root]? = some root ∧ draw < root.weight ∧
        BorneOut tree.nodes tree.root (tree.sample draw) := by
  cases present : tree.nodes[tree.root]? with
  | none =>
      have absent : tree.lookup tree.root = .error (.danglingNode tree.root) :=
        lookup_eq_error_iff.mpr ⟨present, rfl⟩
      exact .inl ⟨rfl, by simp only [sample, absent]⟩
  | some root =>
      have found : tree.lookup tree.root = .ok root := lookup_eq_ok_iff.mpr present
      have total : tree.totalWeight = root.weight := by simp [totalWeight, node?, present]
      by_cases beyond : root.weight ≤ draw
      · exact .inr (.inl ⟨root, rfl, beyond, by simp only [sample, found, if_pos beyond]⟩)
      · have inside := UInt64.not_le.mp beyond
        exact .inr (.inr ⟨root, rfl, inside, borneOut_sample (total ▸ inside)⟩)

/-- What the answers to a draw say about an arena of which nothing is known. -/
structure Truthful (tree : WeightTree Item) (draw : UInt64) : Prop where
  unwrapped : draw < tree.totalWeight → tree.Unwrapped draw
  rootless : tree.sample draw = .error (.danglingNode tree.root) ↔ tree.nodes.size ≤ tree.root
  outOfRange : ∀ root, tree.nodes[tree.root]? = some root → ∀ asked total,
    tree.sample draw = .error (.drawOutOfRange asked total) ↔
      asked = draw ∧ total = root.weight ∧ root.weight ≤ draw
  item : ∀ item, tree.sample draw = .ok item →
    ∃ place weight, ReflTransGen (Links tree.nodes) tree.root place ∧
      tree.nodes[place]? = some (.leaf weight item)
  dangling : tree.root < tree.nodes.size → ∀ child,
    tree.sample draw = .error (.danglingNode child) → tree.nodes.size ≤ child ∧
      ∃ place, ReflTransGen (Links tree.nodes) tree.root place ∧ Links tree.nodes place child
  cycle : ∀ steps, tree.sample draw = .error (.cycle steps) → steps = tree.nodes.size ∧
    ∃ place, ReflTransGen (Links tree.nodes) tree.root place ∧
      TransGen (Links tree.nodes) place place
  matched : ∀ node weight children,
    tree.sample draw ≠ .error (.weightMismatch node weight children)
  acyclic : AcyclicFrom tree.nodes tree.root → ∀ steps, tree.sample draw ≠ .error (.cycle steps)

theorem sample_eq_dangling_root_iff : tree.sample draw = .error (.danglingNode tree.root) ↔
    tree.nodes.size ≤ tree.root := by
  rw [← Array.getElem?_eq_none_iff]
  constructor
  · intro sampled
    rcases tree.sample_cases draw with
      ⟨missing, _⟩ | ⟨_, _, _, same⟩ | ⟨root, present, _, borneOut⟩
    · exact missing
    · rw [sampled] at same
      simp at same
    · rw [sampled] at borneOut
      cases borneOut with
      | dangling _ _ missing => exact missing
  · intro missing
    rcases tree.sample_cases draw with ⟨_, same⟩ | ⟨_, present, _⟩ | ⟨_, present, _⟩
    · exact same
    · rw [missing] at present
      contradiction
    · rw [missing] at present
      contradiction

theorem sample_eq_drawOutOfRange_iff {root : Node Item} {asked total : UInt64}
    (present : tree.nodes[tree.root]? = some root) :
    tree.sample draw = .error (.drawOutOfRange asked total) ↔
      asked = draw ∧ total = root.weight ∧ root.weight ≤ draw := by
  rcases tree.sample_cases draw with
    ⟨missing, _⟩ | ⟨found, there, beyond, same⟩ | ⟨found, there, inside, borneOut⟩
  · rw [missing] at present
    contradiction
  · obtain rfl := Option.some.inj (present.symm.trans there)
    rw [same]
    simp [beyond, eq_comm]
  · obtain rfl := Option.some.inj (present.symm.trans there)
    constructor
    · intro sampled
      rw [sampled] at borneOut
      cases borneOut
    · rintro ⟨_, _, beyond⟩
      exact absurd beyond (UInt64.not_le.mpr inside)

theorem borneOut_of_sample {answer : Except TreeError Item} (sampled : tree.sample draw = answer)
    (rooted : answer ≠ .error (.danglingNode tree.root))
    (ranged : ∀ asked total, answer ≠ .error (.drawOutOfRange asked total)) :
    BorneOut tree.nodes tree.root answer := by
  rcases tree.sample_cases draw with ⟨_, same⟩ | ⟨_, _, _, same⟩ | ⟨_, _, _, borneOut⟩
  · exact absurd (sampled.symm.trans same) rooted
  · exact absurd (sampled.symm.trans same) (ranged _ _)
  · rwa [sampled] at borneOut

/-- Whatever the arena is like, its answers are true of it. -/
theorem sample_truthful (tree : WeightTree Item) (draw : UInt64) : tree.Truthful draw := by
  have cycle : ∀ steps, tree.sample draw = .error (.cycle steps) → steps = tree.nodes.size ∧
      ∃ place, ReflTransGen (Links tree.nodes) tree.root place ∧
        TransGen (Links tree.nodes) place place := by
    intro steps sampled
    cases borneOut_of_sample sampled (by simp) (by simp) with
    | cycle reached circle => exact ⟨rfl, _, reached, circle⟩
  refine ⟨unwrapped_of_lt, sample_eq_dangling_root_iff,
    fun _ present _ _ => sample_eq_drawOutOfRange_iff present, ?_, ?_, cycle, ?_, ?_⟩
  · intro item sampled
    cases borneOut_of_sample sampled (by simp) (by simp) with
    | item reached leaf => exact ⟨_, _, reached, leaf⟩
  · intro rooted child sampled
    have elsewhere : child ≠ tree.root := by
      rintro rfl
      exact Nat.not_le.mpr rooted (sample_eq_dangling_root_iff.mp sampled)
    cases borneOut_of_sample sampled (by simpa using elsewhere) (by simp) with
    | dangling reached linked missing =>
        exact ⟨Array.getElem?_eq_none_iff.mp missing, _, reached, linked⟩
  · intro node weight children sampled
    cases borneOut_of_sample sampled (by simp) (by simp)
  · intro acyclic steps sampled
    obtain ⟨_, place, reached, circle⟩ := cycle steps sampled
    exact acyclic place reached circle

/-- Every node is a branch on the way down, and the last of them names a node that is not there. -/
def overhanging : WeightTree String where
  nodes := #[.branch 5 7 none, .branch 1 0 (some 0), .branch 4 1 none]
  root := 2
  leafCount := 0

def overhang (index : Nat) : Nat :=
  if index < 3 then index + 1 else 0

theorem acyclicFrom_overhanging : AcyclicFrom overhanging.nodes 2 := by
  have lower : ∀ index < 3, ∀ node ∈ overhanging.nodes[index]?, ∀ child ∈ node.children,
      overhang child < overhang index := by decide
  refine acyclicFrom_of_height_lt overhang fun index _ child linked => ?_
  have inside : index < 3 := linked.lt_size
  obtain ⟨node, present, named⟩ := linked
  exact lower index inside node present child named

/-- All the visits are needed to find that out. -/
theorem sample_truthful_overhanging :
    AcyclicFrom overhanging.nodes 2 ∧ overhanging.sample 3 = .error (.danglingNode 7) ∧
      overhanging.descend 3 2 4 = .error (.cycle 3) ∧
      ∀ draw steps, overhanging.sample draw ≠ .error (.cycle steps) := by
  refine ⟨acyclicFrom_overhanging, by decide, by decide, ?_⟩
  exact fun draw => (sample_truthful overhanging draw).acyclic acyclicFrom_overhanging

end WeightTree

end LatencyBalancer
