import LatencyBalancer.Proofs.Tree.Checking
import LatencyBalancer.Proofs.Tree.Descent
import Mathlib.Data.Fintype.Card
import Mathlib.Order.WellFounded

/-!
# Arenas that pass their check

Nodes of an arena may be shared, out of reach, without weight or below themselves.  If the arena
passes its check and no two children weigh more together than a word holds, then a descent that
comes back to a node comes back to it with the same position, because no weight is lost on the way
round.  So it goes on for ever, and a descent that ends is no longer than the arena is large.  Where
no branch is below itself, the draws list the arena unfolded from its root.
-/

namespace LatencyBalancer

universe u

variable {Item : Type u}

namespace WeightTree

def SumsFit (nodes : Array (Node Item)) : Prop :=
  ∀ weight left right first second, .branch weight left (some right) ∈ nodes →
    nodes[left]? = some first → nodes[right]? = some second →
    first.weight.toNat + second.weight.toNat < UInt64.size

theorem sumsFit_of_weight_le {nodes : Array (Node Item)}
    (light : ∀ node ∈ nodes, 2 * node.weight.toNat < UInt64.size) : SumsFit nodes := by
  intro weight left right first second _ leftFound rightFound
  have firstLight := light first (Array.mem_of_getElem? leftFound)
  have secondLight := light second (Array.mem_of_getElem? rightFound)
  omega

theorem SumsFit.toNat_add {nodes : Array (Node Item)} (fits : SumsFit nodes)
    {index left right : Nat} {weight : UInt64} {first second : Node Item}
    (present : nodes[index]? = some (.branch weight left (some right)))
    (leftPresent : nodes[left]? = some first) (rightPresent : nodes[right]? = some second) :
    (first.weight + second.weight).toNat = first.weight.toNat + second.weight.toNat := by
  rw [UInt64.toNat_add]
  apply Nat.mod_eq_of_lt
  exact fits weight left right first second (Array.mem_of_getElem? present) leftPresent
    rightPresent

/-- Every branch weighs exactly what its children weigh. -/
structure Exact (nodes : Array (Node Item)) : Prop where
  single : ∀ {index left : Nat} {weight : UInt64}, nodes[index]? = some (.branch weight left none) →
    ∃ child, nodes[left]? = some child ∧ child.weight.toNat = weight.toNat
  double : ∀ {index left right : Nat} {weight : UInt64},
    nodes[index]? = some (.branch weight left (some right)) →
    ∃ first second, nodes[left]? = some first ∧ nodes[right]? = some second ∧
      first.weight.toNat + second.weight.toNat = weight.toNat

theorem Balanced.exact {nodes : Array (Node Item)} (balanced : Balanced nodes)
    (fits : SumsFit nodes) : Exact nodes := by
  constructor
  · intro index left weight present
    obtain ⟨child, found, same⟩ := balanced _ (Array.mem_of_getElem? present)
    exact ⟨child, found, congrArg UInt64.toNat same⟩
  · intro index left right weight present
    obtain ⟨first, second, leftFound, rightFound, same⟩ :=
      balanced _ (Array.mem_of_getElem? present)
    refine ⟨first, second, leftFound, rightFound, ?_⟩
    rw [← same, fits.toNat_add present leftFound rightFound]

end WeightTree

open WeightTree (Exact)

namespace Leads

variable {nodes : Array (Node Item)} {index position : Nat} {trail : List Nat} {item : Item}
  {node : Node Item}

/-- The first step of a trail.  No weight is gained in it, a position within the weight stays within
it, and the position stays as it is if no weight is lost. -/
theorem exists_next (exact : Exact nodes) (leads : Leads nodes index position trail item)
    (present : nodes[index]? = some node) :
    (trail = [index] ∧ ∃ weight, node = .leaf weight item) ∨
      ∃ next rest later child, trail = index :: later ∧ Leads nodes next rest later item ∧
        nodes[next]? = some child ∧ child.weight.toNat ≤ node.weight.toNat ∧
        (child.weight.toNat = node.weight.toNat → rest = position) ∧
        (0 < position ∧ position ≤ node.weight.toNat → 0 < rest ∧ rest ≤ child.weight.toNat) := by
  cases leads with
  | leaf found =>
      obtain rfl := Option.some.inj (found.symm.trans present)
      exact .inl ⟨rfl, _, rfl⟩
  | single found onward =>
      obtain rfl := Option.some.inj (found.symm.trans present)
      obtain ⟨child, there, same⟩ := exact.single found
      simp only [Node.weight_branch, ← same]
      exact .inr ⟨_, _, _, child, rfl, onward, there, Nat.le_refl _, fun _ => rfl, id⟩
  | left found leftFound inside onward =>
      obtain rfl := Option.some.inj (found.symm.trans present)
      obtain ⟨child, second, there, _, sum⟩ := exact.double found
      obtain rfl := Option.some.inj (leftFound.symm.trans there)
      simp only [Node.weight_branch, ← sum]
      exact .inr ⟨_, _, _, _, rfl, onward, there, Nat.le_add_right _ _, fun _ => rfl,
        fun within => ⟨within.1, inside⟩⟩
  | right found leftFound beyond onward =>
      obtain rfl := Option.some.inj (found.symm.trans present)
      obtain ⟨first, child, other, there, sum⟩ := exact.double found
      obtain rfl := Option.some.inj (leftFound.symm.trans other)
      simp only [Node.weight_branch, ← sum]
      exact .inr ⟨_, _, _, child, rfl, onward, there, by omega, by omega, by omega⟩

theorem exists_leaf (exact : Exact nodes) (leads : Leads nodes index position trail item)
    (present : nodes[index]? = some node)
    (within : 0 < position ∧ position ≤ node.weight.toNat) :
    ∃ (place : Nat) (weight : UInt64), nodes[place]? = some (.leaf weight item) ∧ 1 ≤ weight := by
  induction trail generalizing index position node with
  | nil => simpa using leads.exists_cons
  | cons _ trail inductionHypothesis =>
      rcases leads.exists_next exact present with
        ⟨_, weight, rfl⟩ | ⟨next, rest, later, child, same, onward, there, _, _, inside⟩
      · exact ⟨index, weight, present, UInt64.le_iff_toNat_le.mpr (within.1.trans_le within.2)⟩
      · obtain ⟨_, rfl⟩ := List.cons.inj same
        exact inductionHypothesis onward there (inside within)

theorem exists_later (exact : Exact nodes) (leads : Leads nodes index position trail item)
    (present : nodes[index]? = some node) {place : Nat} (visited : place ∈ trail) :
    ∃ rest later found, Leads nodes place rest later item ∧ later.length ≤ trail.length ∧
      nodes[place]? = some found ∧ found.weight.toNat ≤ node.weight.toNat ∧
      (found.weight.toNat = node.weight.toNat → rest = position) := by
  induction trail generalizing index position node with
  | nil => contradiction
  | cons _ trail inductionHypothesis =>
      obtain ⟨_, same⟩ := leads.exists_cons
      obtain ⟨rfl, _⟩ := List.cons.inj same
      rcases List.mem_cons.mp visited with rfl | below
      · exact ⟨position, _, node, leads, Nat.le_refl _, present, Nat.le_refl _, fun _ => rfl⟩
      rcases leads.exists_next exact present with
        ⟨alone, _⟩ | ⟨next, rest, later, child, same, onward, there, light, kept, _⟩
      · obtain ⟨_, rfl⟩ := List.cons.inj alone
        contradiction
      · obtain ⟨_, rfl⟩ := List.cons.inj same
        obtain ⟨last, behind, found, leadsOn, short, reached, lighter, stays⟩ :=
          inductionHypothesis onward there below
        refine ⟨last, behind, found, leadsOn, Nat.le_succ_of_le short, reached,
          lighter.trans light, fun equal => ?_⟩
        rw [stays (by omega), kept (by omega)]

/-- A descent that ends comes back to no node, since it would come back with the same position. -/
theorem nodup (exact : Exact nodes) (leads : Leads nodes index position trail item)
    (present : nodes[index]? = some node) : trail.Nodup := by
  induction trail generalizing index position node with
  | nil => exact List.nodup_nil
  | cons _ trail inductionHypothesis =>
      rcases leads.exists_next exact present with
        ⟨alone, _⟩ | ⟨next, rest, later, child, same, onward, there, light, kept, _⟩
      · rw [alone]
        exact List.nodup_singleton _
      · obtain ⟨rfl, rfl⟩ := List.cons.inj same
        refine List.nodup_cons.mpr ⟨fun again => ?_, inductionHypothesis onward there⟩
        obtain ⟨last, behind, found, leadsOn, short, reached, lighter, stays⟩ :=
          onward.exists_later exact there again
        obtain rfl := Option.some.inj (present.symm.trans reached)
        rw [stays (by omega), kept (by omega)] at leadsOn
        obtain ⟨rfl, _⟩ := leads.unique leadsOn
        simp at short

theorem length_le_size (exact : Exact nodes) (leads : Leads nodes index position trail item)
    (present : nodes[index]? = some node) : trail.length ≤ nodes.size := by
  have inside : trail ⊆ List.range nodes.size := fun place visited =>
    List.mem_range.mpr (leads.lt_size place visited)
  simpa using ((leads.nodup exact present).subperm inside).length_le

end Leads

/-! ### Unfolding -/

/-- The items under a node from left to right, each as often as its leaf weighs; what several
branches share is repeated. -/
inductive Unfolds (nodes : Array (Node Item)) : Nat → List Item → Prop where
  | leaf {index : Nat} {weight : UInt64} {item : Item} :
      nodes[index]? = some (.leaf weight item) →
      Unfolds nodes index (List.replicate weight.toNat item)
  | single {index left : Nat} {weight : UInt64} {items : List Item} :
      nodes[index]? = some (.branch weight left none) →
      Unfolds nodes left items →
      Unfolds nodes index items
  | double {index left right : Nat} {weight : UInt64} {first second : List Item} :
      nodes[index]? = some (.branch weight left (some right)) →
      Unfolds nodes left first →
      Unfolds nodes right second →
      Unfolds nodes index (first ++ second)

namespace Unfolds

variable {nodes : Array (Node Item)} {index : Nat} {items : List Item} {node : Node Item}

theorem length_eq (exact : Exact nodes) (unfolds : Unfolds nodes index items)
    (present : nodes[index]? = some node) : items.length = node.weight.toNat := by
  induction unfolds generalizing node with
  | leaf found =>
      obtain rfl := Option.some.inj (found.symm.trans present)
      exact List.length_replicate
  | single found _ inductionHypothesis =>
      obtain rfl := Option.some.inj (found.symm.trans present)
      obtain ⟨child, there, same⟩ := exact.single found
      exact (inductionHypothesis there).trans same
  | double found _ _ leftHypothesis rightHypothesis =>
      obtain rfl := Option.some.inj (found.symm.trans present)
      obtain ⟨first, second, leftThere, rightThere, sum⟩ := exact.double found
      rw [List.length_append, leftHypothesis leftThere, rightHypothesis rightThere]
      exact sum

/-- A position leads to the item that stands at it in the unfolding. -/
theorem exists_leads (exact : Exact nodes) (unfolds : Unfolds nodes index items) {place : Nat}
    (inside : place < items.length) :
    ∃ trail, Leads nodes index (place + 1) trail items[place] := by
  induction unfolds generalizing place with
  | leaf found =>
      rw [List.getElem_replicate]
      exact ⟨_, .leaf found⟩
  | single found _ inductionHypothesis =>
      obtain ⟨trail, leads⟩ := inductionHypothesis inside
      exact ⟨_, .single found leads⟩
  | @double _ _ _ _ first second found leftUnfolds _ leftHypothesis rightHypothesis =>
      obtain ⟨child, _, leftThere, _, _⟩ := exact.double found
      have length := leftUnfolds.length_eq exact leftThere
      by_cases left : place < first.length
      · rw [List.getElem_append_left left]
        obtain ⟨trail, leads⟩ := leftHypothesis left
        exact ⟨_, .left found leftThere (by omega) leads⟩
      · have right : place - first.length < second.length := by
          rw [List.length_append] at inside
          omega
        rw [List.getElem_append_right (Nat.not_lt.mp left)]
        obtain ⟨trail, leads⟩ := rightHypothesis right
        have rest : place + 1 - child.weight.toNat = place - first.length + 1 := by omega
        rw [← rest] at leads
        exact ⟨_, .right found leftThere (by omega) leads⟩

/-- Below a node that no descent leaves in a circle, everything unfolds. -/
theorem exists_of_acyclicFrom (exact : Exact nodes) (inside : index < nodes.size)
    (acyclic : AcyclicFrom nodes index) : ∃ items, Unfolds nodes index items := by
  let Below := { place : Fin nodes.size // Relation.ReflTransGen (Links nodes) index place }
  let under (lower upper : Below) : Prop := Relation.TransGen (Links nodes) upper.1 lower.1
  have transitive : IsTrans Below under := ⟨fun _ _ _ first second => second.trans first⟩
  have irreflexive : Std.Irrefl under := ⟨fun place => acyclic place.1 place.2⟩
  have founded : WellFounded under := Finite.wellFounded_of_trans_of_irrefl under
  suffices all : ∀ place : Below, ∃ items, Unfolds nodes place.1 items from
    all ⟨⟨index, inside⟩, .refl⟩
  intro place
  induction place using founded.induction with
  | h place inductionHypothesis =>
      have below : ∀ {child : Nat} {found : Node Item}, Links nodes place.1 child →
          nodes[child]? = some found → ∃ items, Unfolds nodes child items := by
        intro child found linked present
        have bounded := (Array.getElem?_eq_some_iff.mp present).1
        exact inductionHypothesis ⟨⟨child, bounded⟩, place.2.tail linked⟩ (.single linked)
      have present : nodes[place.1.1]? = some nodes[place.1] := by simp
      match found : nodes[place.1] with
      | .leaf weight item => exact ⟨_, .leaf (present.trans (congrArg some found))⟩
      | .branch weight left none =>
          rw [found] at present
          obtain ⟨child, there, _⟩ := exact.single present
          obtain ⟨items, unfolds⟩ := below ⟨_, present, by simp [Node.children]⟩ there
          exact ⟨items, .single present unfolds⟩
      | .branch weight left (some right) =>
          rw [found] at present
          obtain ⟨_, _, leftThere, rightThere, _⟩ := exact.double present
          obtain ⟨first, leftUnfolds⟩ := below ⟨_, present, by simp [Node.children]⟩ leftThere
          obtain ⟨second, rightUnfolds⟩ := below ⟨_, present, by simp [Node.children]⟩ rightThere
          exact ⟨first ++ second, .double present leftUnfolds rightUnfolds⟩

end Unfolds

namespace WeightTree

variable {tree : WeightTree Item}

/-- Where every child is present a descent ends at a leaf or is cut off. -/
theorem descend_eq_ok_or_cycle (exact : Exact tree.nodes) {index visits : Nat} {position : UInt64}
    {node : Node Item} (present : tree.nodes[index]? = some node) :
    (∃ item, tree.descend visits index position = .ok item) ∨
      tree.descend visits index position = .error (.cycle tree.nodes.size) := by
  induction visits generalizing index position node with
  | zero => exact .inr rfl
  | succ visits inductionHypothesis =>
      match node with
      | .leaf weight item =>
          simp only [descend, step_leaf present]
          exact .inl ⟨item, rfl⟩
      | .branch weight left none =>
          obtain ⟨child, there, _⟩ := exact.single present
          simp only [descend, step_single present]
          exact inductionHypothesis there
      | .branch weight left (some right) =>
          obtain ⟨first, second, leftThere, rightThere, _⟩ := exact.double present
          simp only [descend, step_double present leftThere]
          by_cases within : position ≤ first.weight
          · simp only [within, if_true]
            exact inductionHypothesis leftThere
          · simp only [within, if_false]
            exact inductionHypothesis rightThere

/-- The bound on a sample cuts off no descent that would end. -/
theorem sample_eq_ok_iff (exact : Exact tree.nodes) {draw : UInt64}
    (inside : draw < tree.totalWeight) {item : Item} :
    tree.sample draw = .ok item ↔
      ∃ trail, Leads tree.nodes tree.root (draw.toNat + 1) trail item := by
  obtain ⟨same, position⟩ := sample_eq_descend inside
  rw [same, descend_eq_ok_iff, position]
  constructor
  · rintro ⟨trail, leads, _⟩
    exact ⟨trail, leads⟩
  · rintro ⟨trail, leads⟩
    obtain ⟨root, present, _⟩ := exists_root_of_lt inside
    exact ⟨trail, leads, Nat.le_succ_of_le (leads.length_le_size exact present)⟩

/-- What an arena that passes its check answers to the draws below its weight. -/
structure SampledExactly (tree : WeightTree Item) : Prop where
  answered : ∀ draw < tree.totalWeight,
    (∃ item, tree.sample draw = .ok item ∧ ∃ (index : Nat) (weight : UInt64),
      tree.nodes[index]? = some (.leaf weight item) ∧ 1 ≤ weight) ∨
    tree.sample draw = .error (.cycle tree.nodes.size)
  reached : ∀ draw < tree.totalWeight, ∀ item, tree.sample draw = .ok item ↔
    ∃ trail, Leads tree.nodes tree.root (draw.toNat + 1) trail item
  /-- Only a descent that never reaches a leaf is cut off. -/
  endless : ∀ draw < tree.totalWeight, tree.sample draw = .error (.cycle tree.nodes.size) ↔
    ¬ ∃ trail item, Leads tree.nodes tree.root (draw.toNat + 1) trail item
  unfolded : AcyclicFrom tree.nodes tree.root → ∃ items, Unfolds tree.nodes tree.root items ∧
    (List.range tree.totalWeight.toNat).map (fun draw => tree.sample (UInt64.ofNat draw)) =
      items.map Except.ok

theorem map_sample_of_unfolds (exact : Exact tree.nodes) (inside : tree.root < tree.nodes.size)
    {items : List Item} (unfolds : Unfolds tree.nodes tree.root items) :
    (List.range tree.totalWeight.toNat).map (fun draw => tree.sample (UInt64.ofNat draw)) =
      items.map Except.ok := by
  have present := Array.getElem?_eq_getElem inside
  have total : tree.totalWeight = tree.nodes[tree.root].weight := by
    simp [totalWeight, node?, present]
  have length : items.length = tree.totalWeight.toNat := by
    rw [total]
    exact unfolds.length_eq exact present
  refine List.ext_getElem (by simp [length]) fun draw below bounded => ?_
  rw [List.getElem_map, List.getElem_map, List.getElem_range]
  rw [List.length_map] at bounded
  have same : (UInt64.ofNat draw).toNat = draw :=
    UInt64.toNat_ofNat_of_lt' (lt_trans (length ▸ bounded) tree.totalWeight.toNat_lt)
  have low : UInt64.ofNat draw < tree.totalWeight := by
    rw [UInt64.lt_iff_toNat_lt, same, ← length]
    exact bounded
  rw [sample_eq_ok_iff exact low, same]
  exact unfolds.exists_leads exact bounded

/-- Passing the check is enough for exact sampling, whatever the arena looks like. -/
theorem sampledExactly_of_faultless (faultless : tree.fault? = none)
    (fits : SumsFit tree.nodes) : tree.SampledExactly := by
  obtain ⟨inside, balanced⟩ := fault?_eq_none_iff.mp faultless
  have exact := balanced.exact fits
  have ends : ∀ draw < tree.totalWeight,
      (∃ item, tree.sample draw = .ok item) ∨
        tree.sample draw = .error (.cycle tree.nodes.size) := by
    intro draw below
    rw [(sample_eq_descend below).1]
    exact descend_eq_ok_or_cycle exact (Array.getElem?_eq_getElem inside)
  refine ⟨?_, fun draw below item => sample_eq_ok_iff exact below, ?_, ?_⟩
  · intro draw below
    rcases ends draw below with ⟨item, sampled⟩ | cut
    · obtain ⟨trail, leads⟩ := (sample_eq_ok_iff exact below).mp sampled
      obtain ⟨root, present, total⟩ := exists_root_of_lt below
      rw [total] at below
      have within := UInt64.lt_iff_toNat_lt.mp below
      exact .inl ⟨item, sampled, leads.exists_leaf exact present ⟨Nat.succ_pos _, within⟩⟩
    · exact .inr cut
  · intro draw below
    constructor
    · rintro cut ⟨trail, item, leads⟩
      rw [(sample_eq_ok_iff exact below).mpr ⟨trail, leads⟩] at cut
      contradiction
    · intro endless
      rcases ends draw below with ⟨item, sampled⟩ | cut
      · obtain ⟨trail, leads⟩ := (sample_eq_ok_iff exact below).mp sampled
        exact absurd ⟨trail, item, leads⟩ endless
      · exact cut
  · intro acyclic
    obtain ⟨items, unfolds⟩ := Unfolds.exists_of_acyclicFrom exact inside acyclic
    exact ⟨items, unfolds, map_sample_of_unfolds exact inside unfolds⟩

/-- One leaf is shared, one has no weight, and the branch at the end of the right side is below
itself. -/
def entangled : WeightTree String where
  nodes := #[.leaf 2 "a", .leaf 0 "b", .branch 2 0 (some 1), .branch 4 2 (some 2),
    .branch 3 4 (some 1), .branch 7 3 (some 4)]
  root := 5
  leafCount := 2

theorem sumsFit_entangled : SumsFit entangled.nodes :=
  sumsFit_of_weight_le (by decide)

/-- The draws on the left side are answered, and those on the right side are not. -/
theorem sampledExactly_entangled :
    entangled.SampledExactly ∧ entangled.sample 3 = .ok "a" ∧
      entangled.sample 4 = .error (.cycle 6) ∧
      { entangled with root := 3 }.SampledExactly ∧ AcyclicFrom entangled.nodes 3 ∧
      Unfolds entangled.nodes 3 ["a", "a", "a", "a"] := by
  refine ⟨sampledExactly_of_faultless (by decide) sumsFit_entangled, by decide, by decide,
    sampledExactly_of_faultless (by decide) sumsFit_entangled, ?_, ?_⟩
  · apply acyclicFrom_of_lt
    decide
  · have whole : Unfolds entangled.nodes 0 ["a", "a"] :=
      .leaf (show entangled.nodes[0]? = some (.leaf 2 "a") from rfl)
    have nothing : Unfolds entangled.nodes 1 [] :=
      .leaf (show entangled.nodes[1]? = some (.leaf 0 "b") from rfl)
    have shared : Unfolds entangled.nodes 2 (["a", "a"] ++ []) := .double rfl whole nothing
    exact .double rfl shared shared

end WeightTree

end LatencyBalancer
