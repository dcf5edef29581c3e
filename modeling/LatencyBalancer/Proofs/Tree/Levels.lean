import LatencyBalancer.Proofs.Tree.Layout
import LatencyBalancer.Proofs.Tree.Outcome
import LatencyBalancer.Proofs.Tree.Truthfulness

/-!
# The levels of an assembled tree

Numbered from the back of the queue, the nodes of an assembled tree stand like those of a binary
heap: the root is number one, and the number of a parent is half that of a child.  So as many
branches stand above a node as its number can be halved.  The leaves fill two neighbouring levels
at most, whatever they weigh, and no descent of a draw is longer than that of the deepest leaf.
-/

namespace LatencyBalancer

universe u

variable {Item : Type u}

/-- A path of links from the top down to a node, by the branches that it goes through. -/
inductive Lineage (nodes : Array (Node Item)) (top : Nat) : List Nat → Nat → Prop where
  | top : Lineage nodes top [] top
  | child {branches : List Nat} {parent child : Nat} :
      Lineage nodes top branches parent →
      Links nodes parent child →
      Lineage nodes top (branches ++ [parent]) child

theorem Lineage.exists_of_leads {nodes : Array (Node Item)} {top index position : Nat}
    {above trail : List Nat} {item : Item} (lineage : Lineage nodes top above index)
    (leads : Leads nodes index position trail item) :
    ∃ branches leaf weight, above ++ trail = branches ++ [leaf] ∧
      nodes[leaf]? = some (.leaf weight item) ∧ Lineage nodes top branches leaf := by
  induction leads generalizing above with
  | leaf present => exact ⟨above, _, _, rfl, present, lineage⟩
  | single present _ inductionHypothesis | left present _ _ _ inductionHypothesis
  | right present _ _ _ inductionHypothesis =>
      rw [List.append_cons]
      apply inductionHypothesis
      exact lineage.child ⟨_, present, by simp [Node.children]⟩

namespace WeightTree

variable {items : List (Item × UInt32)} {tree : WeightTree Item}

/-! ### Heap numbers -/

/-- The number of a node in the heap, counted from the place at the back. -/
def heapNumber (count index : Nat) : Nat :=
  2 * slots count - 1 - placeOf count index

theorem heapNumber_parentOf {count index : Nat}
    (below : index + 1 < count + (slots count - 1)) :
    2 ≤ heapNumber count index ∧
      heapNumber count (parentOf count index) = heapNumber count index / 2 := by
  have low : placeOf count index + 2 < 2 * slots count := by
    unfold placeOf slots at *
    split_ifs <;> omega
  rw [heapNumber, heapNumber, parentOf, placeOf_branch]
  omega

theorem heapNumber_root (laidOut : tree.LaidOut items) :
    heapNumber items.length tree.root = 1 := by
  have last := laidOut.root_add_one
  unfold heapNumber placeOf slots at *
  split_ifs <;> omega

/-- How many branches are above a leaf.  The leaves that are turned to the back in the assembly
are one level deeper than the others. -/
def level (count index : Nat) : Nat :=
  if index < turn (slots count) then Nat.clog 2 (slots count) else Nat.clog 2 (slots count) - 1

theorem log_heapNumber {count index : Nat} (inside : index < count) :
    Nat.log 2 (heapNumber count index) = level count index := by
  have number : heapNumber count index = 2 * slots count - 1 - index := by
    rw [heapNumber, placeOf, if_pos (.inr inside)]
  have room : index < slots count := Nat.lt_of_lt_of_le inside (Nat.le_add_right _ _)
  have covers : slots count ≤ 2 ^ Nat.clog 2 (slots count) :=
    Nat.le_pow_clog Nat.one_lt_two _
  obtain ⟨height, same⟩ : ∃ height, Nat.clog 2 (slots count) = height + 1 := by
    apply Nat.exists_eq_add_one_of_ne_zero
    intro zero
    rw [zero] at covers
    unfold slots at covers
    omega
  have short : 2 ^ height < slots count := Nat.pow_lt_of_lt_clog (by omega)
  rw [same, Nat.pow_succ] at covers
  rw [number, level, turn, same, Nat.pow_succ]
  split
  next deep =>
    apply Nat.log_eq_of_pow_le_of_lt_pow
    · rw [Nat.pow_succ]
      omega
    · rw [Nat.pow_succ, Nat.pow_succ]
      omega
  next high =>
    rw [Nat.add_sub_cancel]
    apply Nat.log_eq_of_pow_le_of_lt_pow
    · omega
    · rw [Nat.pow_succ]
      omega

theorem level_le (count index : Nat) : level count index ≤ Nat.clog 2 (count + 1) := by
  have filled : Nat.clog 2 (slots count) ≤ Nat.clog 2 (count + 1) := by
    apply Nat.clog_mono_right
    unfold slots
    omega
  unfold level
  split <;> omega

/-! ### Paths -/

theorem length_eq_log (assembled : assemble items = some tree) {branches : List Nat} {index : Nat}
    (lineage : Lineage tree.nodes tree.root branches index) :
    branches.length = Nat.log 2 (heapNumber items.length index) := by
  have laidOut := laidOut_of_assemble assembled
  induction lineage with
  | top =>
      rw [heapNumber_root laidOut]
      rfl
  | @child _ _ child _ linked inductionHypothesis =>
      obtain ⟨below, rfl⟩ := (links_assemble assembled).mp linked
      have last := laidOut.root_add_one
      have inside : child + 1 < items.length + (slots items.length - 1) := by omega
      obtain ⟨large, half⟩ := heapNumber_parentOf inside
      rw [List.length_append, inductionHypothesis, half,
        Nat.log_of_one_lt_of_le Nat.one_lt_two large]
      rfl

theorem LaidOut.exists_lineage (laidOut : tree.LaidOut items) {index : Nat}
    (inside : index < tree.nodes.size) :
    ∃ branches, Lineage tree.nodes tree.root branches index := by
  induction laidOut.reached inside with
  | refl => exact ⟨[], .top⟩
  | tail _ linked inductionHypothesis =>
      obtain ⟨branches, lineage⟩ := inductionHypothesis linked.lt_size
      exact ⟨_, lineage.child linked⟩

/-- Nodes have one parent, so two paths to a node are the same. -/
theorem LaidOut.lineage_unique (laidOut : tree.LaidOut items) {branches others : List Nat}
    {index : Nat} (lineage : Lineage tree.nodes tree.root branches index)
    (other : Lineage tree.nodes tree.root others index) : others = branches := by
  induction lineage generalizing others with
  | top =>
      cases other with
      | top => rfl
      | child _ linked => exact absurd linked (laidOut.top _)
  | @child branches parent child _ linked inductionHypothesis =>
      cases other with
      | top => exact absurd linked (laidOut.top _)
      | child earlier again =>
          have inside : child < tree.nodes.size := (laidOut.before _ _ linked).trans linked.lt_size
          have below : child ≠ tree.root := by
            rintro rfl
            exact laidOut.top _ linked
          obtain rfl := (laidOut.parent child inside below).unique again linked
          rw [inductionHypothesis earlier]

/-! ### Samples -/

/-- No child is missing and no links make a circle, so every draw is answered. -/
theorem LaidOut.exists_sample (laidOut : tree.LaidOut items) {draw : UInt64}
    (inside : draw < tree.totalWeight) : ∃ item, tree.sample draw = .ok item := by
  have borneOut := borneOut_sample inside
  generalize tree.sample draw = answer at borneOut
  cases borneOut with
  | item => exact ⟨_, rfl⟩
  | dangling _ linked missing =>
      have present := (laidOut.before _ _ linked).trans linked.lt_size
      exact absurd present (Nat.not_lt.mpr (Array.getElem?_eq_none_iff.mp missing))
  | cycle reached circle =>
      have acyclic : AcyclicFrom tree.nodes tree.root :=
        acyclicFrom_of_height_lt id fun index _ child linked => laidOut.before index child linked
      exact absurd circle (acyclic _ reached)

theorem LaidOut.exists_leads (laidOut : tree.LaidOut items) {draw : UInt64}
    (inside : draw < tree.totalWeight) :
    ∃ (index : Nat) (listed : index < items.length) (branches : List Nat),
      tree.sample draw = .ok items[index].1 ∧ Lineage tree.nodes tree.root branches index ∧
        Leads tree.nodes tree.root (draw + 1).toNat (branches ++ [index]) items[index].1 := by
  obtain ⟨item, sampled⟩ := laidOut.exists_sample inside
  have descended := (sample_eq_descend inside).1.symm.trans sampled
  obtain ⟨trail, leads, _⟩ := descend_eq_ok_iff.mp descended
  obtain ⟨branches, index, weight, rfl, leaf, lineage⟩ := Lineage.top.exists_of_leads leads
  rcases laidOut.node_cases leaf with ⟨listed, _, same⟩ | ⟨_, _, _, same⟩
  · obtain ⟨_, rfl⟩ := Node.leaf.inj same
    exact ⟨index, listed, branches, sampled, lineage, leads⟩
  · contradiction

theorem descend_eq_ok_iff_of_leads {index visits : Nat} {position : UInt64} {trail : List Nat}
    {item : Item} (leads : Leads tree.nodes index position.toNat trail item) :
    tree.descend visits index position = .ok item ↔ trail.length ≤ visits := by
  rw [descend_eq_ok_iff]
  constructor
  · rintro ⟨other, again, short⟩
    obtain ⟨rfl, _⟩ := again.unique leads
    exact short
  · intro enough
    exact ⟨trail, leads, enough⟩

/-- How deep the leaves are, and how many nodes are visited on the way down to them. -/
structure Levelled (items : List (Item × UInt32)) (tree : WeightTree Item) : Prop where
  path : ∀ index < items.length, ∃! branches, Lineage tree.nodes tree.root branches index
  level : ∀ index < items.length, ∀ branches, Lineage tree.nodes tree.root branches index →
    branches.length = level items.length index
  /-- A descent visits the branches of the path and its leaf, and needs no other visit. -/
  sampled : ∀ draw < tree.totalWeight, ∃ (index : Nat) (inside : index < items.length)
    (branches : List Nat), tree.sample draw = .ok items[index].1 ∧
      Lineage tree.nodes tree.root branches index ∧
      Leads tree.nodes tree.root (draw.toNat + 1) (branches ++ [index]) items[index].1 ∧
      (∀ visits, tree.descend visits tree.root (draw + 1) = .ok items[index].1 ↔
        branches.length < visits) ∧
      branches.length ≤ Nat.clog 2 (items.length + 1)

theorem levelled_of_assemble (assembled : assemble items = some tree) : tree.Levelled items := by
  have laidOut := laidOut_of_assemble assembled
  have depth : ∀ index < items.length, ∀ branches, Lineage tree.nodes tree.root branches index →
      branches.length = level items.length index := by
    intro index inside branches lineage
    rw [length_eq_log assembled lineage, log_heapNumber inside]
  refine ⟨?_, depth, ?_⟩
  · intro index inside
    have below : index < tree.nodes.size := by
      rw [laidOut.size]
      omega
    obtain ⟨branches, lineage⟩ := laidOut.exists_lineage below
    exact ⟨branches, lineage, fun others other => laidOut.lineage_unique lineage other⟩
  · intro draw low
    obtain ⟨index, inside, branches, sampled, lineage, leads⟩ := laidOut.exists_leads low
    refine ⟨index, inside, branches, sampled, lineage, ?_, ?_, ?_⟩
    · rw [← (sample_eq_descend low).2]
      exact leads
    · intro visits
      rw [descend_eq_ok_iff_of_leads leads, List.length_append, List.length_singleton,
        Nat.succ_le_iff]
    · rw [depth index inside branches lineage]
      exact level_le items.length index

/-- Every list of items is assembled into a tree with its leaves on two levels at most. -/
theorem assemble_levelled (nonempty : items ≠ []) :
    ∃ tree, assemble items = some tree ∧ tree.Levelled items := by
  obtain ⟨tree, assembled, _⟩ := exists_assemble nonempty
  exact ⟨tree, assembled, levelled_of_assemble assembled⟩

def quintet : List (String × UInt32) :=
  [("a", 3), ("b", 0), ("c", 2), ("d", 1), ("e", 2)]

/-- The last of five items is an only child, one level above the others. -/
theorem assemble_levelled_quintet :
    quintet ≠ [] ∧ ∃ tree, assemble quintet = some tree ∧ tree.Levelled quintet ∧
      (∀ branches, Lineage tree.nodes tree.root branches 3 → branches.length = 3) ∧
      ∀ branches, Lineage tree.nodes tree.root branches 4 → branches.length = 2 := by
  have nonempty : quintet ≠ [] := by simp [quintet]
  obtain ⟨tree, assembled, levelled⟩ := assemble_levelled nonempty
  have deep : level quintet.length 3 = 3 := by decide
  have high : level quintet.length 4 = 2 := by decide
  refine ⟨nonempty, tree, assembled, levelled, ?_, ?_⟩
  · intro branches lineage
    exact (levelled.level 3 (by decide) branches lineage).trans deep
  · intro branches lineage
    exact (levelled.level 4 (by decide) branches lineage).trans high

end WeightTree

end LatencyBalancer
