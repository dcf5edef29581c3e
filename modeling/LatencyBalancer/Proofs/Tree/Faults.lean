import LatencyBalancer.Proofs.Tree.Layout
import LatencyBalancer.Proofs.Tree.Outcome

/-!
# What the check finds

The check of a tree walks through the array and stops at the first branch that misses a child or
does not weigh what its children weigh together.  In an assembled tree every node but the root is
the child of one later branch, and a leaf is never the root.  So no single weight can be exchanged
for another one without the check naming the branch that bears it out.
-/

namespace LatencyBalancer

universe u

variable {Item : Type u}

theorem findSome?_zipIdx_eq_some_iff {Entry Found : Type*} {entries : List Entry}
    {find : Entry × Nat → Option Found} {found : Found} :
    entries.zipIdx.findSome? find = some found ↔
      ∃ index entry, entries[index]? = some entry ∧ find (entry, index) = some found ∧
        ∀ earlier < index, ∀ other, entries[earlier]? = some other →
          find (other, earlier) = none := by
  have numbered : ∀ {index : Nat} {entry : Entry}, entries.zipIdx[index]? = some (entry, index) ↔
      entries[index]? = some entry := by
    intro index entry
    simp [List.getElem?_zipIdx]
  rw [List.findSome?_eq_some_iff]
  constructor
  · rintro ⟨before, ⟨entry, index⟩, after, split, hit, missed⟩
    have place : entries.zipIdx[before.length]? = some (entry, index) := by
      rw [split, List.getElem?_append_right (Nat.le_refl _), Nat.sub_self]
      rfl
    obtain rfl : before.length = index := by
      rw [List.getElem?_zipIdx, Option.map_eq_some_iff] at place
      obtain ⟨_, _, same⟩ := place
      simpa using congrArg Prod.snd same
    refine ⟨before.length, entry, numbered.mp place, hit, ?_⟩
    intro earlier below other present
    apply missed
    have listed := numbered.mpr present
    rw [split, List.getElem?_append_left below] at listed
    exact List.mem_of_getElem? listed
  · rintro ⟨index, entry, present, hit, missed⟩
    obtain ⟨inside, same⟩ := List.getElem?_eq_some_iff.mp (numbered.mpr present)
    refine ⟨entries.zipIdx.take index, (entry, index), entries.zipIdx.drop (index + 1), ?_, hit, ?_⟩
    · rw [← same, List.getElem_cons_drop, List.take_append_drop]
    · rintro ⟨other, earlier⟩ listed
      obtain ⟨place, below, same⟩ := List.mem_take_iff_getElem.mp listed
      rw [List.getElem_zipIdx, Prod.mk.injEq, Nat.zero_add] at same
      obtain ⟨rfl, rfl⟩ := same
      exact missed place (by omega) _ (List.getElem?_eq_getElem _)

namespace Node

def reweigh (weight : UInt64) : Node Item → Node Item
  | leaf _ item => leaf weight item
  | branch _ left right => branch weight left right

@[simp]
theorem weight_reweigh (weight : UInt64) (node : Node Item) :
    (node.reweigh weight).weight = weight := by
  cases node <;> rfl

end Node

/-- What is wrong with a branch, reckoned in whole numbers.  A missing left child comes before a
missing right one, and the weights are compared when no child is missing. -/
inductive FaultyBranch (nodes : Array (Node Item)) (index : Nat) : TreeError → Prop where
  | left {weight : UInt64} {left : Nat} {right : Option Nat} :
      nodes[index]? = some (.branch weight left right) →
      nodes.size ≤ left →
      FaultyBranch nodes index (.danglingNode left)
  | right {weight : UInt64} {left right : Nat} :
      nodes[index]? = some (.branch weight left (some right)) →
      left < nodes.size →
      nodes.size ≤ right →
      FaultyBranch nodes index (.danglingNode right)
  | single {weight : UInt64} {left : Nat} {child : Node Item} :
      nodes[index]? = some (.branch weight left none) →
      nodes[left]? = some child →
      child.weight.toNat ≠ weight.toNat →
      FaultyBranch nodes index (.weightMismatch index weight child.weight)
  | double {weight children : UInt64} {left right : Nat} {first second : Node Item} :
      nodes[index]? = some (.branch weight left (some right)) →
      nodes[left]? = some first →
      nodes[right]? = some second →
      children.toNat = first.weight.toNat + second.weight.toNat →
      children.toNat ≠ weight.toNat →
      FaultyBranch nodes index (.weightMismatch index weight children)

namespace WeightTree

variable {tree : WeightTree Item} {items : List (Item × UInt32)}

/-! ### The first fault -/

def faultAt? (tree : WeightTree Item) (index : Nat) : Option TreeError :=
  tree.nodes[index]?.bind (tree.branchFault? index)

theorem faultAt?_eq_none_iff {index : Nat} :
    tree.faultAt? index = none ↔
      ∀ node, tree.nodes[index]? = some node → tree.branchFault? index node = none := by
  rw [faultAt?, Option.bind_eq_none_iff]

theorem fault?_eq_some_iff (inside : tree.root < tree.nodes.size) {error : TreeError} :
    tree.fault? = some error ↔ ∃ index, tree.faultAt? index = some error ∧
      ∀ earlier < index, tree.faultAt? earlier = none := by
  have found : tree.lookup tree.root = .ok tree.nodes[tree.root] :=
    lookup_eq_ok_iff.mpr (Array.getElem?_eq_getElem inside)
  simp only [fault?, found, findSome?_zipIdx_eq_some_iff, Array.getElem?_toList,
    faultAt?_eq_none_iff]
  constructor
  · rintro ⟨index, node, present, faulty, faultless⟩
    exact ⟨index, by rw [faultAt?, present]; exact faulty, faultless⟩
  · rintro ⟨index, faulty, faultless⟩
    obtain ⟨node, present, same⟩ := Option.bind_eq_some_iff.mp faulty
    exact ⟨index, node, present, same, faultless⟩

section Branches

variable {index left : Nat} {weight : UInt64}

theorem faultAt?_missing_left {right : Option Nat}
    (present : tree.nodes[index]? = some (.branch weight left right))
    (missing : tree.nodes[left]? = none) :
    tree.faultAt? index = some (.danglingNode left) := by
  simp [faultAt?, branchFault?, childrenWeight, lookup, node?, present, missing]

theorem faultAt?_missing_right {right : Nat} {first : Node Item}
    (present : tree.nodes[index]? = some (.branch weight left (some right)))
    (leftPresent : tree.nodes[left]? = some first) (missing : tree.nodes[right]? = none) :
    tree.faultAt? index = some (.danglingNode right) := by
  simp [faultAt?, branchFault?, childrenWeight, lookup, node?, present, leftPresent, missing]

theorem faultAt?_single {child : Node Item}
    (present : tree.nodes[index]? = some (.branch weight left none))
    (leftPresent : tree.nodes[left]? = some child) :
    tree.faultAt? index =
      if child.weight = weight then none else some (.weightMismatch index weight child.weight) := by
  simp [faultAt?, branchFault?, childrenWeight, lookup, node?, present, leftPresent]

theorem faultAt?_double {right : Nat} {first second : Node Item}
    (present : tree.nodes[index]? = some (.branch weight left (some right)))
    (leftPresent : tree.nodes[left]? = some first)
    (rightPresent : tree.nodes[right]? = some second) :
    tree.faultAt? index =
      if first.weight + second.weight = weight then none
      else some (.weightMismatch index weight (first.weight + second.weight)) := by
  simp [faultAt?, branchFault?, childrenWeight, lookup, node?, present, leftPresent, rightPresent]

end Branches

theorem faultyBranch_of_faultAt? (fits : SumsFit tree.nodes) {index : Nat} {error : TreeError}
    (faulty : tree.faultAt? index = some error) : FaultyBranch tree.nodes index error := by
  match present : tree.nodes[index]? with
  | none => simp [faultAt?, present] at faulty
  | some (.leaf weight item) => simp [faultAt?, branchFault?, present] at faulty
  | some (.branch weight left right) =>
      cases leftPresent : tree.nodes[left]? with
      | none =>
          rw [faultAt?_missing_left present leftPresent] at faulty
          obtain rfl := Option.some.inj faulty
          exact .left present (Array.getElem?_eq_none_iff.mp leftPresent)
      | some first =>
          cases right with
          | none =>
              rw [faultAt?_single present leftPresent, Option.ite_none_left_eq_some,
                Option.some_inj] at faulty
              obtain ⟨other, rfl⟩ := faulty
              exact .single present leftPresent (mt UInt64.toNat_inj.mp other)
          | some right =>
              cases rightPresent : tree.nodes[right]? with
              | none =>
                  rw [faultAt?_missing_right present leftPresent rightPresent] at faulty
                  obtain rfl := Option.some.inj faulty
                  exact .right present (Array.getElem?_eq_some_iff.mp leftPresent).1
                    (Array.getElem?_eq_none_iff.mp rightPresent)
              | some second =>
                  rw [faultAt?_double present leftPresent rightPresent,
                    Option.ite_none_left_eq_some, Option.some_inj] at faulty
                  obtain ⟨other, rfl⟩ := faulty
                  exact .double present leftPresent rightPresent
                    (fits.toNat_add present leftPresent rightPresent)
                    (mt UInt64.toNat_inj.mp other)

/-- Where no sum of children overflows, machine words find the faults of whole numbers. -/
theorem faultAt?_eq_some_iff (fits : SumsFit tree.nodes) {index : Nat} {error : TreeError} :
    tree.faultAt? index = some error ↔ FaultyBranch tree.nodes index error := by
  refine ⟨faultyBranch_of_faultAt? fits, ?_⟩
  intro faulty
  cases faulty with
  | left present beyond =>
      exact faultAt?_missing_left present (Array.getElem?_eq_none_iff.mpr beyond)
  | right present inside beyond =>
      exact faultAt?_missing_right present (Array.getElem?_eq_getElem inside)
        (Array.getElem?_eq_none_iff.mpr beyond)
  | single present leftPresent other =>
      rw [faultAt?_single present leftPresent, if_neg (mt (congrArg UInt64.toNat) other)]
  | double present leftPresent rightPresent sum other =>
      rw [← fits.toNat_add present leftPresent rightPresent] at sum
      obtain rfl := UInt64.toNat_inj.mp sum
      rw [faultAt?_double present leftPresent rightPresent,
        if_neg (mt (congrArg UInt64.toNat) other)]

/-- What the check says of an arena whose sums fit. -/
structure Inspected (tree : WeightTree Item) : Prop where
  sound : tree.fault? = none ↔ tree.root < tree.nodes.size ∧ Exact tree.nodes
  rootless : tree.nodes.size ≤ tree.root → tree.fault? = some (.danglingNode tree.root)
  first : tree.root < tree.nodes.size → ∀ error, tree.fault? = some error ↔
    ∃ index, FaultyBranch tree.nodes index error ∧
      ∀ earlier < index, ∀ other, ¬ FaultyBranch tree.nodes earlier other

theorem Exact.balanced {nodes : Array (Node Item)} (exact : Exact nodes) : Balanced nodes := by
  intro node member
  obtain ⟨index, present⟩ := Array.mem_iff_getElem?.mp member
  match node with
  | .leaf _ _ => trivial
  | .branch weight left none =>
      obtain ⟨child, there, same⟩ := exact.single present
      exact ⟨child, there, UInt64.toNat_inj.mp same⟩
  | .branch weight left (some right) =>
      obtain ⟨first, second, leftThere, rightThere, sum⟩ := exact.double present
      refine ⟨first, second, leftThere, rightThere, UInt64.toNat_inj.mp ?_⟩
      rw [UInt64.toNat_add, sum]
      exact Nat.mod_eq_of_lt weight.toNat_lt

theorem inspected_of_sumsFit (fits : SumsFit tree.nodes) : tree.Inspected := by
  refine ⟨?_, ?_, ?_⟩
  · rw [fault?_eq_none_iff, and_congr_right_iff]
    intro _
    exact ⟨fun balanced => balanced.exact fits, Exact.balanced⟩
  · intro beyond
    have absent : tree.lookup tree.root = .error (.danglingNode tree.root) :=
      lookup_eq_error_iff.mpr ⟨Array.getElem?_eq_none_iff.mpr beyond, rfl⟩
    simp only [fault?, absent]
  · intro inside error
    simp only [fault?_eq_some_iff inside, ← faultAt?_eq_some_iff fits,
      Option.eq_none_iff_forall_ne_some, ne_eq]

/-! ### One other weight -/

def reweigh (tree : WeightTree Item) (index : Nat) (weight : UInt64) : WeightTree Item :=
  { tree with nodes := tree.nodes.modify index (Node.reweigh weight) }

section Reweighed

variable {index place : Nat} {weight : UInt64}

@[simp]
theorem root_reweigh : (tree.reweigh index weight).root = tree.root := rfl

@[simp]
theorem size_nodes_reweigh : (tree.reweigh index weight).nodes.size = tree.nodes.size :=
  Array.size_modify

theorem getElem?_reweigh {node : Node Item} (present : tree.nodes[index]? = some node)
    (weight : UInt64) :
    (tree.reweigh index weight).nodes[index]? = some (node.reweigh weight) := by
  rw [reweigh, Array.getElem?_modify, if_pos rfl, present, Option.map_some]

theorem getElem?_reweigh_of_ne (elsewhere : place ≠ index) (weight : UInt64) :
    (tree.reweigh index weight).nodes[place]? = tree.nodes[place]? := by
  rw [reweigh, Array.getElem?_modify, if_neg elsewhere.symm]

theorem links_iff_of_branch {own : UInt64} {left : Nat} {right : Option Nat}
    (present : tree.nodes[place]? = some (.branch own left right)) :
    Links tree.nodes place index ↔ left = index ∨ right = some index := by
  simp [Links, present, Node.children, eq_comm]

theorem childrenWeight_reweigh {left : Nat} {right : Option Nat} (leftApart : left ≠ index)
    (rightApart : right ≠ some index) (weight : UInt64) :
    (tree.reweigh index weight).childrenWeight left right = tree.childrenWeight left right := by
  have same : ∀ {child : Nat}, child ≠ index →
      (tree.reweigh index weight).lookup child = tree.lookup child := by
    intro child apart
    rw [lookup, lookup, node?, node?, getElem?_reweigh_of_ne apart]
  unfold childrenWeight
  rw [same leftApart]
  cases right with
  | none => cases tree.lookup left <;> rfl
  | some right => cases tree.lookup left <;> simp only [same (mt (congrArg some) rightApart)]

/-- Only the node itself and the branches that name it can notice its weight. -/
theorem faultAt?_reweigh (elsewhere : place ≠ index) (unlinked : ¬ Links tree.nodes place index)
    (weight : UInt64) : (tree.reweigh index weight).faultAt? place = tree.faultAt? place := by
  rw [faultAt?, faultAt?, getElem?_reweigh_of_ne elsewhere]
  match present : tree.nodes[place]? with
  | none => rfl
  | some (.leaf _ _) => rfl
  | some (.branch own left right) =>
      rw [links_iff_of_branch present, not_or] at unlinked
      simp only [Option.bind_some, branchFault?, childrenWeight_reweigh unlinked.1 unlinked.2]

theorem faultAt?_of_faultless (faultless : tree.fault? = none) (place : Nat) :
    tree.faultAt? place = none := by
  rw [faultAt?_eq_none_iff]
  intro node present
  rw [branchFault?_eq_none_iff]
  exact (fault?_eq_none_iff.mp faultless).2 node (Array.mem_of_getElem? present)

/-- The first node to notice the new weight is the one that the check reports. -/
theorem fault?_reweigh (faultless : tree.fault? = none) {error : TreeError}
    (noticed : (tree.reweigh index weight).faultAt? place = some error)
    (silent : index < place → (tree.reweigh index weight).faultAt? index = none)
    (unlinked : ∀ earlier < place, ¬ Links tree.nodes earlier index) :
    (tree.reweigh index weight).fault? = some error := by
  have rooted : (tree.reweigh index weight).root < (tree.reweigh index weight).nodes.size := by
    rw [root_reweigh, size_nodes_reweigh]
    exact (fault?_eq_none_iff.mp faultless).1
  rw [fault?_eq_some_iff rooted]
  refine ⟨place, noticed, ?_⟩
  intro earlier below
  by_cases same : earlier = index
  · rw [same] at below ⊢
    exact silent below
  · rw [faultAt?_reweigh same (unlinked earlier below)]
    exact faultAt?_of_faultless faultless earlier

/-- A branch that is not its own child notices its own weight. -/
theorem faultAt?_reweigh_branch (faultless : tree.fault? = none) {old : UInt64} {left : Nat}
    {right : Option Nat} (present : tree.nodes[index]? = some (.branch old left right))
    (apart : ¬ Links tree.nodes index index) (other : weight ≠ old) :
    (tree.reweigh index weight).faultAt? index = some (.weightMismatch index weight old) := by
  have supported := (fault?_eq_none_iff.mp faultless).2 _ (Array.mem_of_getElem? present)
  have reweighed : (tree.reweigh index weight).nodes[index]? = some (.branch weight left right) :=
    getElem?_reweigh present weight
  rw [links_iff_of_branch present, not_or] at apart
  obtain ⟨leftApart, rightApart⟩ := apart
  cases right with
  | none =>
      obtain ⟨child, leftPresent, rfl⟩ := supported
      rw [← getElem?_reweigh_of_ne leftApart weight] at leftPresent
      rw [faultAt?_single reweighed leftPresent, if_neg other.symm]
  | some right =>
      obtain ⟨first, second, leftPresent, rightPresent, rfl⟩ := supported
      rw [← getElem?_reweigh_of_ne leftApart weight] at leftPresent
      rw [← getElem?_reweigh_of_ne (mt (congrArg some) rightApart) weight] at rightPresent
      rw [faultAt?_double reweighed leftPresent rightPresent, if_neg other.symm]

/-- A branch notices the weight of a child that it names once. -/
theorem exists_faultAt?_reweigh_parent (faultless : tree.fault? = none) {parent left : Nat}
    {stored : UInt64} {right : Option Nat} {node : Node Item}
    (above : tree.nodes[parent]? = some (.branch stored left right)) (distinct : right ≠ some left)
    (linked : left = index ∨ right = some index) (elsewhere : parent ≠ index)
    (present : tree.nodes[index]? = some node) (other : weight ≠ node.weight) :
    ∃ children, (tree.reweigh index weight).faultAt? parent =
      some (.weightMismatch parent stored children) := by
  have supported := (fault?_eq_none_iff.mp faultless).2 _ (Array.mem_of_getElem? above)
  rw [← getElem?_reweigh_of_ne elsewhere weight] at above
  have reweighed : (tree.reweigh index weight).nodes[index]? = some (node.reweigh weight) :=
    getElem?_reweigh present weight
  cases right with
  | none =>
      obtain ⟨child, leftPresent, rfl⟩ := supported
      obtain rfl : left = index := by simpa using linked
      obtain rfl := Option.some.inj (present.symm.trans leftPresent)
      refine ⟨weight, ?_⟩
      rw [faultAt?_single above reweighed, Node.weight_reweigh, if_neg other]
  | some right =>
      obtain ⟨first, second, leftPresent, rightPresent, rfl⟩ := supported
      rcases linked with rfl | named
      · obtain rfl := Option.some.inj (present.symm.trans leftPresent)
        rw [← getElem?_reweigh_of_ne (mt (congrArg some) distinct) weight] at rightPresent
        refine ⟨weight + second.weight, ?_⟩
        rw [faultAt?_double above reweighed rightPresent, Node.weight_reweigh,
          if_neg (mt (UInt64.add_left_inj _).mp other)]
      · obtain rfl := Option.some.inj named
        obtain rfl := Option.some.inj (present.symm.trans rightPresent)
        have apart : left ≠ right := fun same => distinct (congrArg some same.symm)
        rw [← getElem?_reweigh_of_ne apart weight] at leftPresent
        refine ⟨first.weight + weight, ?_⟩
        rw [faultAt?_double above leftPresent reweighed, Node.weight_reweigh,
          if_neg (mt (UInt64.add_right_inj _).mp other)]

end Reweighed

/-- No single weight of the tree can be exchanged for another one unnoticed. -/
structure Watched (tree : WeightTree Item) : Prop where
  /-- A branch is reported itself, with the weight that it should have. -/
  branch : ∀ {index left : Nat} {old : UInt64} {right : Option Nat},
    tree.nodes[index]? = some (.branch old left right) → ∀ weight ≠ old,
      (tree.reweigh index weight).fault? = some (.weightMismatch index weight old)
  /-- For a leaf its parent is reported, with what the children have come to weigh. -/
  leaf : ∀ {index : Nat} {old : UInt64} {item : Item},
    tree.nodes[index]? = some (.leaf old item) → ∀ weight ≠ old,
      SumsFit (tree.reweigh index weight).nodes →
      ∃ parent, (∀ place, Links tree.nodes place index ↔ place = parent) ∧
        ∃ stored children,
          FaultyBranch (tree.reweigh index weight).nodes parent
              (.weightMismatch parent stored children) ∧
            (tree.reweigh index weight).fault? = some (.weightMismatch parent stored children)

theorem LaidOut.exists_parent_of_leaf (laidOut : tree.LaidOut items) {index : Nat} {old : UInt64}
    {item : Item} (present : tree.nodes[index]? = some (.leaf old item)) :
    ∃ parent stored left right, tree.nodes[parent]? = some (.branch stored left right) ∧
      right ≠ some left ∧ index < parent ∧
        ∀ place, Links tree.nodes place index ↔ place = parent := by
  have inside : index < tree.nodes.size := (Array.getElem?_eq_some_iff.mp present).1
  have below : index ≠ tree.root := by
    rintro rfl
    have last := laidOut.root_add_one
    rcases laidOut.node_cases present with ⟨listed, _⟩ | ⟨_, _, _, same⟩
    · unfold slots at last
      omega
    · contradiction
  obtain ⟨parent, linked, only⟩ := laidOut.parent index inside below
  obtain ⟨node, above, named⟩ := id linked
  rcases laidOut.node_cases above with ⟨_, _, rfl⟩ | ⟨number, stored, _, rfl⟩
  · simp [Node.children] at named
  · refine ⟨parent, stored, _, _, above, childrenAt_distinct _ _, laidOut.before _ _ linked, ?_⟩
    intro place
    exact ⟨only place, fun same => same ▸ linked⟩

theorem watched_of_assemble (assembled : assemble items = some tree) : tree.Watched := by
  have laidOut := laidOut_of_assemble assembled
  have faultless := laidOut.faultless
  have later : ∀ {parent child : Nat}, Links tree.nodes parent child → child < parent :=
    laidOut.before _ _
  constructor
  · intro index left old right present weight other
    have apart : ¬ Links tree.nodes index index := fun linked => Nat.lt_irrefl _ (later linked)
    apply fault?_reweigh faultless (faultAt?_reweigh_branch faultless present apart other)
    · intro below
      exact absurd below (Nat.lt_irrefl _)
    · intro earlier below linked
      exact Nat.lt_asymm below (later linked)
  · intro index old item present weight other fits
    obtain ⟨parent, stored, left, right, above, distinct, behind, only⟩ :=
      laidOut.exists_parent_of_leaf present
    have linked := (links_iff_of_branch above).mp ((only parent).mpr rfl)
    obtain ⟨children, noticed⟩ := exists_faultAt?_reweigh_parent faultless above distinct linked
      (Nat.ne_of_gt behind) present other
    refine ⟨parent, only, stored, children, (faultAt?_eq_some_iff fits).mp noticed, ?_⟩
    apply fault?_reweigh faultless noticed
    · intro _
      simp [faultAt?, getElem?_reweigh present, Node.reweigh, branchFault?]
    · intro earlier below linked
      exact Nat.ne_of_lt below ((only earlier).mp linked)

/-- The check reports the first fault of any arena, and every exchanged weight of an assembled
tree. -/
theorem fault?_detects :
    (∀ tree : WeightTree Item, SumsFit tree.nodes → tree.Inspected) ∧
      ∀ items : List (Item × UInt32), items ≠ [] →
        ∃ tree, assemble items = some tree ∧ tree.Watched := by
  constructor
  · intro tree fits
    exact inspected_of_sumsFit fits
  · intro items nonempty
    obtain ⟨tree, assembled, _⟩ := exists_assemble nonempty
    exact ⟨tree, assembled, watched_of_assemble assembled⟩

/-- Every branch has a fault, each one of another kind. -/
def muddled : WeightTree String where
  nodes := #[.leaf 3 "a", .branch 5 0 none, .branch 3 0 (some 9), .branch 3 8 (some 9)]
  root := 3
  leafCount := 1

/-- The first faulty branch is reported.  In the tree over three items a leaf is heard through its
parent, also the last one, which is an only child. -/
theorem fault?_detects_muddled :
    (SumsFit muddled.nodes ∧ ∃ index, FaultyBranch muddled.nodes index (.weightMismatch 1 5 3) ∧
        ∀ earlier < index, ∀ other, ¬ FaultyBranch muddled.nodes earlier other) ∧
      { muddled with root := 4 }.fault? = some (.danglingNode 4) ∧
      (trio.reweigh 3 12).fault? = some (.weightMismatch 3 12 11) ∧
      ∃ stored children, (trio.reweigh 2 7).fault? = some (.weightMismatch 4 stored children) := by
  have fits : SumsFit muddled.nodes := sumsFit_of_weight_le (by decide)
  obtain ⟨tree, assembled, watched⟩ := fault?_detects.2 [("a", 10), ("b", 0), ("c", 30)] (by simp)
  obtain rfl := Option.some.inj (assemble_trio.symm.trans assembled)
  have leaf : trio.nodes[2]? = some (.leaf 30 "c") := rfl
  have branch : trio.nodes[3]? = some (.branch 11 0 (some 1)) := rfl
  have linked : Links trio.nodes 4 2 := ⟨.branch 30 2 none, rfl, by simp [Node.children]⟩
  obtain ⟨parent, only, stored, children, _, reported⟩ :=
    watched.leaf leaf 7 (by decide) (sumsFit_of_weight_le (by decide))
  obtain rfl := (only 4).mp linked
  refine ⟨⟨fits, ?_⟩, ?_, watched.branch branch 12 (by decide), stored, children, reported⟩
  · exact ((fault?_detects.1 muddled fits).first (by decide) _).mp (by decide)
  · exact (fault?_detects.1 { muddled with root := 4 } fits).rootless (by decide)

end WeightTree

end LatencyBalancer
