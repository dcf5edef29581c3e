import LatencyBalancer.Tree.Assembly

/-!
# Checking a tree

The check of a tree finds nothing exactly when the root is there and every branch of the array,
also one that no path from the root meets, has its children and weighs what they weigh together.
Pairing only adds branches that do, so no assembled tree has a fault, however its weights add up.
-/

namespace LatencyBalancer

universe u

variable {Item : Type u}

namespace Node

theorem getElem?_push_of_eq_some {nodes : Array (Node Item)} {index : Nat} {found : Node Item}
    (present : nodes[index]? = some found) (node : Node Item) :
    (nodes.push node)[index]? = some found := by
  have inside := (Array.getElem?_eq_some_iff.mp present).1
  rw [Array.getElem?_push, if_neg (Nat.ne_of_lt inside), present]

/-- A branch has its children among the nodes and weighs what they weigh together. -/
def Supported (nodes : Array (Node Item)) : Node Item → Prop
  | leaf _ _ => True
  | branch weight left none => ∃ child, nodes[left]? = some child ∧ child.weight = weight
  | branch weight left (some right) =>
      ∃ first second, nodes[left]? = some first ∧ nodes[right]? = some second ∧
        first.weight + second.weight = weight

theorem Supported.push {nodes : Array (Node Item)} {node : Node Item}
    (supported : node.Supported nodes) (later : Node Item) :
    node.Supported (nodes.push later) := by
  match node with
  | leaf _ _ => trivial
  | branch _ _ none =>
      obtain ⟨child, present, weighs⟩ := supported
      exact ⟨child, getElem?_push_of_eq_some present later, weighs⟩
  | branch _ _ (some _) =>
      obtain ⟨first, second, leftPresent, rightPresent, weighs⟩ := supported
      exact ⟨first, second, getElem?_push_of_eq_some leftPresent later,
        getElem?_push_of_eq_some rightPresent later, weighs⟩

end Node

namespace WeightTree

variable {tree : WeightTree Item}

theorem branchFault?_eq_none_iff {index : Nat} {node : Node Item} :
    tree.branchFault? index node = none ↔ node.Supported tree.nodes := by
  match node with
  | .leaf _ _ => simp [branchFault?, Node.Supported]
  | .branch weight left none =>
      cases found : tree.nodes[left]? with
      | none => simp [branchFault?, childrenWeight, lookup, node?, found, Node.Supported]
      | some child => simp [branchFault?, childrenWeight, lookup, node?, found, Node.Supported]
  | .branch weight left (some right) =>
      cases found : tree.nodes[left]? with
      | none => simp [branchFault?, childrenWeight, lookup, node?, found, Node.Supported]
      | some first =>
          cases other : tree.nodes[right]? with
          | none =>
              simp [branchFault?, childrenWeight, lookup, node?, found, other, Node.Supported]
          | some second =>
              simp [branchFault?, childrenWeight, lookup, node?, found, other, Node.Supported]

def Balanced (nodes : Array (Node Item)) : Prop :=
  ∀ node ∈ nodes, node.Supported nodes

theorem Balanced.push {nodes : Array (Node Item)} (balanced : Balanced nodes) {node : Node Item}
    (supported : node.Supported nodes) : Balanced (nodes.push node) := by
  intro found member
  rcases Array.mem_push.mp member with earlier | rfl
  · exact (balanced found earlier).push node
  · exact supported.push found

theorem fault?_eq_none_iff :
    tree.fault? = none ↔ tree.root < tree.nodes.size ∧ Balanced tree.nodes := by
  unfold fault?
  split
  next error missing =>
    obtain ⟨absent, _⟩ := lookup_eq_error_iff.mp missing
    have outside : ¬ tree.root < tree.nodes.size :=
      Nat.not_lt.mpr (Array.getElem?_eq_none_iff.mp absent)
    simp [outside]
  next root found =>
    have inside : tree.root < tree.nodes.size :=
      (Array.getElem?_eq_some_iff.mp (lookup_eq_ok_iff.mp found)).1
    simp only [List.findSome?_eq_none_iff, Prod.forall, List.mk_mem_zipIdx_iff_getElem?,
      branchFault?_eq_none_iff, inside, true_and, Balanced]
    constructor
    · intro faultless node member
      obtain ⟨index, present⟩ := List.mem_iff_getElem?.mp (Array.mem_toList_iff.mpr member)
      exact faultless node index present
    · intro balanced node index present
      exact balanced node (Array.mem_toList_iff.mp (List.mem_of_getElem? present))

/-! ### Assembly -/

def Weighs (nodes : Array (Node Item)) (slot : Slot) : Prop :=
  ∀ index weight, slot = some (index, weight) →
    ∃ node, nodes[index]? = some node ∧ node.weight = weight

theorem Weighs.push {nodes : Array (Node Item)} {slot : Slot} (weighs : Weighs nodes slot)
    (node : Node Item) : Weighs (nodes.push node) slot := by
  intro index weight same
  obtain ⟨found, present, same⟩ := weighs index weight same
  exact ⟨found, Node.getElem?_push_of_eq_some present node, same⟩

theorem weighs_join {nodes : Array (Node Item)} {queue : List Slot} {node : Node Item}
    {weight : UInt64} (weighs : ∀ slot ∈ queue, Weighs nodes slot) (same : node.weight = weight) :
    ∀ slot ∈ queue ++ [some (nodes.size, weight)], Weighs (nodes.push node) slot := by
  intro slot member
  rcases List.mem_append.mp member with earlier | last
  · exact (weighs slot earlier).push node
  · rw [List.mem_singleton.mp last]
    rintro index other ⟨rfl, rfl⟩
    exact ⟨node, Array.getElem?_push_size, same⟩

theorem fault?_pairUp {leafCount : Nat} {queue : List Slot} {nodes : Array (Node Item)}
    (paired : pairUp leafCount queue nodes = some tree) (balanced : Balanced nodes)
    (weighs : ∀ slot ∈ queue, Weighs nodes slot) : tree.fault? = none := by
  fun_induction pairUp leafCount queue nodes with
  | case1 => contradiction
  | case2 queue nodes inductionHypothesis =>
      exact inductionHypothesis paired balanced (List.forall_mem_cons.mp weighs).2
  | case3 root weight nodes =>
      obtain rfl := Option.some.inj paired
      obtain ⟨node, present, _⟩ := weighs _ List.mem_cons_self root weight rfl
      exact fault?_eq_none_iff.mpr ⟨(Array.getElem?_eq_some_iff.mp present).1, balanced⟩
  | case4 left weight queue nodes inductionHypothesis =>
      obtain ⟨first, behind⟩ := List.forall_mem_cons.mp weighs
      obtain ⟨child, present, same⟩ := first left weight rfl
      apply inductionHypothesis paired
      · exact balanced.push ⟨child, present, same⟩
      · exact weighs_join (List.forall_mem_cons.mp behind).2 rfl
  | case5 left weight right other queue nodes inductionHypothesis =>
      obtain ⟨first, behind⟩ := List.forall_mem_cons.mp weighs
      obtain ⟨second, rest⟩ := List.forall_mem_cons.mp behind
      obtain ⟨leftChild, leftPresent, leftSame⟩ := first left weight rfl
      obtain ⟨rightChild, rightPresent, rightSame⟩ := second right other rfl
      apply inductionHypothesis paired
      · refine balanced.push ⟨leftChild, rightChild, leftPresent, rightPresent, ?_⟩
        rw [leftSame, rightSame]
      · exact weighs_join rest rfl

/-- The slots that an assembly starts from know the weights of the leaves. -/
theorem weighs_leaves (leaves : List (Item × UInt64)) (padding : List Slot)
    (empty : ∀ slot ∈ padding, slot = none) :
    ∀ slot ∈ leaves.zipIdx.map (fun ((_, weight), index) => some (index, weight)) ++ padding,
      Weighs (leaves.map fun (item, weight) => Node.leaf weight item).toArray slot := by
  intro slot member
  rcases List.mem_append.mp member with leaf | padded
  · obtain ⟨⟨⟨item, weight⟩, place⟩, listed, rfl⟩ := List.mem_map.mp leaf
    rintro index other ⟨rfl, rfl⟩
    have present := List.mk_mem_zipIdx_iff_getElem?.mp listed
    refine ⟨.leaf weight item, ?_, rfl⟩
    rw [List.getElem?_toArray, List.getElem?_map, present]
    rfl
  · rw [empty slot padded]
    intro index weight same
    contradiction

theorem fault?_assemble {items : List (Item × UInt32)}
    (assembled : assemble items = some tree) : tree.fault? = none := by
  apply fault?_pairUp assembled
  · intro node member
    obtain ⟨⟨item, weight⟩, _, rfl⟩ := List.mem_map.mp (List.mem_toArray.mp member)
    trivial
  · apply weighs_leaves
    intro slot member
    split at member
    next => exact List.mem_singleton.mp member
    next => contradiction

end WeightTree

end LatencyBalancer
