import LatencyBalancer.Latency.Weight
import LatencyBalancer.Tree.Basic

/-!
Assembly of a weight tree from weighted items.

The nodes wait in a queue.  The two at the front become the children of a new branch, which goes
to the back, until one node is left: the root.  An odd number of leaves is padded by an empty
slot, so the last leaf becomes an only child and no branch is ever left without a partner.
-/

namespace LatencyBalancer.WeightTree

universe u

variable {Item : Type u}

/-- A place in the queue: a node by its index and weight, or the padding. -/
abbrev Slot := Option (Nat × UInt64)

/-- Pair the front of the queue until one node is left. -/
def pairUp (leafCount : Nat) : List Slot → Array (Node Item) → Option (WeightTree Item)
  | [], _ => none
  | none :: queue, nodes => pairUp leafCount queue nodes
  | [some (root, _)], nodes => some ⟨nodes, root, leafCount⟩
  | some (left, weight) :: none :: queue, nodes =>
      pairUp leafCount (queue ++ [some (nodes.size, weight)])
        (nodes.push (.branch weight left none))
  | some (left, weight) :: some (right, other) :: queue, nodes =>
      pairUp leafCount (queue ++ [some (nodes.size, weight + other)])
        (nodes.push (.branch (weight + other) left (some right)))
termination_by queue => queue.length

/-- Every leaf weighs at least the lowest weight. -/
def raised (weight : UInt32) : UInt64 :=
  (max weight Latency.minWeight).toUInt64

/-- The tree over the items in the given order, or none for no items. -/
def assemble (items : List (Item × UInt32)) : Option (WeightTree Item) :=
  let leaves := items.map fun (item, weight) => (item, raised weight)
  let queue := leaves.zipIdx.map fun ((_, weight), index) => some (index, weight)
  let padding := if leaves.length % 2 = 1 then [none] else []
  pairUp leaves.length (queue ++ padding)
    (leaves.map fun (item, weight) => Node.leaf weight item).toArray

end LatencyBalancer.WeightTree
