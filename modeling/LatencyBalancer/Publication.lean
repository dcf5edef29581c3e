import LatencyBalancer.Tree.Basic

/-!
The tree that selections read, replaced as a whole.

Every publication counts, also one that withdraws the tree and leaves none.  The count is a machine
word and starts over after the largest one.
-/

namespace LatencyBalancer

universe u

structure Publication (Item : Type u) where
  current : Option (WeightTree Item)
  /-- How often something was published, modulo the size of a word. -/
  generation : UInt64
deriving DecidableEq, Repr

namespace Publication

variable {Item : Type u}

def empty : Publication Item where
  current := none
  generation := 0

def publish (publication : Publication Item) (tree : Option (WeightTree Item)) :
    Publication Item where
  current := tree
  generation := publication.generation + 1

end Publication

end LatencyBalancer
