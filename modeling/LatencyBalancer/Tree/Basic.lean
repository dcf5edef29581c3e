/-!
Weight trees.

The nodes lie in an array and name their children by index.  Nothing is promised about an
arbitrary array, so reading a tree may fail.  A draw below the weight of the root is sent down by
comparing its one-based position with the weight of the left child.  `fault?` says whether every
branch weighs what its children weigh.
-/

namespace LatencyBalancer

universe u

/-- One element of a tree; a branch carries the weight of everything below it. -/
inductive Node (Item : Type u) where
  | leaf (weight : UInt64) (item : Item)
  | branch (weight : UInt64) (left : Nat) (right : Option Nat)
deriving DecidableEq, Repr

namespace Node

variable {Item : Type u}

def weight : Node Item → UInt64
  | leaf weight _ => weight
  | branch weight _ _ => weight

def leaf? : Node Item → Option (Item × UInt64)
  | leaf weight item => some (item, weight)
  | branch _ _ _ => none

@[simp]
theorem weight_leaf (weight : UInt64) (item : Item) : (leaf weight item).weight = weight := rfl

@[simp]
theorem weight_branch (weight : UInt64) (left : Nat) (right : Option Nat) :
    (branch weight left right : Node Item).weight = weight := rfl

@[simp]
theorem leaf?_leaf (weight : UInt64) (item : Item) :
    (leaf weight item).leaf? = some (item, weight) := rfl

@[simp]
theorem leaf?_branch (weight : UInt64) (left : Nat) (right : Option Nat) :
    (branch weight left right : Node Item).leaf? = none := rfl

end Node

structure WeightTree (Item : Type u) where
  nodes : Array (Node Item)
  root : Nat
  leafCount : Nat
deriving DecidableEq, Repr

inductive TreeError where
  | drawOutOfRange (draw total : UInt64)
  | danglingNode (node : Nat)
  /-- More nodes were visited than the tree holds. -/
  | cycle (steps : Nat)
  /-- A branch does not weigh what its children weigh together. -/
  | weightMismatch (node : Nat) (weight children : UInt64)
deriving DecidableEq, Repr

namespace TreeError

def message : TreeError → String
  | drawOutOfRange draw total => s!"draw {draw} is outside the tree range [0, {total})"
  | danglingNode node => s!"node {node} is not part of the tree"
  | cycle steps => s!"descent did not terminate after {steps} steps"
  | weightMismatch node weight children =>
      s!"node {node} has weight {weight} but its children sum to {children}"

end TreeError

namespace WeightTree

variable {Item : Type u}

def node? (tree : WeightTree Item) (index : Nat) : Option (Node Item) :=
  tree.nodes[index]?

def lookup (tree : WeightTree Item) (index : Nat) : Except TreeError (Node Item) :=
  match tree.node? index with
  | some node => .ok node
  | none => .error (.danglingNode index)

def totalWeight (tree : WeightTree Item) : UInt64 :=
  ((tree.node? tree.root).map Node.weight).getD 0

/-- The leaves in array order, which is build order for an assembled tree. -/
def leaves (tree : WeightTree Item) : List (Item × UInt64) :=
  tree.nodes.toList.filterMap Node.leaf?

theorem lookup_eq_ok_iff {tree : WeightTree Item} {index : Nat} {node : Node Item} :
    tree.lookup index = .ok node ↔ tree.node? index = some node := by
  unfold lookup
  cases tree.node? index <;> simp

theorem lookup_eq_error_iff {tree : WeightTree Item} {index : Nat} {error : TreeError} :
    tree.lookup index = .error error ↔
      tree.node? index = none ∧ error = .danglingNode index := by
  unfold lookup
  cases tree.node? index <;> simp [eq_comm]

/-! ### Sampling -/

inductive Step (Item : Type u) where
  | arrived (item : Item)
  | onward (node : Nat) (position : UInt64)
deriving DecidableEq, Repr

/-- A position counts from one.  It goes left when it lies within the weight of the left child,
and right otherwise, less that weight; an only child takes every position. -/
def step (tree : WeightTree Item) (node : Nat) (position : UInt64) :
    Except TreeError (Step Item) :=
  match tree.lookup node with
  | .error error => .error error
  | .ok (.leaf _ item) => .ok (.arrived item)
  | .ok (.branch _ left none) => .ok (.onward left position)
  | .ok (.branch _ left (some right)) =>
      match tree.lookup left with
      | .error error => .error error
      | .ok child =>
          if position ≤ child.weight then .ok (.onward left position)
          else .ok (.onward right (position - child.weight))

/-- Follow a position down from a node, looking at no more nodes than allowed. -/
def descend (tree : WeightTree Item) : Nat → Nat → UInt64 → Except TreeError Item
  | 0, _, _ => .error (.cycle tree.nodes.size)
  | visits + 1, node, position =>
      match tree.step node position with
      | .error error => .error error
      | .ok (.arrived item) => .ok item
      | .ok (.onward next rest) => tree.descend visits next rest

/-- The item that owns a draw.  A path that repeats no node is at most as long as the tree is
large, so one visit more than there are nodes tells a cycle from a long way down. -/
def sample (tree : WeightTree Item) (draw : UInt64) : Except TreeError Item :=
  match tree.lookup tree.root with
  | .error error => .error error
  | .ok root =>
      if root.weight ≤ draw then .error (.drawOutOfRange draw root.weight)
      else tree.descend (tree.nodes.size + 1) tree.root (draw + 1)

/-! ### Checking -/

/-- What the children of a branch weigh together; the left one is looked up first. -/
def childrenWeight (tree : WeightTree Item) (left : Nat) (right : Option Nat) :
    Except TreeError UInt64 :=
  match tree.lookup left, right with
  | .error error, _ => .error error
  | .ok first, none => .ok first.weight
  | .ok first, some right =>
      match tree.lookup right with
      | .error error => .error error
      | .ok second => .ok (first.weight + second.weight)

def branchFault? (tree : WeightTree Item) (index : Nat) : Node Item → Option TreeError
  | .leaf _ _ => none
  | .branch weight left right =>
      match tree.childrenWeight left right with
      | .error error => some error
      | .ok children =>
          if children = weight then none else some (.weightMismatch index weight children)

/-- The first fault of the tree: a missing root, else the fault of the first faulty branch. -/
def fault? (tree : WeightTree Item) : Option TreeError :=
  match tree.lookup tree.root with
  | .error error => some error
  | .ok _ => tree.nodes.toList.zipIdx.findSome? fun (node, index) => tree.branchFault? index node

end WeightTree

end LatencyBalancer
