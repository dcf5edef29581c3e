import LatencyBalancer.Random.Uniform
import LatencyBalancer.Tree.Basic

/-!
Random picks from a weight tree: a uniform draw below the total weight, and the item that owns
it.  A tree that cannot be drawn from costs no word.
-/

namespace LatencyBalancer.WeightTree

universe u

variable {Item : Type u}

def pick (tree : WeightTree Item) (tape : WordTape) :
    Option (Except TreeError Item × WordTape) :=
  match tree.lookup tree.root with
  | .error error => some (.error error, tape)
  | .ok root =>
      if root.weight = 0 then some (.error (.drawOutOfRange 0 root.weight), tape)
      else (Random.below 64 root.weight.toNat tape).map fun (draw, rest) =>
        (tree.sample (UInt64.ofNat draw), rest)

end LatencyBalancer.WeightTree
