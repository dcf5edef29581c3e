import LatencyBalancer.Engine.Basic
import LatencyBalancer.Tree.Build

/-!
Rebuild cycles.

A cycle publishes the tree of the servers it is given, or withdraws the published one when their
latencies do not suffice, and then forgets the reports made against the earlier tree.  A cycle
without servers does neither.
-/

namespace LatencyBalancer

inductive Cycle where
  | skipped
  | degraded (eligible total : Nat)
  | published (leaves : Nat) (totalWeight generation : UInt64)
deriving DecidableEq, Repr

namespace Cycle

/-- What publishing an attempt means. -/
def ofBuild (generation : UInt64) : Build → Cycle
  | .built tree => published tree.leafCount tree.totalWeight generation
  | .insufficient eligible total => degraded eligible total

end Cycle

namespace Engine

def rebuild (engine : Engine) (members : List Member) : Cycle × Engine :=
  if members.isEmpty then (.skipped, engine)
  else
    let build := engine.config.build members
    let publication := engine.publication.publish build.tree?
    (.ofBuild publication.generation build,
      { engine with publication := publication, reports := ∅ })

@[simp]
theorem config_rebuild (engine : Engine) (members : List Member) :
    (engine.rebuild members).2.config = engine.config := by
  unfold rebuild
  split <;> rfl

@[simp]
theorem timer_rebuild (engine : Engine) (members : List Member) :
    (engine.rebuild members).2.timer = engine.timer := by
  unfold rebuild
  split <;> rfl

end Engine

end LatencyBalancer
