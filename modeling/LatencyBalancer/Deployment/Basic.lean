import LatencyBalancer.Engine.Cycle
import LatencyBalancer.NameService

/-!
An engine among the servers it balances.

The pool holds every server once, so a latency recorded on a server is seen by every later build.
The clock stands still but for advances, in which the cycles that fall due are run one by one, each
at its moment.
-/

namespace LatencyBalancer

structure Deployment where
  pool : Array Member
  names : NameService
  /-- The present moment, in milliseconds. -/
  clock : Nat
  engine : Option Engine

namespace Deployment

def create (config : Config) (pool : Array Member) (listed : List Nat) :
    Except EngineError Deployment :=
  (Engine.create config).map fun engine => ⟨pool, .ofList listed, 0, some engine⟩

def members (deployment : Deployment) (places : List Nat) : List Member :=
  places.filterMap fun place => deployment.pool[place]?

def record (deployment : Deployment) (place : Nat) (latencies : List UInt32) : Deployment :=
  { deployment with pool := deployment.pool.modify place (·.record latencies) }

/-- One rebuild cycle.  A failed lookup ends it before it has changed anything else. -/
def cycle (deployment : Deployment) (engine : Engine) :
    Except LookupFailure Cycle × Deployment :=
  let (listed, names) := deployment.names.lookup
  match listed with
  | .error failure => (.error failure, { deployment with names := names, engine := some engine })
  | .ok places =>
      let (done, renewed) := engine.rebuild (deployment.members places)
      (.ok done, { deployment with names := names, engine := some renewed })

/-- The timer goes off: it is armed again, whatever becomes of the cycle. -/
def tick (deployment : Deployment) (moment : Nat) : Deployment :=
  match deployment.engine with
  | none => { deployment with clock := moment }
  | some engine => (cycle { deployment with clock := moment } (engine.arm moment)).2

def dueMoments (deployment : Deployment) (limit : Nat) : List Nat :=
  (deployment.engine.map fun engine => engine.dueMoments limit).getD []

def advance (deployment : Deployment) (milliseconds : Nat) : Deployment :=
  let limit := deployment.clock + milliseconds
  { (deployment.dueMoments limit).foldl tick deployment with clock := limit }

end Deployment

end LatencyBalancer
