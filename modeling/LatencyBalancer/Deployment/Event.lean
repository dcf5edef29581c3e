import LatencyBalancer.Deployment.Basic

/-!
What can happen to a deployment, and what each event is answered with.

Once the engine is dropped, what is asked of it has no effect.
-/

namespace LatencyBalancer

inductive Event where
  /-- Calls to a server took these times. -/
  | record (place : Nat) (latencies : List UInt32)
  | relist (places : List Nat)
  /-- One more lookup is going to fail. -/
  | failNext (failure : LookupFailure)
  | advance (milliseconds : Nat)
  | mark (servers : List Server)
  | rebuild
  | select (candidates : List Server) (tried : List ServerId) (tape : WordTape)
  /-- A start, and whether something is there to run the timer. -/
  | start (hosted : Bool)
  | stop
  | drop

inductive Reply where
  | done
  | rebuilt (outcome : Except LookupFailure Cycle)
  | selected (outcome : Option (Option Selection × WordTape))
  | started (outcome : Except EngineError Bool)

namespace Deployment

def operate (deployment : Deployment) (act : Engine → Reply × Engine) : Reply × Deployment :=
  match deployment.engine with
  | none => (.done, deployment)
  | some engine =>
      let (reply, next) := act engine
      (reply, { deployment with engine := some next })

def step (deployment : Deployment) : Event → Reply × Deployment
  | .record place latencies => (.done, deployment.record place latencies)
  | .relist places => (.done, { deployment with names := deployment.names.relist places })
  | .failNext failure => (.done, { deployment with names := deployment.names.failNext failure })
  | .advance milliseconds => (.done, deployment.advance milliseconds)
  | .mark servers => deployment.operate fun engine => (.done, engine.mark servers)
  | .rebuild =>
      match deployment.engine with
      | none => (.done, deployment)
      | some engine =>
          let (outcome, next) := deployment.cycle engine
          (.rebuilt outcome, next)
  | .select candidates tried tape =>
      deployment.operate fun engine => (.selected (engine.select candidates tried tape), engine)
  | .start hosted =>
      deployment.operate fun engine =>
        let (outcome, next) := engine.start hosted deployment.clock
        (.started outcome, next)
  | .stop => deployment.operate fun engine => (.done, engine.stop)
  | .drop => (.done, { deployment with engine := none })

def run (deployment : Deployment) (events : List Event) : Deployment :=
  events.foldl (fun present event => (present.step event).2) deployment

@[simp]
theorem run_cons (deployment : Deployment) (event : Event) (later : List Event) :
    deployment.run (event :: later) = (deployment.step event).2.run later := rfl

theorem run_append (deployment : Deployment) (earlier later : List Event) :
    deployment.run (earlier ++ later) = (deployment.run earlier).run later :=
  List.foldl_append

end Deployment

end LatencyBalancer
