import LatencyBalancer.Config.Basic
import LatencyBalancer.Selection.Selector

/-!
The engine of a client: its configuration, the published tree, the reports against servers and
the rebuild timer.

The timer starts once, and only where something can run it.  A stop is final, also one before
any start.
-/

namespace LatencyBalancer

/-- The rebuild timer; moments are in milliseconds. -/
inductive Timer where
  | idle
  | running (due : Nat)
  | stopped
deriving DecidableEq, Repr

namespace Timer

def isRunning : Timer → Bool
  | running _ => true
  | idle | stopped => false

end Timer

inductive EngineError where
  | invalidConfig (fault : ConfigFault)
  | noRuntime
deriving DecidableEq, Repr

namespace EngineError

def message : EngineError → String
  | invalidConfig fault => fault.message
  | noRuntime => "no tokio runtime is running"

end EngineError

structure Engine where
  config : Config
  valid : config.fault? = none
  publication : Publication Server
  reports : Reports
  timer : Timer

namespace Engine

def create (config : Config) : Except EngineError Engine :=
  match checked : config.fault? with
  | some fault => .error (.invalidConfig fault)
  | none => .ok ⟨config, checked, Publication.empty, ∅, .idle⟩

def isRunning (engine : Engine) : Bool :=
  engine.timer.isRunning

/-- The timer set to one interval after a moment. -/
def arm (engine : Engine) (moment : Nat) : Engine :=
  { engine with timer := .running (moment + engine.config.rebuildInterval) }

/-- Start the timer and tell whether this call did it.  A timer that was started or stopped
before is left alone, without a look at what could run it. -/
def start (engine : Engine) (hosted : Bool) (moment : Nat) : Except EngineError Bool × Engine :=
  match engine.timer with
  | .idle => if hosted then (.ok true, engine.arm moment) else (.error .noRuntime, engine)
  | .running _ | .stopped => (.ok false, engine)

def stop (engine : Engine) : Engine :=
  { engine with timer := .stopped }

def dueMoments (engine : Engine) (limit : Nat) : List Nat :=
  match engine.timer with
  | .running due =>
      if limit < due then []
      else (List.range ((limit - due) / engine.config.rebuildInterval + 1)).map fun count =>
        due + count * engine.config.rebuildInterval
  | .idle | .stopped => []

/-- Report failing servers; they are avoided until the next rebuild. -/
def mark (engine : Engine) (servers : List Server) : Engine :=
  { engine with reports := engine.reports.mark servers }

def selector (engine : Engine) : Selector where
  tree := engine.publication.current
  reports := engine.reports
  attempts := engine.config.maxAttempts

def select (engine : Engine) (candidates : List Server) (tried : List ServerId)
    (tape : WordTape) : Option (Option Selection × WordTape) :=
  engine.selector.select candidates tried tape

end Engine

end LatencyBalancer
