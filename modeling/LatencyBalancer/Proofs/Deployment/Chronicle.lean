import LatencyBalancer.Deployment.Event

/-!
# The chronicle of a run

The tree and the reports of an engine depend on two kinds of incident: reports that are made, and
cycles with what their lookups gave.  The chronicle of a run lists them in order.  Replaying it on
the engine of the beginning gives the engine of the end but for its timer, and every cycle in it
ended as the engine replayed up to it makes a cycle end.
-/

namespace LatencyBalancer

structure CycleRecord where
  /-- Whether the timer ran it; otherwise somebody asked for it. -/
  timed : Bool
  moment : Nat
  /-- The servers that the lookup gave, with their latencies at that moment. -/
  found : Except LookupFailure (List Member)
  outcome : Except LookupFailure Cycle
  published : Option (Publication Server)

inductive Incident where
  | marked (servers : List Server)
  | cycled (record : CycleRecord)

namespace CycleRecord

/-- The servers that an effective cycle found: its lookup succeeded, and there were some. -/
def effect? (record : CycleRecord) : Option (List Member) :=
  match record.found with
  | .error _ | .ok [] => none
  | .ok (first :: others) => some (first :: others)

theorem effect?_eq_some_iff {record : CycleRecord} {members : List Member} :
    record.effect? = some members ↔ record.found = .ok members ∧ members ≠ [] := by
  unfold effect?
  split
  next failure failed => simp [failed]
  next empty => simp [empty, eq_comm]
  next first others found =>
    simp only [found, Option.some.injEq, Except.ok.injEq]
    constructor
    · rintro rfl
      exact ⟨rfl, List.cons_ne_nil _ _⟩
    · exact And.left

theorem effect?_eq_none_iff {record : CycleRecord} :
    record.effect? = none ↔ (∃ failure, record.found = .error failure) ∨ record.found = .ok [] := by
  unfold effect?
  split
  next failure failed => simp [failed]
  next empty => simp [empty]
  next first others found => simp [found]

end CycleRecord

def effective : List Incident → List (List Member)
  | [] => []
  | .marked _ :: later => effective later
  | .cycled record :: later => record.effect?.toList ++ effective later

@[simp]
theorem effective_nil : effective [] = [] := rfl

@[simp]
theorem effective_marked (servers : List Server) (later : List Incident) :
    effective (.marked servers :: later) = effective later := rfl

@[simp]
theorem effective_cycled (record : CycleRecord) (later : List Incident) :
    effective (.cycled record :: later) = record.effect?.toList ++ effective later := rfl

@[simp]
theorem effective_append (earlier later : List Incident) :
    effective (earlier ++ later) = effective earlier ++ effective later := by
  induction earlier with
  | nil => rfl
  | cons incident earlier inductionHypothesis =>
      cases incident with
      | marked servers => simpa using inductionHypothesis
      | cycled record => simp [inductionHypothesis]

namespace Engine

@[simp]
theorem config_stop (engine : Engine) : engine.stop.config = engine.config := rfl

@[simp]
theorem publication_stop (engine : Engine) : engine.stop.publication = engine.publication := rfl

@[simp]
theorem reports_stop (engine : Engine) : engine.stop.reports = engine.reports := rfl

def attempt (engine : Engine) : Except LookupFailure (List Member) → Engine
  | .error _ => engine
  | .ok members => (engine.rebuild members).2

@[simp]
theorem config_attempt (engine : Engine) (found : Except LookupFailure (List Member)) :
    (engine.attempt found).config = engine.config := by
  cases found with
  | error failure => rfl
  | ok members => exact engine.config_rebuild members

@[simp]
theorem timer_attempt (engine : Engine) (found : Except LookupFailure (List Member)) :
    (engine.attempt found).timer = engine.timer := by
  cases found with
  | error failure => rfl
  | ok members => exact engine.timer_rebuild members

def follow (engine : Engine) : Incident → Engine
  | .marked servers => engine.mark servers
  | .cycled record => engine.attempt record.found

def replay (engine : Engine) (chronicle : List Incident) : Engine :=
  chronicle.foldl follow engine

/-- The cycle ended as this engine makes a cycle end. -/
structure Ran (engine : Engine) (record : CycleRecord) : Prop where
  outcome : record.outcome = record.found.map fun members => (engine.rebuild members).1
  published : record.published = some (engine.attempt record.found).publication

/-- Every cycle ended as the engine makes it end that has come so far. -/
def Accounts : Engine → List Incident → Prop
  | _, [] => True
  | engine, .marked servers :: later => Accounts (engine.mark servers) later
  | engine, .cycled record :: later =>
      engine.Ran record ∧ Accounts (engine.attempt record.found) later

@[simp]
theorem replay_nil (engine : Engine) : engine.replay [] = engine := rfl

@[simp]
theorem replay_cons (engine : Engine) (incident : Incident) (later : List Incident) :
    engine.replay (incident :: later) = (engine.follow incident).replay later := rfl

theorem replay_append (engine : Engine) (earlier later : List Incident) :
    engine.replay (earlier ++ later) = (engine.replay earlier).replay later :=
  List.foldl_append

theorem accounts_append {engine : Engine} {earlier later : List Incident} :
    engine.Accounts (earlier ++ later) ↔
      engine.Accounts earlier ∧ (engine.replay earlier).Accounts later := by
  induction earlier generalizing engine with
  | nil => simp [Accounts]
  | cons incident earlier inductionHypothesis =>
      cases incident with
      | marked servers => exact inductionHypothesis
      | cycled record =>
          simp only [List.cons_append, Accounts, inductionHypothesis, and_assoc]
          exact Iff.rfl

theorem Accounts.ran {engine : Engine} {earlier later : List Incident} {record : CycleRecord}
    (accounts : engine.Accounts (earlier ++ .cycled record :: later)) :
    (engine.replay earlier).Ran record :=
  (accounts_append.mp accounts).2.1

theorem rebuild_stop (engine : Engine) (members : List Member) :
    engine.stop.rebuild members = ((engine.rebuild members).1, (engine.rebuild members).2.stop) := by
  unfold rebuild
  split <;> rfl

theorem attempt_stop (engine : Engine) (found : Except LookupFailure (List Member)) :
    engine.stop.attempt found = (engine.attempt found).stop := by
  cases found with
  | error failure => rfl
  | ok members => exact congrArg Prod.snd (engine.rebuild_stop members)

end Engine

namespace Deployment

theorem create_of_valid {config : Config} (valid : config.fault? = none) (pool : Array Member)
    (listed : List Nat) :
    create config pool listed =
      .ok ⟨pool, .ofList listed, 0, some ⟨config, valid, Publication.empty, ∅, .idle⟩⟩ := by
  unfold create Engine.create
  split
  next fault faulty =>
    rw [valid] at faulty
    contradiction
  next => rfl

theorem create_eq_ok {config : Config} {pool : Array Member} {listed : List Nat}
    {fresh : Deployment} (created : create config pool listed = .ok fresh) :
    ∃ valid, fresh =
      ⟨pool, .ofList listed, 0, some ⟨config, valid, Publication.empty, ∅, .idle⟩⟩ := by
  have valid : config.fault? = none := by
    unfold create Engine.create at created
    split at created
    next => contradiction
    next valid => exact valid
  rw [create_of_valid valid] at created
  exact ⟨valid, (Except.ok.inj created).symm⟩

theorem operate_eq (deployment : Deployment) (act : Engine → Reply × Engine) :
    (deployment.operate act).2 =
      { deployment with engine := deployment.engine.map fun engine => (act engine).2 } := by
  unfold operate
  split
  next absent =>
    rw [absent]
    exact congrArg (Deployment.mk _ _ _) absent
  next engine present => rw [present, Option.map_some]

def found (deployment : Deployment) : Except LookupFailure (List Member) :=
  deployment.names.lookup.1.map deployment.members

theorem cycle_eq (deployment : Deployment) (engine : Engine) :
    deployment.cycle engine =
      (deployment.found.map fun members => (engine.rebuild members).1,
        { deployment with
          names := deployment.names.lookup.2, engine := some (engine.attempt deployment.found) }) := by
  unfold cycle found
  split
  next answer names same =>
    simp only [same]
    split <;> rfl

theorem engine_cycle (deployment : Deployment) (engine : Engine) :
    (deployment.cycle engine).2.engine = some (engine.attempt deployment.found) := by
  rw [cycle_eq]

theorem names_cycle (deployment : Deployment) (engine : Engine) :
    (deployment.cycle engine).2.names = deployment.names.lookup.2 := by
  rw [cycle_eq]

def cycleIncidents (deployment : Deployment) (timed : Bool) : List Incident :=
  match deployment.engine with
  | none => []
  | some engine =>
      let (outcome, next) := deployment.cycle engine
      [.cycled
        { timed := timed
          moment := deployment.clock
          found := deployment.found
          outcome := outcome
          published := next.engine.map Engine.publication }]

/-- The moment at which the timer goes off; it is armed again. -/
def ring (deployment : Deployment) (moment : Nat) : Deployment :=
  { deployment with clock := moment, engine := deployment.engine.map (·.arm moment) }

/-- The cycles of a timer that goes off at these moments. -/
def tickIncidents (deployment : Deployment) : List Nat → List Incident
  | [] => []
  | moment :: later =>
      (deployment.ring moment).cycleIncidents true ++ (deployment.tick moment).tickIncidents later

def incidents (deployment : Deployment) : Event → List Incident
  | .mark servers => deployment.engine.toList.map fun _ => .marked servers
  | .rebuild => deployment.cycleIncidents false
  | .advance milliseconds =>
      deployment.tickIncidents (deployment.dueMoments (deployment.clock + milliseconds))
  | .record _ _ | .relist _ | .failNext _ | .select _ _ _ | .start _ | .stop | .drop => []

def chronicle (deployment : Deployment) : List Event → List Incident
  | [] => []
  | event :: later => deployment.incidents event ++ (deployment.step event).2.chronicle later

@[simp]
theorem chronicle_nil (deployment : Deployment) : deployment.chronicle [] = [] := rfl

@[simp]
theorem chronicle_cons (deployment : Deployment) (event : Event) (later : List Event) :
    deployment.chronicle (event :: later) =
      deployment.incidents event ++ (deployment.step event).2.chronicle later := rfl

theorem chronicle_append (deployment : Deployment) (earlier later : List Event) :
    deployment.chronicle (earlier ++ later) =
      deployment.chronicle earlier ++ (deployment.run earlier).chronicle later := by
  induction earlier generalizing deployment with
  | nil => rfl
  | cons event earlier inductionHypothesis => simp [inductionHypothesis]

/-- A ringing timer does to a deployment what a request for a cycle does. -/
theorem tick_eq_step (deployment : Deployment) (moment : Nat) :
    deployment.tick moment = ((deployment.ring moment).step .rebuild).2 := by
  cases held : deployment.engine with
  | none => simp [tick, step, ring, held]
  | some engine =>
      simp only [tick, step, ring, held, Option.map_some, cycle]
      split <;> rfl

/-! ### Replaying -/

/-- What happened between two deployments, as the engine shows it. -/
structure Tells (before : Deployment) (chronicle : List Incident) (after : Deployment) : Prop where
  dropped : before.engine = none → chronicle = [] ∧ after.engine = none
  accounts : ∀ engine, before.engine = some engine → engine.stop.Accounts chronicle
  replays : ∀ engine next, before.engine = some engine → after.engine = some next →
    next.stop = engine.stop.replay chronicle

namespace Tells

variable {before middle after : Deployment} {earlier later : List Incident}

theorem trans (first : before.Tells earlier middle) (second : middle.Tells later after) :
    before.Tells (earlier ++ later) after := by
  refine ⟨?_, ?_, ?_⟩
  · intro absent
    obtain ⟨nothing, dropped⟩ := first.dropped absent
    obtain ⟨nothingMore, stillDropped⟩ := second.dropped dropped
    exact ⟨by rw [nothing, nothingMore, List.append_nil], stillDropped⟩
  · intro engine present
    refine Engine.accounts_append.mpr ⟨first.accounts engine present, ?_⟩
    cases held : middle.engine with
    | none =>
        rw [(second.dropped held).1]
        trivial
    | some between =>
        rw [← first.replays engine between present held]
        exact second.accounts between held
  · intro engine next present remains
    cases held : middle.engine with
    | none =>
        rw [(second.dropped held).2] at remains
        contradiction
    | some between =>
        rw [Engine.replay_append, ← first.replays engine between present held]
        exact second.replays between next held remains

/-- Nothing happens while the engine keeps what it has but for its timer. -/
theorem quiet (absent : before.engine = none → after.engine = none)
    (same : ∀ engine next, before.engine = some engine → after.engine = some next →
      next.stop = engine.stop) : before.Tells [] after :=
  ⟨fun none => ⟨rfl, absent none⟩, fun _ _ => trivial, same⟩

theorem of_engine_eq (same : after.engine = before.engine) : before.Tells [] after := by
  refine quiet (fun absent => same.trans absent) ?_
  intro engine next present remains
  rw [same, present] at remains
  rw [Option.some.inj remains]

end Tells

theorem tells_cycle (deployment : Deployment) (timed : Bool) :
    deployment.Tells (deployment.cycleIncidents timed) (deployment.step .rebuild).2 := by
  cases held : deployment.engine with
  | none =>
      refine ⟨fun _ => ?_, by simp [held], by simp [held]⟩
      simp [cycleIncidents, step, held]
  | some engine =>
      simp only [cycleIncidents, step, held, cycle_eq]
      refine ⟨by simp [held], ?_, ?_⟩
      · intro other same
        obtain rfl := Option.some.inj (held.symm.trans same)
        refine ⟨⟨?_, ?_⟩, trivial⟩
        · simp only [Engine.rebuild_stop]
        · simp only [Engine.attempt_stop, Engine.publication_stop, Option.map_some]
      · intro other next same remains
        obtain rfl := Option.some.inj (held.symm.trans same)
        obtain rfl := Option.some.inj remains
        exact (engine.attempt_stop deployment.found).symm

theorem tells_ring (deployment : Deployment) (moment : Nat) :
    deployment.Tells [] (deployment.ring moment) := by
  apply Tells.quiet
  · intro absent
    simp [ring, absent]
  · intro engine next present remains
    simp only [ring, present, Option.map_some, Option.some.injEq] at remains
    rw [← remains]
    rfl

theorem tells_ticks (deployment : Deployment) (moments : List Nat) :
    deployment.Tells (deployment.tickIncidents moments) (moments.foldl tick deployment) := by
  induction moments generalizing deployment with
  | nil => exact Tells.of_engine_eq rfl
  | cons moment moments inductionHypothesis =>
      have first := (deployment.tells_ring moment).trans ((deployment.ring moment).tells_cycle true)
      rw [List.nil_append, ← tick_eq_step] at first
      exact first.trans (inductionHypothesis (deployment.tick moment))

theorem tells_operate (deployment : Deployment) {act : Engine → Reply × Engine}
    (idle : ∀ engine, (act engine).2.stop = engine.stop) :
    deployment.Tells [] (deployment.operate act).2 := by
  unfold operate
  cases held : deployment.engine with
  | none => exact Tells.of_engine_eq rfl
  | some engine =>
      refine Tells.quiet (by simp [held]) ?_
      intro other next present remains
      obtain rfl := Option.some.inj (held.symm.trans present)
      obtain rfl := Option.some.inj remains
      exact idle engine

theorem tells_mark (deployment : Deployment) (servers : List Server) :
    deployment.Tells (deployment.incidents (.mark servers))
      (deployment.step (.mark servers)).2 := by
  cases held : deployment.engine with
  | none =>
      refine ⟨fun _ => ?_, by simp [held], by simp [held]⟩
      simp [incidents, step, operate, held]
  | some engine =>
      simp only [incidents, step, operate, held, Option.toList_some, List.map_cons, List.map_nil]
      refine ⟨by simp [held], fun _ _ => trivial, ?_⟩
      intro other next present remains
      obtain rfl := Option.some.inj (held.symm.trans present)
      obtain rfl := Option.some.inj remains
      rfl

theorem tells_step (deployment : Deployment) (event : Event) :
    deployment.Tells (deployment.incidents event) (deployment.step event).2 := by
  cases event with
  | record place latencies => exact Tells.of_engine_eq rfl
  | relist places => exact Tells.of_engine_eq rfl
  | failNext failure => exact Tells.of_engine_eq rfl
  | advance milliseconds =>
      have ticked := deployment.tells_ticks
        (deployment.dueMoments (deployment.clock + milliseconds))
      have passed : Tells _ (_ ++ []) (deployment.advance milliseconds) :=
        ticked.trans (Tells.of_engine_eq rfl)
      rwa [List.append_nil] at passed
  | mark servers => exact deployment.tells_mark servers
  | rebuild => exact deployment.tells_cycle false
  | select candidates tried tape => exact deployment.tells_operate fun _ => rfl
  | start hosted =>
      apply deployment.tells_operate
      intro engine
      simp only [Engine.start]
      split
      next =>
        split <;> rfl
      next => rfl
      next => rfl
  | stop => exact deployment.tells_operate fun _ => rfl
  | drop => exact ⟨fun _ => ⟨rfl, rfl⟩, fun _ _ => trivial, fun _ _ _ gone => by contradiction⟩

theorem tells_run (deployment : Deployment) (events : List Event) :
    deployment.Tells (deployment.chronicle events) (deployment.run events) := by
  induction events generalizing deployment with
  | nil => exact Tells.of_engine_eq rfl
  | cons event events inductionHypothesis =>
      exact (deployment.tells_step event).trans (inductionHypothesis (deployment.step event).2)

/-- The chronicle of a run, replayed on an engine that has not done anything, gives the engine at
the end of the run but for its timer. -/
theorem exists_replays {config : Config} {pool : Array Member} {listed : List Nat}
    {fresh : Deployment} (created : create config pool listed = .ok fresh) (events : List Event) :
    ∃ first : Engine, first.config = config ∧ first.publication = Publication.empty ∧
      first.reports = ∅ ∧ first.Accounts (fresh.chronicle events) ∧
      ∀ engine, (fresh.run events).engine = some engine →
        engine.stop = first.replay (fresh.chronicle events) := by
  obtain ⟨valid, same⟩ := create_eq_ok created
  have held : fresh.engine = some ⟨config, valid, Publication.empty, ∅, .idle⟩ := by rw [same]
  have told := fresh.tells_run events
  exact ⟨_, rfl, rfl, rfl, told.accounts _ held, fun engine => told.replays _ engine held⟩

/-! ### A deployment for runs that can be worked out -/

/-- Two latencies weigh a server, and two servers of at least half of them make a tree. -/
def brisk : Config where
  windowSize := 2
  minRatio := Floating.ofFraction Format.single 1 2
  minEligible := 2
  readTimeout := 90
  rebuildInterval := 100

def quick : Server := ⟨⟨0⟩, ⟨"10.0.0.1", 8000⟩⟩

def slow : Server := ⟨⟨1⟩, ⟨"10.0.0.2", 8000⟩⟩

def uncalled : Server := ⟨⟨2⟩, ⟨"10.0.0.3", 8000⟩⟩

theorem fault?_brisk : brisk.fault? = none := by decide +kernel

/-- Three servers are listed, and nothing has happened yet. -/
def begun : Deployment where
  pool := #[(Member.new quick 2).record [1, 2], (Member.new slow 2).record [80, 90],
    Member.new uncalled 2]
  names := .ofList [0, 1, 2]
  clock := 0
  engine := some ⟨brisk, fault?_brisk, Publication.empty, ∅, .idle⟩

theorem create_begun : create brisk begun.pool [0, 1, 2] = .ok begun :=
  create_of_valid fault?_brisk begun.pool [0, 1, 2]

end Deployment

end LatencyBalancer
