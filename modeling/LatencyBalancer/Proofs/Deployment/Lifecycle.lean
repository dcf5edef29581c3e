import LatencyBalancer.Proofs.Deployment.Schedule

/-!
# The life of an engine

The timer of an engine is idle, then running, then stopped, and it never goes back.  The first
start that finds something to run the timer gets it running, unless a stop came before; every other
start leaves the engine as it is.  Neither a start nor a stop touches the tree or the reports, and
while the timer is not running an engine does what any other does that looks the same.
-/

namespace LatencyBalancer.Deployment

variable {deployment : Deployment}

/-! ### Starts -/

theorem step_start_of_idle (idle : deployment.timer? = some .idle) :
    (deployment.step (.start true)).1 = .started (.ok true) ∧
      deployment.step (.start false) = (.started (.error .noRuntime), deployment) := by
  obtain ⟨engine, held, timer⟩ := Option.map_eq_some_iff.mp idle
  simp only [step, operate, held, Engine.start, timer, if_true, Bool.false_eq_true, if_false]
  refine ⟨trivial, ?_⟩
  rw [← held]

theorem step_start_of_not_idle {timer : Timer} (present : deployment.timer? = some timer)
    (left : timer ≠ .idle) (hosted : Bool) :
    deployment.step (.start hosted) = (.started (.ok false), deployment) := by
  obtain ⟨engine, held, rfl⟩ := Option.map_eq_some_iff.mp present
  have same : engine.start hosted deployment.clock = (.ok false, engine) := by
    unfold Engine.start
    cases timer : engine.timer with
    | idle => exact absurd timer left
    | running due => rfl
    | stopped => rfl
  simp only [step, operate, held, same]
  rw [← held]

theorem timer?_step_stop {timer : Timer} (present : deployment.timer? = some timer) :
    (deployment.step .stop).2.timer? = some .stopped := by
  obtain ⟨engine, held, rfl⟩ := Option.map_eq_some_iff.mp present
  rw [step, operate_eq, timer?, held]
  rfl

theorem step_stop_step_stop (deployment : Deployment) :
    (((deployment.step .stop).2).step .stop).2 = (deployment.step .stop).2 := by
  simp only [step, operate_eq, Option.map_map]
  rfl

/-! ### The state of the timer -/

/-- What the events so far say about the timer. -/
inductive Stage (events : List Event) : Timer → Prop where
  | idle (unstarted : .start true ∉ events) (going : .stop ∉ events) : Stage events .idle
  | running (due : Nat) (started : .start true ∈ events) (going : .stop ∉ events) :
      Stage events (.running due)
  | stopped (stopped : .stop ∈ events) : Stage events .stopped

namespace Stage

variable {events : List Event} {event : Event} {timer : Timer}

theorem concat (stage : Stage events timer) (unstarted : event ≠ .start true)
    (going : event ≠ .stop) : Stage (events ++ [event]) timer := by
  cases stage with
  | idle fresh still => exact .idle (by simp [fresh, unstarted.symm]) (by simp [still, going.symm])
  | running due started still =>
      exact .running due (by simp [started]) (by simp [still, going.symm])
  | stopped before => exact .stopped (by simp [before])

theorem concat_start (stage : Stage events timer) (left : timer ≠ .idle) (hosted : Bool) :
    Stage (events ++ [.start hosted]) timer := by
  cases stage with
  | idle fresh still => exact absurd rfl left
  | running due started still => exact .running due (by simp [started]) (by simp [still])
  | stopped before => exact .stopped (by simp [before])

theorem step_start (stage : Stage events timer) (present : deployment.timer? = some timer)
    (hosted : Bool) :
    ∃ next, (deployment.step (.start hosted)).2.timer? = some next ∧
      Stage (events ++ [.start hosted]) next := by
  by_cases idle : timer = .idle
  · subst idle
    cases hosted with
    | false =>
        refine ⟨.idle, ?_, stage.concat (by simp) (by simp)⟩
        rw [(step_start_of_idle present).2, present]
    | true =>
        obtain ⟨_, interval, _, armed⟩ := timer?_of_started (step_start_of_idle present).1
        cases stage with
        | idle fresh still => exact ⟨_, armed, .running _ (by simp) (by simp [still])⟩
  · refine ⟨timer, ?_, stage.concat_start idle hosted⟩
    rw [step_start_of_not_idle present idle, present]

theorem step (stage : Stage events timer) (present : deployment.timer? = some timer)
    (held : event ≠ .drop) :
    ∃ next, (deployment.step event).2.timer? = some next ∧ Stage (events ++ [event]) next := by
  cases event with
  | start hosted => exact stage.step_start present hosted
  | stop => exact ⟨.stopped, timer?_step_stop present, .stopped (by simp)⟩
  | drop => exact absurd rfl held
  | record | relist | failNext | mark | rebuild | select | advance =>
      rcases deployment.timer?_step _ with
        same | ⟨_, due, later, _, armed, renewed⟩ | ⟨_, starting, _⟩ | ⟨halting, _⟩
      · exact ⟨timer, same.trans present, stage.concat (by simp) (by simp)⟩
      · obtain rfl := Option.some.inj (present.symm.trans armed)
        refine ⟨_, renewed, ?_⟩
        cases stage with
        | running _ started still => exact .running later (by simp [started]) (by simp [still])
      · simp at starting
      · simp at halting

end Stage

/-- At any point of a run the events so far tell the state of the timer. -/
theorem exists_stage_run (idle : deployment.timer? = some .idle) {events : List Event}
    (held : .drop ∉ events) :
    ∃ timer, (deployment.run events).timer? = some timer ∧ Stage events timer := by
  induction events using List.reverseRecOn with
  | nil => exact ⟨.idle, idle, .idle List.not_mem_nil List.not_mem_nil⟩
  | append_singleton earlier event inductionHypothesis =>
      obtain ⟨before, keeps⟩ : .drop ∉ earlier ∧ event ≠ .drop := by
        simpa [eq_comm] using held
      obtain ⟨timer, present, stage⟩ := inductionHypothesis before
      obtain ⟨next, moved, follows⟩ := stage.step present keeps
      refine ⟨next, ?_, follows⟩
      rw [run_append]
      exact moved

/-! ### Engines that look the same -/

def replies (deployment : Deployment) : List Event → List Reply
  | [] => []
  | event :: later => (deployment.step event).1 :: (deployment.step event).2.replies later

/-- Two deployments agree in all but their clocks and the timers of their engines. -/
structure Resembles (first second : Deployment) : Prop where
  pool : first.pool = second.pool
  names : first.names = second.names
  config : first.engine.map Engine.config = second.engine.map Engine.config
  publication : first.engine.map Engine.publication = second.engine.map Engine.publication
  reports : first.engine.map Engine.reports = second.engine.map Engine.reports

namespace Resembles

variable {first second : Deployment}

theorem engine (resembles : first.Resembles second) :
    first.engine.map Engine.stop = second.engine.map Engine.stop := by
  have config := resembles.config
  have publication := resembles.publication
  have reports := resembles.reports
  cases held : first.engine with
  | none =>
      cases other : second.engine with
      | none => rfl
      | some => simp [held, other] at config
  | some engine =>
      cases other : second.engine with
      | none => simp [held, other] at config
      | some twin =>
          simp only [held, other, Option.map_some, Option.some.injEq] at config publication reports
          simp only [Option.map_some, Engine.stop, config, publication, reports]

theorem of_engine (pool : first.pool = second.pool) (names : first.names = second.names)
    (same : first.engine.map Engine.stop = second.engine.map Engine.stop) :
    first.Resembles second := by
  have shown : ∀ {Shown : Type} (view : Engine → Shown),
      (∀ engine, view engine.stop = view engine) →
      first.engine.map view = second.engine.map view := by
    intro Shown view blind
    have through : ∀ held : Option Engine, held.map view = (held.map Engine.stop).map view := by
      intro held
      rw [Option.map_map]
      exact Option.map_congr fun engine _ => (blind engine).symm
    rw [through first.engine, through second.engine, same]
  exact ⟨pool, names, shown _ fun _ => rfl, shown _ fun _ => rfl, shown _ fun _ => rfl⟩

theorem found (resembles : first.Resembles second) : first.found = second.found := by
  have members : first.members = second.members := by
    funext places
    rw [Deployment.members, Deployment.members, resembles.pool]
  rw [Deployment.found, Deployment.found, resembles.names, members]

theorem operate (resembles : first.Resembles second) {act : Engine → Reply × Engine}
    (blind : ∀ engine : Engine, (act engine.stop).1 = (act engine).1 ∧
      (act engine.stop).2.stop = (act engine).2.stop) :
    (first.operate act).1 = (second.operate act).1 ∧
      (first.operate act).2.Resembles (second.operate act).2 := by
  have same := resembles.engine
  rw [operate_eq, operate_eq]
  cases held : first.engine with
  | none =>
      have other : second.engine = none := by simpa [held, eq_comm] using same
      simp only [Deployment.operate, held, other]
      exact ⟨trivial, of_engine resembles.pool resembles.names rfl⟩
  | some engine =>
      obtain ⟨twin, other, stopped⟩ :
          ∃ twin, second.engine = some twin ∧ twin.stop = engine.stop := by
        simpa [held, eq_comm] using same
      simp only [Deployment.operate, held, other, Option.map_some]
      refine ⟨?_, of_engine resembles.pool resembles.names ?_⟩
      · rw [← (blind engine).1, ← (blind twin).1, stopped]
      · simp only [Option.map_some, ← (blind engine).2, ← (blind twin).2, stopped]

theorem step_rebuild (resembles : first.Resembles second) :
    (first.step .rebuild).1 = (second.step .rebuild).1 ∧
      (first.step .rebuild).2.Resembles (second.step .rebuild).2 := by
  have same := resembles.engine
  cases held : first.engine with
  | none =>
      have other : second.engine = none := by simpa [held, eq_comm] using same
      simp only [step, held, other]
      exact ⟨trivial, resembles⟩
  | some engine =>
      obtain ⟨twin, other, stopped⟩ :
          ∃ twin, second.engine = some twin ∧ twin.stop = engine.stop := by
        simpa [held, eq_comm] using same
      have outcome : ∀ members, (engine.rebuild members).1 = (twin.rebuild members).1 := by
        intro members
        have ends := congrArg (fun one : Engine => (one.rebuild members).1) stopped
        simp only [Engine.rebuild_stop] at ends
        exact ends.symm
      simp only [step, held, other, cycle_eq, resembles.found, outcome]
      refine ⟨trivial, of_engine resembles.pool ?_ ?_⟩
      · rw [resembles.names]
      · simp only [Option.map_some, ← Engine.attempt_stop, stopped]

theorem advance (resembles : first.Resembles second)
    (still : ∀ due, first.timer? ≠ some (.running due))
    (quiet : ∀ due, second.timer? ≠ some (.running due)) (milliseconds : Nat) :
    (first.advance milliseconds).Resembles (second.advance milliseconds) := by
  simp only [Deployment.advance, dueMoments_eq_nil fun due armed => absurd armed (still due),
    dueMoments_eq_nil fun due armed => absurd armed (quiet due), List.foldl_nil]
  exact ⟨resembles.pool, resembles.names, resembles.config, resembles.publication,
    resembles.reports⟩

/-- Without timers only a start can tell the two apart. -/
theorem step (resembles : first.Resembles second)
    (still : ∀ due, first.timer? ≠ some (.running due))
    (quiet : ∀ due, second.timer? ≠ some (.running due)) {event : Event}
    (unstarted : ∀ hosted, event ≠ .start hosted) :
    (first.step event).1 = (second.step event).1 ∧
      (first.step event).2.Resembles (second.step event).2 := by
  cases event with
  | record place latencies =>
      exact ⟨rfl, of_engine (by rw [Deployment.step, Deployment.record, resembles.pool]; rfl)
        resembles.names resembles.engine⟩
  | relist places =>
      exact ⟨rfl, of_engine resembles.pool (congrArg (·.relist places) resembles.names)
        resembles.engine⟩
  | failNext failure =>
      exact ⟨rfl, of_engine resembles.pool (congrArg (·.failNext failure) resembles.names)
        resembles.engine⟩
  | advance milliseconds => exact ⟨rfl, resembles.advance still quiet milliseconds⟩
  | mark | select | stop => exact resembles.operate fun _ => ⟨rfl, rfl⟩
  | rebuild => exact resembles.step_rebuild
  | start hosted => exact absurd rfl (unstarted hosted)
  | drop => exact ⟨rfl, of_engine resembles.pool resembles.names rfl⟩

end Resembles

theorem still_step (still : ∀ due, deployment.timer? ≠ some (.running due)) {event : Event}
    (unstarted : ∀ hosted, event ≠ .start hosted) (due : Nat) :
    (deployment.step event).2.timer? ≠ some (.running due) := by
  rcases deployment.timer?_step event with
    same | ⟨_, armed, _, _, running, _⟩ | ⟨hosted, rfl, _⟩ | ⟨_, halted⟩
  · rw [same]
    exact still due
  · exact absurd running (still armed)
  · exact absurd rfl (unstarted hosted)
  · exact halted.ne_running due

/-- Engines that look the same give the same answers for as long as no timer is started. -/
theorem Resembles.run {first second : Deployment} (resembles : first.Resembles second)
    (still : ∀ due, first.timer? ≠ some (.running due))
    (quiet : ∀ due, second.timer? ≠ some (.running due)) {events : List Event}
    (unstarted : ∀ hosted, .start hosted ∉ events) :
    first.replies events = second.replies events ∧
      (first.run events).Resembles (second.run events) := by
  induction events generalizing first second with
  | nil => exact ⟨rfl, resembles⟩
  | cons event events inductionHypothesis =>
      have other : ∀ hosted, event ≠ .start hosted := by
        rintro hosted rfl
        exact unstarted hosted List.mem_cons_self
      obtain ⟨reply, after⟩ := resembles.step still quiet other
      have rest : ∀ hosted, .start hosted ∉ events := fun hosted listed =>
        unstarted hosted (List.mem_cons_of_mem _ listed)
      obtain ⟨later, remains⟩ := inductionHypothesis after (still_step still other)
        (still_step quiet other) rest
      exact ⟨by rw [replies, replies, reply, later], remains⟩

/-! ### Lives -/

theorem step_start_of_stage {earlier : List Event} {timer : Timer}
    (present : deployment.timer? = some timer) (stage : Stage earlier timer) (hosted : Bool) :
    ((deployment.step (.start hosted)).1 = .started (.ok true) ↔
        hosted = true ∧ .start true ∉ earlier ∧ .stop ∉ earlier) ∧
      (deployment.step (.start hosted) = (.started (.error .noRuntime), deployment) ↔
        hosted = false ∧ .start true ∉ earlier ∧ .stop ∉ earlier) ∧
      (deployment.step (.start hosted) = (.started (.ok false), deployment) ↔
        .start true ∈ earlier ∨ .stop ∈ earlier) := by
  cases stage with
  | idle unstarted going =>
      cases hosted with
      | false => simp [(step_start_of_idle present).2, unstarted, going]
      | true => simp [Prod.ext_iff, (step_start_of_idle present).1, unstarted, going]
  | running due started going =>
      simp [step_start_of_not_idle present (by simp) hosted, started]
  | stopped stopped =>
      simp [step_start_of_not_idle present (by simp) hosted, stopped]

/-- What starts and stops mean in the course of a run. -/
structure Lives (fresh : Deployment) (events : List Event) : Prop where
  present : ∃ engine, (fresh.run events).engine = some engine
  /-- The first start with a host succeeds unless a stop came before, and no other does. -/
  started : ∀ earlier hosted later, events = earlier ++ .start hosted :: later →
    (((fresh.run earlier).step (.start hosted)).1 = .started (.ok true) ↔
      hosted = true ∧ .start true ∉ earlier ∧ .stop ∉ earlier)
  once : ∀ earlier hosted between again later,
    events = earlier ++ .start hosted :: (between ++ .start again :: later) →
    ((fresh.run earlier).step (.start hosted)).1 = .started (.ok true) →
    ((fresh.run (earlier ++ .start hosted :: between)).step (.start again)).1 ≠
      .started (.ok true)
  /-- Before that a start without a host is refused and changes nothing. -/
  refused : ∀ earlier hosted later, events = earlier ++ .start hosted :: later →
    ((fresh.run earlier).step (.start hosted) =
        (.started (.error .noRuntime), fresh.run earlier) ↔
      hosted = false ∧ .start true ∉ earlier ∧ .stop ∉ earlier)
  /-- After it, and after any stop, every start is passed over and changes nothing. -/
  ignored : ∀ earlier hosted later, events = earlier ++ .start hosted :: later →
    ((fresh.run earlier).step (.start hosted) = (.started (.ok false), fresh.run earlier) ↔
      .start true ∈ earlier ∨ .stop ∈ earlier)
  running : ∀ engine, (fresh.run events).engine = some engine →
    (engine.isRunning = true ↔
      ∃ earlier hosted later, events = earlier ++ .start hosted :: later ∧
        ((fresh.run earlier).step (.start hosted)).1 = .started (.ok true) ∧ .stop ∉ later)
  idempotent : fresh.run (events ++ [.stop, .stop]) = fresh.run (events ++ [.stop])
  /-- Starts and stops leave the tree and the reports alone. -/
  kept : ∀ event, event = .stop ∨ (∃ hosted, event = .start hosted) →
    ((fresh.run events).step event).2.engine.map Engine.publication =
        (fresh.run events).engine.map Engine.publication ∧
      ((fresh.run events).step event).2.engine.map Engine.reports =
        (fresh.run events).engine.map Engine.reports
  /-- After a stop everything is answered as by an engine that looks the same and was never
  started. -/
  lasting : .stop ∈ events → ∀ other : Deployment, other.Resembles (fresh.run events) →
    other.timer? = some .idle → ∀ later, (∀ hosted, .start hosted ∉ later) →
    (fresh.run events).replies later = other.replies later ∧
      (other.run later).Resembles (fresh.run (events ++ later))

theorem resembles_operate (deployment : Deployment) {act : Engine → Reply × Engine}
    (same : ∀ engine, (act engine).2.stop = engine.stop) :
    (deployment.operate act).2.Resembles deployment := by
  rw [operate_eq]
  refine Resembles.of_engine rfl rfl ?_
  rw [Option.map_map]
  exact Option.map_congr fun engine _ => same engine

theorem stop_start (engine : Engine) (hosted : Bool) (moment : Nat) :
    (engine.start hosted moment).2.stop = engine.stop := by
  unfold Engine.start
  split
  · split <;> rfl
  · rfl
  · rfl

/-- The timer is running from the start that succeeded to the first stop. -/
theorem isRunning_iff_of_stage {fresh : Deployment} {events : List Event} {engine : Engine}
    (stage : Stage events engine.timer)
    (succeeds : ∀ earlier hosted later, events = earlier ++ .start hosted :: later →
      (((fresh.run earlier).step (.start hosted)).1 = .started (.ok true) ↔
        hosted = true ∧ .start true ∉ earlier ∧ .stop ∉ earlier)) :
    engine.isRunning = true ↔
      ∃ earlier hosted later, events = earlier ++ .start hosted :: later ∧
        ((fresh.run earlier).step (.start hosted)).1 = .started (.ok true) ∧ .stop ∉ later := by
  unfold Engine.isRunning
  constructor
  · intro running
    generalize timer : engine.timer = state at stage running
    cases stage with
    | idle | stopped => simp [Timer.isRunning] at running
    | running due started going =>
        obtain ⟨earlier, later, rfl, first⟩ := List.eq_append_cons_of_mem started
        obtain ⟨before, after⟩ : .stop ∉ earlier ∧ .stop ∉ later := by simpa using going
        have succeeded := (succeeds _ _ _ rfl).mpr ⟨rfl, first, before⟩
        exact ⟨earlier, true, later, rfl, succeeded, after⟩
  · rintro ⟨earlier, hosted, later, rfl, started, after⟩
    obtain ⟨rfl, _, before⟩ := (succeeds _ _ _ rfl).mp started
    generalize timer : engine.timer = state at stage
    cases stage with
    | idle unstarted => simp at unstarted
    | running => rfl
    | stopped stopped => simp [before, after] at stopped

variable {config : Config} {pool : Array Member} {listed : List Nat} {fresh : Deployment}

theorem run_lives (created : create config pool listed = .ok fresh) {events : List Event}
    (held : .drop ∉ events) : Lives fresh events := by
  have idle : fresh.timer? = some .idle := by
    obtain ⟨_, rfl⟩ := create_eq_ok created
    rfl
  have answers : ∀ earlier hosted later, events = earlier ++ .start hosted :: later →
      ∃ timer, (fresh.run earlier).timer? = some timer ∧ Stage earlier timer := by
    rintro earlier hosted later rfl
    exact exists_stage_run idle fun listed => held (List.mem_append_left _ listed)
  have succeeds : ∀ earlier hosted later, events = earlier ++ .start hosted :: later →
      (((fresh.run earlier).step (.start hosted)).1 = .started (.ok true) ↔
        hosted = true ∧ .start true ∉ earlier ∧ .stop ∉ earlier) := by
    intro earlier hosted later split
    obtain ⟨timer, present, stage⟩ := answers earlier hosted later split
    exact (step_start_of_stage present stage hosted).1
  obtain ⟨timer, present, stage⟩ := exists_stage_run idle held
  obtain ⟨engine, remains, rfl⟩ := Option.map_eq_some_iff.mp present
  refine ⟨⟨engine, remains⟩, succeeds, ?_, ?_, ?_, ?_, ?_, ?_, ?_⟩
  · intro earlier hosted between again later split started twice
    have first := (succeeds _ _ _ split).mp started
    have second := (succeeds (earlier ++ .start hosted :: between) again later
      (by simp [split])).mp twice
    simp [first.1] at second
  · intro earlier hosted later split
    obtain ⟨timer, present, stage⟩ := answers earlier hosted later split
    exact (step_start_of_stage present stage hosted).2.1
  · intro earlier hosted later split
    obtain ⟨timer, present, stage⟩ := answers earlier hosted later split
    exact (step_start_of_stage present stage hosted).2.2
  · intro other same
    obtain rfl := Option.some.inj (remains.symm.trans same)
    exact isRunning_iff_of_stage stage succeeds
  · rw [run_append, run_append]
    exact (fresh.run events).step_stop_step_stop
  · have same : ∀ event, event = .stop ∨ (∃ hosted, event = .start hosted) →
        ((fresh.run events).step event).2.Resembles (fresh.run events) := by
      rintro event (rfl | ⟨hosted, rfl⟩)
      · exact resembles_operate _ fun _ => rfl
      · exact resembles_operate _ fun engine => stop_start engine hosted _
    exact fun event lasting => ⟨(same event lasting).publication, (same event lasting).reports⟩
  · intro stopped other resembles unstarted later absent
    have still : ∀ due, (fresh.run events).timer? ≠ some (.running due) := by
      intro due running
      obtain same := Option.some.inj (present.symm.trans running)
      rw [same] at stage
      cases stage with
      | running _ _ going => exact going stopped
    obtain ⟨replies, after⟩ := resembles.run (by simp [unstarted]) still absent
    rw [run_append]
    exact ⟨replies.symm, after⟩

/-- A start without a host, one that succeeds, a cycle of the timer that fails, and a second start
that is passed over, before a stop and a start after it. -/
def restarted : List Event :=
  [.rebuild, .start false, .start true, .failNext ⟨none⟩, .advance 150, .start true, .stop,
    .start true, .mark [quick]]

theorem run_lives_restarted :
    Lives begun restarted ∧ (begun.run restarted).names.lookups = 2 ∧
      ((begun.run restarted).engine.map fun engine =>
        (engine.publication.generation, engine.reports.ids)) = some (1, [quick.id]) :=
  ⟨run_lives create_begun (by simp [restarted]), by decide +kernel, by decide +kernel⟩

end LatencyBalancer.Deployment
