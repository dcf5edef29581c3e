import LatencyBalancer.Proofs.Deployment.Chronicle

/-!
# The timer

While time passes, the timer goes off at the moment that is due, a cycle is run and the timer is
armed again, until the next moment lies beyond the limit.  An advance, which works all the moments
out beforehand, comes to the same as this loop.  So it does not matter into how many advances a
time is split.  No event but a start, a stop and a drop does anything else to the timer.
-/

namespace LatencyBalancer.Deployment

def timer? (deployment : Deployment) : Option Timer :=
  deployment.engine.map Engine.timer

def interval? (deployment : Deployment) : Option Nat :=
  deployment.engine.map fun engine => engine.config.rebuildInterval

variable {deployment : Deployment} {interval due limit : Nat}

theorem interval_pos (every : deployment.interval? = some interval) : 0 < interval := by
  obtain ⟨engine, _, rfl⟩ := Option.map_eq_some_iff.mp every
  exact Nat.pos_of_ne_zero (Config.fault?_eq_none_iff.mp engine.valid).2.2.2.1

theorem exists_interval (armed : deployment.timer? = some (.running due)) :
    ∃ interval, deployment.interval? = some interval := by
  obtain ⟨engine, held, _⟩ := Option.map_eq_some_iff.mp armed
  exact ⟨_, by rw [interval?, held, Option.map_some]⟩

theorem engine_step_rebuild (deployment : Deployment) :
    (deployment.step .rebuild).2.engine =
      deployment.engine.map (·.attempt deployment.found) := by
  cases held : deployment.engine with
  | none => simp only [step, held, Option.map_none]
  | some engine => simp only [step, held, engine_cycle, Option.map_some]

theorem timer?_step_rebuild (deployment : Deployment) :
    (deployment.step .rebuild).2.timer? = deployment.timer? := by
  rw [timer?, engine_step_rebuild, Option.map_map]
  exact Option.map_congr fun engine _ => engine.timer_attempt _

theorem interval?_step_rebuild (deployment : Deployment) :
    (deployment.step .rebuild).2.interval? = deployment.interval? := by
  rw [interval?, engine_step_rebuild, Option.map_map]
  exact Option.map_congr fun engine _ => congrArg Config.rebuildInterval (engine.config_attempt _)

theorem interval?_ring (deployment : Deployment) (moment : Nat) :
    (deployment.ring moment).interval? = deployment.interval? := by
  rw [interval?, ring, Option.map_map]
  rfl

theorem interval?_tick (deployment : Deployment) (moment : Nat) :
    (deployment.tick moment).interval? = deployment.interval? := by
  rw [tick_eq_step, interval?_step_rebuild, interval?_ring]

/-- However the cycle ends, the timer is armed for one interval later. -/
theorem timer?_tick (every : deployment.interval? = some interval) (moment : Nat) :
    (deployment.tick moment).timer? = some (.running (moment + interval)) := by
  obtain ⟨engine, held, rfl⟩ := Option.map_eq_some_iff.mp every
  rw [tick_eq_step, timer?_step_rebuild, timer?, ring, held]
  rfl

/-! ### The moments of an advance -/

theorem dueMoments_eq_nil (still : ∀ due, deployment.timer? = some (.running due) → limit < due) :
    deployment.dueMoments limit = [] := by
  cases held : deployment.engine with
  | none => simp [dueMoments, held]
  | some engine =>
      simp only [dueMoments, held, Option.map_some, Option.getD_some, Engine.dueMoments]
      split
      next due running =>
        exact if_pos (still due (by rw [timer?, held, Option.map_some, running]))
      next => rfl
      next => rfl

theorem dueMoments_of_running (armed : deployment.timer? = some (.running due))
    (every : deployment.interval? = some interval) :
    deployment.dueMoments limit =
      if limit < due then []
      else (List.range ((limit - due) / interval + 1)).map fun count => due + count * interval := by
  obtain ⟨engine, held, rfl⟩ := Option.map_eq_some_iff.mp every
  rw [timer?, held, Option.map_some, Option.some.injEq] at armed
  simp only [dueMoments, held, Option.map_some, Option.getD_some, Engine.dueMoments, armed]

theorem dueMoments_eq_cons (armed : deployment.timer? = some (.running due))
    (reached : due ≤ limit) :
    deployment.dueMoments limit = due :: (deployment.tick due).dueMoments limit := by
  obtain ⟨interval, every⟩ := exists_interval armed
  have positive := interval_pos every
  rw [dueMoments_of_running armed every, if_neg (Nat.not_lt.mpr reached),
    dueMoments_of_running (timer?_tick every due) ((deployment.interval?_tick due).trans every),
    List.range_succ_eq_map, List.map_cons, List.map_map, Nat.zero_mul, Nat.add_zero]
  congr 1
  split
  next early =>
    have none : (limit - due) / interval = 0 := Nat.div_eq_of_lt (by omega)
    simp [none]
  next reachable =>
    have more : (limit - due) / interval = (limit - (due + interval)) / interval + 1 := by
      rw [Nat.div_eq_sub_div positive (by omega), Nat.sub_sub]
    rw [more]
    refine List.map_congr_left fun count _ => ?_
    simp only [Function.comp_apply, Nat.succ_mul]
    omega

/-! ### The loop of the timer -/

/-- Time passes up to a limit, and this happens meanwhile. -/
inductive Elapses (limit : Nat) : Deployment → List Incident → Deployment → Prop where
  | quiet {deployment : Deployment}
      (still : ∀ due, deployment.timer? = some (.running due) → limit < due) :
      Elapses limit deployment [] { deployment with clock := limit }
  | rings {deployment after : Deployment} {due : Nat} {later : List Incident}
      (armed : deployment.timer? = some (.running due)) (reached : due ≤ limit)
      (rest : Elapses limit (deployment.tick due) later after) :
      Elapses limit deployment ((deployment.ring due).cycleIncidents true ++ later) after

/-- An advance is the loop of the timer. -/
theorem elapses_advance (deployment : Deployment) (milliseconds : Nat) :
    Elapses (deployment.clock + milliseconds) deployment
      (deployment.incidents (.advance milliseconds)) (deployment.advance milliseconds) := by
  simp only [incidents, advance]
  generalize deployment.clock + milliseconds = limit
  generalize moments : deployment.dueMoments limit = pending
  induction pending generalizing deployment with
  | nil =>
      apply Elapses.quiet
      intro due armed
      apply Nat.lt_of_not_le
      intro reached
      rw [dueMoments_eq_cons armed reached] at moments
      contradiction
  | cons due later inductionHypothesis =>
      by_cases ringing : ∃ due, deployment.timer? = some (.running due) ∧ due ≤ limit
      · obtain ⟨first, armed, reached⟩ := ringing
        rw [dueMoments_eq_cons armed reached] at moments
        obtain ⟨rfl, rest⟩ := List.cons.inj moments
        exact .rings armed reached (inductionHypothesis (deployment.tick first) rest)
      · rw [dueMoments_eq_nil fun due armed =>
          Nat.not_le.mp fun reached => ringing ⟨due, armed, reached⟩] at moments
        contradiction

namespace Elapses

variable {first second moment : Nat} {middle after other : Deployment}
  {chronicle earlier later : List Incident}

/-- Where the clock stood does not matter. -/
theorem of_clock (elapses : Elapses limit { deployment with clock := moment } chronicle after) :
    Elapses limit deployment chronicle after := by
  cases elapses with
  | quiet still => exact .quiet still
  | rings armed reached rest => exact .rings armed reached rest

theorem trans (before : Elapses first deployment earlier middle) (ordered : first ≤ second)
    (behind : Elapses second middle later after) :
    Elapses second deployment (earlier ++ later) after := by
  induction before with
  | quiet still => exact behind.of_clock
  | rings armed reached rest inductionHypothesis =>
      rw [List.append_assoc]
      exact .rings armed (Nat.le_trans reached ordered) (inductionHypothesis behind)

theorem unique (elapses : Elapses limit deployment chronicle after)
    (again : Elapses limit deployment later other) : chronicle = later ∧ after = other := by
  induction elapses generalizing later with
  | quiet still =>
      cases again with
      | quiet => exact ⟨rfl, rfl⟩
      | rings armed reached => exact absurd (still _ armed) (Nat.not_lt.mpr reached)
  | rings armed reached rest inductionHypothesis =>
      cases again with
      | quiet still => exact absurd (still _ armed) (Nat.not_lt.mpr reached)
      | rings again reached rest =>
          obtain ⟨rfl⟩ := Option.some.inj (armed.symm.trans again)
          obtain ⟨rfl, rfl⟩ := inductionHypothesis rest
          exact ⟨rfl, rfl⟩

end Elapses

theorem elapses_advance_advance (deployment : Deployment) (first second : Nat) :
    Elapses (deployment.clock + (first + second)) deployment
      (deployment.incidents (.advance first) ++
        (deployment.advance first).incidents (.advance second))
      ((deployment.advance first).advance second) := by
  have behind := (deployment.advance first).elapses_advance second
  rw [← Nat.add_assoc]
  exact (deployment.elapses_advance first).trans (Nat.le_add_right _ _) behind

/-- It does not matter into how many advances a time is split. -/
theorem advance_advance (deployment : Deployment) (first second : Nat) :
    (deployment.advance first).advance second = deployment.advance (first + second) :=
  ((deployment.elapses_advance_advance first second).unique (deployment.elapses_advance _)).2

theorem incidents_advance_append (deployment : Deployment) (first second : Nat) :
    deployment.incidents (.advance first) ++ (deployment.advance first).incidents (.advance second) =
      deployment.incidents (.advance (first + second)) :=
  ((deployment.elapses_advance_advance first second).unique (deployment.elapses_advance _)).1

/-! ### Events -/

theorem timer?_operate (deployment : Deployment) {act : Engine → Reply × Engine}
    (same : ∀ engine, (act engine).2.timer = engine.timer) :
    (deployment.operate act).2.timer? = deployment.timer? := by
  rw [operate_eq, timer?, Option.map_map]
  exact Option.map_congr fun engine _ => same engine

theorem interval?_operate (deployment : Deployment) {act : Engine → Reply × Engine}
    (same : ∀ engine, (act engine).2.config = engine.config) :
    (deployment.operate act).2.interval? = deployment.interval? := by
  rw [operate_eq, interval?, Option.map_map]
  exact Option.map_congr fun engine _ => congrArg Config.rebuildInterval (same engine)

theorem config_start (engine : Engine) (hosted : Bool) (moment : Nat) :
    (engine.start hosted moment).2.config = engine.config := by
  unfold Engine.start
  split
  · split <;> rfl
  · rfl
  · rfl

theorem Elapses.interval? {chronicle : List Incident} {after : Deployment}
    (elapses : Elapses limit deployment chronicle after) :
    after.interval? = deployment.interval? := by
  induction elapses with
  | quiet still => rfl
  | rings armed reached rest inductionHypothesis =>
      exact inductionHypothesis.trans (interval?_tick _ _)

theorem Elapses.exists_running {chronicle : List Incident} {after : Deployment}
    (elapses : Elapses limit deployment chronicle after)
    (armed : deployment.timer? = some (.running due)) :
    ∃ next, after.timer? = some (.running next) := by
  induction elapses generalizing due with
  | quiet still => exact ⟨due, armed⟩
  | rings again reached rest inductionHypothesis =>
      obtain ⟨interval, every⟩ := exists_interval armed
      exact inductionHypothesis (timer?_tick every _)

theorem interval?_step (deployment : Deployment) {event : Event} (held : event ≠ .drop) :
    (deployment.step event).2.interval? = deployment.interval? := by
  cases event with
  | record | relist | failNext => rfl
  | advance milliseconds => exact (deployment.elapses_advance milliseconds).interval?
  | mark | select | stop => exact deployment.interval?_operate fun _ => rfl
  | start hosted => exact deployment.interval?_operate fun engine => config_start engine _ _
  | rebuild => exact deployment.interval?_step_rebuild
  | drop => exact absurd rfl held

theorem clock_step (deployment : Deployment) {event : Event}
    (still : ∀ milliseconds, event ≠ .advance milliseconds) :
    (deployment.step event).2.clock = deployment.clock := by
  cases event with
  | record | relist | failNext | drop => rfl
  | advance milliseconds => exact absurd rfl (still milliseconds)
  | mark | select | start | stop => rw [step, operate_eq]
  | rebuild =>
      cases held : deployment.engine with
      | none => simp only [step, held]
      | some engine => simp only [step, held, cycle_eq]

theorem timer?_of_started {hosted : Bool}
    (started : (deployment.step (.start hosted)).1 = .started (.ok true)) :
    deployment.timer? = some .idle ∧ ∃ interval, deployment.interval? = some interval ∧
      (deployment.step (.start hosted)).2.timer? =
        some (.running (deployment.clock + interval)) := by
  cases held : deployment.engine with
  | none => simp [step, operate, held] at started
  | some engine =>
      simp only [step, operate, held, timer?, interval?, Option.map_some, Engine.start] at started ⊢
      cases timer : engine.timer with
      | idle =>
          cases hosted with
          | false => simp [timer] at started
          | true => exact ⟨rfl, _, rfl, rfl⟩
      | running due => simp [timer] at started
      | stopped => simp [timer] at started

/-- The timer was stopped, or dropped with the engine. -/
def Halted (deployment : Deployment) : Prop :=
  deployment.timer? = none ∨ deployment.timer? = some .stopped

theorem halted_step_stop (deployment : Deployment) : (deployment.step .stop).2.Halted := by
  rw [step, operate_eq, Halted, timer?]
  cases deployment.engine with
  | none => exact .inl rfl
  | some engine => exact .inr rfl

theorem halted_step_drop (deployment : Deployment) : (deployment.step .drop).2.Halted :=
  .inl rfl

/-- What an event can do to the timer. -/
theorem timer?_step (deployment : Deployment) (event : Event) :
    (deployment.step event).2.timer? = deployment.timer? ∨
      (∃ milliseconds due next, event = .advance milliseconds ∧
        deployment.timer? = some (.running due) ∧
        (deployment.step event).2.timer? = some (.running next)) ∨
      (∃ hosted, event = .start hosted ∧ (deployment.step event).1 = .started (.ok true)) ∨
      (event = .stop ∨ event = .drop) ∧ (deployment.step event).2.Halted := by
  cases event with
  | record | relist | failNext => exact .inl rfl
  | mark | select => exact .inl (deployment.timer?_operate fun _ => rfl)
  | rebuild => exact .inl deployment.timer?_step_rebuild
  | drop => exact .inr (.inr (.inr ⟨.inr rfl, deployment.halted_step_drop⟩))
  | stop => exact .inr (.inr (.inr ⟨.inl rfl, deployment.halted_step_stop⟩))
  | advance milliseconds =>
      by_cases running : ∃ due, deployment.timer? = some (.running due)
      · obtain ⟨due, armed⟩ := running
        obtain ⟨next, renewed⟩ := (deployment.elapses_advance milliseconds).exists_running armed
        exact .inr (.inl ⟨milliseconds, due, next, rfl, armed, renewed⟩)
      · have nothing : deployment.dueMoments (deployment.clock + milliseconds) = [] :=
          dueMoments_eq_nil fun due armed => absurd ⟨due, armed⟩ running
        refine .inl ?_
        simp only [step, advance, nothing, List.foldl_nil]
        rfl
  | start hosted =>
      cases held : deployment.engine with
      | none => simp [step, operate, held, timer?]
      | some engine =>
          simp only [step, operate, held, timer?, Option.map_some, Engine.start]
          cases timer : engine.timer with
          | idle => cases hosted <;> simp [timer]
          | running due => simp [timer]
          | stopped => simp [timer]

end LatencyBalancer.Deployment
