import LatencyBalancer.Proofs.Deployment.Publishing
import LatencyBalancer.Proofs.Deployment.Timer

/-!
# The schedule of cycles

From its start on, the timer runs a cycle at the end of every interval, until the engine is stopped
or dropped.  How the cycles end does not shift or end the schedule, and neither does anything that
happens in between.  Nothing else asks the naming service but the cycles that are called for.
-/

namespace LatencyBalancer

/-- The moments of the cycles that the timer ran, or of those that somebody asked for. -/
def cycleMoments (timed : Bool) (chronicle : List Incident) : List Nat :=
  chronicle.filterMap fun
    | .marked _ => none
    | .cycled record => if record.timed = timed then some record.moment else none

@[simp]
theorem cycleMoments_nil (timed : Bool) : cycleMoments timed [] = [] := rfl

@[simp]
theorem cycleMoments_append (timed : Bool) (earlier later : List Incident) :
    cycleMoments timed (earlier ++ later) = cycleMoments timed earlier ++ cycleMoments timed later :=
  List.filterMap_append

/-- The time that passes before the engine is stopped or dropped. -/
def timeToHalt : List Event → Nat
  | [] => 0
  | .advance milliseconds :: later => milliseconds + timeToHalt later
  | .stop :: _ | .drop :: _ => 0
  | _ :: later => timeToHalt later

def rebuildCalls : List Event → Nat
  | [] => 0
  | .rebuild :: later => rebuildCalls later + 1
  | .drop :: _ => 0
  | _ :: later => rebuildCalls later

namespace Deployment

variable {deployment : Deployment} {interval start elapsed : Nat}

/-! ### The moments of cycles -/

theorem cycleMoments_cycleIncidents (every : deployment.interval? = some interval) (timed : Bool) :
    cycleMoments timed (deployment.cycleIncidents timed) = [deployment.clock] := by
  obtain ⟨engine, held, _⟩ := Option.map_eq_some_iff.mp every
  simp [cycleMoments, cycleIncidents, held]

theorem cycleMoments_cycleIncidents_of_ne {timed other : Bool} (differ : timed ≠ other) :
    cycleMoments other (deployment.cycleIncidents timed) = [] := by
  unfold cycleIncidents
  split
  · rfl
  · simp [cycleMoments, differ]

theorem cycleMoments_false_tickIncidents (moments : List Nat) :
    cycleMoments false (deployment.tickIncidents moments) = [] := by
  induction moments generalizing deployment with
  | nil => rfl
  | cons moment moments inductionHypothesis =>
      rw [tickIncidents, cycleMoments_append, inductionHypothesis,
        cycleMoments_cycleIncidents_of_ne (by decide), List.append_nil]

theorem cycleMoments_mark (timed : Bool) (servers : List Server) :
    cycleMoments timed (deployment.incidents (.mark servers)) = [] := by
  cases held : deployment.engine <;> simp [incidents, held, cycleMoments]

theorem cycleMoments_true_incidents {event : Event}
    (still : (∃ milliseconds, event = .advance milliseconds) →
      ∀ due, deployment.timer? ≠ some (.running due)) :
    cycleMoments true (deployment.incidents event) = [] := by
  cases event with
  | record | relist | failNext | select | start | stop | drop => rfl
  | mark servers => exact cycleMoments_mark true servers
  | rebuild => exact cycleMoments_cycleIncidents_of_ne (by decide)
  | advance milliseconds =>
      rw [incidents, dueMoments_eq_nil fun due armed => absurd armed (still ⟨_, rfl⟩ due)]
      rfl

/-! ### While the timer runs -/

/-- The timer was started at this moment, and so much time has passed since. -/
structure OnSchedule (interval start elapsed : Nat) (deployment : Deployment) : Prop where
  clock : deployment.clock = start + elapsed
  every : deployment.interval? = some interval
  armed : deployment.timer? = some (.running (start + (elapsed / interval + 1) * interval))

def turns (interval start first count : Nat) : List Nat :=
  (List.range' first count).map fun turn => start + (turn + 1) * interval

theorem turns_succ (interval start first count : Nat) :
    turns interval start first (count + 1) =
      (start + (first + 1) * interval) :: turns interval start (first + 1) count := rfl

theorem turns_append {interval start first second third : Nat} (early : first ≤ second)
    (late : second ≤ third) :
    turns interval start first (second - first) ++ turns interval start second (third - second) =
      turns interval start first (third - first) := by
  obtain ⟨between, rfl⟩ := Nat.exists_eq_add_of_le early
  obtain ⟨behind, rfl⟩ := Nat.exists_eq_add_of_le late
  simp only [turns, ← List.map_append, Nat.add_assoc, Nat.add_sub_cancel_left]
  rw [← Nat.add_assoc, Nat.add_sub_cancel_left, List.range'_append_1]

theorem Elapses.onSchedule {after : Deployment} {chronicle : List Incident} {count : Nat}
    (elapses : Elapses (start + elapsed) deployment chronicle after)
    (every : deployment.interval? = some interval)
    (armed : deployment.timer? = some (.running (start + (count + 1) * interval)))
    (passed : count ≤ elapsed / interval) :
    OnSchedule interval start elapsed after ∧
      cycleMoments true chronicle = turns interval start count (elapsed / interval - count) := by
  have positive := interval_pos every
  generalize limited : start + elapsed = limit at elapses
  induction elapses generalizing count with
  | quiet still =>
      have late : elapsed < (count + 1) * interval := by
        have := still _ armed
        omega
      have same : elapsed / interval = count :=
        Nat.le_antisymm (Nat.le_of_lt_succ ((Nat.div_lt_iff_lt_mul positive).mpr late)) passed
      refine ⟨⟨limited.symm, every, ?_⟩, ?_⟩
      · rw [same]
        exact armed
      · rw [same, Nat.sub_self]
        rfl
  | @rings deployment after due later again reached rest inductionHypothesis =>
      obtain ⟨rfl⟩ := Option.some.inj (armed.symm.trans again)
      have due : (count + 1) * interval ≤ elapsed := by omega
      have further : count + 1 ≤ elapsed / interval := (Nat.le_div_iff_mul_le positive).mpr due
      have renewed := timer?_tick every (start + (count + 1) * interval)
      rw [Nat.add_assoc, ← Nat.succ_mul] at renewed
      obtain ⟨scheduled, moments⟩ :=
        inductionHypothesis ((interval?_tick _ _).trans every) renewed further
      refine ⟨scheduled, ?_⟩
      have more : elapsed / interval - count = elapsed / interval - (count + 1) + 1 := by omega
      rw [cycleMoments_append, moments, more, turns_succ,
        cycleMoments_cycleIncidents ((interval?_ring _ _).trans every)]
      rfl

theorem OnSchedule.advance (scheduled : OnSchedule interval start elapsed deployment)
    (milliseconds : Nat) :
    OnSchedule interval start (elapsed + milliseconds) (deployment.advance milliseconds) ∧
      cycleMoments true (deployment.incidents (.advance milliseconds)) =
        turns interval start (elapsed / interval)
          ((elapsed + milliseconds) / interval - elapsed / interval) := by
  have elapses := deployment.elapses_advance milliseconds
  rw [scheduled.clock, Nat.add_assoc] at elapses
  exact elapses.onSchedule scheduled.every scheduled.armed
    (Nat.div_le_div_right (Nat.le_add_right _ _))

/-- Only time, a stop and a drop concern a timer that runs. -/
theorem OnSchedule.step (scheduled : OnSchedule interval start elapsed deployment) {event : Event}
    (still : ∀ milliseconds, event ≠ .advance milliseconds) (going : event ≠ .stop)
    (held : event ≠ .drop) : OnSchedule interval start elapsed (deployment.step event).2 := by
  refine ⟨(deployment.clock_step still).trans scheduled.clock,
    (deployment.interval?_step held).trans scheduled.every, ?_⟩
  rcases deployment.timer?_step event with
    same | ⟨milliseconds, _, _, rfl, _⟩ | ⟨hosted, rfl, started⟩ | ⟨halting, _⟩
  · exact same.trans scheduled.armed
  · exact absurd rfl (still milliseconds)
  · have idle := (timer?_of_started started).1
    simp [scheduled.armed] at idle
  · rcases halting with rfl | rfl
    · exact absurd rfl going
    · exact absurd rfl held

theorem onSchedule_start {hosted : Bool}
    (started : (deployment.step (.start hosted)).1 = .started (.ok true)) :
    ∃ interval, deployment.interval? = some interval ∧
      OnSchedule interval deployment.clock 0 (deployment.step (.start hosted)).2 := by
  obtain ⟨_, interval, every, armed⟩ := timer?_of_started started
  refine ⟨interval, every, ?_, ?_, ?_⟩
  · exact deployment.clock_step fun _ => by simp
  · rw [interval?_step _ (by simp), every]
  · rw [armed, Nat.zero_div, Nat.zero_add, Nat.one_mul]

/-! ### While it does not run -/

theorem Halted.ne_running (halted : deployment.Halted) (due : Nat) :
    deployment.timer? ≠ some (.running due) := by
  rcases halted with gone | stopped
  · simp [gone]
  · simp [stopped]

theorem Halted.step (halted : deployment.Halted) (event : Event) :
    (deployment.step event).2.Halted := by
  rcases deployment.timer?_step event with
    same | ⟨_, due, _, _, armed, _⟩ | ⟨hosted, rfl, started⟩ | ⟨_, halting⟩
  · unfold Halted
    rwa [same]
  · exact absurd armed (halted.ne_running due)
  · have idle := (timer?_of_started started).1
    rcases halted with gone | stopped
    · simp [gone] at idle
    · simp [stopped] at idle
  · exact halting

theorem Halted.cycleMoments_chronicle (halted : deployment.Halted) (events : List Event) :
    cycleMoments true (deployment.chronicle events) = [] := by
  induction events generalizing deployment with
  | nil => rfl
  | cons event events inductionHypothesis =>
      rw [chronicle_cons, cycleMoments_append, inductionHypothesis (halted.step event),
        cycleMoments_true_incidents fun _ => halted.ne_running]
      rfl

/-! ### Runs -/

theorem OnSchedule.cycleMoments_chronicle (scheduled : OnSchedule interval start elapsed deployment)
    (events : List Event) :
    cycleMoments true (deployment.chronicle events) =
      turns interval start (elapsed / interval)
        ((elapsed + timeToHalt events) / interval - elapsed / interval) := by
  induction events generalizing deployment elapsed with
  | nil =>
      rw [chronicle_nil, timeToHalt, Nat.add_zero, Nat.sub_self]
      rfl
  | cons event events inductionHypothesis =>
      rw [chronicle_cons, cycleMoments_append]
      cases event with
      | advance milliseconds =>
          obtain ⟨later, moments⟩ := scheduled.advance milliseconds
          have rest := inductionHypothesis later
          rw [Nat.add_assoc] at rest
          rw [moments]
          exact (congrArg _ rest).trans (turns_append
            (Nat.div_le_div_right (Nat.le_add_right _ _))
            (Nat.div_le_div_right (by omega)))
      | stop =>
          rw [deployment.halted_step_stop.cycleMoments_chronicle, timeToHalt, Nat.add_zero,
            Nat.sub_self]
          rfl
      | drop =>
          rw [deployment.halted_step_drop.cycleMoments_chronicle, timeToHalt, Nat.add_zero,
            Nat.sub_self]
          rfl
      | record | relist | failNext | mark | rebuild | select | start =>
          rw [cycleMoments_true_incidents (by simp),
            inductionHypothesis (scheduled.step (by simp) (by simp) (by simp))]
          rfl

theorem cycleMoments_chronicle_of_idle {events : List Event}
    (idle : (deployment.run events).timer? = some .idle) :
    deployment.timer? = some .idle ∧ cycleMoments true (deployment.chronicle events) = [] := by
  induction events generalizing deployment with
  | nil => exact ⟨idle, rfl⟩
  | cons event events inductionHypothesis =>
      obtain ⟨after, rest⟩ := inductionHypothesis idle
      have before : deployment.timer? = some .idle := by
        rcases deployment.timer?_step event with
          same | ⟨_, _, _, _, _, running⟩ | ⟨hosted, rfl, started⟩ | ⟨_, halted⟩
        · exact same.symm.trans after
        · simp [running] at after
        · obtain ⟨_, _, _, running⟩ := timer?_of_started started
          simp [running] at after
        · rcases halted with gone | stopped
          · simp [gone] at after
          · simp [stopped] at after
      refine ⟨before, ?_⟩
      rw [chronicle_cons, cycleMoments_append, rest,
        cycleMoments_true_incidents fun _ _ => by simp [before]]
      rfl

theorem cycleMoments_chronicle_of_unstarted {events : List Event}
    (still : ∀ due, deployment.timer? ≠ some (.running due))
    (unstarted : ∀ earlier hosted later, events = earlier ++ .start hosted :: later →
      ((deployment.run earlier).step (.start hosted)).1 ≠ .started (.ok true)) :
    cycleMoments true (deployment.chronicle events) = [] := by
  induction events generalizing deployment with
  | nil => rfl
  | cons event events inductionHypothesis =>
      rw [chronicle_cons, cycleMoments_append, cycleMoments_true_incidents fun _ => still]
      apply inductionHypothesis
      · intro due
        rcases deployment.timer?_step event with
          same | ⟨_, armed, _, _, running, _⟩ | ⟨hosted, rfl, started⟩ | ⟨_, halted⟩
        · rw [same]
          exact still due
        · exact absurd running (still armed)
        · exact absurd started (unstarted [] hosted events rfl)
        · exact Halted.ne_running halted due
      · intro earlier hosted later split
        exact unstarted (event :: earlier) hosted later (congrArg _ split)

theorem exists_turns_of_started {earlier : List Event} {hosted : Bool}
    (started : ((deployment.run earlier).step (.start hosted)).1 = .started (.ok true))
    (later : List Event) :
    ∃ interval, (deployment.run earlier).interval? = some interval ∧
      cycleMoments true (deployment.chronicle (earlier ++ .start hosted :: later)) =
        turns interval (deployment.run earlier).clock 0 (timeToHalt later / interval) := by
  obtain ⟨interval, every, scheduled⟩ := onSchedule_start started
  have idle := (timer?_of_started started).1
  refine ⟨interval, every, ?_⟩
  rw [chronicle_append, cycleMoments_append, (cycleMoments_chronicle_of_idle idle).2,
    chronicle_cons, cycleMoments_append, scheduled.cycleMoments_chronicle later, Nat.zero_add,
    Nat.zero_div, Nat.sub_zero]
  rfl

/-! ### Lookups -/

theorem lookups_step_rebuild (deployment : Deployment) (timed : Bool) :
    (deployment.step .rebuild).2.names.lookups =
      deployment.names.lookups + (cycleMoments timed (deployment.cycleIncidents timed)).length := by
  cases held : deployment.engine with
  | none => simp [step, held, cycleIncidents]
  | some engine =>
      have every : deployment.interval? = some engine.config.rebuildInterval := by
        rw [interval?, held, Option.map_some]
      rw [cycleMoments_cycleIncidents every]
      simp [step, held, names_cycle]

theorem lookups_ticks (deployment : Deployment) (moments : List Nat) :
    (moments.foldl tick deployment).names.lookups =
      deployment.names.lookups + (cycleMoments true (deployment.tickIncidents moments)).length := by
  induction moments generalizing deployment with
  | nil => rfl
  | cons moment moments inductionHypothesis =>
      rw [List.foldl_cons, inductionHypothesis, tickIncidents, cycleMoments_append,
        List.length_append, ← Nat.add_assoc]
      congr 1
      rw [tick_eq_step]
      exact (deployment.ring moment).lookups_step_rebuild true

theorem lookups_step (deployment : Deployment) (event : Event) :
    (deployment.step event).2.names.lookups =
      deployment.names.lookups + (cycleMoments true (deployment.incidents event)).length +
        (cycleMoments false (deployment.incidents event)).length := by
  cases event with
  | record | relist | failNext | drop => rfl
  | select | start | stop =>
      rw [step, operate_eq]
      rfl
  | mark servers =>
      rw [cycleMoments_mark, cycleMoments_mark, step, operate_eq]
      rfl
  | rebuild =>
      rw [lookups_step_rebuild _ false, incidents,
        cycleMoments_cycleIncidents_of_ne Bool.false_ne_true]
      rfl
  | advance milliseconds =>
      rw [incidents, cycleMoments_false_tickIncidents]
      exact deployment.lookups_ticks _

theorem lookups_run (deployment : Deployment) (events : List Event) :
    (deployment.run events).names.lookups =
      deployment.names.lookups + (cycleMoments true (deployment.chronicle events)).length +
        (cycleMoments false (deployment.chronicle events)).length := by
  induction events generalizing deployment with
  | nil => rfl
  | cons event events inductionHypothesis =>
      rw [run_cons, inductionHypothesis, lookups_step, chronicle_cons, cycleMoments_append,
        cycleMoments_append, List.length_append, List.length_append]
      omega

theorem length_cycleMoments_false (every : deployment.interval? = some interval)
    (events : List Event) :
    (cycleMoments false (deployment.chronicle events)).length = rebuildCalls events := by
  induction events generalizing deployment with
  | nil => rfl
  | cons event events inductionHypothesis =>
      rw [chronicle_cons, cycleMoments_append, List.length_append]
      cases event with
      | drop =>
          have nothing := ((deployment.step .drop).2.tells_run events).dropped rfl
          rw [nothing.1]
          rfl
      | rebuild =>
          rw [incidents, cycleMoments_cycleIncidents every,
            inductionHypothesis ((deployment.interval?_step (by simp)).trans every)]
          exact Nat.add_comm _ _
      | advance milliseconds =>
          rw [incidents, cycleMoments_false_tickIncidents,
            inductionHypothesis ((deployment.interval?_step (by simp)).trans every)]
          exact Nat.zero_add _
      | mark servers =>
          rw [cycleMoments_mark,
            inductionHypothesis ((deployment.interval?_step (by simp)).trans every)]
          exact Nat.zero_add _
      | record | relist | failNext | select | start | stop =>
          rw [inductionHypothesis ((deployment.interval?_step (by simp)).trans every)]
          exact Nat.zero_add _

/-- Cycles are run as the timer was set and as they were called for. -/
structure KeepsSchedule (config : Config) (fresh : Deployment) (events : List Event) : Prop where
  /-- Without a start the timer runs no cycle. -/
  silent :
    (∀ earlier hosted later, events = earlier ++ .start hosted :: later →
      ((fresh.run earlier).step (.start hosted)).1 ≠ .started (.ok true)) →
    cycleMoments true (fresh.chronicle events) = [] ∧
      (fresh.run events).names.lookups = rebuildCalls events
  /-- After a start it runs one at the end of every interval, and no other. -/
  punctual : ∀ earlier hosted later, events = earlier ++ .start hosted :: later →
    ((fresh.run earlier).step (.start hosted)).1 = .started (.ok true) →
    cycleMoments true (fresh.chronicle events) =
        ((List.range (timeToHalt later / config.rebuildInterval)).map fun turn =>
          (fresh.run earlier).clock + (turn + 1) * config.rebuildInterval) ∧
      (fresh.run events).names.lookups =
        rebuildCalls events + timeToHalt later / config.rebuildInterval
  /-- A time may be split into any advances. -/
  additive : ∀ first second,
    fresh.run (events ++ [.advance first, .advance second]) =
        fresh.run (events ++ [.advance (first + second)]) ∧
      fresh.chronicle (events ++ [.advance first, .advance second]) =
        fresh.chronicle (events ++ [.advance (first + second)])

variable {config : Config} {pool : Array Member} {listed : List Nat} {fresh : Deployment}

theorem rebuildInterval_of_run (created : create config pool listed = .ok fresh) {events : List Event}
    (every : (fresh.run events).interval? = some interval) : config.rebuildInterval = interval := by
  obtain ⟨engine, present, rfl⟩ := Option.map_eq_some_iff.mp every
  rw [config_run created present]

theorem lookups_run_eq (created : create config pool listed = .ok fresh) (events : List Event) :
    (fresh.run events).names.lookups =
      rebuildCalls events + (cycleMoments true (fresh.chronicle events)).length := by
  obtain ⟨_, rfl⟩ := create_eq_ok created
  rw [lookups_run, length_cycleMoments_false rfl]
  simp only [NameService.ofList]
  omega

theorem run_keepsSchedule (created : create config pool listed = .ok fresh)
    (events : List Event) : KeepsSchedule config fresh events := by
  refine ⟨?_, ?_, ?_⟩
  · intro unstarted
    have none : cycleMoments true (fresh.chronicle events) = [] := by
      apply cycleMoments_chronicle_of_unstarted _ unstarted
      obtain ⟨_, rfl⟩ := create_eq_ok created
      intro due running
      simp [timer?] at running
    refine ⟨none, ?_⟩
    rw [lookups_run_eq created, none]
    rfl
  · rintro earlier hosted later rfl started
    obtain ⟨interval, every, moments⟩ := exists_turns_of_started started later
    rw [rebuildInterval_of_run created every, lookups_run_eq created, moments]
    refine ⟨?_, ?_⟩
    · rw [turns, List.range_eq_range']
    · rw [turns, List.length_map, List.length_range']
  · intro first second
    rw [run_append, run_append, chronicle_append, chronicle_append]
    refine ⟨(fresh.run events).advance_advance first second, congrArg _ ?_⟩
    rw [chronicle_cons, chronicle_cons, chronicle_cons, chronicle_nil, chronicle_nil,
      List.append_nil, List.append_nil]
    exact (fresh.run events).incidents_advance_append first second

/-- The first cycle of the timer fails, and the time is split; a stop comes before the fourth. -/
def interrupted : List Event :=
  [.advance 30, .start true, .failNext ⟨none⟩, .advance 250, .rebuild, .advance 80, .stop,
    .advance 1000]

theorem run_keepsSchedule_interrupted :
    KeepsSchedule brisk begun interrupted ∧
      cycleMoments true (begun.chronicle interrupted) = [130, 230, 330] ∧
      (begun.run interrupted).names.lookups = 4 :=
  ⟨run_keepsSchedule create_begun interrupted, by decide +kernel, by decide +kernel⟩

end Deployment

end LatencyBalancer
