import LatencyBalancer.Proofs.Deployment.Chronicle
import Mathlib.Data.List.Induction

/-!
# What is published

A cycle is effective when its lookup succeeds and gives servers.  At any point of a run the tree
is the one built from what the last effective cycle found, and the generation counts the effective
cycles, as a machine word.  Nothing else that happens to an engine touches either.
-/

namespace LatencyBalancer

namespace Config

/-- What is published after effective cycles that found these servers, list by list. -/
def published (config : Config) (lists : List (List Member)) : Publication Server where
  current := lists.getLast?.bind fun members => (config.build members).tree?
  generation := UInt64.ofNat lists.length

theorem published_concat (config : Config) (lists : List (List Member)) (members : List Member) :
    config.published (lists ++ [members]) =
      (config.published lists).publish (config.build members).tree? := by
  simp [published, Publication.publish, UInt64.ofNat_add]

end Config

namespace Engine

variable {engine : Engine} {record : CycleRecord}

theorem attempt_of_effect?_eq_none (ineffective : record.effect? = none) :
    engine.attempt record.found = engine := by
  rcases CycleRecord.effect?_eq_none_iff.mp ineffective with ⟨failure, failed⟩ | empty
  · rw [failed]
    rfl
  · rw [empty]
    rfl

theorem rebuild_of_ne_nil {members : List Member} (present : members ≠ []) :
    engine.rebuild members =
      (.ofBuild (engine.publication.generation + 1) (engine.config.build members),
        { engine with
          publication := engine.publication.publish (engine.config.build members).tree?
          reports := ∅ }) := by
  unfold rebuild
  rw [if_neg (by simpa using present)]
  rfl

theorem publication_attempt {members : List Member} (effect : record.effect? = some members) :
    (engine.attempt record.found).publication =
      engine.publication.publish (engine.config.build members).tree? := by
  obtain ⟨found, present⟩ := CycleRecord.effect?_eq_some_iff.mp effect
  rw [found, attempt, rebuild_of_ne_nil present]

theorem reports_attempt {members : List Member} (effect : record.effect? = some members) :
    (engine.attempt record.found).reports = ∅ := by
  obtain ⟨found, present⟩ := CycleRecord.effect?_eq_some_iff.mp effect
  rw [found, attempt, rebuild_of_ne_nil present]

@[simp]
theorem config_follow (engine : Engine) (incident : Incident) :
    (engine.follow incident).config = engine.config := by
  cases incident with
  | marked servers => rfl
  | cycled record => exact engine.config_attempt record.found

@[simp]
theorem config_replay (engine : Engine) (chronicle : List Incident) :
    (engine.replay chronicle).config = engine.config := by
  induction chronicle generalizing engine with
  | nil => rfl
  | cons incident later inductionHypothesis => simp [inductionHypothesis]

/-- Only the effective cycles of a chronicle decide what is published at its end. -/
theorem publication_replay (unpublished : engine.publication = Publication.empty)
    (chronicle : List Incident) :
    (engine.replay chronicle).publication = engine.config.published (effective chronicle) := by
  induction chronicle using List.reverseRecOn with
  | nil => exact unpublished
  | append_singleton earlier incident inductionHypothesis =>
      rw [replay_append, effective_append]
      cases incident with
      | marked servers =>
          rw [effective_marked, effective_nil, List.append_nil]
          exact inductionHypothesis
      | cycled record =>
          simp only [replay_cons, replay_nil, follow, effective_cycled, effective_nil,
            List.append_nil]
          cases effect : record.effect? with
          | none =>
              rw [attempt_of_effect?_eq_none effect, inductionHypothesis, Option.toList_none,
                List.append_nil]
          | some members =>
              rw [publication_attempt effect, Option.toList_some, Config.published_concat,
                inductionHypothesis, config_replay]

end Engine

/-- How a cycle ends that comes after effective cycles which found these servers. -/
structure CycleRecord.Follows (config : Config) (earlier : List (List Member))
    (record : CycleRecord) : Prop where
  failed : ∀ failure, record.found = .error failure →
    record.outcome = .error failure ∧ record.published = some (config.published earlier)
  skipped : record.found = .ok [] →
    record.outcome = .ok .skipped ∧ record.published = some (config.published earlier)
  built : ∀ members tree, record.found = .ok members → members ≠ [] →
    config.build members = .built tree →
    record.outcome = .ok (.published tree.leafCount tree.totalWeight
        (UInt64.ofNat (earlier.length + 1))) ∧
      record.published = some ⟨some tree, UInt64.ofNat (earlier.length + 1)⟩
  insufficient : ∀ members eligible total, record.found = .ok members → members ≠ [] →
    config.build members = .insufficient eligible total →
    record.outcome = .ok (.degraded eligible total) ∧
      record.published = some ⟨none, UInt64.ofNat (earlier.length + 1)⟩

theorem Engine.Ran.follows {engine : Engine} {record : CycleRecord} {earlier : List (List Member)}
    (ran : engine.Ran record) (published : engine.publication = engine.config.published earlier) :
    record.Follows engine.config earlier := by
  have outcome := ran.outcome
  have left := ran.published
  have next : engine.publication.generation + 1 = UInt64.ofNat (earlier.length + 1) := by
    rw [published, UInt64.ofNat_add]
    rfl
  refine ⟨?_, ?_, ?_, ?_⟩
  · intro failure failed
    rw [failed] at outcome left
    exact ⟨outcome, left.trans (congrArg some published)⟩
  · intro empty
    rw [empty] at outcome left
    exact ⟨outcome, left.trans (congrArg some published)⟩
  · intro members tree found present built
    rw [found, Except.map, rebuild_of_ne_nil present, built, next] at outcome
    rw [found, attempt, rebuild_of_ne_nil present, built, Publication.publish, next] at left
    exact ⟨outcome, left⟩
  · intro members eligible total found present insufficient
    rw [found, Except.map, rebuild_of_ne_nil present, insufficient] at outcome
    rw [found, attempt, rebuild_of_ne_nil present, insufficient, Publication.publish, next] at left
    exact ⟨outcome, left⟩

/-- The effective cycles are those that publish a tree or withdraw it. -/
theorem CycleRecord.Follows.effect?_iff {config : Config} {earlier : List (List Member)}
    {record : CycleRecord} (follows : record.Follows config earlier) :
    (∃ members, record.effect? = some members) ↔
      (∃ leaves totalWeight generation,
        record.outcome = .ok (.published leaves totalWeight generation)) ∨
      ∃ eligible total, record.outcome = .ok (.degraded eligible total) := by
  cases effect : record.effect? with
  | none =>
      rcases effect?_eq_none_iff.mp effect with ⟨failure, failed⟩ | empty
      · simp [(follows.failed failure failed).1]
      · simp [(follows.skipped empty).1]
  | some members =>
      obtain ⟨found, present⟩ := effect?_eq_some_iff.mp effect
      refine iff_of_true ⟨members, rfl⟩ ?_
      cases attempt : config.build members with
      | built tree => exact .inl ⟨_, _, _, (follows.built members tree found present attempt).1⟩
      | insufficient eligible total =>
          exact .inr ⟨_, _, (follows.insufficient members _ _ found present attempt).1⟩

namespace Deployment

/-- The published tree and its generation are those of the effective cycles of a run. -/
structure PublishesEffectively (config : Config) (fresh : Deployment) (events : List Event) :
    Prop where
  current : ∀ engine, (fresh.run events).engine = some engine →
    engine.publication.current =
      (effective (fresh.chronicle events)).getLast?.bind fun members => (config.build members).tree?
  /-- The count starts over after the largest word. -/
  generation : ∀ engine, (fresh.run events).engine = some engine →
    engine.publication.generation = UInt64.ofNat (effective (fresh.chronicle events)).length
  toNat_generation : (effective (fresh.chronicle events)).length < UInt64.size →
    ∀ engine, (fresh.run events).engine = some engine →
      engine.publication.generation.toNat = (effective (fresh.chronicle events)).length
  cycles : ∀ earlier record later, fresh.chronicle events = earlier ++ .cycled record :: later →
    record.Follows config (effective earlier)
  answers : ∀ outcome, ((fresh.run events).step .rebuild).1 = .rebuilt outcome →
    ∃ record, (fresh.run events).incidents .rebuild = [.cycled record] ∧
      record.outcome = outcome
  unchanged : ∀ event engine next, (fresh.run events).engine = some engine →
    ((fresh.run events).step event).2.engine = some next →
    (event ≠ .rebuild ∧ ∀ milliseconds, event ≠ .advance milliseconds) ∨
      effective ((fresh.run events).incidents event) = [] →
    next.publication = engine.publication

theorem effective_incidents_of_ne (deployment : Deployment) {event : Event}
    (other : event ≠ .rebuild) (still : ∀ milliseconds, event ≠ .advance milliseconds) :
    effective (deployment.incidents event) = [] := by
  cases event with
  | advance milliseconds => exact absurd rfl (still milliseconds)
  | rebuild => exact absurd rfl other
  | mark servers => cases held : deployment.engine <;> simp [incidents, held]
  | record | relist | failNext | select | start | stop | drop => rfl

variable {config : Config} {pool : Array Member} {listed : List Nat} {fresh : Deployment}

theorem config_run (created : create config pool listed = .ok fresh) {events : List Event}
    {engine : Engine} (present : (fresh.run events).engine = some engine) :
    engine.config = config := by
  obtain ⟨first, rfl, _, _, _, replayed⟩ := exists_replays created events
  rw [← engine.config_stop, replayed engine present, Engine.config_replay]

theorem publication_run (created : create config pool listed = .ok fresh) {events : List Event}
    {engine : Engine} (present : (fresh.run events).engine = some engine) :
    engine.publication = config.published (effective (fresh.chronicle events)) := by
  obtain ⟨first, rfl, unpublished, _, _, replayed⟩ := exists_replays created events
  rw [← engine.publication_stop, replayed engine present]
  exact Engine.publication_replay unpublished _

theorem follows_run (created : create config pool listed = .ok fresh) {events : List Event}
    {earlier later : List Incident} {record : CycleRecord}
    (split : fresh.chronicle events = earlier ++ .cycled record :: later) :
    record.Follows config (effective earlier) := by
  obtain ⟨first, rfl, unpublished, _, accounts, _⟩ := exists_replays created events
  rw [split] at accounts
  have soFar := Engine.publication_replay unpublished earlier
  rw [← first.config_replay earlier] at soFar ⊢
  exact accounts.ran.follows soFar

theorem run_publishesEffectively (created : create config pool listed = .ok fresh)
    (events : List Event) : PublishesEffectively config fresh events := by
  refine ⟨?_, ?_, ?_, fun earlier record later split => follows_run created split, ?_, ?_⟩
  · intro engine present
    rw [publication_run created present]
    rfl
  · intro engine present
    rw [publication_run created present]
    rfl
  · intro countable engine present
    rw [publication_run created present]
    exact UInt64.toNat_ofNat_of_lt countable
  · intro outcome answered
    cases held : (fresh.run events).engine with
    | none => simp [step, held] at answered
    | some engine =>
        simp only [step, held, Reply.rebuilt.injEq] at answered
        simp only [incidents, cycleIncidents, held]
        exact ⟨_, rfl, answered⟩
  · intro event engine next present remains ineffective
    have nothing : effective ((fresh.run events).incidents event) = [] := by
      rcases ineffective with ⟨other, still⟩ | nothing
      · exact effective_incidents_of_ne _ other still
      · exact nothing
    have later : (fresh.run (events ++ [event])).engine = some next := by
      rw [run_append]
      exact remains
    rw [publication_run created present, publication_run created later, chronicle_append,
      chronicle_cons, chronicle_nil, effective_append, effective_append, nothing, effective_nil,
      List.append_nil, List.append_nil]

/-- The first cycle weighs a quick server, the timer's weighs it again; of the two that follow one
finds no servers and one fails. -/
def reweighed : List Event :=
  [.rebuild, .record 0 [70, 80], .start true, .advance 150, .relist [], .rebuild,
    .failNext ⟨none⟩, .rebuild]

theorem run_publishesEffectively_reweighed :
    PublishesEffectively brisk begun reweighed ∧
      ((begun.run reweighed).engine.map fun engine =>
        (engine.publication.current.map WeightTree.totalWeight, engine.publication.generation)) =
          some (some 40, 2) :=
  ⟨run_publishesEffectively create_begun reweighed, by decide +kernel⟩

end Deployment

end LatencyBalancer
