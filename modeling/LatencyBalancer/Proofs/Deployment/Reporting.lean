import LatencyBalancer.Proofs.Deployment.Publishing
import LatencyBalancer.Proofs.Selection.Reasons

/-!
# How long reports last

A report holds from the moment it is made until the next effective cycle, and no cycle that was
skipped or whose lookup failed drops it.  While it holds, no selection returns the server if it has
a candidate that was neither tried nor reported.
-/

namespace LatencyBalancer

/-- The server was reported, and no cycle has been effective since. -/
def ReportedSince (chronicle : List Incident) (id : ServerId) : Prop :=
  ∃ earlier servers later, chronicle = earlier ++ .marked servers :: later ∧
    id ∈ servers.map Server.id ∧ effective later = []

section ReportedSince

variable {chronicle later : List Incident} {servers : List Server} {id : ServerId}

theorem not_reportedSince_nil : ¬ ReportedSince [] id := by
  rintro ⟨earlier, servers, later, split, _⟩
  simp at split

theorem ReportedSince.append (reported : ReportedSince chronicle id)
    (ineffective : effective later = []) : ReportedSince (chronicle ++ later) id := by
  obtain ⟨earlier, servers, between, rfl, listed, quiet⟩ := reported
  refine ⟨earlier, servers, between ++ later, by simp, listed, ?_⟩
  rw [effective_append, quiet, ineffective, List.append_nil]

theorem reportedSince_concat {incident : Incident} :
    ReportedSince (chronicle ++ [incident]) id ↔
      (∃ servers, incident = .marked servers ∧ id ∈ servers.map Server.id) ∨
        effective [incident] = [] ∧ ReportedSince chronicle id := by
  constructor
  · rintro ⟨earlier, servers, later, split, listed, quiet⟩
    rcases List.eq_nil_or_concat later with rfl | ⟨between, last, rfl⟩
    · obtain ⟨_, same⟩ := List.append_inj' split rfl
      exact .inl ⟨servers, (List.cons.inj same).1, listed⟩
    · rw [List.concat_eq_append, ← List.cons_append, ← List.append_assoc] at split
      obtain ⟨rfl, same⟩ := List.append_inj' split rfl
      rw [List.concat_eq_append, effective_append, List.append_eq_nil_iff] at quiet
      rw [(List.cons.inj same).1]
      exact .inr ⟨quiet.2, earlier, servers, between, rfl, listed, quiet.1⟩
  · rintro (⟨servers, rfl, listed⟩ | ⟨quiet, reported⟩)
    · exact ⟨chronicle, servers, [], rfl, listed, rfl⟩
    · exact reported.append quiet

end ReportedSince

namespace Engine

variable {engine : Engine}

/-- The reports at the end of a chronicle are those that no effective cycle has dropped. -/
theorem mem_reports_replay (unreported : engine.reports = ∅) {chronicle : List Incident}
    {id : ServerId} : id ∈ (engine.replay chronicle).reports ↔ ReportedSince chronicle id := by
  induction chronicle using List.reverseRecOn with
  | nil => simp [unreported, not_reportedSince_nil]
  | append_singleton earlier incident inductionHypothesis =>
      rw [replay_append, reportedSince_concat, ← inductionHypothesis]
      cases incident with
      | marked servers =>
          change id ∈ (engine.replay earlier).reports.mark servers ↔ _
          simp
      | cycled record =>
          simp only [replay_cons, replay_nil, follow, effective_cycled, effective_nil,
            List.append_nil]
          cases effect : record.effect? with
          | none => simp [attempt_of_effect?_eq_none effect]
          | some members => simp [reports_attempt effect]

end Engine

namespace Deployment

/-- Reports last from when they are made until the next effective cycle. -/
structure KeepsReports (fresh : Deployment) (events : List Event) : Prop where
  reports : ∀ engine, (fresh.run events).engine = some engine → ∀ id,
    id ∈ engine.reports ↔ ReportedSince (fresh.chronicle events) id
  /-- The cycles that drop reports are those that published a tree or withdrew it. -/
  dropping : ∀ record, .cycled record ∈ fresh.chronicle events →
    ((∃ members, record.effect? = some members) ↔
      (∃ leaves totalWeight generation,
        record.outcome = .ok (.published leaves totalWeight generation)) ∨
      ∃ eligible total, record.outcome = .ok (.degraded eligible total))
  avoided : ∀ id, ReportedSince (fresh.chronicle events) id →
    ∀ later, effective ((fresh.run events).chronicle later) = [] →
    ∀ candidates tried tape selection rest,
    ((fresh.run (events ++ later)).step (.select candidates tried tape)).1 =
      .selected (some (some selection, rest)) →
    (∃ candidate ∈ candidates, candidate.id ∉ tried ∧
      ¬ ReportedSince (fresh.chronicle (events ++ later)) candidate.id) →
    selection.server.id ≠ id

variable {config : Config} {pool : Array Member} {listed : List Nat} {fresh : Deployment}

theorem mem_reports_run (created : create config pool listed = .ok fresh) {events : List Event}
    {engine : Engine} (present : (fresh.run events).engine = some engine) {id : ServerId} :
    id ∈ engine.reports ↔ ReportedSince (fresh.chronicle events) id := by
  obtain ⟨first, _, _, unreported, _, replayed⟩ := exists_replays created events
  rw [← engine.reports_stop, replayed engine present]
  exact Engine.mem_reports_replay unreported

theorem run_keepsReports (created : create config pool listed = .ok fresh)
    (events : List Event) : KeepsReports fresh events := by
  refine ⟨fun engine present id => mem_reports_run created present, ?_, ?_⟩
  · intro record member
    obtain ⟨earlier, later, split⟩ := List.append_of_mem member
    exact (follows_run created split).effect?_iff
  · intro id reported later ineffective candidates tried tape selection rest selected free same
    cases held : (fresh.run (events ++ later)).engine with
    | none => simp [step, operate, held] at selected
    | some engine =>
        simp only [step, operate, held, Reply.selected.injEq] at selected
        have best := Selector.bestTier_of_select selected
        have still : ReportedSince (fresh.chronicle (events ++ later)) id := by
          rw [chronicle_append]
          exact reported.append ineffective
        obtain ⟨candidate, present, untried, unreported⟩ := free
        rw [← mem_reports_run created held] at still unreported
        apply (best.fresh ⟨candidate, present, untried, unreported⟩).2
        rw [same]
        exact still

/-- The quick server is reported, and neither of the cycles that follow drops the report. -/
def stillReported : List Event :=
  [.rebuild, .mark [quick], .relist [], .rebuild, .start true, .failNext ⟨none⟩, .advance 150]

/-- Its leaf owns nearly all the draws of the tree, and the other server is selected. -/
theorem run_keepsReports_stillReported :
    KeepsReports begun stillReported ∧
      ((begun.run stillReported).engine.map fun engine =>
        (engine.publication.current.map WeightTree.totalWeight, engine.reports.ids)) =
          some (some 114, [quick.id]) ∧
      ((begun.run stillReported).engine.bind fun engine =>
        (engine.select [quick, slow] [] (.ofList [0, 0, 0, 0])).map fun outcome =>
          outcome.1.map fun selection => selection.server.id) = some (some slow.id) :=
  ⟨run_keepsReports create_begun stillReported, by decide +kernel, by decide +kernel⟩

end Deployment

end LatencyBalancer
