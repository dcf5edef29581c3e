import LatencyBalancer.Proofs.Deployment.Publishing
import LatencyBalancer.Proofs.Selection.Reasons
import LatencyBalancer.Proofs.Tree.Building
import LatencyBalancer.Proofs.Tree.Proportion

/-!
# Published trees

Whatever happens to an engine, a tree that it publishes is well built, because it was built by a
cycle from what the lookup of that cycle gave.  A selection therefore never meets a fault of the
tree, and it lacks a tree only when none is published.
-/

namespace LatencyBalancer

theorem Config.exists_build_of_published {config : Config} {lists : List (List Member)}
    {tree : WeightTree Server} (current : (config.published lists).current = some tree) :
    ∃ members ∈ lists, config.build members = .built tree := by
  obtain ⟨members, last, same⟩ := Option.bind_eq_some_iff.mp current
  refine ⟨members, List.mem_of_getLast? last, ?_⟩
  cases attempt : config.build members with
  | built other => rw [attempt, Build.tree?_built, Option.some.injEq] at same; rw [same]
  | insufficient eligible total => simp [attempt] at same

/-- What holds of the tree of an engine and of every selection. -/
structure Engine.WellPublished (engine : Engine) : Prop where
  wellBuilt : ∀ tree, engine.publication.current = some tree → engine.config.WellBuilt tree
  selects : ∀ candidates tried tape, candidates ≠ [] →
    tape.Serves (max engine.config.maxAttempts 1 + 1) →
    ∃ selection rest, engine.select candidates tried tape = some (some selection, rest)
  faultless : ∀ candidates tried tape selection rest,
    engine.select candidates tried tape = some (some selection, rest) →
    ∀ server, selection ≠ .fallback server .samplingFault
  noTree : ∀ candidates tried tape selection rest,
    engine.select candidates tried tape = some (some selection, rest) →
    ((∃ server, selection = .fallback server .noTree) ↔ engine.publication.current = none)

theorem Engine.wellPublished_of_published {engine : Engine} {lists : List (List Member)}
    (published : engine.publication = engine.config.published lists)
    (weighable : ∀ members ∈ lists, Config.Weighable members.length) : engine.WellPublished := by
  have origin : ∀ tree, engine.publication.current = some tree →
      ∃ members ∈ lists, engine.config.build members = .built tree := by
    rw [published]
    exact fun tree => Config.exists_build_of_published
  refine ⟨?_, ?_, ?_, ?_⟩
  · intro tree current
    obtain ⟨members, listed, built⟩ := origin tree current
    exact Config.wellBuilt_of_build built (weighable members listed)
  · exact fun candidates tried tape present serves => Selector.exists_selection present serves
  · intro candidates tried tape selection rest selected
    refine Selector.ne_samplingFault ?_ selected
    intro tree current before error after
    obtain ⟨members, listed, built⟩ := origin tree current
    obtain ⟨shares, covered, _, positive⟩ :=
      Config.exists_covers_of_build built (weighable members listed)
    exact WeightTree.pick_ne_error covered positive before after error
  · exact fun candidates tried tape selection rest selected => Selector.noTree_iff selected

namespace Deployment

/-! ### What lookups give -/

theorem listing_cycle (deployment : Deployment) (engine : Engine) :
    (deployment.cycle engine).2.names.listing = deployment.names.listing := by
  rw [names_cycle, NameService.listing_lookup]

theorem listing_tick (deployment : Deployment) (moment : Nat) :
    (deployment.tick moment).names.listing = deployment.names.listing := by
  unfold tick
  split
  · rfl
  · exact listing_cycle _ _

theorem listing_ticks (deployment : Deployment) (moments : List Nat) :
    (moments.foldl tick deployment).names.listing = deployment.names.listing := by
  induction moments generalizing deployment with
  | nil => rfl
  | cons moment moments inductionHypothesis =>
      exact (inductionHypothesis (deployment.tick moment)).trans (deployment.listing_tick moment)

theorem listing_step (deployment : Deployment) {event : Event}
    (kept : ∀ places, event ≠ .relist places) :
    (deployment.step event).2.names.listing = deployment.names.listing := by
  cases event with
  | relist places => exact absurd rfl (kept places)
  | record place latencies => rfl
  | failNext failure => rfl
  | drop => rfl
  | advance milliseconds => exact deployment.listing_ticks _
  | mark | select | start | stop => rw [step, operate_eq]
  | rebuild =>
      cases held : deployment.engine with
      | none => simp only [step, held]
      | some engine => simpa only [step, held] using deployment.listing_cycle engine

/-- The servers listed now are few enough to be weighed. -/
def Weighable (deployment : Deployment) : Prop :=
  Config.Weighable deployment.names.listing.snapshot.length

variable {deployment : Deployment}

theorem Weighable.of_listing_eq (weighable : deployment.Weighable) {later : Deployment}
    (same : later.names.listing = deployment.names.listing) : later.Weighable := by
  unfold Weighable
  rwa [same]

theorem Weighable.found (weighable : deployment.Weighable) {members : List Member}
    (found : deployment.found = .ok members) : Config.Weighable members.length := by
  unfold Deployment.found NameService.lookup at found
  split at found
  next =>
    obtain rfl := Except.ok.inj found
    exact Config.Weighable.least weighable (List.length_filterMap_le _ _)
  next => contradiction

theorem Weighable.step (weighable : deployment.Weighable) {event : Event}
    (few : ∀ places, event = .relist places → Config.Weighable places.length) :
    (deployment.step event).2.Weighable := by
  by_cases relisted : ∃ places, event = .relist places
  · obtain ⟨places, rfl⟩ := relisted
    exact few places rfl
  · exact weighable.of_listing_eq
      (deployment.listing_step fun places same => relisted ⟨places, same⟩)

theorem Weighable.effective_cycleIncidents (weighable : deployment.Weighable) (timed : Bool) :
    ∀ members ∈ effective (deployment.cycleIncidents timed), Config.Weighable members.length := by
  intro members listed
  unfold cycleIncidents at listed
  split at listed
  · simp at listed
  · simp only [effective_cycled, effective_nil, List.append_nil, Option.mem_toList] at listed
    exact weighable.found (CycleRecord.effect?_eq_some_iff.mp listed).1

theorem Weighable.effective_tickIncidents (weighable : deployment.Weighable)
    (moments : List Nat) :
    ∀ members ∈ effective (deployment.tickIncidents moments),
      Config.Weighable members.length := by
  induction moments generalizing deployment with
  | nil => simp [tickIncidents]
  | cons moment moments inductionHypothesis =>
      rw [tickIncidents, effective_append, List.forall_mem_append]
      constructor
      · have ringing : (deployment.ring moment).Weighable := weighable
        exact ringing.effective_cycleIncidents true
      · exact inductionHypothesis (weighable.of_listing_eq (deployment.listing_tick moment))

theorem Weighable.effective_incidents (weighable : deployment.Weighable) (event : Event) :
    ∀ members ∈ effective (deployment.incidents event), Config.Weighable members.length := by
  cases event with
  | advance milliseconds => exact weighable.effective_tickIncidents _
  | rebuild => exact weighable.effective_cycleIncidents false
  | _ => simp [effective_incidents_of_ne]

theorem Weighable.effective_chronicle (weighable : deployment.Weighable) {events : List Event}
    (few : ∀ places, .relist places ∈ events → Config.Weighable places.length) :
    ∀ members ∈ effective (deployment.chronicle events), Config.Weighable members.length := by
  induction events generalizing deployment with
  | nil => simp
  | cons event events inductionHypothesis =>
      rw [chronicle_cons, effective_append, List.forall_mem_append]
      constructor
      · exact weighable.effective_incidents event
      · apply inductionHypothesis
        · exact weighable.step fun places same => few places (same ▸ List.mem_cons_self)
        · exact fun places later => few places (List.mem_cons_of_mem _ later)

variable {config : Config} {pool : Array Member} {listed : List Nat} {fresh : Deployment}

/-- The tree of an engine is well built at every point of a run, and no selection meets a fault. -/
theorem run_wellPublished (created : create config pool listed = .ok fresh) (events : List Event)
    (weighable : Config.Weighable listed.length)
    (few : ∀ places, .relist places ∈ events → Config.Weighable places.length)
    (engine : Engine) (present : (fresh.run events).engine = some engine) :
    engine.config = config ∧ engine.WellPublished := by
  have same := config_run created present
  have published := publication_run created present
  have begins : fresh.Weighable := by
    obtain ⟨_, rfl⟩ := create_eq_ok created
    exact weighable
  rw [← same] at published
  exact ⟨same, Engine.wellPublished_of_published published (begins.effective_chronicle few)⟩

/-- The second cycle finds the servers that are listed anew. -/
theorem run_wellPublished_relisted :
    ∃ engine, (begun.run [.rebuild, .relist [0, 1], .start true, .advance 150]).engine = some engine ∧
      (engine.config = brisk ∧ engine.WellPublished) ∧
      engine.publication.current.map WeightTree.totalWeight = some 114 := by
  have shown : (begun.run [.rebuild, .relist [0, 1], .start true, .advance 150]).engine.map
      (·.publication.current.map WeightTree.totalWeight) = some (some 114) := by decide +kernel
  obtain ⟨engine, present, total⟩ := Option.map_eq_some_iff.mp shown
  refine ⟨engine, present, ?_, total⟩
  apply run_wellPublished create_begun _ (by decide) _ engine present
  intro places listed
  obtain rfl : places = [0, 1] := by simpa using listed
  decide

end Deployment

end LatencyBalancer
