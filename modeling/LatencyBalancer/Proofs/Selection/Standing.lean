import LatencyBalancer.Selection.Reports
import Mathlib.Data.Finset.Card
import Mathlib.Data.List.Basic
import Mathlib.Data.Set.Card

/-!
# Which reports stand

A report stands from when it is made until all reports are dropped together.  What the reports
answer is determined by the ids that stand, so it matters neither in which order nor how often
servers are reported in between, nor by what else than its id a server is known.
-/

namespace LatencyBalancer.Reports

inductive Change where
  /-- Servers are reported as they are then. -/
  | mark (members : List Member)
  | markIds (ids : List ServerId)
  | clear

def Change.reported : Change → List ServerId
  | mark members => members.map fun member => member.server.id
  | markIds ids => ids
  | clear => []

def apply (reports : Reports) : Change → Reports
  | .mark members => reports.mark (members.map Member.server)
  | .markIds ids => reports.insertAll ids
  | .clear => ∅

def run (changes : List Change) : Reports :=
  changes.foldl apply ∅

/-- The id was reported, and the reports have not been dropped since. -/
def Stands (changes : List Change) (id : ServerId) : Prop :=
  ∃ earlier change later, changes = earlier ++ change :: later ∧ id ∈ change.reported ∧
    .clear ∉ later

variable {changes earlier later : List Change} {change : Change} {reports : Reports}
  {id : ServerId}

/-! ### Standing ids -/

theorem not_stands_nil : ¬ Stands [] id := by
  rintro ⟨earlier, change, later, split, _⟩
  simp at split

theorem Stands.append (stands : Stands earlier id) (kept : .clear ∉ later) :
    Stands (earlier ++ later) id := by
  obtain ⟨before, change, after, rfl, reported, uncleared⟩ := stands
  refine ⟨before, change, after ++ later, by simp, reported, ?_⟩
  rw [List.mem_append]
  exact not_or.mpr ⟨uncleared, kept⟩

theorem stands_concat :
    Stands (changes ++ [change]) id ↔
      id ∈ change.reported ∨ change ≠ .clear ∧ Stands changes id := by
  constructor
  · rintro ⟨earlier, reporting, later, split, reported, uncleared⟩
    rcases List.eq_nil_or_concat later with rfl | ⟨between, last, rfl⟩
    · obtain ⟨_, same⟩ := List.append_inj' split rfl
      left
      rwa [(List.cons.inj same).1]
    · rw [List.concat_eq_append, ← List.cons_append, ← List.append_assoc] at split
      obtain ⟨rfl, same⟩ := List.append_inj' split rfl
      rw [List.concat_eq_append, List.mem_append, not_or, List.mem_singleton] at uncleared
      rw [(List.cons.inj same).1]
      exact .inr ⟨Ne.symm uncleared.2, earlier, reporting, between, rfl, reported, uncleared.1⟩
  · rintro (reported | ⟨kept, stands⟩)
    · exact ⟨changes, change, [], rfl, reported, List.not_mem_nil⟩
    · apply stands.append
      rw [List.mem_singleton]
      exact Ne.symm kept

theorem stands_append :
    Stands (earlier ++ later) id ↔ Stands later id ∨ .clear ∉ later ∧ Stands earlier id := by
  induction later using List.reverseRecOn with
  | nil => simp [not_stands_nil]
  | append_singleton between last inductionHypothesis =>
      rw [← List.append_assoc, stands_concat, stands_concat, inductionHypothesis, List.mem_append,
        List.mem_singleton]
      grind

/-! ### The reports after a sequence of changes -/

theorem run_concat (changes : List Change) (change : Change) :
    run (changes ++ [change]) = (run changes).apply change :=
  List.foldl_concat _ _ _ _

theorem mem_apply :
    id ∈ reports.apply change ↔ id ∈ change.reported ∨ change ≠ .clear ∧ id ∈ reports := by
  cases change with
  | mark members => simp [apply, Change.reported]
  | markIds ids => simp [apply, Change.reported]
  | clear => simp [apply, Change.reported]

theorem mem_run : id ∈ run changes ↔ Stands changes id := by
  induction changes using List.reverseRecOn with
  | nil => simp [run, not_stands_nil]
  | append_singleton changes change inductionHypothesis =>
      rw [run_concat, mem_apply, stands_concat, inductionHypothesis]

theorem nodup_insertAll (distinct : reports.ids.Nodup) (ids : List ServerId) :
    (reports.insertAll ids).ids.Nodup := by
  induction ids generalizing reports with
  | nil => exact distinct
  | cons first later inductionHypothesis => exact inductionHypothesis distinct.insert

theorem nodup_run (changes : List Change) : (run changes).ids.Nodup := by
  induction changes using List.reverseRecOn with
  | nil => exact List.nodup_nil
  | append_singleton changes change inductionHypothesis =>
      rw [run_concat]
      cases change with
      | mark members => exact nodup_insertAll inductionHypothesis _
      | markIds ids => exact nodup_insertAll inductionHypothesis ids
      | clear => exact List.nodup_nil

theorem size_run (changes : List Change) :
    (run changes).size = {id | Stands changes id}.ncard := by
  have members : {id | Stands changes id} = (run changes).ids.toFinset := by
    ext id
    simp [← mem_run, mem_iff]
  rw [members, Set.ncard_coe_finset, List.toFinset_card_of_nodup (nodup_run changes)]
  rfl

theorem isEmpty_run : (run changes).isEmpty = true ↔ ¬ ∃ id, Stands changes id := by
  rw [isEmpty, List.isEmpty_iff, List.eq_nil_iff_forall_not_mem, not_exists]
  simp only [← mem_run, mem_iff]

/-! ### What cannot be told apart -/

structure Alike (first second : Reports) : Prop where
  mem_iff : ∀ id, id ∈ first ↔ id ∈ second
  size : first.size = second.size
  isEmpty : first.isEmpty = second.isEmpty

theorem alike_run {others : List Change} (same : ∀ id, Stands changes id ↔ Stands others id) :
    Alike (run changes) (run others) := by
  refine ⟨?_, ?_, ?_⟩
  · intro id
    rw [mem_run, mem_run, same]
  · rw [size_run, size_run]
    simp only [same]
  · rw [Bool.eq_iff_iff, isEmpty_run, isEmpty_run]
    simp only [same]

/-- Changes that leave the same ids standing can be exchanged, whatever went before and whatever
follows. -/
theorem alike_run_of_exchange {between others : List Change}
    (same : ∀ id, Stands between id ↔ Stands others id)
    (clears : .clear ∈ between ↔ .clear ∈ others)
    (earlier later : List Change) :
    Alike (run (earlier ++ between ++ later)) (run (earlier ++ others ++ later)) := by
  apply alike_run
  intro id
  rw [stands_append, stands_append, stands_append, stands_append, same, clears]

theorem Stands.perm {marks reordered : List Change} (stands : Stands marks id)
    (perm : marks.Perm reordered) (kept : .clear ∉ reordered) : Stands reordered id := by
  obtain ⟨_, change, _, rfl, reported, _⟩ := stands
  have listed : change ∈ reordered := perm.mem_iff.mp (by simp)
  obtain ⟨before, after, rfl⟩ := List.append_of_mem listed
  refine ⟨before, change, after, rfl, reported, ?_⟩
  intro cleared
  exact kept (by simp [cleared])

/-- What the reports answer after a sequence of changes, and what does not matter to it later on. -/
structure AnswersForStanding (changes : List Change) : Prop where
  mem_iff : ∀ id, id ∈ run changes ↔ Stands changes id
  size : (run changes).size = {id | Stands changes id}.ncard
  isEmpty : (run changes).isEmpty = true ↔ ¬ ∃ id, Stands changes id
  commuting : ∀ marks reordered later, .clear ∉ marks → marks.Perm reordered →
    Alike (run (changes ++ marks ++ later)) (run (changes ++ reordered ++ later))
  repeating : ∀ mark between later, mark ≠ .clear → .clear ∉ between →
    Alike (run (changes ++ (mark :: between) ++ later))
      (run (changes ++ (mark :: between ++ [mark]) ++ later))
  /-- Of a server only the id counts. -/
  identified : ∀ members later, run (changes ++ .mark members :: later) =
    run (changes ++ .markIds (members.map fun member => member.server.id) :: later)

theorem run_answersForStanding (changes : List Change) : AnswersForStanding changes := by
  refine ⟨fun _ => mem_run, size_run changes, isEmpty_run, ?_, ?_, ?_⟩
  · intro marks reordered later kept perm
    have clears : .clear ∈ marks ↔ .clear ∈ reordered := perm.mem_iff
    apply alike_run_of_exchange _ clears
    intro id
    constructor
    · intro stands
      exact stands.perm perm (mt clears.mpr kept)
    · intro stands
      exact stands.perm perm.symm kept
  · intro mark between later marking kept
    apply alike_run_of_exchange
    · intro id
      rw [stands_concat, and_iff_right marking]
      constructor
      · exact .inr
      · rintro (reported | stands)
        · exact ⟨[], mark, between, rfl, reported, kept⟩
        · exact stands
    · rw [List.mem_append, List.mem_singleton, or_iff_left marking.symm]
  · intro members later
    simp only [run, List.foldl_append, List.foldl_cons, apply, mark, List.map_map,
      Function.comp_def]

/-- A server that is reported in two ways at two addresses, and again after the others. -/
example : (run [.markIds [⟨4⟩], .clear, .mark [Member.new ⟨⟨7⟩, ⟨"10.0.0.1", 8000⟩⟩ 2],
    .markIds [⟨5⟩, ⟨7⟩], .mark [Member.new ⟨⟨7⟩, ⟨"10.0.0.2", 80⟩⟩ 1]]).ids = [⟨5⟩, ⟨7⟩] := by
  decide

end LatencyBalancer.Reports
