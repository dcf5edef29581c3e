import LatencyBalancer.Proofs.Config.Meaning

/-!
# The grammar of configuration documents

A document is an object that names some of the settings, each once and in any order, or a list of
at most as many numbers as there are settings.  Blanks may stand around every part of it.
-/

namespace LatencyBalancer

open Json (Blank IsBlank NumberLiteral Spells Writes skipBlanks)

/-- Entries with commas between them and blanks around them. -/
inductive Separated {Entry : Type} (Writing : List Char → Entry → Prop) :
    List Char → List Entry → Prop where
  | last {before written behind : List Char} {entry : Entry} :
      Blank before → Writing written entry → Blank behind →
      Separated Writing (before ++ (written ++ behind)) [entry]
  | more {before written behind later : List Char} {entry : Entry} {entries : List Entry} :
      Blank before → Writing written entry → Blank behind → Separated Writing later entries →
      Separated Writing (before ++ (written ++ (behind ++ ',' :: later))) (entry :: entries)

inductive Contents {Entry : Type} (Writing : List Char → Entry → Prop) :
    List Char → List Entry → Prop where
  | blank {text : List Char} : Blank text → Contents Writing text []
  | separated {text : List Char} {entries : List Entry} :
      Separated Writing text entries → Contents Writing text entries

/-- A member of an object: the key of a setting in any spelling, a colon, and a number. -/
inductive WritesMember : List Char → Setting × NumberLiteral → Prop where
  | member {setting : Setting} {spelled before behind written : List Char}
      {literal : NumberLiteral} :
      Spells spelled setting.key.toList → Blank before → Blank behind → Writes written literal →
      WritesMember ('"' :: (spelled ++ '"' :: (before ++ ':' :: (behind ++ written))))
        (setting, literal)

/-- The settings of a document in their brackets, with the literals that they are given. -/
inductive Enclosed : List Char → List (Setting × NumberLiteral) → Prop where
  | list {contents : List Char} {literals : List NumberLiteral} :
      Contents Writes contents literals → literals.length ≤ Setting.all.length →
      Enclosed ('[' :: (contents ++ [']'])) (Setting.all.zip literals)
  | object {contents : List Char} {givens : List (Setting × NumberLiteral)} :
      Contents WritesMember contents givens → (givens.map Prod.fst).Nodup →
      Enclosed ('\x7b' :: (contents ++ ['\x7d'])) givens

inductive Document : List Char → List (Setting × NumberLiteral) → Prop where
  | enclosed {before inside behind : List Char} {givens : List (Setting × NumberLiteral)} :
      Blank before → Enclosed inside givens → Blank behind →
      Document (before ++ (inside ++ behind)) givens

section Separated

variable {Entry : Type} {Writing : List Char → Entry → Prop} {text : List Char}
  {entries : List Entry}

theorem Separated.blank_append {blanks : List Char} (blank : Blank blanks)
    (separated : Separated Writing text entries) :
    Separated Writing (blanks ++ text) entries := by
  have widened : ∀ {before : List Char}, Blank before → Blank (blanks ++ before) :=
    fun blankBefore character present =>
      (List.mem_append.mp present).elim (blank character) (blankBefore character)
  cases separated with
  | last before writes behind =>
      rw [← List.append_assoc]
      exact .last (widened before) writes behind
  | more before writes behind later =>
      rw [← List.append_assoc]
      exact .more (widened before) writes behind later

/-- Behind the blanks in front, the first entry begins. -/
theorem Separated.skipBlanks_append {Begins : Char → Prop}
    (visible : ∀ character, Begins character → ¬ IsBlank character)
    (begins : ∀ written entry, Writing written entry →
      ∃ first later, written = first :: later ∧ Begins first)
    (separated : Separated Writing text entries) (rest : List Char) :
    ∃ first later, skipBlanks (text ++ rest) = first :: later ∧ Begins first := by
  cases separated with
  | last before writes behind =>
      obtain ⟨first, later, rfl, begins⟩ := begins _ _ writes
      rw [List.append_assoc, Json.skipBlanks_append before]
      exact ⟨first, _, Json.skipBlanks_cons (visible first begins) _, begins⟩
  | more before writes behind later =>
      obtain ⟨first, later, rfl, begins⟩ := begins _ _ writes
      rw [List.append_assoc, Json.skipBlanks_append before]
      exact ⟨first, _, Json.skipBlanks_cons (visible first begins) _, begins⟩

end Separated

/-- Where numbers follow, a list neither ends nor breaks off. -/
theorem Separated.begins_number {contents : List Char} {literals : List NumberLiteral}
    (separated : Separated Writes contents literals) (rest : List Char) :
    skipBlanks (contents ++ rest) ≠ [] ∧
      ∀ behind, skipBlanks (contents ++ rest) ≠ ']' :: behind := by
  obtain ⟨first, later, skipped, begins⟩ := separated.skipBlanks_append
    (fun _ => Json.BeginsNumber.visible) (fun _ _ => Writes.exists_cons) rest
  rw [skipped]
  refine ⟨List.cons_ne_nil _ _, fun behind closed => ?_⟩
  obtain ⟨rfl, _⟩ := List.cons.inj closed
  exact absurd begins (by decide)

theorem WritesMember.exists_cons {written : List Char} {given : Setting × NumberLiteral}
    (writes : WritesMember written given) :
    ∃ first later, written = first :: later ∧ first = '"' := by
  obtain ⟨_, _, _, _⟩ := writes
  exact ⟨_, _, rfl, rfl⟩

theorem WritesMember.skipBlanks_append {written : List Char} {given : Setting × NumberLiteral}
    (writes : WritesMember written given) (rest : List Char) :
    skipBlanks (written ++ rest) = written ++ rest := by
  obtain ⟨first, later, rfl, rfl⟩ := writes.exists_cons
  exact Json.skipBlanks_cons (by decide) _

theorem map_fst_zip_sublist (settings : List Setting) (literals : List NumberLiteral) :
    ((settings.zip literals).map Prod.fst).Sublist settings := by
  induction settings generalizing literals with
  | nil => simp
  | cons setting settings inductionHypothesis =>
      cases literals with
      | nil => simp
      | cons literal literals => simpa using inductionHypothesis literals

theorem nodup_map_fst_zip (literals : List NumberLiteral) :
    ((Setting.all.zip literals).map Prod.fst).Nodup :=
  Setting.nodup_all.sublist (map_fst_zip_sublist Setting.all literals)

theorem Enclosed.distinct {inside : List Char} {givens : List (Setting × NumberLiteral)}
    (enclosed : Enclosed inside givens) : (givens.map Prod.fst).Nodup := by
  cases enclosed with
  | list _ _ => exact nodup_map_fst_zip _
  | object _ distinct => exact distinct

theorem Document.distinct {text : List Char} {givens : List (Setting × NumberLiteral)}
    (document : Document text givens) : (givens.map Prod.fst).Nodup := by
  obtain ⟨_, enclosed, _⟩ := document
  exact enclosed.distinct

end LatencyBalancer
