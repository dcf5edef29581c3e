import LatencyBalancer.Proofs.Config.Grammar

/-!
# Reading configuration documents

Reading a document succeeds exactly on the texts of the grammar whose numbers suit their settings,
and gives the configuration that holds these numbers and the defaults.  Every reader has two
lemmas: what it accepts is a part of the grammar, and every such part is accepted in front of
anything that does not prolong it.
-/

namespace LatencyBalancer

open Json (Blank Ends IsBlank NumberLiteral Spells Writes skipBlanks)

namespace Config

open Json.Number (once)
open Setting (Gives)

variable {config final : Config} {setting : Setting} {text rest : List Char}

/-! ### Settings -/

theorem eq_append_of_readSetting (read : config.readSetting setting text = .ok (final, rest)) :
    ∃ before written literal value, text = before ++ (written ++ rest) ∧ Blank before ∧
      Writes written literal ∧ Gives once setting literal value ∧
      config.put setting value = final := by
  unfold readSetting at read
  split at read
  next => contradiction
  next found behind valueRead =>
    obtain ⟨assigned, assignedSame, rfl, rfl⟩ := Json.map_eq_ok_iff.mp read
    obtain ⟨number, rfl⟩ := exists_number_of_assign assignedSame
    obtain ⟨before, blank, same⟩ := Json.exists_blank text
    obtain ⟨written, literal, skipped, writes, finite⟩ := Json.eq_append_of_readValue valueRead
    obtain ⟨value, gives, put⟩ := gives_of_assign finite assignedSame
    exact ⟨before, written, literal, value, by rw [← skipped, ← same], blank, writes, gives, put⟩

theorem readSetting_append {before written : List Char} {literal : NumberLiteral}
    {value : SettingValue} (blank : Blank before) (writes : Writes written literal)
    (gives : Gives once setting literal value) (ends : Ends rest) :
    config.readSetting setting (before ++ (written ++ rest)) =
      .ok (config.put setting value, rest) := by
  obtain ⟨number, finite, assigned⟩ := assign_of_gives config gives
  have read := Json.readValue_append writes finite ends
  obtain ⟨first, later, rfl, begins⟩ := writes.exists_cons
  rw [List.cons_append] at read ⊢
  rw [readSetting, Json.skipBlanks_append blank, Json.skipBlanks_cons begins.visible, read]
  simp only [assigned, Except.map]

/-! ### Lists -/

theorem eq_append_of_readElements {settings : List Setting}
    (read : config.readElements settings text = .ok (final, rest)) :
    ∃ contents literals, text = contents ++ ']' :: rest ∧ Separated Writes contents literals ∧
      literals.length ≤ settings.length ∧ Assigns config (settings.zip literals) final := by
  induction settings generalizing config text with
  | nil => cases read
  | cons setting settings inductionHypothesis =>
      rw [readElements] at read
      split at read
      next => contradiction
      next next behind settingRead =>
        obtain ⟨before, written, literal, value, rfl, blank, writes, gives, rfl⟩ :=
          eq_append_of_readSetting settingRead
        obtain ⟨blanks, blankBehind, same⟩ := Json.exists_blank behind
        split at read
        next => cases read
        next closed =>
          obtain ⟨rfl, rfl⟩ := read
          rw [closed] at same
          refine ⟨_, [literal], ?_, .last blank writes blankBehind, by simp, ?_⟩
          · rw [same]
            simp
          · simpa using Assigns.cons gives .nil
        next later comma =>
          rw [comma] at same
          split at read
          next => cases read
          next => cases read
          next => cases read
          next =>
            obtain ⟨contents, literals, skipped, separated, few, assigns⟩ :=
              inductionHypothesis read
            obtain ⟨between, blankBetween, sameLater⟩ := Json.exists_blank later
            refine ⟨_, literal :: literals, ?_, .more blank writes blankBehind
              (separated.blank_append blankBetween), by simpa using few, .cons gives assigns⟩
            rw [same, sameLater, skipped]
            simp
        next => cases read

theorem readElements_skipBlanks (settings : List Setting) (text : List Char) :
    config.readElements settings (skipBlanks text) = config.readElements settings text := by
  cases settings with
  | nil => rfl
  | cons setting settings =>
      rw [readElements, readElements, readSetting, readSetting, Json.skipBlanks_skipBlanks]

theorem readElements_append {settings : List Setting} {contents : List Char}
    {literals : List NumberLiteral} (separated : Separated Writes contents literals)
    (few : literals.length ≤ settings.length)
    (assigns : Assigns config (settings.zip literals) final) (rest : List Char) :
    config.readElements settings (contents ++ ']' :: rest) = .ok (final, rest) := by
  induction separated generalizing settings config with
  | last blank writes blankBehind =>
      obtain ⟨setting, settings, rfl⟩ := List.exists_cons_of_length_pos few
      rw [List.zip_cons_cons, List.zip_nil_right] at assigns
      obtain _ | ⟨gives, _ | _⟩ := assigns
      have ends := Json.ends_of_blank blankBehind (.inr (.inl rfl)) rest
      rw [List.append_assoc, List.append_assoc, readElements,
        readSetting_append blank writes gives ends]
      simp only [Json.skipBlanks_append blankBehind,
        Json.skipBlanks_cons (by decide : ¬ IsBlank ']')]
  | more blank writes blankBehind separated inductionHypothesis =>
      obtain ⟨setting, settings, rfl⟩ := List.exists_cons_of_length_pos (Nat.zero_lt_of_lt few)
      rw [List.zip_cons_cons] at assigns
      obtain _ | ⟨gives, assigns⟩ := assigns
      rename_i later literal literals value
      have ends := Json.ends_of_blank blankBehind (.inl rfl) (later ++ ']' :: rest)
      have fewer : literals.length ≤ settings.length := Nat.le_of_succ_le_succ few
      have further := inductionHypothesis fewer assigns
      rw [← readElements_skipBlanks] at further
      obtain ⟨more, unclosed⟩ := separated.begins_number (']' :: rest)
      simp only [List.append_assoc, List.cons_append]
      rw [readElements, readSetting_append blank writes gives ends]
      simp only [Json.skipBlanks_append blankBehind,
        Json.skipBlanks_cons (by decide : ¬ IsBlank ',')]
      split
      next => cases further
      next none => exact absurd none more
      next closed => exact absurd closed (unclosed _)
      next => exact further

theorem eq_append_of_readList (read : config.readList text = .ok (final, rest)) :
    ∃ contents literals, text = contents ++ ']' :: rest ∧ Contents Writes contents literals ∧
      literals.length ≤ Setting.all.length ∧ Assigns config (Setting.all.zip literals) final := by
  obtain ⟨before, blank, same⟩ := Json.exists_blank text
  unfold readList at read
  split at read
  next => cases read
  next behind closed =>
    obtain ⟨rfl, rfl⟩ := read
    rw [closed] at same
    refine ⟨before, [], same, .blank blank, Nat.zero_le _, ?_⟩
    rw [List.zip_nil_right]
    exact .nil
  next =>
    obtain ⟨contents, literals, skipped, separated, few, assigns⟩ :=
      eq_append_of_readElements read
    refine ⟨before ++ contents, literals, ?_, .separated (separated.blank_append blank), few,
      assigns⟩
    rw [same, skipped, List.append_assoc]

theorem readList_append {contents : List Char} {literals : List NumberLiteral}
    (written : Contents Writes contents literals) (few : literals.length ≤ Setting.all.length)
    (assigns : Assigns config (Setting.all.zip literals) final) (rest : List Char) :
    config.readList (contents ++ ']' :: rest) = .ok (final, rest) := by
  cases written with
  | blank blank =>
      obtain _ | _ := assigns
      simp only [readList, Json.skipBlanks_append blank,
        Json.skipBlanks_cons (by decide : ¬ IsBlank ']')]
  | separated separated =>
      obtain ⟨more, unclosed⟩ := separated.begins_number (']' :: rest)
      unfold readList
      split
      next none => exact absurd none more
      next closed => exact absurd closed (unclosed _)
      next =>
        rw [readElements_skipBlanks]
        exact readElements_append separated few assigns rest

/-! ### Objects -/

theorem eq_append_of_readKey {pending : List Setting} {key : { setting // setting ∈ pending }}
    (read : readKey pending text = .ok (key, rest)) :
    ∃ spelled, text = '"' :: (spelled ++ '"' :: rest) ∧ Spells spelled key.val.key.toList := by
  unfold readKey at read
  split at read
  next => cases read
  next text =>
    split at read
    next => cases read
    next characters behind stringRead =>
      split at read
      next => cases read
      next setting found =>
        split at read
        next fresh =>
          obtain ⟨rfl, rfl⟩ := read
          obtain ⟨spelled, rfl, spells⟩ := Json.eq_append_of_readString stringRead
          rw [Setting.eq_key_of_ofKey? found] at spells
          exact ⟨spelled, rfl, spells⟩
        next => cases read
  next => cases read

theorem readKey_append {pending : List Setting} {spelled : List Char}
    (spells : Spells spelled setting.key.toList) (fresh : setting ∈ pending)
    (rest : List Char) :
    readKey pending ('"' :: (spelled ++ '"' :: rest)) = .ok (⟨setting, fresh⟩, rest) := by
  simp [readKey, Json.readString_append spells, fresh]

theorem eq_append_of_readBinding (read : config.readBinding setting text = .ok (final, rest)) :
    ∃ before behind written literal value, text = before ++ ':' :: (behind ++ (written ++ rest)) ∧
      Blank before ∧ Blank behind ∧ Writes written literal ∧ Gives once setting literal value ∧
      config.put setting value = final := by
  obtain ⟨before, blank, same⟩ := Json.exists_blank text
  unfold readBinding at read
  split at read
  next => cases read
  next later colon =>
    obtain ⟨behind, written, literal, value, rfl, rest⟩ := eq_append_of_readSetting read
    rw [colon] at same
    exact ⟨before, behind, written, literal, value, same, blank, rest⟩
  next => cases read

theorem readBinding_append {before behind written : List Char} {literal : NumberLiteral}
    {value : SettingValue} (blank : Blank before) (blankBehind : Blank behind)
    (writes : Writes written literal) (gives : Gives once setting literal value)
    (ends : Ends rest) :
    config.readBinding setting (before ++ ':' :: (behind ++ (written ++ rest))) =
      .ok (config.put setting value, rest) := by
  rw [readBinding, Json.skipBlanks_append blank, Json.skipBlanks_cons (by decide)]
  exact readSetting_append blankBehind writes gives ends

theorem eq_append_of_readMember {pending : List Setting} {fresh : setting ∈ pending}
    {behindKey : List Char} (keyRead : readKey pending text = .ok (⟨setting, fresh⟩, behindKey))
    (read : config.readBinding setting behindKey = .ok (final, rest)) :
    ∃ written literal value, text = written ++ rest ∧ WritesMember written (setting, literal) ∧
      Gives once setting literal value ∧ config.put setting value = final := by
  obtain ⟨spelled, rfl, spells⟩ := eq_append_of_readKey keyRead
  obtain ⟨before, behind, written, literal, value, rfl, blank, blankBehind, writes, gives, put⟩ :=
    eq_append_of_readBinding read
  exact ⟨_, literal, value, by simp, .member spells blank blankBehind writes, gives, put⟩

theorem readMember_append (config : Config) {pending : List Setting} {written : List Char}
    {literal : NumberLiteral} {value : SettingValue}
    (writes : WritesMember written (setting, literal)) (fresh : setting ∈ pending)
    (gives : Gives once setting literal value) (ends : Ends rest) :
    ∃ behindKey, readKey pending (written ++ rest) = .ok (⟨setting, fresh⟩, behindKey) ∧
      config.readBinding setting behindKey = .ok (config.put setting value, rest) := by
  obtain ⟨spells, blank, blankBehind, writes⟩ := writes
  simp only [List.append_assoc, List.cons_append]
  exact ⟨_, readKey_append spells fresh _, readBinding_append blank blankBehind writes gives ends⟩

theorem eq_append_of_readMembers {pending : List Setting} (distinct : pending.Nodup)
    (read : config.readMembers pending text = .ok (final, rest)) :
    ∃ contents givens, text = contents ++ '\x7d' :: rest ∧
      Separated WritesMember contents givens ∧ (givens.map Prod.fst).Nodup ∧
      (∀ setting ∈ givens.map Prod.fst, setting ∈ pending) ∧ Assigns config givens final := by
  fun_induction readMembers config pending text with
  | case1 => cases read
  | case2 => cases read
  | case3 => cases read
  | case4 config pending text setting fresh behindKey keyRead next behind bindingRead rest closed =>
      obtain ⟨rfl, rfl⟩ := read
      obtain ⟨written, literal, value, rfl, writes, gives, rfl⟩ :=
        eq_append_of_readMember keyRead bindingRead
      obtain ⟨blanks, blank, same⟩ := Json.exists_blank behind
      rw [closed] at same
      refine ⟨_, [(setting, literal)], ?_, .last Blank.nil writes blank, by simp,
        by simpa using fresh, .cons gives .nil⟩
      simp [same]
  | case5 config pending text setting fresh behindKey keyRead next behind bindingRead later comma
      inductionHypothesis =>
      obtain ⟨written, literal, value, rfl, writes, gives, rfl⟩ :=
        eq_append_of_readMember keyRead bindingRead
      obtain ⟨contents, givens, skipped, separated, others, among, assigns⟩ :=
        inductionHypothesis (distinct.erase setting) read
      obtain ⟨blanks, blank, same⟩ := Json.exists_blank behind
      obtain ⟨between, blankBetween, sameLater⟩ := Json.exists_blank later
      rw [comma, sameLater, skipped] at same
      refine ⟨_, (setting, literal) :: givens, ?_, .more Blank.nil writes blank
        (separated.blank_append blankBetween), ?_, ?_, .cons gives assigns⟩
      · simp [same]
      · refine List.nodup_cons.mpr ⟨fun repeated => ?_, others⟩
        exact distinct.not_mem_erase (among setting repeated)
      · rintro other (_ | ⟨_, present⟩)
        · exact fresh
        · exact List.mem_of_mem_erase (among other present)
  | case6 => cases read

theorem readMembers_append {pending : List Setting} {contents : List Char}
    {givens : List (Setting × NumberLiteral)} (separated : Separated WritesMember contents givens)
    (distinct : (givens.map Prod.fst).Nodup)
    (among : ∀ setting ∈ givens.map Prod.fst, setting ∈ pending)
    (assigns : Assigns config givens final) (rest : List Char) :
    config.readMembers pending (skipBlanks (contents ++ '\x7d' :: rest)) = .ok (final, rest) := by
  induction separated generalizing pending config with
  | last blank writes blankBehind =>
      obtain _ | ⟨gives, _ | _⟩ := assigns
      have ends := Json.ends_of_blank blankBehind (.inr (.inr rfl)) rest
      obtain ⟨behindKey, keyRead, bindingRead⟩ :=
        readMember_append config writes (among _ (by simp)) gives ends
      rw [List.append_assoc, List.append_assoc, Json.skipBlanks_append blank,
        writes.skipBlanks_append, readMembers, keyRead]
      simp only [bindingRead, Json.skipBlanks_append blankBehind,
        Json.skipBlanks_cons (by decide : ¬ IsBlank '\x7d')]
  | @more _ _ _ later given givens blank writes blankBehind separated inductionHypothesis =>
      obtain ⟨fresh, others⟩ := List.nodup_cons.mp distinct
      obtain ⟨pendingFirst, among⟩ := List.forall_mem_cons.mp among
      have remaining : ∀ setting ∈ givens.map Prod.fst, setting ∈ pending.erase given.1 := by
        intro setting present
        refine (List.mem_erase_of_ne ?_).mpr (among setting present)
        rintro rfl
        exact fresh present
      obtain _ | ⟨gives, assigns⟩ := assigns
      have ends := Json.ends_of_blank blankBehind (.inl rfl) (later ++ '\x7d' :: rest)
      obtain ⟨behindKey, keyRead, bindingRead⟩ :=
        readMember_append config writes pendingFirst gives ends
      simp only [List.append_assoc, List.cons_append]
      rw [Json.skipBlanks_append blank, writes.skipBlanks_append, readMembers, keyRead]
      simp only [bindingRead, Json.skipBlanks_append blankBehind,
        Json.skipBlanks_cons (by decide : ¬ IsBlank ',')]
      exact inductionHypothesis others remaining assigns

theorem eq_append_of_readObject (read : config.readObject text = .ok (final, rest)) :
    ∃ contents givens, text = contents ++ '\x7d' :: rest ∧
      Contents WritesMember contents givens ∧ (givens.map Prod.fst).Nodup ∧
      Assigns config givens final := by
  obtain ⟨before, blank, same⟩ := Json.exists_blank text
  unfold readObject at read
  split at read
  next behind closed =>
    obtain ⟨rfl, rfl⟩ := read
    rw [closed] at same
    exact ⟨before, [], same, .blank blank, List.nodup_nil, .nil⟩
  next =>
    obtain ⟨contents, givens, skipped, separated, distinct, _, assigns⟩ :=
      eq_append_of_readMembers Setting.nodup_all read
    refine ⟨before ++ contents, givens, ?_, .separated (separated.blank_append blank), distinct,
      assigns⟩
    rw [same, skipped, List.append_assoc]

theorem readObject_append {contents : List Char} {givens : List (Setting × NumberLiteral)}
    (written : Contents WritesMember contents givens) (distinct : (givens.map Prod.fst).Nodup)
    (assigns : Assigns config givens final) (rest : List Char) :
    config.readObject (contents ++ '\x7d' :: rest) = .ok (final, rest) := by
  cases written with
  | blank blank =>
      obtain _ | _ := assigns
      simp only [readObject, Json.skipBlanks_append blank,
        Json.skipBlanks_cons (by decide : ¬ IsBlank '\x7d')]
  | separated separated =>
      have read := readMembers_append separated distinct (fun setting _ => setting.mem_all)
        assigns rest
      obtain ⟨first, behind, skipped, rfl⟩ := separated.skipBlanks_append
        (by rintro _ rfl; decide) (fun _ _ => WritesMember.exists_cons) ('\x7d' :: rest)
      rw [skipped] at read
      rw [readObject, skipped]
      exact read

/-! ### Documents -/

theorem eq_append_of_readSettings (read : config.readSettings text = .ok (final, rest)) :
    ∃ inside givens, text = inside ++ rest ∧ Enclosed inside givens ∧
      Updates once config givens final := by
  unfold readSettings at read
  split at read
  next =>
    obtain ⟨contents, literals, rfl, written, few, assigns⟩ := eq_append_of_readList read
    have enclosed := Enclosed.list written few
    exact ⟨_, _, by simp, enclosed, (assigns_iff enclosed.distinct).mp assigns⟩
  next =>
    obtain ⟨contents, givens, rfl, written, distinct, assigns⟩ := eq_append_of_readObject read
    have enclosed := Enclosed.object written distinct
    exact ⟨_, _, by simp, enclosed, (assigns_iff distinct).mp assigns⟩
  next => split at read <;> cases read

theorem readSettings_append {inside : List Char} {givens : List (Setting × NumberLiteral)}
    (enclosed : Enclosed inside givens) (updates : Updates once config givens final)
    (rest : List Char) : config.readSettings (inside ++ rest) = .ok (final, rest) := by
  have assigns := (assigns_iff enclosed.distinct).mpr updates
  cases enclosed with
  | list written few => simpa [readSettings] using readList_append written few assigns rest
  | object written distinct =>
      simpa [readSettings] using readObject_append written distinct assigns rest

/-- Reading succeeds on the documents whose numbers suit their settings, and the configuration
holds just those numbers. -/
theorem ofDocument_eq_ok_iff :
    ofDocument text = .ok config ↔
      ∃ givens, Document text givens ∧ Updates once { } givens config := by
  constructor
  · intro read
    obtain ⟨before, blank, same⟩ := Json.exists_blank text
    unfold ofDocument at read
    split at read
    next => cases read
    next found rest settingsRead =>
      split at read
      next nothing =>
        cases read
        obtain ⟨inside, givens, skipped, enclosed, updates⟩ :=
          eq_append_of_readSettings settingsRead
        refine ⟨givens, ?_, updates⟩
        rw [same, skipped]
        exact .enclosed blank enclosed (Json.skipBlanks_eq_nil_iff.mp nothing)
      next => cases read
  · rintro ⟨givens, ⟨blank, enclosed, blankBehind⟩, updates⟩
    rename_i before inside behind
    have visible : skipBlanks (inside ++ behind) = inside ++ behind := by
      cases enclosed <;> exact Json.skipBlanks_cons (by decide) _
    rw [ofDocument, Json.skipBlanks_append blank, visible, readSettings_append enclosed updates]
    exact if_pos (Json.skipBlanks_eq_nil_iff.mpr blankBehind)

end Config

end LatencyBalancer
