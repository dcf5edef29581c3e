import LatencyBalancer.Json.Literal
import Mathlib.Data.List.TakeWhile

/-!
# How strings are spelled

A string may be spelled in many ways, as every character can be escaped.  Reading one succeeds
exactly on the texts that begin with a spelling and a closing quote, and gives what is spelled.
-/

namespace LatencyBalancer.Json

theorem map_eq_ok_iff {Fault First Second : Type} {change : First → Second}
    {reading : Except Fault First} {result : Second} :
    reading.map change = .ok result ↔ ∃ read, reading = .ok read ∧ change read = result := by
  cases reading with
  | error fault => simp [Except.map]
  | ok read => simp [Except.map]

/-! ### Blanks -/

def Blank (text : List Char) : Prop :=
  ∀ character ∈ text, IsBlank character

theorem Blank.nil : Blank [] := nofun

theorem exists_blank (text : List Char) :
    ∃ before, Blank before ∧ text = before ++ skipBlanks text := by
  refine ⟨text.takeWhile fun character => IsBlank character, ?_, ?_⟩
  · intro character taken
    simpa using List.mem_takeWhile_imp taken
  · exact List.takeWhile_append_dropWhile.symm

theorem skipBlanks_append {before : List Char} (blank : Blank before) (text : List Char) :
    skipBlanks (before ++ text) = skipBlanks text :=
  List.dropWhile_append_of_pos fun character present => decide_eq_true (blank character present)

theorem skipBlanks_cons {character : Char} (visible : ¬ IsBlank character) (text : List Char) :
    skipBlanks (character :: text) = character :: text :=
  List.dropWhile_cons_of_neg (by simpa using visible)

theorem skipBlanks_skipBlanks (text : List Char) :
    skipBlanks (skipBlanks text) = skipBlanks text :=
  List.dropWhile_eq_self_iff.mpr (List.dropWhile_get_zero_not _ text)

theorem skipBlanks_eq_nil_iff {text : List Char} : skipBlanks text = [] ↔ Blank text := by
  simp [skipBlanks, Blank, List.dropWhile_eq_nil_iff]

/-! ### Escapes -/

inductive WritesUnit : List Char → Nat → Prop where
  | digits {first second third fourth : Char} {a b c d : Nat} :
      hexDigit? first = some a → hexDigit? second = some b →
      hexDigit? third = some c → hexDigit? fourth = some d →
      WritesUnit [first, second, third, fourth] (((a * 16 + b) * 16 + c) * 16 + d)

/-- The character beyond the first plane that two units stand for. -/
def paired (leading trailing : Nat) : Char :=
  Char.ofNat (0x10000 + (leading - 0xD800) * 0x400 + (trailing - 0xDC00))

inductive Escapes : List Char → Char → Prop where
  | letter {letter character : Char} :
      escaped? letter = some character → Escapes [letter] character
  | unit {digits : List Char} {unit : Nat} :
      WritesUnit digits unit → ¬ IsTrailing unit → ¬ IsLeading unit →
      Escapes ('u' :: digits) (Char.ofNat unit)
  | pair {first second : List Char} {leading trailing : Nat} :
      WritesUnit first leading → IsLeading leading →
      WritesUnit second trailing → IsTrailing trailing →
      Escapes ('u' :: (first ++ '\\' :: 'u' :: second)) (paired leading trailing)

/-- The spellings of a string, without its quotes. -/
inductive Spells : List Char → List Char → Prop where
  | nil : Spells [] []
  | escape {escape spelled characters : List Char} {character : Char} :
      Escapes escape character → Spells spelled characters →
      Spells ('\\' :: (escape ++ spelled)) (character :: characters)
  | plain {character : Char} {spelled characters : List Char} :
      character ≠ '"' → character ≠ '\\' → 0x20 ≤ character.toNat →
      Spells spelled characters → Spells (character :: spelled) (character :: characters)

theorem eq_append_of_readUnit {text rest : List Char} {unit : Nat}
    (read : readUnit text = .ok (unit, rest)) :
    ∃ digits, text = digits ++ rest ∧ WritesUnit digits unit := by
  unfold readUnit at read
  split at read
  next first second third fourth behind =>
    split at read
    next firstDigit secondDigit thirdDigit fourthDigit =>
      obtain ⟨rfl, rfl⟩ := read
      exact ⟨_, rfl, .digits firstDigit secondDigit thirdDigit fourthDigit⟩
    next => contradiction
  next => split at read <;> contradiction

theorem readUnit_append {digits : List Char} {unit : Nat} (written : WritesUnit digits unit)
    (rest : List Char) : readUnit (digits ++ rest) = .ok (unit, rest) := by
  obtain ⟨firstDigit, secondDigit, thirdDigit, fourthDigit⟩ := written
  simp [readUnit, firstDigit, secondDigit, thirdDigit, fourthDigit]

theorem eq_append_of_readTrailing {leading : Nat} {text rest : List Char} {character : Char}
    (read : readTrailing leading text = .ok (character, rest)) :
    ∃ digits trailing, text = '\\' :: 'u' :: (digits ++ rest) ∧ WritesUnit digits trailing ∧
      IsTrailing trailing ∧ paired leading trailing = character := by
  unfold readTrailing at read
  split at read
  next => contradiction
  next behind expected =>
    split at read
    next => contradiction
    next trailing behind unitRead =>
      split at read
      next isTrailing =>
        obtain ⟨same, rest⟩ := Prod.mk.inj (Except.ok.inj read)
        obtain ⟨digits, rfl, written⟩ := eq_append_of_readUnit unitRead
        rw [eq_append_of_expect expected, rest]
        exact ⟨digits, trailing, rfl, written, isTrailing, same⟩
      next => contradiction

theorem readTrailing_append {leading trailing : Nat} {digits : List Char}
    (written : WritesUnit digits trailing) (isTrailing : IsTrailing trailing)
    (rest : List Char) :
    readTrailing leading ('\\' :: 'u' :: (digits ++ rest)) =
      .ok (paired leading trailing, rest) := by
  simp only [readTrailing, expect, if_true, readUnit_append written, if_pos isTrailing, paired]

theorem eq_append_of_readCodePoint {text rest : List Char} {character : Char}
    (read : readCodePoint text = .ok (character, rest)) :
    ∃ digits, text = digits ++ rest ∧ Escapes ('u' :: digits) character := by
  unfold readCodePoint at read
  split at read
  next => contradiction
  next unit behind unitRead =>
    obtain ⟨digits, rfl, written⟩ := eq_append_of_readUnit unitRead
    split at read
    next => contradiction
    next notTrailing =>
      split at read
      next isLeading =>
        obtain ⟨second, trailing, rfl, other, isTrailing, rfl⟩ := eq_append_of_readTrailing read
        exact ⟨_, by simp, .pair written isLeading other isTrailing⟩
      next notLeading =>
        obtain ⟨rfl, rfl⟩ := read
        exact ⟨digits, rfl, .unit written notTrailing notLeading⟩

theorem eq_append_of_readEscape {text rest : List Char} {character : Char}
    (read : readEscape text = .ok (character, rest)) :
    ∃ escape, text = escape ++ rest ∧ Escapes escape character := by
  cases text with
  | nil => contradiction
  | cons letter text =>
      simp only [readEscape] at read
      split at read
      next isUnit =>
        obtain ⟨digits, rfl, escapes⟩ := eq_append_of_readCodePoint read
        exact ⟨'u' :: digits, by simp [isUnit], escapes⟩
      next =>
        split at read
        next found =>
          obtain ⟨rfl, rfl⟩ := read
          exact ⟨[letter], rfl, .letter found⟩
        next => contradiction

theorem readEscape_append {escape : List Char} {character : Char}
    (escapes : Escapes escape character) (rest : List Char) :
    readEscape (escape ++ rest) = .ok (character, rest) := by
  cases escapes with
  | @letter letter _ found =>
      have plain : letter ≠ 'u' := by
        rintro rfl
        simp [escaped?] at found
      simp [readEscape, plain, found]
  | unit written notTrailing notLeading =>
      simp [readEscape, readCodePoint, readUnit_append written, notTrailing, notLeading]
  | pair written isLeading other isTrailing =>
      have notTrailing : ¬ IsTrailing _ := fun high => absurd isLeading.2 (Nat.not_lt.mpr high.1)
      simp [readEscape, readCodePoint, readUnit_append written, notTrailing, isLeading,
        readTrailing_append other isTrailing]

/-- Reading a string succeeds on the texts that begin with a spelling and a closing quote. -/
theorem eq_append_of_readString {text characters rest : List Char}
    (read : readString text = .ok (characters, rest)) :
    ∃ spelled, text = spelled ++ '"' :: rest ∧ Spells spelled characters := by
  fun_induction readString text generalizing characters with
  | case1 => contradiction
  | case2 text =>
      obtain ⟨rfl, rfl⟩ := read
      exact ⟨[], rfl, .nil⟩
  | case3 => contradiction
  | case4 text character behind escaped _ inductionHypothesis =>
      obtain ⟨⟨later, rest⟩, further, rfl, rfl⟩ := map_eq_ok_iff.mp read
      obtain ⟨escape, rfl, escapes⟩ := eq_append_of_readEscape escaped
      obtain ⟨spelled, rfl, spells⟩ := inductionHypothesis further
      exact ⟨_, by simp, .escape escapes spells⟩
  | case5 => contradiction
  | case6 character text noQuote noBackslash visible inductionHypothesis =>
      obtain ⟨⟨later, rest⟩, further, rfl, rfl⟩ := map_eq_ok_iff.mp read
      obtain ⟨spelled, rfl, spells⟩ := inductionHypothesis further
      exact ⟨_, rfl, .plain noQuote noBackslash (Nat.not_lt.mp visible) spells⟩

theorem readString_append {spelled characters : List Char} (spells : Spells spelled characters)
    (rest : List Char) : readString (spelled ++ '"' :: rest) = .ok (characters, rest) := by
  induction spells with
  | nil => simp [readString]
  | @escape escape spelled characters character escapes spells inductionHypothesis =>
      have read := readEscape_append escapes (spelled ++ '"' :: rest)
      rw [List.cons_append, List.append_assoc, readString, if_neg (by decide), if_pos rfl]
      split
      next failed =>
        rw [read] at failed
        contradiction
      next found =>
        rw [read] at found
        obtain ⟨rfl, rfl⟩ := found
        rw [inductionHypothesis]
        rfl
  | plain noQuote noBackslash visible spells inductionHypothesis =>
      rw [List.cons_append, readString]
      simp [noQuote, noBackslash, visible, inductionHypothesis, Except.map]

end LatencyBalancer.Json
