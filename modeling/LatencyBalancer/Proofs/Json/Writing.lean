import LatencyBalancer.Json.Value
import LatencyBalancer.Proofs.Json.Spelling

/-!
# How numbers are written

A number has an optional minus sign, digits without a leading zero, and then optionally a fraction
and an exponent.  Reading one succeeds exactly on the texts that begin with such a literal whose
value is finite, and takes the longest one.
-/

namespace LatencyBalancer.Json

structure WritesDigits (written : List Char) (digits : List Nat) : Prop where
  nonempty : written ≠ []
  areDigits : ∀ character ∈ written, character.isDigit = true
  same : written.map digit = digits

inductive WritesFraction : List Char → Option (List Nat) → Prop where
  | none : WritesFraction [] none
  | point {written : List Char} {digits : List Nat} :
      WritesDigits written digits → WritesFraction ('.' :: written) (some digits)

inductive WritesSign : List Char → Bool → Prop where
  | none : WritesSign [] false
  | plus : WritesSign ['+'] false
  | minus : WritesSign ['-'] true

inductive WritesExponent : List Char → Option (Bool × List Nat) → Prop where
  | none : WritesExponent [] none
  | power {letter : Char} {sign written : List Char} {negative : Bool} {digits : List Nat} :
      letter = 'e' ∨ letter = 'E' → WritesSign sign negative → WritesDigits written digits →
      WritesExponent (letter :: (sign ++ written)) (some (negative, digits))

inductive Writes : List Char → NumberLiteral → Prop where
  | literal {whole fraction exponent : List Char} (negative : Bool) {digits : List Nat}
      {behindPoint : Option (List Nat)} {power : Option (Bool × List Nat)} :
      WritesDigits whole digits → (digits.head? = some 0 → digits = [0]) →
      WritesFraction fraction behindPoint → WritesExponent exponent power →
      Writes ((if negative then ['-'] else []) ++ (whole ++ (fraction ++ exponent)))
        ⟨negative, digits, behindPoint, power⟩

/-- No literal can be longer when such a text follows it. -/
def Ends (rest : List Char) : Prop :=
  ∀ character ∈ rest.head?,
    character.isDigit = false ∧ character ≠ '.' ∧ character ≠ 'e' ∧ character ≠ 'E'

def NoDigit (rest : List Char) : Prop :=
  ∀ character ∈ rest.head?, character.isDigit = false

theorem Ends.noDigit {rest : List Char} (ends : Ends rest) : NoDigit rest :=
  fun character first => (ends character first).1

/-- Where a value may end: at a comma, a closing bracket, or blanks before one. -/
theorem ends_of_blank {blanks : List Char} (blank : Blank blanks) {mark : Char}
    (closes : mark = ',' ∨ mark = ']' ∨ mark = '\x7d') (rest : List Char) :
    Ends (blanks ++ mark :: rest) := by
  rintro character first
  cases blanks with
  | nil =>
      cases first
      rcases closes with rfl | rfl | rfl <;> decide
  | cons character blanks =>
      cases first
      rcases blank character List.mem_cons_self with rfl | rfl | rfl | rfl <;> decide

/-! ### Digits -/

theorem WritesDigits.exists_cons {written : List Char} {digits : List Nat}
    (writes : WritesDigits written digits) :
    ∃ first later, written = first :: later ∧ first.isDigit = true := by
  obtain ⟨first, later, rfl⟩ := List.exists_cons_of_ne_nil writes.nonempty
  exact ⟨first, later, rfl, writes.areDigits first List.mem_cons_self⟩

theorem ne_of_isDigit {character other : Char} (isDigit : character.isDigit = true)
    (noDigit : other.isDigit = false) : character ≠ other := by
  rintro rfl
  rw [isDigit] at noDigit
  contradiction

theorem eq_append_of_readDigits {text rest : List Char} {digits : List Nat}
    (read : readDigits text = .ok (digits, rest)) :
    ∃ written, text = written ++ rest ∧ WritesDigits written digits := by
  cases text with
  | nil => contradiction
  | cons character text =>
      simp only [readDigits] at read
      split at read
      next isDigit =>
        obtain ⟨rfl, rfl⟩ := read
        refine ⟨(character :: text).takeWhile Char.isDigit, ?_, ?_, ?_, rfl⟩
        · exact List.takeWhile_append_dropWhile.symm
        · simp [isDigit]
        · exact fun _ taken => List.mem_takeWhile_imp taken
      next => contradiction

theorem readDigits_append {written rest : List Char} {digits : List Nat}
    (writes : WritesDigits written digits) (noDigit : NoDigit rest) :
    readDigits (written ++ rest) = .ok (digits, rest) := by
  have taken : takeDigits (written ++ rest) = (digits, rest) := by
    have stops : rest.takeWhile Char.isDigit = [] ∧ rest.dropWhile Char.isDigit = rest := by
      cases rest with
      | nil => exact ⟨rfl, rfl⟩
      | cons character rest => simp [noDigit character rfl]
    rw [takeDigits, List.takeWhile_append_of_pos writes.areDigits,
      List.dropWhile_append_of_pos writes.areDigits, stops.1, stops.2, List.append_nil,
      writes.same]
  obtain ⟨first, later, rfl, isDigit⟩ := writes.exists_cons
  rw [List.cons_append] at taken ⊢
  rw [readDigits, if_pos isDigit, taken]

theorem eq_append_of_readWhole {text rest : List Char} {digits : List Nat}
    (read : readWhole text = .ok (digits, rest)) :
    (digits.head? = some 0 → digits = [0]) ∧
      ∃ written, text = written ++ rest ∧ WritesDigits written digits := by
  unfold readWhole at read
  split at read
  next => contradiction
  next alone =>
    refine ⟨?_, eq_append_of_readDigits read⟩
    intro leads
    match digits, leads with
    | [_], rfl => rfl
    | 0 :: second :: later, rfl => exact absurd read (alone second later rest)

theorem readWhole_append {written rest : List Char} {digits : List Nat}
    (writes : WritesDigits written digits) (alone : digits.head? = some 0 → digits = [0])
    (noDigit : NoDigit rest) : readWhole (written ++ rest) = .ok (digits, rest) := by
  rw [readWhole, readDigits_append writes noDigit]
  split
  next leading =>
    obtain ⟨rfl, rfl⟩ := leading
    exact absurd (alone rfl) (by simp)
  next => rfl

/-! ### Fractions and exponents -/

theorem eq_append_of_readFraction {text rest : List Char} {fraction : Option (List Nat)}
    (read : readFraction text = .ok (fraction, rest)) :
    ∃ written, text = written ++ rest ∧ WritesFraction written fraction := by
  cases text with
  | nil =>
      obtain ⟨rfl, rfl⟩ := read
      exact ⟨[], rfl, .none⟩
  | cons character text =>
      simp only [readFraction] at read
      split at read
      next isPoint =>
        obtain ⟨⟨digits, behind⟩, digitsRead, rfl, rfl⟩ := map_eq_ok_iff.mp read
        obtain ⟨written, rfl, writes⟩ := eq_append_of_readDigits digitsRead
        exact ⟨'.' :: written, by simp [isPoint], .point writes⟩
      next =>
        obtain ⟨rfl, rfl⟩ := read
        exact ⟨[], rfl, .none⟩

theorem readFraction_append {written rest : List Char} {fraction : Option (List Nat)}
    (writes : WritesFraction written fraction) (noDigit : NoDigit rest)
    (noPoint : ∀ character ∈ rest.head?, character ≠ '.') :
    readFraction (written ++ rest) = .ok (fraction, rest) := by
  cases writes with
  | none =>
      cases rest with
      | nil => rfl
      | cons character rest => exact if_neg (noPoint character rfl)
  | point writes => simp [readFraction, readDigits_append writes noDigit, Except.map]

theorem exists_sign_of_takeSign (text : List Char) :
    ∃ sign, text = sign ++ (takeSign text).2 ∧ WritesSign sign (takeSign text).1 := by
  cases text with
  | nil => exact ⟨[], rfl, .none⟩
  | cons character text =>
      by_cases isMinus : character = '-'
      · subst isMinus
        exact ⟨['-'], rfl, .minus⟩
      · by_cases isPlus : character = '+'
        · subst isPlus
          exact ⟨['+'], rfl, .plus⟩
        · simp only [takeSign, if_neg isMinus, if_neg isPlus]
          exact ⟨[], rfl, .none⟩

theorem takeSign_append {sign written : List Char} {negative : Bool} {digits : List Nat}
    (signed : WritesSign sign negative) (writes : WritesDigits written digits)
    (rest : List Char) :
    takeSign (sign ++ (written ++ rest)) = (negative, written ++ rest) := by
  cases signed with
  | none =>
      obtain ⟨first, later, rfl, isDigit⟩ := writes.exists_cons
      have noMinus : first ≠ '-' := ne_of_isDigit isDigit rfl
      have noPlus : first ≠ '+' := ne_of_isDigit isDigit rfl
      simp [takeSign, noMinus, noPlus]
  | plus => rfl
  | minus => rfl

theorem eq_append_of_readExponent {text rest : List Char} {exponent : Option (Bool × List Nat)}
    (read : readExponent text = .ok (exponent, rest)) :
    ∃ written, text = written ++ rest ∧ WritesExponent written exponent := by
  cases text with
  | nil =>
      obtain ⟨rfl, rfl⟩ := read
      exact ⟨[], rfl, .none⟩
  | cons character text =>
      simp only [readExponent] at read
      split at read
      next isLetter =>
        obtain ⟨⟨digits, behind⟩, digitsRead, rfl, rfl⟩ := map_eq_ok_iff.mp read
        obtain ⟨sign, signed, writesSign⟩ := exists_sign_of_takeSign text
        obtain ⟨written, same, writes⟩ := eq_append_of_readDigits digitsRead
        refine ⟨_, ?_, .power isLetter writesSign writes⟩
        rw [List.cons_append, List.append_assoc, ← same, ← signed]
      next =>
        obtain ⟨rfl, rfl⟩ := read
        exact ⟨[], rfl, .none⟩

theorem WritesFraction.noDigit {written rest : List Char} {fraction : Option (List Nat)}
    (writes : WritesFraction written fraction) (noDigit : NoDigit rest) :
    NoDigit (written ++ rest) := by
  cases writes with
  | none => exact noDigit
  | point writes =>
      rintro character ⟨⟩
      rfl

theorem WritesExponent.noPoint {written rest : List Char} {exponent : Option (Bool × List Nat)}
    (writes : WritesExponent written exponent) (ends : Ends rest) :
    NoDigit (written ++ rest) ∧ ∀ character ∈ (written ++ rest).head?, character ≠ '.' := by
  cases writes with
  | none => exact ⟨ends.noDigit, fun character first => (ends character first).2.1⟩
  | power isLetter signed writes =>
      rcases isLetter with rfl | rfl
      · exact ⟨by rintro character ⟨⟩; rfl, by rintro character ⟨⟩; decide⟩
      · exact ⟨by rintro character ⟨⟩; rfl, by rintro character ⟨⟩; decide⟩

theorem readExponent_append {written rest : List Char} {exponent : Option (Bool × List Nat)}
    (writes : WritesExponent written exponent) (ends : Ends rest) :
    readExponent (written ++ rest) = .ok (exponent, rest) := by
  cases writes with
  | none =>
      cases rest with
      | nil => rfl
      | cons character rest =>
          obtain ⟨_, _, notSmall, notCapital⟩ := ends character rfl
          exact if_neg (not_or.mpr ⟨notSmall, notCapital⟩)
  | power isLetter signed writes =>
      rw [List.cons_append, List.append_assoc, readExponent, if_pos isLetter]
      simp [takeSign_append signed writes, readDigits_append writes ends.noDigit, Except.map]

/-! ### Literals -/

theorem eq_append_takeMinus (text : List Char) :
    text = (if (takeMinus text).1 then ['-'] else []) ++ (takeMinus text).2 := by
  cases text with
  | nil => rfl
  | cons character text =>
      by_cases isMinus : character = '-'
      · subst isMinus
        rfl
      · simp [takeMinus, isMinus]

theorem takeMinus_append (negative : Bool) {written : List Char} {digits : List Nat}
    (writes : WritesDigits written digits) (rest : List Char) :
    takeMinus ((if negative then ['-'] else []) ++ (written ++ rest)) =
      (negative, written ++ rest) := by
  cases negative with
  | true => rfl
  | false =>
      obtain ⟨first, later, rfl, isDigit⟩ := writes.exists_cons
      exact if_neg (ne_of_isDigit isDigit rfl)

theorem eq_append_of_readLiteral {text rest : List Char} {literal : NumberLiteral}
    (read : readLiteral text = .ok (literal, rest)) :
    ∃ written, text = written ++ rest ∧ Writes written literal := by
  simp only [readLiteral] at read
  split at read
  next => contradiction
  next digits behindWhole wholeRead =>
    split at read
    next => contradiction
    next behindPoint behindFraction fractionRead =>
      obtain ⟨⟨power, rest⟩, exponentRead, rfl, rfl⟩ := map_eq_ok_iff.mp read
      obtain ⟨alone, whole, wholeSame, writesWhole⟩ := eq_append_of_readWhole wholeRead
      obtain ⟨fraction, rfl, writesFraction⟩ := eq_append_of_readFraction fractionRead
      obtain ⟨exponent, rfl, writesExponent⟩ := eq_append_of_readExponent exponentRead
      refine ⟨_, ?_,
        .literal (takeMinus text).1 writesWhole alone writesFraction writesExponent⟩
      rw [List.append_assoc, List.append_assoc, List.append_assoc, ← wholeSame]
      exact eq_append_takeMinus text

theorem readLiteral_append {written rest : List Char} {literal : NumberLiteral}
    (writes : Writes written literal) (ends : Ends rest) :
    readLiteral (written ++ rest) = .ok (literal, rest) := by
  obtain ⟨negative, writesWhole, alone, writesFraction, writesExponent⟩ := writes
  obtain ⟨noDigit, noPoint⟩ := writesExponent.noPoint ends
  simp only [readLiteral, List.append_assoc, takeMinus_append negative writesWhole,
    readWhole_append writesWhole alone (writesFraction.noDigit noDigit),
    readFraction_append writesFraction noDigit noPoint, readExponent_append writesExponent ends,
    Except.map]

def BeginsNumber (character : Char) : Prop :=
  character = '-' ∨ character.isDigit = true

instance (character : Char) : Decidable (BeginsNumber character) :=
  inferInstanceAs (Decidable (_ ∨ _))

theorem BeginsNumber.visible {character : Char} (begins : BeginsNumber character) :
    ¬ IsBlank character := by
  rintro (rfl | rfl | rfl | rfl) <;> exact absurd begins (by decide)

theorem Writes.exists_cons {written : List Char} {literal : NumberLiteral}
    (writes : Writes written literal) :
    ∃ first later, written = first :: later ∧ BeginsNumber first := by
  obtain ⟨negative, writesWhole, _, _, _⟩ := writes
  cases negative with
  | true => exact ⟨'-', _, rfl, .inl rfl⟩
  | false =>
      obtain ⟨first, later, rfl, isDigit⟩ := writesWhole.exists_cons
      exact ⟨first, _, rfl, .inr isDigit⟩

/-! ### Values -/

theorem readValue_of_begins {character : Char} (rest : List Char)
    (begins : BeginsNumber character) :
    readValue (character :: rest) =
      (readNumber (character :: rest)).map fun (number, rest) => (.number number, rest) := by
  unfold readValue
  simp only
  split
  next => exact absurd begins (by decide)
  next => exact absurd begins (by decide)
  next => exact absurd begins (by decide)
  next => exact absurd begins (by decide)
  next => exact absurd begins (by decide)
  next => exact absurd begins (by decide)
  next => exact if_pos begins

theorem eq_append_of_readNumber {text rest : List Char} {number : Number}
    (read : readNumber text = .ok (number, rest)) :
    ∃ written literal, text = written ++ rest ∧ Writes written literal ∧
      literal.value? = some number := by
  unfold readNumber at read
  split at read
  next => contradiction
  next literal behind literalRead =>
    split at read
    next => contradiction
    next finite =>
      obtain ⟨rfl, rfl⟩ := read
      obtain ⟨written, rfl, writes⟩ := eq_append_of_readLiteral literalRead
      exact ⟨written, literal, rfl, writes, finite⟩

theorem not_readWord (word : String) {value : Value} {text rest : List Char} {number : Number}
    (different : value ≠ .number number) :
    readWord word value text ≠ .ok (.number number, rest) := by
  intro read
  obtain ⟨_, _, same⟩ := map_eq_ok_iff.mp read
  exact different (congrArg Prod.fst same)

theorem eq_append_of_readValue {text rest : List Char} {number : Number}
    (read : readValue text = .ok (.number number, rest)) :
    ∃ written literal, text = written ++ rest ∧ Writes written literal ∧
      literal.value? = some number := by
  unfold readValue at read
  split at read
  next => contradiction
  next character text =>
    split at read
    next => exact absurd read (not_readWord _ (by simp))
    next => exact absurd read (not_readWord _ (by simp))
    next => exact absurd read (not_readWord _ (by simp))
    next => obtain ⟨_, _, ⟨⟩⟩ := map_eq_ok_iff.mp read
    next => cases read
    next => cases read
    next =>
      split at read
      next =>
        obtain ⟨⟨found, rest⟩, numberRead, rfl, rfl⟩ := map_eq_ok_iff.mp read
        exact eq_append_of_readNumber numberRead
      next => contradiction

theorem readValue_append {written rest : List Char} {literal : NumberLiteral} {number : Number}
    (writes : Writes written literal) (finite : literal.value? = some number)
    (ends : Ends rest) : readValue (written ++ rest) = .ok (.number number, rest) := by
  obtain ⟨first, later, rfl, begins⟩ := writes.exists_cons
  have read := readLiteral_append writes ends
  rw [List.cons_append] at read ⊢
  rw [readValue_of_begins _ begins, readNumber, read]
  simp only [finite, Except.map]

theorem value?_eq_natural_iff {literal : NumberLiteral} {value : Nat} :
    literal.value? = some (.natural value) ↔
      literal.IsInteger ∧ literal.negative = false ∧ ofDigits literal.whole = value ∧
        value < UInt64.size := by
  unfold NumberLiteral.value?
  simp only
  split
  next isNatural =>
    obtain ⟨integer, unsigned, small⟩ := isNatural
    simp only [Option.some.injEq, Number.natural.injEq]
    constructor
    · rintro rfl
      exact ⟨integer, by simpa using unsigned, rfl, small⟩
    · exact fun holds => holds.2.2.1
  next notNatural =>
    have never : ¬ (literal.IsInteger ∧ literal.negative = false ∧
        ofDigits literal.whole = value ∧ value < UInt64.size) := by
      rintro ⟨integer, unsigned, rfl, small⟩
      exact notNatural ⟨integer, by simp [unsigned], small⟩
    simp only [never, iff_false]
    split
    next => simp
    next => simp

end LatencyBalancer.Json
