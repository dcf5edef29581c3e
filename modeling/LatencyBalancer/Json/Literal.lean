/-!
The parts of a JSON text: blanks, words, strings.

Every reader takes the text from where it stands and gives back what follows what it read.  It
tells apart a text that ends too early from one that can never become right.
-/

namespace LatencyBalancer.Json

inductive Fault where
  /-- The text ends inside or before a value. -/
  | truncated
  | malformed
deriving DecidableEq, Repr

/-- What was read, and the text behind it. -/
abbrev Reading (Result : Type) := Except Fault (Result × List Char)

def IsBlank (character : Char) : Prop :=
  character = ' ' ∨ character = '\t' ∨ character = '\n' ∨ character = '\r'

instance (character : Char) : Decidable (IsBlank character) :=
  inferInstanceAs (Decidable (_ ∨ _))

def skipBlanks (text : List Char) : List Char :=
  text.dropWhile fun character => IsBlank character

def expect : List Char → List Char → Except Fault (List Char)
  | [], text => .ok text
  | _ :: _, [] => .error .truncated
  | due :: word, character :: text =>
      if character = due then expect word text else .error .malformed

/-! ### Strings -/

/-- The characters that a backslash and a letter stand for. -/
def escaped? : Char → Option Char
  | '"' => some '"'
  | '\\' => some '\\'
  | '/' => some '/'
  | 'b' => some '\x08'
  | 'f' => some '\x0c'
  | 'n' => some '\n'
  | 'r' => some '\r'
  | 't' => some '\t'
  | _ => none

def hexDigit? (character : Char) : Option Nat :=
  if character.isDigit then some (character.toNat - '0'.toNat)
  else if 'a' ≤ character ∧ character ≤ 'f' then some (character.toNat - 'a'.toNat + 10)
  else if 'A' ≤ character ∧ character ≤ 'F' then some (character.toNat - 'A'.toNat + 10)
  else none

/-- A code unit in four hexadecimal digits.  A text of less than four bytes is too short for it,
whatever it holds. -/
def readUnit : List Char → Reading Nat
  | first :: second :: third :: fourth :: text =>
      match hexDigit? first, hexDigit? second, hexDigit? third, hexDigit? fourth with
      | some a, some b, some c, some d => .ok (((a * 16 + b) * 16 + c) * 16 + d, text)
      | _, _, _, _ => .error .malformed
  | short =>
      if (String.ofList short).utf8ByteSize < 4 then .error .truncated else .error .malformed

def IsLeading (unit : Nat) : Prop := 0xD800 ≤ unit ∧ unit < 0xDC00

def IsTrailing (unit : Nat) : Prop := 0xDC00 ≤ unit ∧ unit < 0xE000

instance (unit : Nat) : Decidable (IsLeading unit) := inferInstanceAs (Decidable (_ ∧ _))

instance (unit : Nat) : Decidable (IsTrailing unit) := inferInstanceAs (Decidable (_ ∧ _))

/-- The other half of a character that is written as two units. -/
def readTrailing (leading : Nat) (text : List Char) : Reading Char :=
  match expect ['\\', 'u'] text with
  | .error fault => .error fault
  | .ok behind =>
      match readUnit behind with
      | .error fault => .error fault
      | .ok (trailing, rest) =>
          if IsTrailing trailing then
            .ok (Char.ofNat (0x10000 + (leading - 0xD800) * 0x400 + (trailing - 0xDC00)), rest)
          else .error .malformed

def readCodePoint (text : List Char) : Reading Char :=
  match readUnit text with
  | .error fault => .error fault
  | .ok (unit, rest) =>
      if IsTrailing unit then .error .malformed
      else if IsLeading unit then readTrailing unit rest
      else .ok (Char.ofNat unit, rest)

def readEscape : List Char → Reading Char
  | [] => .error .truncated
  | letter :: text =>
      if letter = 'u' then readCodePoint text
      else
        match escaped? letter with
        | some character => .ok (character, text)
        | none => .error .malformed

theorem eq_append_of_expect {word text rest : List Char} (read : expect word text = .ok rest) :
    text = word ++ rest := by
  induction word generalizing text with
  | nil =>
      cases read
      rfl
  | cons due word inductionHypothesis =>
      cases text with
      | nil => contradiction
      | cons character text =>
          simp only [expect] at read
          split at read
          · rename_i same
            simp [same, inductionHypothesis read]
          · contradiction

theorem length_of_readUnit {text rest : List Char} {unit : Nat}
    (read : readUnit text = .ok (unit, rest)) : rest.length < text.length := by
  unfold readUnit at read
  split at read
  · split at read
    · cases read
      simp
      omega
    · contradiction
  · split at read <;> contradiction

theorem length_of_readTrailing {leading : Nat} {text rest : List Char} {character : Char}
    (read : readTrailing leading text = .ok (character, rest)) : rest.length < text.length := by
  unfold readTrailing at read
  split at read
  · contradiction
  · rename_i behind expected
    have longer := congrArg List.length (eq_append_of_expect expected)
    split at read
    · contradiction
    · rename_i unitRead
      have shorter := length_of_readUnit unitRead
      split at read
      · simp only [Except.ok.injEq, Prod.mk.injEq] at read
        rw [← read.2]
        simp at longer
        omega
      · contradiction

theorem length_of_readCodePoint {text rest : List Char} {character : Char}
    (read : readCodePoint text = .ok (character, rest)) : rest.length < text.length := by
  unfold readCodePoint at read
  split at read
  · contradiction
  · rename_i unitRead
    have shorter := length_of_readUnit unitRead
    split at read
    · contradiction
    · split at read
      · exact Nat.lt_trans (length_of_readTrailing read) shorter
      · cases read
        exact shorter

theorem length_of_readEscape {text rest : List Char} {character : Char}
    (read : readEscape text = .ok (character, rest)) : rest.length < text.length := by
  cases text with
  | nil => contradiction
  | cons letter text =>
      simp only [readEscape] at read
      split at read
      · exact Nat.lt_succ_of_lt (length_of_readCodePoint read)
      · split at read
        · cases read
          simp
        · contradiction

/-- The characters of a string, read behind its opening quote. -/
def readString : List Char → Reading (List Char)
  | [] => .error .truncated
  | character :: text =>
      if character = '"' then .ok ([], text)
      else if character = '\\' then
        match _read : readEscape text with
        | .error fault => .error fault
        | .ok (escaped, behind) =>
            (readString behind).map fun (characters, rest) => (escaped :: characters, rest)
      else if character.toNat < 0x20 then .error .malformed
      else (readString text).map fun (characters, rest) => (character :: characters, rest)
termination_by text => text.length
decreasing_by
  · exact Nat.lt_succ_of_lt (length_of_readEscape ‹_›)
  · simp

end LatencyBalancer.Json
