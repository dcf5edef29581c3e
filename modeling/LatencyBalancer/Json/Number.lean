import LatencyBalancer.Json.Literal
import LatencyBalancer.Numeric.Floating

/-!
JSON numbers: how they are written, and what they are worth.

A literal without point and exponent is an integer if it fits a word, signed or not.  Any other
is a 64-bit value, computed from a significand of one word and a power of ten with one rounding
for each operation, so it may miss the nearest value in the last place.
-/

namespace LatencyBalancer.Json

/-- A number as it is written; digits are numbers below ten. -/
structure NumberLiteral where
  negative : Bool
  whole : List Nat
  fraction : Option (List Nat)
  /-- The sign and the digits of the exponent, if there is one. -/
  exponent : Option (Bool × List Nat)
deriving DecidableEq, Repr

def digit (character : Char) : Nat :=
  character.toNat - '0'.toNat

def takeDigits (text : List Char) : List Nat × List Char :=
  ((text.takeWhile Char.isDigit).map digit, text.dropWhile Char.isDigit)

def readDigits : List Char → Reading (List Nat)
  | [] => .error .truncated
  | character :: text =>
      if character.isDigit then .ok (takeDigits (character :: text)) else .error .malformed

/-- The digits in front of the point; a zero stands alone. -/
def readWhole (text : List Char) : Reading (List Nat) :=
  match readDigits text with
  | .ok (0 :: _ :: _, _) => .error .malformed
  | reading => reading

def readFraction : List Char → Reading (Option (List Nat))
  | [] => .ok (none, [])
  | character :: text =>
      if character = '.' then (readDigits text).map fun (digits, rest) => (some digits, rest)
      else .ok (none, character :: text)

/-- Whether a minus sign stands here, and the text behind a sign. -/
def takeSign : List Char → Bool × List Char
  | [] => (false, [])
  | character :: text =>
      if character = '-' then (true, text)
      else if character = '+' then (false, text)
      else (false, character :: text)

def readExponent : List Char → Reading (Option (Bool × List Nat))
  | [] => .ok (none, [])
  | character :: text =>
      if character = 'e' ∨ character = 'E' then
        let (negative, digits) := takeSign text
        (readDigits digits).map fun (digits, rest) => (some (negative, digits), rest)
      else .ok (none, character :: text)

def takeMinus : List Char → Bool × List Char
  | [] => (false, [])
  | character :: text => if character = '-' then (true, text) else (false, character :: text)

/-- A number literal is as long as it can be. -/
def readLiteral (text : List Char) : Reading NumberLiteral :=
  let (negative, digits) := takeMinus text
  match readWhole digits with
  | .error fault => .error fault
  | .ok (whole, behind) =>
      match readFraction behind with
      | .error fault => .error fault
      | .ok (fraction, behind) =>
          (readExponent behind).map fun (exponent, rest) =>
            (⟨negative, whole, fraction, exponent⟩, rest)

/-! ### Values -/

inductive Number where
  | natural (value : Nat)
  | negative (magnitude : Nat)
  | floating (value : Double)
deriving DecidableEq, Repr

def ofDigits (digits : List Nat) : Nat :=
  digits.foldl (fun number digit => 10 * number + digit) 0

/-- Append digits to a significand while it fits a word; the digits left over come back. -/
def absorb (significand : Nat) : List Nat → Nat × List Nat
  | [] => (significand, [])
  | digit :: digits =>
      if 10 * significand + digit < UInt64.size then absorb (10 * significand + digit) digits
      else (significand, digit :: digits)

/-- The largest power of ten that is a 64-bit value. -/
def maxPower : Nat := 308

def scaleUp (magnitude power : Nat) : Option Nat :=
  if power ≤ maxPower then
    let product := Format.double.multiply magnitude (Format.double.ofNat (powerOfTen power))
    if product = Format.double.infinity then none else some product
  else if magnitude = 0 then some 0
  else none

/-- Divided by a power of ten, in steps of the largest one. -/
def scaleDown (magnitude power : Nat) : Nat :=
  if power ≤ maxPower then Format.double.divide magnitude (Format.double.ofNat (powerOfTen power))
  else if magnitude = 0 then 0
  else
    scaleDown (Format.double.divide magnitude (Format.double.ofNat (powerOfTen maxPower)))
      (power - maxPower)
termination_by power
decreasing_by simp [maxPower] at *; omega

namespace NumberLiteral

def IsInteger (literal : NumberLiteral) : Prop :=
  literal.fraction = none ∧ literal.exponent = none

instance (literal : NumberLiteral) : Decidable literal.IsInteger :=
  inferInstanceAs (Decidable (_ ∧ _))

/-- The significand and the power of ten.  Digits in front of the point that do not fit raise the
power; digits behind it lower the power while they fit. -/
def parts (literal : NumberLiteral) : Nat × Int :=
  let (wholePart, raised) := absorb 0 literal.whole
  let fraction := literal.fraction.getD []
  let (significand, ignored) := absorb wholePart fraction
  let exponent : Int := match literal.exponent with
    | none => 0
    | some (true, digits) => -(ofDigits digits)
    | some (false, digits) => ofDigits digits
  (significand, exponent + raised.length - (fraction.length - ignored.length))

def floating? (literal : NumberLiteral) : Option Double :=
  let (significand, exponent) := literal.parts
  let magnitude := Format.double.ofNat significand
  let scaled :=
    if exponent < 0 then some (scaleDown magnitude exponent.natAbs)
    else scaleUp magnitude exponent.natAbs
  scaled.map fun magnitude => ⟨literal.negative, magnitude⟩

def value? (literal : NumberLiteral) : Option Number :=
  let whole := ofDigits literal.whole
  if literal.IsInteger ∧ ¬ literal.negative ∧ whole < UInt64.size then some (.natural whole)
  else if literal.IsInteger ∧ literal.negative ∧ 0 < whole ∧ 2 * whole ≤ UInt64.size then
    some (.negative whole)
  else literal.floating?.map .floating

end NumberLiteral

/-- A number that is too large for any value is malformed. -/
def readNumber (text : List Char) : Reading Number :=
  match readLiteral text with
  | .error fault => .error fault
  | .ok (literal, rest) =>
      match literal.value? with
      | none => .error .malformed
      | some number => .ok (number, rest)

end LatencyBalancer.Json
