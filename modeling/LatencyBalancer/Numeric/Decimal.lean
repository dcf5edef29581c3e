import LatencyBalancer.Numeric.Floating

/-!
Decimal text of floating-point values.

The digits are the fewest that read back to the same value, and of those the nearest to it.  They
are found on the decimal grids one after another, coarsest first: on each grid only the two
neighbours of the value can read back when any point does.  How the digits are laid out is a
`Layout`, of which each output has its own.
-/

namespace LatencyBalancer

structure Decimal where
  digits : Nat
  exponent : Int
deriving DecidableEq, Repr

namespace Decimal

def compareFraction (decimal : Decimal) (numerator denominator : Nat) : Ordering :=
  compare (decimal.digits * powerOfTen decimal.exponent.toNat * denominator)
    (numerator * powerOfTen (-decimal.exponent).toNat)

def length (number : Nat) : Nat :=
  (Nat.toDigits 10 number).length

/-- The least power of ten above a positive fraction. -/
def powerAbove (numerator denominator : Nat) : Int :=
  if denominator ≤ numerator then length (numerator / denominator)
  else 1 - length ((denominator - 1) / numerator)

inductive Tie where
  | even
  | up
deriving DecidableEq, Repr

def neighbours (tie : Tie) (numerator denominator : Nat) (exponent : Int) : List Decimal :=
  let scaled := numerator * powerOfTen (-exponent).toNat
  let unit := denominator * powerOfTen exponent.toNat
  let below : Decimal := ⟨scaled / unit, exponent⟩
  let above : Decimal := ⟨scaled / unit + 1, exponent⟩
  match compare (2 * (scaled % unit)) unit, tie with
  | .lt, _ => [below, above]
  | .gt, _ => [above, below]
  | .eq, .up => [above, below]
  | .eq, .even => if below.digits % 2 = 0 then [below, above] else [above, below]

end Decimal

namespace Format

/-- Whether the decimal rounds to the magnitude.  The values that do so reach half a gap to each
side, and to an even magnitude also those just half a gap away.  Below a power of two the gap is
half as wide as above. -/
def readsBack (format : Format) (magnitude : Nat) (decimal : Decimal) : Bool :=
  let gap := format.gap magnitude
  let narrow := magnitude % format.binade = 0 ∧ format.binade < magnitude
  let value := 4 * format.units magnitude
  let low := decimal.compareFraction (value - if narrow then gap else 2 * gap) (4 * format.one)
  let high := decimal.compareFraction (value + 2 * gap) (4 * format.one)
  let even := magnitude % 2 = 0
  (low = .gt ∨ even ∧ low = .eq) ∧ (high = .lt ∨ even ∧ high = .eq)

/-- The nearest of the shortest decimals that read back.  A decimal with as many digits as the
significand has bits always does. -/
def shortest (format : Format) (tie : Decimal.Tie) (magnitude : Nat) : Decimal :=
  let value := format.units magnitude
  let power := Decimal.powerAbove value format.one
  let hit (length : Nat) : Option Decimal :=
    (Decimal.neighbours tie value format.one (power - length)).find?
      (format.readsBack magnitude)
  let exact : Decimal := ⟨value * Nat.pow 5 format.scale, -format.scale⟩
  ((List.range' 1 format.precision).findSome? hit).getD exact

end Format

structure Layout where
  tie : Decimal.Tie
  /-- Whether a value with this power of ten in front is written without an exponent. -/
  positional : Int → Bool
  /-- Whether a whole number written without an exponent ends in a point and a zero. -/
  pointZero : Bool
  plusSign : Bool

namespace Layout

def zeros (count : Nat) : String :=
  String.ofList (List.replicate count '0')

def writePositional (layout : Layout) (digits : List Char) (exponent : Int) : String :=
  let point := exponent + 1
  if point ≤ 0 then "0." ++ zeros (-point).toNat ++ String.ofList digits
  else if point < digits.length then
    String.ofList (digits.take point.toNat) ++ "." ++ String.ofList (digits.drop point.toNat)
  else
    String.ofList digits ++ zeros (point.toNat - digits.length) ++
      if layout.pointZero then ".0" else ""

def writeExponent (layout : Layout) (digits : List Char) (exponent : Int) : String :=
  let mantissa :=
    String.ofList (digits.take 1) ++
      if digits.length = 1 then "" else "." ++ String.ofList (digits.drop 1)
  let sign := if exponent < 0 then "-" else if layout.plusSign then "+" else ""
  mantissa ++ "e" ++ sign ++ toString exponent.natAbs

/-- The digits of a number without the zeros at its end, and the power of ten of the first. -/
def leading (decimal : Decimal) : List Char × Int :=
  let digits := Nat.toDigits 10 decimal.digits
  let kept := (digits.reverse.dropWhile (· == '0')).reverse
  (if kept.isEmpty then ['0'] else kept, decimal.exponent + digits.length - 1)

def writeDecimal (layout : Layout) (decimal : Decimal) : String :=
  let (digits, exponent) := leading decimal
  if layout.positional exponent then layout.writePositional digits exponent
  else layout.writeExponent digits exponent

/-- Values that are no numbers have no sign. -/
def write (layout : Layout) {format : Format} (value : Floating format) : String :=
  let sign := if value.negative then "-" else ""
  if ¬ value.IsNumber then "NaN"
  else if value.magnitude = format.infinity then sign ++ "inf"
  else if value.magnitude = 0 then sign ++ layout.writeDecimal ⟨0, 0⟩
  else sign ++ layout.writeDecimal (format.shortest layout.tie value.magnitude)

end Layout

end LatencyBalancer
