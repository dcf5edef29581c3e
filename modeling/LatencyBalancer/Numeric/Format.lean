import LatencyBalancer.Numeric.Power

/-!
Binary floating-point formats and correct rounding.

The non-negative values of a format, in increasing order, are numbered from zero; that number is
the magnitude of a value and also its bit pattern.  The value itself is counted in units of the
least positive one, so all arithmetic is exact arithmetic of natural numbers.  `round` gives the
magnitude nearest to a fraction, the even one of two that are equally near.
-/

namespace LatencyBalancer

structure Format where
  /-- Bits of a significand, the leading one included. -/
  precision : Nat
  exponentBits : Nat
deriving DecidableEq, Repr

/-- The nearest natural number to a fraction, the even one of two that are equally near. -/
def roundHalfEven (numerator denominator : Nat) : Nat :=
  let quotient := numerator / denominator
  let rest := numerator % denominator
  if 2 * rest < denominator then quotient
  else if denominator < 2 * rest then quotient + 1
  else quotient + quotient % 2

namespace Format

/-- 32 bits, as ratios are given. -/
def single : Format := ⟨24, 8⟩

/-- 64 bits, as fractions in documents are read. -/
def double : Format := ⟨53, 11⟩

/-- The least positive value is two to the negated scale. -/
def scale (format : Format) : Nat :=
  powerOfTwo (format.exponentBits - 1) + format.precision - 3

def one (format : Format) : Nat :=
  powerOfTwo format.scale

def binade (format : Format) : Nat :=
  powerOfTwo (format.precision - 1)

/-- The magnitude of infinity; those above it are not numbers. -/
def infinity (format : Format) : Nat :=
  (powerOfTwo format.exponentBits - 1) * format.binade

/-- The distance from a magnitude to the next one, in units. -/
def gap (format : Format) (magnitude : Nat) : Nat :=
  powerOfTwo (magnitude / format.binade - 1)

/-- The value of a magnitude, in units. -/
def units (format : Format) (magnitude : Nat) : Nat :=
  if magnitude < format.binade then magnitude
  else (format.binade + magnitude % format.binade) * format.gap magnitude

/-- The magnitude nearest to a fraction; what is too large becomes infinity. -/
def round (format : Format) (numerator denominator : Nat) : Nat :=
  let scaled := numerator * format.one
  let shift := Nat.log2 (scaled / denominator) - (format.precision - 1)
  min format.infinity
    (shift * format.binade + roundHalfEven scaled (denominator * powerOfTwo shift))

def divide (format : Format) (dividend divisor : Nat) : Nat :=
  format.round (format.units dividend) (format.units divisor)

def multiply (format : Format) (first second : Nat) : Nat :=
  format.round (format.units first * format.units second) (format.one * format.one)

def ofNat (format : Format) (number : Nat) : Nat :=
  format.round number 1

def convert (source target : Format) (magnitude : Nat) : Nat :=
  if magnitude < source.infinity then target.round (source.units magnitude) source.one
  else target.infinity

example : single.ofNat 1 = 0x3F800000 := by decide +kernel

example : double.ofNat 1 = 0x3FF0000000000000 := by decide +kernel

end Format

end LatencyBalancer
