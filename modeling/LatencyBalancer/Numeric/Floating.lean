import LatencyBalancer.Numeric.Format

/-!
Floating-point values: a sign and a magnitude.

Every bit pattern is a value, also those that are not numbers.  Those compare with nothing, and
the two zeros are equal in order.
-/

namespace LatencyBalancer

structure Floating (format : Format) where
  negative : Bool
  magnitude : Nat
deriving DecidableEq, Repr

namespace Floating

variable {format : Format}

/-- The magnitudes of a format fill one bit less than its width, and the sign is the top bit. -/
def signBit (format : Format) : Nat :=
  powerOfTwo (format.exponentBits + format.precision - 1)

def ofBits (format : Format) (bits : Nat) : Floating format where
  negative := bits / signBit format % 2 = 1
  magnitude := bits % signBit format

def toBits (value : Floating format) : Nat :=
  (if value.negative then signBit format else 0) + value.magnitude

def IsNumber (value : Floating format) : Prop :=
  value.magnitude ≤ format.infinity

instance (value : Floating format) : Decidable value.IsNumber :=
  inferInstanceAs (Decidable (_ ≤ _))

/-- Numbers order as their keys do. -/
def key (value : Floating format) : Int :=
  if value.negative then -value.magnitude else value.magnitude

instance : LT (Floating format) where
  lt first second := first.IsNumber ∧ second.IsNumber ∧ first.key < second.key

instance : LE (Floating format) where
  le first second := first.IsNumber ∧ second.IsNumber ∧ first.key ≤ second.key

instance (first second : Floating format) : Decidable (first < second) :=
  inferInstanceAs (Decidable (_ ∧ _ ∧ _))

instance (first second : Floating format) : Decidable (first ≤ second) :=
  inferInstanceAs (Decidable (_ ∧ _ ∧ _))

def ofFraction (format : Format) (numerator denominator : Nat) : Floating format where
  negative := false
  magnitude := format.round numerator denominator

def ofNat (format : Format) (number : Nat) : Floating format where
  negative := false
  magnitude := format.ofNat number

/-- The share that a part has in a whole.  Both are rounded first, and then their quotient is. -/
def share (format : Format) (part whole : Nat) : Floating format where
  negative := false
  magnitude := format.divide (format.ofNat part) (format.ofNat whole)

def convert (target : Format) (value : Floating format) : Floating target where
  negative := value.negative
  magnitude := format.convert target value.magnitude

theorem lt_iff {first second : Floating format} :
    first < second ↔ first.IsNumber ∧ second.IsNumber ∧ first.key < second.key := Iff.rfl

theorem not_lt_of_not_isNumber {first second : Floating format} (unordered : ¬ second.IsNumber) :
    ¬ first < second :=
  fun less => unordered less.2.1

end Floating

abbrev Single := Floating Format.single

abbrev Double := Floating Format.double

end LatencyBalancer
