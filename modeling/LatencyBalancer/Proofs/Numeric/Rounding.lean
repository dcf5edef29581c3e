import LatencyBalancer.Numeric.Floating
import Mathlib.Algebra.Order.Ring.Nat

/-!
# Rounding what is large

Rounding never leads below a power of two that a fraction reaches.  In particular what is two or
more stays so through any number of roundings.
-/

namespace LatencyBalancer

theorem div_le_roundHalfEven (numerator denominator : Nat) :
    numerator / denominator ≤ roundHalfEven numerator denominator := by
  unfold roundHalfEven
  simp only
  split
  next => exact Nat.le_refl _
  next =>
    split
    next => exact Nat.le_succ _
    next => exact Nat.le_add_right _ _

namespace Format

variable {format target : Format} {numerator denominator magnitude : Nat}

def two (format : Format) : Nat :=
  (format.scale + 1 - (format.precision - 1) + 1) * format.binade

/-- The value two is a normal and finite one. -/
structure HoldsTwo (format : Format) : Prop where
  normal : format.precision - 1 ≤ format.scale + 1
  finite : format.two ≤ format.infinity

theorem holdsTwo_single : single.HoldsTwo where
  normal := by decide
  finite := by decide

theorem holdsTwo_double : double.HoldsTwo where
  normal := by decide
  finite := by decide

/-- A fraction that reaches a normal power of two, counted in units, has at least its
magnitude. -/
theorem le_round {exponent : Nat} (normal : format.precision - 1 ≤ exponent)
    (positive : 0 < denominator)
    (large : denominator * powerOfTwo exponent ≤ numerator * format.one) :
    min format.infinity ((exponent - (format.precision - 1) + 1) * format.binade) ≤
      format.round numerator denominator := by
  have reached : powerOfTwo exponent ≤ numerator * format.one / denominator := by
    rwa [Nat.le_div_iff_mul_le positive, Nat.mul_comm]
  have nonzero := Nat.ne_of_gt (Nat.lt_of_lt_of_le (powerOfTwo_pos exponent) reached)
  have higher := (powerOfTwo_le_iff_le_log2 nonzero).mp reached
  have leading (shift : Nat)
      (least : Nat.log2 (numerator * format.one / denominator) = format.precision - 1 + shift) :
      format.binade ≤
        roundHalfEven (numerator * format.one) (denominator * powerOfTwo shift) := by
    refine Nat.le_trans ?_ (div_le_roundHalfEven _ _)
    rw [← Nat.div_div_eq_div_mul, Nat.le_div_iff_mul_le (powerOfTwo_pos shift), binade,
      ← powerOfTwo_add, ← least]
    exact (powerOfTwo_le_iff_le_log2 nonzero).mpr (Nat.le_refl _)
  unfold round
  apply min_le_min_left
  rw [Nat.add_mul, Nat.one_mul]
  exact Nat.add_le_add (Nat.mul_le_mul_right _ (by omega)) (leading _ (by omega))

theorem two_le_round (holds : format.HoldsTwo) (positive : 0 < denominator)
    (large : 2 * denominator ≤ numerator) : format.two ≤ format.round numerator denominator := by
  have reached : denominator * powerOfTwo (format.scale + 1) ≤ numerator * format.one := by
    rw [powerOfTwo_succ, ← Nat.mul_assoc, Nat.mul_comm denominator]
    exact Nat.mul_le_mul_right _ large
  exact (le_min holds.finite le_rfl).trans (le_round holds.normal positive reached)

theorem two_le_ofNat (holds : format.HoldsTwo) {number : Nat} (large : 2 ≤ number) :
    format.two ≤ format.ofNat number :=
  two_le_round holds Nat.one_pos large

theorem two_mul_one_le_units (holds : format.HoldsTwo) (large : format.two ≤ magnitude) :
    2 * format.one ≤ format.units magnitude := by
  have positive : 0 < format.binade := powerOfTwo_pos _
  have steps := (Nat.le_div_iff_mul_le positive).mpr large
  have beyond : ¬ magnitude < format.binade := by
    rw [← Nat.div_eq_zero_iff_lt positive]
    omega
  have wide : powerOfTwo (format.scale + 1 - (format.precision - 1)) ≤ format.gap magnitude :=
    powerOfTwo_le (by omega)
  rw [units, if_neg beyond]
  calc 2 * format.one
      = format.binade * powerOfTwo (format.scale + 1 - (format.precision - 1)) := by
        rw [one, ← powerOfTwo_succ, binade, ← powerOfTwo_add, Nat.add_sub_cancel' holds.normal]
    _ ≤ (format.binade + magnitude % format.binade) * format.gap magnitude :=
        Nat.mul_le_mul (Nat.le_add_right _ _) wide

theorem two_le_convert (holds : format.HoldsTwo) (targetHolds : target.HoldsTwo)
    (large : format.two ≤ magnitude) : target.two ≤ format.convert target magnitude := by
  unfold convert
  split
  next =>
    exact two_le_round targetHolds (powerOfTwo_pos _) (two_mul_one_le_units holds large)
  next => exact targetHolds.finite

end Format

end LatencyBalancer
