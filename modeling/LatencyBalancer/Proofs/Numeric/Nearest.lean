import LatencyBalancer.Numeric.Floating
import Mathlib.Algebra.Group.Nat.Even
import Mathlib.Algebra.Order.Field.Rat
import Mathlib.Algebra.Order.Ring.Abs
import Mathlib.Data.Nat.Cast.Order.Ring
import Mathlib.Order.Monotone.Basic
import Mathlib.Tactic.FieldSimp
import Mathlib.Tactic.Linarith
import Mathlib.Tactic.Positivity

/-!
# The nearest value to a number

A value is the nearest to a number when no finite value is closer, and of two that are equally
close it is the even one.  This says nothing about how the value is found.  It is enough for the
two facts about rounding on which comparisons of rounded values rest: a larger number never has a
smaller nearest value, and a value exceeds the number by no more than half of its last place.
-/

namespace LatencyBalancer

namespace Format

variable {format : Format} {magnitude shift significand : Nat}

/-! ### The values of magnitudes -/

theorem binade_pos (format : Format) : 0 < format.binade :=
  powerOfTwo_pos _

theorem one_pos (format : Format) : 0 < format.one :=
  powerOfTwo_pos _

theorem cast_powerOfTwo_pos (exponent : Nat) : (0 : ℚ) < powerOfTwo exponent :=
  Nat.cast_pos.mpr (powerOfTwo_pos exponent)

theorem cast_binade_pos (format : Format) : (0 : ℚ) < format.binade :=
  cast_powerOfTwo_pos _

theorem cast_one_pos (format : Format) : (0 : ℚ) < format.one :=
  cast_powerOfTwo_pos _

theorem gap_pos (format : Format) (magnitude : Nat) : 0 < format.gap magnitude :=
  powerOfTwo_pos _

theorem gap_of_lt (subnormal : magnitude < format.binade) : format.gap magnitude = 1 := by
  rw [gap, Nat.div_eq_of_lt subnormal]
  rfl

theorem units_of_lt (subnormal : magnitude < format.binade) :
    format.units magnitude = magnitude :=
  if_pos subnormal

theorem units_of_le (normal : format.binade ≤ magnitude) :
    format.units magnitude =
      (format.binade + magnitude % format.binade) * format.gap magnitude :=
  if_neg (Nat.not_lt.mpr normal)

theorem gap_exponent {rest : Nat} (inside : rest < format.binade) :
    format.gap ((shift + 1) * format.binade + rest) = powerOfTwo shift := by
  rw [gap, Nat.mul_comm, Nat.mul_add_div format.binade_pos, Nat.div_eq_of_lt inside]
  rfl

theorem units_exponent {rest : Nat} (inside : rest < format.binade) :
    format.units ((shift + 1) * format.binade + rest) =
      (format.binade + rest) * powerOfTwo shift := by
  have normal : format.binade ≤ (shift + 1) * format.binade + rest := by
    rw [Nat.add_mul, Nat.one_mul]
    omega
  rw [units_of_le normal, gap_exponent inside, Nat.mul_add_mod_self_right, Nat.mod_eq_of_lt inside]

/-- A magnitude is a significand with a shift, also where the significand is one too large. -/
theorem units_shifted (bounded : significand ≤ 2 * format.binade)
    (normal : shift = 0 ∨ format.binade ≤ significand) :
    format.units (shift * format.binade + significand) = significand * powerOfTwo shift := by
  have positive := format.binade_pos
  by_cases subnormal : significand < format.binade
  · obtain rfl := normal.resolve_right (Nat.not_le.mpr subnormal)
    rw [Nat.zero_mul, Nat.zero_add, units_of_lt subnormal]
    exact (Nat.mul_one _).symm
  · by_cases next : significand = 2 * format.binade
    · have place : shift * format.binade + significand =
          (shift + 1 + 1) * format.binade + 0 := by
        rw [next, Nat.add_mul, Nat.add_mul]
        omega
      rw [place, units_exponent positive, next, powerOfTwo_succ, Nat.add_zero, Nat.mul_left_comm,
        Nat.mul_assoc]
    · obtain ⟨rest, rfl⟩ := Nat.exists_eq_add_of_le (Nat.not_lt.mp subnormal)
      have inside : rest < format.binade := by omega
      rw [← Nat.add_assoc, ← units_exponent inside, Nat.add_mul, Nat.one_mul]

theorem exists_exponent (normal : format.binade ≤ magnitude) :
    ∃ shift rest, rest < format.binade ∧ magnitude = (shift + 1) * format.binade + rest := by
  have steps : 1 ≤ magnitude / format.binade :=
    (Nat.le_div_iff_mul_le format.binade_pos).mpr (by rwa [Nat.one_mul])
  obtain ⟨shift, exponent⟩ := Nat.exists_eq_add_of_le' steps
  refine ⟨shift, magnitude % format.binade, Nat.mod_lt _ format.binade_pos, ?_⟩
  rw [← exponent]
  exact (Nat.div_add_mod' _ _).symm

theorem units_succ (format : Format) (magnitude : Nat) :
    format.units (magnitude + 1) = format.units magnitude + format.gap magnitude := by
  by_cases subnormal : magnitude < format.binade
  · have next : format.units (0 * format.binade + (magnitude + 1)) =
        (magnitude + 1) * powerOfTwo 0 :=
      units_shifted (by omega) (.inl rfl)
    rw [Nat.zero_mul, Nat.zero_add] at next
    rw [next, units_of_lt subnormal, gap_of_lt subnormal]
    exact Nat.mul_one _
  · obtain ⟨shift, rest, inside, rfl⟩ := exists_exponent (Nat.not_lt.mp subnormal)
    have place : (shift + 1) * format.binade + rest + 1 =
        shift * format.binade + (format.binade + rest + 1) := by
      rw [Nat.add_mul]
      omega
    rw [place, units_shifted (by omega) (.inr (by omega)), units_exponent inside,
      gap_exponent inside, Nat.add_mul _ 1, Nat.one_mul]

theorem units_strictMono (format : Format) : StrictMono format.units := by
  apply strictMono_nat_of_lt_succ
  intro magnitude
  rw [units_succ]
  exact Nat.lt_add_of_pos_right (format.gap_pos magnitude)

theorem binade_mul_gap_le (normal : format.binade ≤ magnitude) :
    format.binade * format.gap magnitude ≤ format.units magnitude := by
  rw [units_of_le normal]
  exact Nat.mul_le_mul_right _ (Nat.le_add_right _ _)

theorem powerOfTwo_le_gap (reached : shift = 0 ∨ (shift + 1) * format.binade ≤ magnitude) :
    powerOfTwo shift ≤ format.gap magnitude := by
  rcases reached with rfl | reached
  · exact format.gap_pos magnitude
  · apply powerOfTwo_le
    have steps := (Nat.le_div_iff_mul_le format.binade_pos).mpr reached
    omega

end Format

namespace Floating

variable {format : Format} {magnitude : Nat} {value first second nearest : Floating format}
  {number : ℚ}

def IsFinite (value : Floating format) : Prop :=
  value.magnitude < format.infinity

instance (value : Floating format) : Decidable value.IsFinite :=
  inferInstanceAs (Decidable (_ < _))

/-- The number that a finite value stands for. -/
def toRat (value : Floating format) : ℚ :=
  (if value.negative then -1 else 1) * (format.units value.magnitude / format.one)

example : (⟨true, 0x3FC00000⟩ : Single).toRat = -3 / 2 := by decide +kernel

theorem toRat_of_not_negative (positive : value.negative = false) :
    value.toRat = format.units value.magnitude / format.one := by
  rw [toRat, positive]
  simp

theorem toRat_lt_iff (firstPositive : first.negative = false)
    (secondPositive : second.negative = false) :
    first.toRat < second.toRat ↔ first.magnitude < second.magnitude := by
  have one := format.cast_one_pos
  rw [toRat_of_not_negative firstPositive, toRat_of_not_negative secondPositive,
    div_lt_div_iff_of_pos_right one, Nat.cast_lt, format.units_strictMono.lt_iff_lt]

/-- Keys order as the numbers do that the values stand for, also across the signs. -/
theorem key_lt_key_iff : first.key < second.key ↔ first.toRat < second.toRat := by
  rcases first with ⟨firstNegative, low⟩
  rcases second with ⟨secondNegative, high⟩
  have zero : format.units 0 = 0 := Format.units_of_lt format.binade_pos
  have ascending := format.units_strictMono.lt_iff_lt (a := low) (b := high)
  have descending := format.units_strictMono.lt_iff_lt (a := high) (b := low)
  have lowPositive := format.units_strictMono.lt_iff_lt (a := 0) (b := low)
  have highPositive := format.units_strictMono.lt_iff_lt (a := 0) (b := high)
  rw [toRat, toRat, ← mul_div_assoc, ← mul_div_assoc,
    div_lt_div_iff_of_pos_right format.cast_one_pos]
  cases firstNegative <;> cases secondNegative <;>
    simp only [key, if_true, if_false, Bool.false_eq_true, one_mul, neg_one_mul] <;>
    norm_cast <;>
    omega

/-- Infinity stands for a number beyond all finite values, and only it and they are compared. -/
theorem lt_iff_toRat_lt (firstNumber : first.IsNumber) (secondNumber : second.IsNumber) :
    first < second ↔ first.toRat < second.toRat := by
  rw [lt_iff, and_iff_right firstNumber, and_iff_right secondNumber, key_lt_key_iff]

def leastNormal (format : Format) : Floating format where
  negative := false
  magnitude := format.binade

theorem toRat_leastNormal (format : Format) :
    (leastNormal format).toRat = format.binade / format.one := by
  rw [toRat_of_not_negative rfl, leastNormal, Format.units_of_le (Nat.le_refl _), Nat.mod_self,
    Nat.add_zero, Format.gap, Nat.div_self format.binade_pos]
  simp

/-- From one normal value to the next it is no further than the last place of the former. -/
theorem toRat_succ_le (normal : format.binade ≤ magnitude) :
    (⟨false, magnitude + 1⟩ : Floating format).toRat ≤
      (⟨false, magnitude⟩ : Floating format).toRat * (1 + 1 / format.binade) := by
  have one := format.cast_one_pos
  have binade := format.cast_binade_pos
  have step : (format.gap magnitude : ℚ) ≤ format.units magnitude / format.binade := by
    rw [le_div_iff₀ binade, mul_comm]
    exact_mod_cast Format.binade_mul_gap_le normal
  rw [toRat_of_not_negative rfl, toRat_of_not_negative rfl, Format.units_succ, Nat.cast_add,
    div_mul_eq_mul_div, mul_one_add, mul_one_div]
  exact div_le_div_of_nonneg_right (by gcongr) one.le

/-- No finite value is closer to the number, and one that is as close leaves the even one. -/
structure Nearest (number : ℚ) (nearest : Floating format) : Prop where
  finite : nearest.IsFinite
  closest : ∀ other : Floating format, other.IsFinite →
    |nearest.toRat - number| ≤ |other.toRat - number|
  even : ∀ other : Floating format, other.IsFinite → other.toRat ≠ nearest.toRat →
    |other.toRat - number| = |nearest.toRat - number| → Even nearest.magnitude

theorem nearest_toRat (finite : value.IsFinite) : Nearest value.toRat value := by
  refine ⟨finite, ?_, ?_⟩
  · intro other _
    rw [sub_self, abs_zero]
    exact abs_nonneg _
  · intro other _ different equal
    rw [sub_self, abs_zero, abs_eq_zero, sub_eq_zero] at equal
    exact absurd equal different

/-- The number is not below the midpoint of two when the upper one is as close. -/
theorem add_le_two_mul {lower upper : ℚ} (ordered : lower < upper)
    (closer : |upper - number| ≤ |lower - number|) : lower + upper ≤ 2 * number := by
  by_contra short
  rcases abs_cases (upper - number) with ⟨above, _⟩ | ⟨above, _⟩ <;>
    rcases abs_cases (lower - number) with ⟨below, _⟩ | ⟨below, _⟩ <;>
    linarith

theorem two_mul_le_add {lower upper : ℚ} (ordered : lower < upper)
    (closer : |lower - number| ≤ |upper - number|) : 2 * number ≤ lower + upper := by
  by_contra beyond
  rcases abs_cases (upper - number) with ⟨above, _⟩ | ⟨above, _⟩ <;>
    rcases abs_cases (lower - number) with ⟨below, _⟩ | ⟨below, _⟩ <;>
    linarith

/-- Rounding keeps the order of numbers.  Were the nearest value of the larger number the smaller
one, then both numbers would be the midpoint and both values even, and an odd one between them
would be closer. -/
theorem Nearest.magnitude_le {lower upper : ℚ} (below : Nearest lower first)
    (above : Nearest upper second) (ordered : lower ≤ upper)
    (firstPositive : first.negative = false) (secondPositive : second.negative = false) :
    first.magnitude ≤ second.magnitude := by
  by_contra reversed
  have order : second.magnitude < first.magnitude := Nat.not_le.mp reversed
  have values := (toRat_lt_iff secondPositive firstPositive).mpr order
  have high := add_le_two_mul values (below.closest second above.finite)
  have low := two_mul_le_add values (above.closest first below.finite)
  obtain rfl : lower = upper := by linarith
  have tie : |second.toRat - lower| = |first.toRat - lower| :=
    le_antisymm (above.closest first below.finite) (below.closest second above.finite)
  have firstEven := below.even second above.finite values.ne tie
  have secondEven := above.even first below.finite values.ne' tie.symm
  let between : Floating format := ⟨false, second.magnitude + 1⟩
  have inside : between.magnitude < first.magnitude := by
    apply lt_of_le_of_ne order
    intro same
    rw [← same] at firstEven
    exact absurd secondEven (Nat.even_add_one.mp firstEven)
  have larger : second.toRat < between.toRat :=
    (toRat_lt_iff secondPositive rfl).mpr (Nat.lt_succ_self _)
  have smaller : between.toRat < first.toRat := (toRat_lt_iff rfl firstPositive).mpr inside
  have closer := add_le_two_mul smaller
    (below.closest between (lt_trans inside below.finite))
  linarith

/-- The nearest value to a normal number exceeds it by at most half of a last place. -/
theorem Nearest.toRat_le (near : Nearest number nearest) (positive : nearest.negative = false)
    (normal : (leastNormal format).toRat ≤ number) :
    nearest.toRat ≤ number * (1 + 1 / (2 * format.binade)) := by
  have binade := format.cast_binade_pos
  have margin : number * (1 + 1 / (2 * format.binade)) =
      number + number * (1 / format.binade) / 2 := by
    field_simp
  have nonneg : 0 ≤ number := by
    refine le_trans ?_ normal
    rw [toRat_leastNormal]
    positivity
  rw [margin]
  by_cases exceeds : nearest.toRat ≤ number
  · exact le_add_of_le_of_nonneg exceeds (by positivity)
  · have above : (leastNormal format).toRat < nearest.toRat :=
      lt_of_le_of_lt normal (not_le.mp exceeds)
    have beyond : format.binade < nearest.magnitude := (toRat_lt_iff rfl positive).mp above
    obtain ⟨magnitude, same⟩ := Nat.exists_eq_add_one_of_ne_zero (Nat.ne_zero_of_lt beyond)
    have place : nearest = ⟨false, magnitude + 1⟩ := by
      rw [← positive, ← same]
    let previous : Floating format := ⟨false, magnitude⟩
    have finite : previous.IsFinite := by
      apply lt_trans _ near.finite
      rw [same]
      exact Nat.lt_succ_self magnitude
    have order : previous.toRat < nearest.toRat := by
      rw [toRat_lt_iff rfl positive, same]
      exact Nat.lt_succ_self magnitude
    have high := add_le_two_mul order (near.closest previous finite)
    have step : nearest.toRat ≤ previous.toRat * (1 + 1 / format.binade) := by
      rw [place]
      exact toRat_succ_le (by omega)
    have share : previous.toRat * (1 / format.binade) ≤ number * (1 / format.binade) :=
      mul_le_mul_of_nonneg_right (by linarith) (by positivity)
    linarith

end Floating

end LatencyBalancer
