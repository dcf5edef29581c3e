import LatencyBalancer.Proofs.Numeric.Nearest
import Mathlib.Data.Rat.Cast.Order

/-!
# Rounded quotients

Rounding gives the nearest value to a fraction.  The share of one count in another is rounded from
counts that are rounded themselves.  Those up to the size of a significand are values, so their
shares are rounded only once.
-/

namespace LatencyBalancer

/-! ### Rounding to natural numbers -/

section roundHalfEven

variable {numerator denominator : Nat}

theorem quotient_add_rest (positive : 0 < denominator) :
    (numerator / denominator : ℚ) =
      (numerator / denominator : Nat) + (numerator % denominator : Nat) / (denominator : ℚ) := by
  have nonzero : (denominator : ℚ) ≠ 0 := Nat.cast_ne_zero.mpr (Nat.ne_of_gt positive)
  have split : (numerator : ℚ) =
      denominator * (numerator / denominator : Nat) + (numerator % denominator : Nat) := by
    exact_mod_cast (Nat.div_add_mod numerator denominator).symm
  rw [div_eq_iff nonzero, add_mul, div_mul_cancel₀ _ nonzero, mul_comm _ (denominator : ℚ)]
  exact split

/-- The error is at most a half, and only an even number is off by a half. -/
theorem roundHalfEven_near (positive : 0 < denominator) :
    |(roundHalfEven numerator denominator : ℚ) - numerator / denominator| ≤ 1 / 2 ∧
      (|(roundHalfEven numerator denominator : ℚ) - numerator / denominator| = 1 / 2 →
        Even (roundHalfEven numerator denominator)) := by
  have whole : (0 : ℚ) < denominator := Nat.cast_pos.mpr positive
  have rest : (0 : ℚ) ≤ (numerator % denominator : Nat) / (denominator : ℚ) := by positivity
  have proper : ((numerator % denominator : Nat) : ℚ) / denominator < 1 := by
    rw [div_lt_one whole]
    exact_mod_cast Nat.mod_lt _ positive
  rw [quotient_add_rest positive]
  unfold roundHalfEven
  simp only
  split
  next low =>
    have below : ((numerator % denominator : Nat) : ℚ) / denominator < 1 / 2 := by
      rw [div_lt_div_iff₀ whole two_pos, one_mul, mul_comm]
      exact_mod_cast low
    rw [sub_add_cancel_left, abs_neg, abs_of_nonneg rest]
    exact ⟨below.le, fun half => absurd half below.ne⟩
  next notLow =>
    split
    next high =>
      have above : 1 / 2 < ((numerator % denominator : Nat) : ℚ) / denominator := by
        rw [div_lt_div_iff₀ two_pos whole, one_mul, mul_comm]
        exact_mod_cast high
      rw [Nat.cast_add_one, add_sub_add_left_eq_sub, abs_of_nonneg (by linarith)]
      exact ⟨by linarith, fun half => absurd half (by linarith)⟩
    next notHigh =>
      have middle : ((numerator % denominator : Nat) : ℚ) / denominator = 1 / 2 := by
        rw [div_eq_div_iff whole.ne' two_ne_zero, one_mul, mul_comm]
        exact_mod_cast Nat.le_antisymm (Nat.not_lt.mp notHigh) (Nat.not_lt.mp notLow)
      have even : Even (numerator / denominator + numerator / denominator % 2) :=
        Nat.even_iff.mpr (by omega)
      refine ⟨le_of_eq ?_, fun _ => even⟩
      rw [middle, Nat.cast_add, add_sub_add_left_eq_sub]
      rcases Nat.mod_two_eq_zero_or_one (numerator / denominator) with down | up
      · rw [down]
        norm_num
      · rw [up]
        norm_num

end roundHalfEven

namespace Format

variable {format : Format} {numerator denominator shift significand other bits : Nat} {amount : ℚ}

theorem two_mul_binade (significant : 0 < format.precision) :
    2 * format.binade = powerOfTwo format.precision := by
  rw [binade, ← powerOfTwo_succ, Nat.sub_add_cancel significant]

theorem even_binade (significant : 1 < format.precision) : Even format.binade := by
  obtain ⟨more, bits⟩ := Nat.exists_eq_add_of_lt significant
  rw [binade, bits, Nat.add_sub_cancel, Nat.add_comm, powerOfTwo_succ]
  exact even_two_mul _

theorem powerOfTwo_le_powerOfTwo_iff {lower upper : Nat} :
    powerOfTwo lower ≤ powerOfTwo upper ↔ lower ≤ upper := by
  rw [powerOfTwo, powerOfTwo, Nat.one_shiftLeft, Nat.one_shiftLeft]
  exact Nat.pow_le_pow_iff_right (by decide)

/-- From a shifted value on, a full significand or without a shift, all values are as far apart as
the steps of the shift. -/
theorem units_add_step_le {lower upper : Nat}
    (reached : shift = 0 ∨ (shift + 1) * format.binade ≤ lower) (ordered : lower < upper) :
    format.units lower + powerOfTwo shift ≤ format.units upper := by
  calc format.units lower + powerOfTwo shift
      ≤ format.units lower + format.gap lower :=
        Nat.add_le_add_left (powerOfTwo_le_gap reached) _
    _ = format.units (lower + 1) := (format.units_succ lower).symm
    _ ≤ format.units upper := format.units_strictMono.monotone ordered

/-- An amount of units in steps of a shift, and the significand that it is rounded to. -/
structure Settles (format : Format) (amount : ℚ) (shift significand : Nat) : Prop where
  below : amount / powerOfTwo shift < 2 * format.binade
  normal : shift = 0 ∨ (format.binade : ℚ) ≤ amount / powerOfTwo shift
  near : |(significand : ℚ) - amount / powerOfTwo shift| ≤ 1 / 2
  even : |(significand : ℚ) - amount / powerOfTwo shift| = 1 / 2 → Even significand

/-- The shift leaves as many bits before the point as the precision has. -/
theorem exists_settles (numerator : Nat) (significant : 0 < format.precision)
    (positive : 0 < denominator) :
    ∃ shift significand,
      format.round numerator denominator =
        min format.infinity (shift * format.binade + significand) ∧
      format.Settles (numerator * format.one / denominator : ℚ) shift significand := by
  let quotient := numerator * format.one / denominator
  let shift := Nat.log2 quotient - (format.precision - 1)
  have divisor : 0 < denominator * powerOfTwo shift :=
    Nat.mul_pos positive (powerOfTwo_pos shift)
  have counted : (0 : ℚ) < (denominator * powerOfTwo shift : Nat) := Nat.cast_pos.mpr divisor
  have amount : (numerator * format.one / denominator : ℚ) / powerOfTwo shift =
      (numerator * format.one : Nat) / (denominator * powerOfTwo shift : Nat) := by
    rw [div_div, Nat.cast_mul, Nat.cast_mul]
  obtain ⟨near, even⟩ := roundHalfEven_near divisor
  rw [← amount] at near even
  refine ⟨shift, _, rfl, ?_, ?_, near, even⟩
  · have bits : quotient < powerOfTwo (format.precision + shift) := by
      have top : quotient < powerOfTwo (Nat.log2 quotient + 1) := by
        rw [powerOfTwo, Nat.one_shiftLeft]
        exact Nat.lt_log2_self
      exact Nat.lt_of_lt_of_le top (powerOfTwo_le (by omega))
    rw [Nat.div_lt_iff_lt_mul positive, powerOfTwo_add, ← two_mul_binade significant] at bits
    rw [amount, div_lt_iff₀ counted]
    have : numerator * format.one < 2 * format.binade * (denominator * powerOfTwo shift) := by
      rwa [Nat.mul_left_comm, Nat.mul_comm denominator]
    exact_mod_cast this
  · by_cases unshifted : shift = 0
    · exact .inl unshifted
    · right
      have exponent : Nat.log2 quotient = format.precision - 1 + shift := by omega
      have nonzero : quotient ≠ 0 := by
        intro zero
        rw [zero, Nat.log2_zero] at exponent
        omega
      have bits := (powerOfTwo_le_iff_le_log2 nonzero).mpr (Nat.le_of_eq exponent.symm)
      rw [Nat.le_div_iff_mul_le positive, powerOfTwo_add] at bits
      rw [amount, le_div_iff₀ counted]
      have : format.binade * (denominator * powerOfTwo shift) ≤ numerator * format.one := by
        rwa [Nat.mul_comm denominator, ← Nat.mul_assoc]
      exact_mod_cast this

namespace Settles

theorem binade_le (settles : format.Settles amount shift significand) :
    shift = 0 ∨ format.binade ≤ significand := by
  apply settles.normal.imp_right
  intro normal
  by_contra less
  have least : (significand : ℚ) + 1 ≤ format.binade := by
    exact_mod_cast Nat.lt_of_not_le less
  have near := abs_le.mp settles.near
  linarith [near.1]

theorem significand_le (settles : format.Settles amount shift significand) :
    significand ≤ 2 * format.binade := by
  by_contra more
  have most : (2 * format.binade : ℚ) + 1 ≤ significand := by
    exact_mod_cast Nat.lt_of_not_le more
  have near := abs_le.mp settles.near
  linarith [near.2, settles.below]

theorem shift_le {exponent : Nat} (settles : format.Settles amount shift significand)
    (small : amount ≤ powerOfTwo exponent) :
    shift = 0 ∨ format.precision - 1 + shift ≤ exponent := by
  apply settles.normal.imp_right
  intro normal
  have step := cast_powerOfTwo_pos shift
  rw [le_div_iff₀ step] at normal
  have bits : format.binade * powerOfTwo shift ≤ powerOfTwo exponent := by
    exact_mod_cast normal.trans small
  rwa [binade, ← powerOfTwo_add, powerOfTwo_le_powerOfTwo_iff] at bits

theorem units_eq (settles : format.Settles amount shift significand) :
    format.units (shift * format.binade + significand) = significand * powerOfTwo shift :=
  units_shifted settles.significand_le settles.binade_le

theorem units_eq_of_dvd {total : Nat} (settles : format.Settles total shift significand)
    (steps : powerOfTwo shift ∣ total) :
    format.units (shift * format.binade + significand) = total := by
  obtain ⟨whole, rfl⟩ := steps
  have step := (cast_powerOfTwo_pos shift).ne'
  have near := settles.near
  rw [Nat.cast_mul, mul_div_cancel_left₀ _ step, abs_le] at near
  have same : significand = whole := by
    apply Nat.le_antisymm <;> apply Nat.le_of_lt_succ <;> rw [← Nat.cast_lt (α := ℚ)] <;>
      push_cast <;> linarith
  rw [settles.units_eq, same, Nat.mul_comm]

theorem abs_units_sub (settles : format.Settles amount shift significand) :
    |(format.units (shift * format.binade + significand) : ℚ) - amount| =
      |(significand : ℚ) - amount / powerOfTwo shift| * powerOfTwo shift := by
  have step := cast_powerOfTwo_pos shift
  rw [settles.units_eq, Nat.cast_mul, ← abs_of_pos step, ← abs_mul, abs_of_pos step, sub_mul,
    div_mul_cancel₀ _ step.ne']

theorem abs_units_sub_le (settles : format.Settles amount shift significand) :
    |(format.units (shift * format.binade + significand) : ℚ) - amount| ≤
      1 / 2 * powerOfTwo shift := by
  rw [settles.abs_units_sub]
  exact mul_le_mul_of_nonneg_right settles.near (cast_powerOfTwo_pos shift).le

theorem even_of_half (settles : format.Settles amount shift significand)
    (half : |(format.units (shift * format.binade + significand) : ℚ) - amount| =
      1 / 2 * powerOfTwo shift) : Even significand := by
  have step := (cast_powerOfTwo_pos shift).ne'
  rw [settles.abs_units_sub] at half
  exact settles.even (mul_right_cancel₀ step half)

/-- Where the steps do not become shorter, the values below are off by half a step or more. -/
theorem half_le_of_lt (settles : format.Settles amount shift significand)
    (full : shift = 0 ∨ format.binade < significand)
    (smaller : other < shift * format.binade + significand) :
    (1 / 2 * powerOfTwo shift : ℚ) ≤ |(format.units other : ℚ) - amount| := by
  have near := (abs_le.mp settles.abs_units_sub_le).2
  obtain ⟨previous, place⟩ := Nat.exists_eq_add_one_of_ne_zero (Nat.ne_zero_of_lt smaller)
  have reached : shift = 0 ∨ (shift + 1) * format.binade ≤ previous := by
    rw [Nat.add_mul, Nat.one_mul]
    omega
  have step := units_add_step_le reached (Nat.lt_succ_self previous)
  have order : format.units other ≤ format.units previous :=
    format.units_strictMono.monotone (by omega)
  have lower : (format.units other : ℚ) + powerOfTwo shift ≤
      format.units (shift * format.binade + significand) := by
    rw [place]
    exact_mod_cast (Nat.add_le_add_right order _).trans step
  rw [abs_sub_comm]
  refine le_trans ?_ (le_abs_self _)
  linarith

/-- Below a power of two the steps are shorter, but the amount does not lie there. -/
theorem closer_of_lt (settles : format.Settles amount shift significand)
    (power : shift ≠ 0 ∧ significand = format.binade)
    (smaller : other < shift * format.binade + significand) :
    |(format.units (shift * format.binade + significand) : ℚ) - amount| <
      |(format.units other : ℚ) - amount| := by
  have reached : (format.units (shift * format.binade + significand) : ℚ) ≤ amount := by
    rw [settles.units_eq, power.2, Nat.cast_mul, ← le_div_iff₀ (cast_powerOfTwo_pos shift)]
    exact settles.normal.resolve_left power.1
  have lower : (format.units other : ℚ) < format.units (shift * format.binade + significand) :=
    Nat.cast_lt.mpr (format.units_strictMono smaller)
  rw [abs_sub_comm, abs_of_nonneg (by linarith), abs_sub_comm, abs_of_nonneg (by linarith)]
  linarith

theorem half_le_of_gt (settles : format.Settles amount shift significand)
    (larger : shift * format.binade + significand < other) :
    (1 / 2 * powerOfTwo shift : ℚ) ≤ |(format.units other : ℚ) - amount| := by
  have near := (abs_le.mp settles.abs_units_sub_le).1
  have normal := settles.binade_le
  have reached : shift = 0 ∨
      (shift + 1) * format.binade ≤ shift * format.binade + significand := by
    rw [Nat.add_mul, Nat.one_mul]
    omega
  have upper : (format.units (shift * format.binade + significand) : ℚ) + powerOfTwo shift ≤
      format.units other := by
    exact_mod_cast units_add_step_le reached larger
  refine le_trans ?_ (le_abs_self _)
  linarith

theorem apart (settles : format.Settles amount shift significand)
    (different : other ≠ shift * format.binade + significand) :
    |(format.units (shift * format.binade + significand) : ℚ) - amount| <
        |(format.units other : ℚ) - amount| ∨
      (1 / 2 * powerOfTwo shift : ℚ) ≤ |(format.units other : ℚ) - amount| := by
  rcases Nat.lt_or_gt_of_ne different with smaller | larger
  · by_cases full : shift = 0 ∨ format.binade < significand
    · exact .inr (settles.half_le_of_lt full smaller)
    · obtain ⟨shifted, lowest⟩ := not_or.mp full
      have power : significand = format.binade :=
        Nat.le_antisymm (Nat.not_lt.mp lowest) (settles.binade_le.resolve_left shifted)
      exact .inl (settles.closer_of_lt ⟨shifted, power⟩ smaller)
  · exact .inr (settles.half_le_of_gt larger)

theorem closest (settles : format.Settles amount shift significand) (other : Nat) :
    |(format.units (shift * format.binade + significand) : ℚ) - amount| ≤
      |(format.units other : ℚ) - amount| := by
  by_cases same : other = shift * format.binade + significand
  · rw [same]
  · rcases settles.apart same with closer | half
    · exact closer.le
    · exact le_trans settles.abs_units_sub_le half

theorem even_of_tie (settles : format.Settles amount shift significand)
    (different : other ≠ shift * format.binade + significand)
    (tie : |(format.units other : ℚ) - amount| =
      |(format.units (shift * format.binade + significand) : ℚ) - amount|) :
    Even significand := by
  rcases settles.apart different with closer | half
  · exact absurd tie closer.ne'
  · rw [tie] at half
    exact settles.even_of_half (le_antisymm settles.abs_units_sub_le half)

end Settles

/-- The finite values reach beyond all numbers of so many bits. -/
structure Spans (format : Format) (bits : Nat) : Prop where
  significant : 1 < format.precision
  wide : (format.scale + bits + 3) * format.binade < format.infinity

theorem spans_single : single.Spans 64 where
  significant := by decide
  wide := by decide

/-- The finite values hold all counts of so many bits as a significand has, and among the normal
ones are all shares of one such count in another. -/
structure HoldsCounts (format : Format) : Prop extends format.Spans format.precision where
  fine : 2 * format.precision ≤ format.scale + 1

theorem holdsCounts_single : single.HoldsCounts where
  significant := by decide
  wide := by decide
  fine := by decide

theorem Spans.one_lt_infinity (spans : format.Spans bits) : 1 < format.infinity := by
  refine lt_of_le_of_lt ?_ spans.wide
  exact Nat.mul_pos (Nat.succ_pos _) format.binade_pos

theorem amount_le (positive : 0 < denominator)
    (small : numerator ≤ denominator * powerOfTwo bits) :
    (numerator * format.one / denominator : ℚ) ≤ powerOfTwo (bits + format.scale) := by
  rw [div_le_iff₀ (Nat.cast_pos.mpr positive), powerOfTwo_add, mul_comm _ (denominator : ℚ)]
  have scaled := Nat.mul_le_mul_right format.one small
  rw [Nat.mul_assoc] at scaled
  exact_mod_cast scaled

theorem round_lt_infinity (spans : format.Spans bits) (positive : 0 < denominator)
    (small : numerator ≤ denominator * powerOfTwo bits) :
    format.round numerator denominator < format.infinity := by
  have significant := spans.significant
  obtain ⟨shift, significand, rounded, settles⟩ :=
    exists_settles numerator (Nat.zero_lt_of_lt significant) positive
  have few := settles.shift_le (amount_le positive small)
  rw [rounded]
  apply lt_of_le_of_lt (min_le_right _ _)
  calc shift * format.binade + significand
      ≤ shift * format.binade + 2 * format.binade :=
        Nat.add_le_add_left settles.significand_le _
    _ = (shift + 2) * format.binade := (Nat.add_mul _ _ _).symm
    _ ≤ (format.scale + bits + 3) * format.binade := Nat.mul_le_mul_right _ (by omega)
    _ < format.infinity := spans.wide

theorem ofNat_lt_infinity (spans : format.Spans bits) {count : Nat}
    (small : count ≤ powerOfTwo bits) : format.ofNat count < format.infinity := by
  apply round_lt_infinity spans Nat.one_pos
  rwa [Nat.one_mul]

theorem exists_settles_of_lt (significant : 0 < format.precision) (positive : 0 < denominator)
    (finite : format.round numerator denominator < format.infinity) :
    ∃ shift significand,
      format.round numerator denominator = shift * format.binade + significand ∧
      format.Settles (numerator * format.one / denominator : ℚ) shift significand := by
  obtain ⟨shift, significand, rounded, settles⟩ := exists_settles numerator significant positive
  refine ⟨shift, significand, ?_, settles⟩
  rw [rounded] at finite ⊢
  exact min_eq_right (le_of_not_ge fun cut => absurd (min_eq_left cut) finite.ne)

/-- Counts of so many bits as a significand has are values, and so is the first one beyond them, a
power of two. -/
theorem units_ofNat (holds : format.HoldsCounts) {count : Nat}
    (small : count ≤ powerOfTwo format.precision) :
    format.units (format.ofNat count) = count * format.one := by
  have significant := Nat.zero_lt_of_lt holds.significant
  obtain ⟨shift, significand, rounded, settles⟩ := exists_settles_of_lt significant Nat.one_pos
    (ofNat_lt_infinity holds.toSpans small)
  have few : shift = 0 ∨ format.precision - 1 + shift ≤ format.precision + format.scale := by
    apply settles.shift_le
    apply amount_le Nat.one_pos
    rwa [Nat.one_mul]
  rw [Nat.cast_one, div_one, ← Nat.cast_mul] at settles
  rw [ofNat, rounded]
  apply settles.units_eq_of_dvd
  by_cases within : shift ≤ format.scale
  · apply Dvd.dvd.mul_left
    rw [one, ← Nat.sub_add_cancel within, powerOfTwo_add]
    exact Nat.dvd_mul_left _ _
  · obtain rfl : shift = format.scale + 1 := by omega
    have step := cast_powerOfTwo_pos (format.scale + 1)
    have normal := settles.normal.resolve_left (Nat.succ_ne_zero _)
    rw [le_div_iff₀ step, powerOfTwo_succ] at normal
    have reached : 2 * format.binade * format.one ≤ count * format.one := by
      rw [Nat.mul_comm 2, Nat.mul_assoc]
      exact_mod_cast normal
    rw [← two_mul_binade significant] at small
    obtain rfl : count = 2 * format.binade :=
      Nat.le_antisymm small (Nat.le_of_mul_le_mul_right reached format.one_pos)
    rw [powerOfTwo_succ, Nat.mul_comm 2 format.binade, Nat.mul_assoc]
    exact Nat.dvd_mul_left _ _

end Format

namespace Floating

open Format

variable {format : Format} {value : Floating format}
  {numerator denominator shift significand bits count part whole : Nat} {number : ℚ}

theorem toRat_of_nonneg (nonneg : 0 ≤ value.toRat) :
    value.toRat = format.units value.magnitude / format.one := by
  cases sign : value.negative with
  | false => exact toRat_of_not_negative sign
  | true =>
      have size : (0 : ℚ) ≤ format.units value.magnitude / format.one := by positivity
      simp only [toRat, sign, if_true, neg_one_mul] at nonneg ⊢
      linarith

theorem nearest_of_settles (significant : 1 < format.precision) (finite : value.IsFinite)
    (positive : value.negative = false) (nonneg : 0 ≤ number)
    (place : value.magnitude = shift * format.binade + significand)
    (settles : format.Settles (number * format.one) shift significand) : Nearest number value := by
  have one := format.cast_one_pos
  have distance (magnitude : Nat) : |(format.units magnitude / format.one : ℚ) - number| =
      |(format.units magnitude : ℚ) - number * format.one| / format.one := by
    rw [← abs_of_pos one, ← abs_div, abs_of_pos one, sub_div, mul_div_cancel_right₀ _ one.ne']
  have own : value.toRat = format.units (shift * format.binade + significand) / format.one := by
    rw [toRat_of_not_negative positive, place]
  have closest (magnitude : Nat) : |value.toRat - number| ≤
      |(format.units magnitude / format.one : ℚ) - number| := by
    rw [own, distance, distance]
    exact div_le_div_of_nonneg_right (settles.closest magnitude) one.le
  have farther (other : Floating format) (below : other.toRat < 0) :
      |value.toRat - number| < |other.toRat - number| := by
    have zero := closest 0
    rw [units_of_lt format.binade_pos, Nat.cast_zero, zero_div, zero_sub, abs_neg,
      abs_of_nonneg nonneg] at zero
    have beyond : number < |other.toRat - number| := by
      rw [abs_of_neg (by linarith)]
      linarith
    exact lt_of_le_of_lt zero beyond
  refine ⟨finite, ?_, ?_⟩
  · intro other _
    by_cases below : other.toRat < 0
    · exact (farther other below).le
    · rw [toRat_of_nonneg (not_lt.mp below)]
      exact closest other.magnitude
  · intro other _ different tie
    by_cases below : other.toRat < 0
    · exact absurd tie (farther other below).ne'
    · rw [toRat_of_nonneg (not_lt.mp below), own] at different tie
      have elsewhere : other.magnitude ≠ shift * format.binade + significand := by
        intro same
        exact different (by rw [same])
      rw [distance, distance, div_left_inj' one.ne'] at tie
      rw [place]
      exact ((even_binade significant).mul_left shift).add (settles.even_of_tie elsewhere tie)

/-- Rounding gives the nearest value. -/
theorem nearest_ofFraction (significant : 1 < format.precision) (positive : 0 < denominator)
    (finite : (ofFraction format numerator denominator).IsFinite) :
    Nearest (numerator / denominator) (ofFraction format numerator denominator) := by
  obtain ⟨shift, significand, rounded, settles⟩ :=
    exists_settles_of_lt (Nat.zero_lt_of_lt significant) positive finite
  apply nearest_of_settles significant finite rfl (by positivity) rounded
  rwa [div_mul_eq_mul_div]

theorem nearest_ofNat (spans : format.Spans bits) (small : count ≤ powerOfTwo bits) :
    Nearest count (ofNat format count) := by
  have nearest := nearest_ofFraction spans.significant Nat.one_pos (ofNat_lt_infinity spans small)
  rwa [Nat.cast_one, div_one] at nearest

/-- The least positive value is a unit, and no count but zero rounds to less. -/
theorem units_ofNat_pos (spans : format.Spans bits) (positive : 0 < count)
    (small : count ≤ powerOfTwo bits) : 0 < format.units (format.ofNat count) := by
  let least : Floating format := ⟨false, 1⟩
  have unit : format.units 1 = 1 := by
    rw [units_succ, units_of_lt format.binade_pos, gap_of_lt format.binade_pos]
  have reached : least.toRat ≤ count := by
    rw [toRat_of_not_negative rfl, unit, div_le_iff₀ format.cast_one_pos]
    exact_mod_cast Nat.mul_pos positive format.one_pos
  have finite : least.IsFinite := spans.one_lt_infinity
  have order : 1 ≤ format.ofNat count :=
    (nearest_toRat finite).magnitude_le (nearest_ofNat spans small) reached rfl rfl
  exact lt_of_le_of_lt (Nat.zero_le _) (format.units_strictMono order)

theorem nearest_quotient (spans : format.Spans bits) (positive : 0 < whole)
    (ordered : part ≤ whole) (small : whole ≤ powerOfTwo bits) :
    Nearest ((ofNat format part).toRat / (ofNat format whole).toRat)
      (share format part whole) := by
  have order : format.ofNat part ≤ format.ofNat whole :=
    (nearest_ofNat spans (ordered.trans small)).magnitude_le (nearest_ofNat spans small)
      (Nat.cast_le.mpr ordered) rfl rfl
  have divisor := units_ofNat_pos spans positive small
  have bounded : format.units (format.ofNat part) ≤
      format.units (format.ofNat whole) * powerOfTwo bits :=
    (format.units_strictMono.monotone order).trans (Nat.le_mul_of_pos_right _ (powerOfTwo_pos bits))
  rw [toRat_of_not_negative rfl, toRat_of_not_negative rfl,
    div_div_div_cancel_right₀ format.cast_one_pos.ne']
  exact nearest_ofFraction spans.significant divisor (round_lt_infinity spans divisor bounded)

theorem isNumber_share (part whole : Nat) : (share format part whole).IsNumber :=
  Nat.min_le_left _ _

/-- What two counts come to when they are divided: both are rounded to the nearest values, and so
is the quotient of these. -/
def RoundedQuotient (part whole : Nat) (quotient : Floating format) : Prop :=
  ∃ dividend divisor : Floating format, Nearest part dividend ∧ Nearest whole divisor ∧
    Nearest (dividend.toRat / divisor.toRat) quotient

theorem roundedQuotient_share (spans : format.Spans bits) (positive : 0 < whole)
    (ordered : part ≤ whole) (small : whole ≤ powerOfTwo bits) :
    RoundedQuotient part whole (share format part whole) :=
  ⟨_, _, nearest_ofNat spans (ordered.trans small), nearest_ofNat spans small,
    nearest_quotient spans positive ordered small⟩

theorem toRat_ofNat (holds : format.HoldsCounts) (small : count ≤ powerOfTwo format.precision) :
    (ofNat format count).toRat = count := by
  rw [toRat_of_not_negative rfl, ofNat, units_ofNat holds small, Nat.cast_mul,
    mul_div_cancel_right₀ _ format.cast_one_pos.ne']

/-- A share is the nearest value to the exact one: its counts are not changed by rounding. -/
theorem nearest_share (holds : format.HoldsCounts) (positive : 0 < whole)
    (ordered : part ≤ whole) (small : whole ≤ powerOfTwo format.precision) :
    Nearest (part / whole) (share format part whole) := by
  have nearest := nearest_quotient holds.toSpans positive ordered small
  rwa [toRat_ofNat holds (ordered.trans small), toRat_ofNat holds small] at nearest

theorem leastNormal_le_share (holds : format.HoldsCounts) (present : 0 < part)
    (positive : 0 < whole) (small : whole ≤ powerOfTwo format.precision) :
    (leastNormal format).toRat ≤ part / whole := by
  have fine := holds.fine
  have bits : format.binade * whole ≤ part * format.one := calc
    format.binade * whole
      ≤ format.binade * powerOfTwo format.precision := Nat.mul_le_mul_left _ small
    _ = powerOfTwo (format.precision - 1 + format.precision) := (powerOfTwo_add _ _).symm
    _ ≤ format.one := powerOfTwo_le (by omega)
    _ ≤ part * format.one := Nat.le_mul_of_pos_left _ present
  rw [toRat_leastNormal, div_le_div_iff₀ format.cast_one_pos
    (Nat.cast_pos.mpr positive)]
  exact_mod_cast bits

end Floating

end LatencyBalancer
