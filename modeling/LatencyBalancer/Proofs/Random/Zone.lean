import LatencyBalancer.Proofs.Random.Draws
import Mathlib.Algebra.BigOperators.Group.Finset.Basic
import Mathlib.Algebra.Order.Floor.Div
import Mathlib.Data.Set.Card
import Mathlib.Order.Interval.Finset.Nat

/-!
# The zone of accepted words

The words accepted for one draw are those whose product with the bound falls into one zone.  The
zone is a power of two times as long as the bound, so the words that hit it are as many as that
power, for every draw alike.
-/

namespace LatencyBalancer

theorem powerOfTwo_eq (exponent : Nat) : powerOfTwo exponent = 2 ^ exponent :=
  Nat.one_shiftLeft exponent

namespace Random

variable {width bound : Nat}

/-- The last low half that is accepted. -/
def zone (width bound : Nat) : Nat :=
  bound <<< leadingZeros width bound - 1

theorem accepts_iff {word : Nat} (positive : 0 < bound) :
    Accepts width bound word ↔ word * bound % 2 ^ width ≤ zone width bound := by
  have shifted : 0 < bound * 2 ^ leadingZeros width bound :=
    Nat.mul_pos positive (Nat.two_pow_pos _)
  rw [Accepts, powerOfTwo_eq, powerOfTwo_eq, zone, Nat.shiftLeft_eq]
  omega

theorem zone_le (positive : 0 < bound) (fits : bound < powerOfTwo width) :
    bound * powerOfTwo (leadingZeros width bound) ≤ powerOfTwo width := by
  have short : Nat.log2 bound + 1 ≤ width := by
    rw [powerOfTwo_eq] at fits
    exact (Nat.log2_lt positive.ne').mpr fits
  have below : bound < 2 ^ (Nat.log2 bound + 1) := Nat.lt_log2_self
  simp only [powerOfTwo_eq, leadingZeros]
  calc bound * 2 ^ (width - (Nat.log2 bound + 1))
      ≤ 2 ^ (Nat.log2 bound + 1) * 2 ^ (width - (Nat.log2 bound + 1)) :=
        Nat.mul_le_mul_right _ below.le
    _ = 2 ^ width := by rw [← Nat.pow_add, Nat.add_sub_cancel' short]

/-- An accepted word stands for a draw exactly when its product lies in the zone of the draw. -/
theorem accepts_scaled_iff {draw word : Nat} (positive : 0 < bound)
    (fits : bound < powerOfTwo width) :
    Accepts width bound word ∧ scaled width bound word = draw ↔
      draw * powerOfTwo width ≤ word * bound ∧
        word * bound < draw * powerOfTwo width + bound * powerOfTwo (leadingZeros width bound) := by
  have whole := zone_le positive fits
  have split := Nat.div_add_mod (word * bound) (powerOfTwo width)
  have remainder := Nat.mod_lt (word * bound) (powerOfTwo_pos width)
  unfold Accepts scaled
  constructor
  · rintro ⟨accepted, rfl⟩
    rw [Nat.mul_comm (word * bound / powerOfTwo width)]
    omega
  · rintro ⟨reached, within⟩
    have next : word * bound < (draw + 1) * powerOfTwo width := by
      rw [Nat.succ_mul]
      omega
    have quotient : word * bound / powerOfTwo width = draw :=
      Nat.div_eq_of_lt_le reached next
    rw [quotient, Nat.mul_comm] at split
    exact ⟨by omega, quotient⟩

theorem lt_of_mul_lt_zone {draw word : Nat} (fits : bound < powerOfTwo width)
    (inside : draw < bound)
    (within : word * bound <
      draw * powerOfTwo width + bound * powerOfTwo (leadingZeros width bound)) :
    word < powerOfTwo width := by
  have whole := zone_le (Nat.zero_lt_of_lt inside) fits
  apply Nat.lt_of_mul_lt_mul_right (a := bound)
  calc word * bound
      < draw * powerOfTwo width + bound * powerOfTwo (leadingZeros width bound) := within
    _ ≤ (draw + 1) * powerOfTwo width := by
        rw [Nat.succ_mul]
        exact Nat.add_le_add_left whole _
    _ ≤ bound * powerOfTwo width := Nat.mul_le_mul_right _ inside
    _ = powerOfTwo width * bound := Nat.mul_comm _ _

theorem card_accepts_scaled {draw : Nat} (fits : bound < powerOfTwo width)
    (inside : draw < bound) :
    ((Finset.range (powerOfTwo width)).filter fun word =>
      Accepts width bound word ∧ scaled width bound word = draw).card =
      powerOfTwo (leadingZeros width bound) := by
  have positive : 0 < bound := Nat.zero_lt_of_lt inside
  have interval : ((Finset.range (powerOfTwo width)).filter fun word =>
      Accepts width bound word ∧ scaled width bound word = draw) =
      Finset.Ico (draw * powerOfTwo width ⌈/⌉ bound)
        ((draw * powerOfTwo width + bound * powerOfTwo (leadingZeros width bound)) ⌈/⌉ bound) := by
    ext word
    have upper : word < (draw * powerOfTwo width +
        bound * powerOfTwo (leadingZeros width bound)) ⌈/⌉ bound ↔
        word * bound < draw * powerOfTwo width + bound * powerOfTwo (leadingZeros width bound) := by
      rw [← not_le, ceilDiv_le_iff_le_mul positive, not_le, Nat.mul_comm]
    rw [Finset.mem_filter, Finset.mem_range, accepts_scaled_iff positive fits, Finset.mem_Ico,
      ceilDiv_le_iff_le_mul positive, upper, Nat.mul_comm bound word]
    exact ⟨fun member => member.2, fun zone => ⟨lt_of_mul_lt_zone fits inside zone.2, zone⟩⟩
  rw [interval, Nat.card_Ico, Nat.ceilDiv_eq_add_pred_div, Nat.ceilDiv_eq_add_pred_div]
  have shifted : draw * powerOfTwo width + bound * powerOfTwo (leadingZeros width bound) +
      bound - 1 =
      draw * powerOfTwo width + bound - 1 + bound * powerOfTwo (leadingZeros width bound) := by
    omega
  rw [shifted, Nat.add_mul_div_left _ _ positive, Nat.add_sub_cancel_left]

/-- There are words to follow any draws, and they may stand before any tape. -/
theorem exists_draws {draws : List Nat} (fits : bound < powerOfTwo 64)
    (inside : ∀ draw ∈ draws, draw < bound) (rest : WordTape) :
    ∃ tape, Draws bound tape draws rest := by
  induction draws with
  | nil => exact ⟨rest, .nil rest⟩
  | cons draw later inductionHypothesis =>
      obtain ⟨first, others⟩ := List.forall_mem_cons.mp inside
      obtain ⟨middle, after⟩ := inductionHypothesis others
      have several := card_accepts_scaled fits first
      obtain ⟨value, member⟩ := Finset.card_pos.mp (several ▸ powerOfTwo_pos _)
      obtain ⟨small, accepted, lands⟩ := Finset.mem_filter.mp member
      have same : (UInt64.ofNat value).toNat = value :=
        UInt64.toNat_ofNat_of_lt' (Finset.mem_range.mp small)
      refine ⟨middle.unread (UInt64.ofNat value), .cons ?_ after⟩
      rw [below_unread (UInt64.toNat_lt _), same, if_pos accepted, lands]

/-- The accepted words for the draws with a property are as many times more as these draws are. -/
theorem card_accepts_filter (fits : bound < powerOfTwo width) (property : Nat → Bool) :
    ((Finset.range (powerOfTwo width)).filter fun word =>
      Accepts width bound word ∧ property (scaled width bound word)).card =
      ((Finset.range bound).filter fun draw => property draw).card *
        powerOfTwo (leadingZeros width bound) := by
  rcases Nat.eq_zero_or_pos bound with rfl | positive
  · simp [Accepts]
  · have lands : ∀ word ∈ (Finset.range (powerOfTwo width)).filter fun word =>
        Accepts width bound word ∧ property (scaled width bound word),
        scaled width bound word ∈ (Finset.range bound).filter fun draw => property draw := by
      intro word member
      obtain ⟨small, _, holds⟩ := Finset.mem_filter.mp member
      exact Finset.mem_filter.mpr
        ⟨Finset.mem_range.mpr (scaled_lt (Finset.mem_range.mp small) positive), holds⟩
    rw [Finset.card_eq_sum_card_fiberwise lands]
    have each : ∀ draw ∈ (Finset.range bound).filter fun draw => property draw,
        (((Finset.range (powerOfTwo width)).filter fun word =>
          Accepts width bound word ∧ property (scaled width bound word)).filter fun word =>
            scaled width bound word = draw).card = powerOfTwo (leadingZeros width bound) := by
      intro draw member
      obtain ⟨inside, holds⟩ := Finset.mem_filter.mp member
      rw [← card_accepts_scaled fits (Finset.mem_range.mp inside), Finset.filter_filter]
      congr 1
      apply Finset.filter_congr
      intro word _
      constructor
      · rintro ⟨⟨accepted, _⟩, same⟩
        exact ⟨accepted, same⟩
      · rintro ⟨accepted, same⟩
        exact ⟨⟨accepted, same ▸ holds⟩, same⟩
    rw [Finset.sum_congr rfl each, Finset.sum_const, smul_eq_mul]

theorem ncard_values {Word : Type} {size : Nat} {value : Word → Nat}
    (injective : Function.Injective value)
    (range : ∀ number, number < size ↔ ∃ word, value word = number) (property : Nat → Bool) :
    {word : Word | property (value word)}.ncard =
      ((Finset.range size).filter fun number => property number).card := by
  rw [← Set.ncard_image_of_injective _ injective, ← Set.ncard_coe_finset]
  congr 1
  ext number
  simp only [Set.mem_image, Set.mem_ofPred_eq, Finset.coe_filter, Finset.mem_range, range]
  constructor
  · rintro ⟨word, holds, rfl⟩
    exact ⟨⟨word, rfl⟩, holds⟩
  · rintro ⟨⟨word, rfl⟩, holds⟩
    exact ⟨word, holds, rfl⟩

theorem ncard_words (property : Nat → Bool) :
    {word : UInt64 | property word.toNat}.ncard =
      ((Finset.range (powerOfTwo 64)).filter fun word => property word).card := by
  refine ncard_values (fun _ _ same => UInt64.toNat_inj.mp same) (fun number => ⟨?_, ?_⟩) property
  · exact fun small => ⟨UInt64.ofNat number, UInt64.toNat_ofNat_of_lt' small⟩
  · rintro ⟨word, rfl⟩
    exact word.toNat_lt

theorem ncard_halfWords (property : Nat → Bool) :
    {word : UInt32 | property word.toNat}.ncard =
      ((Finset.range (powerOfTwo 32)).filter fun word => property word).card := by
  refine ncard_values (fun _ _ same => UInt32.toNat_inj.mp same) (fun number => ⟨?_, ?_⟩) property
  · exact fun small => ⟨UInt32.ofNat number, UInt32.toNat_ofNat_of_lt' small⟩
  · rintro ⟨word, rfl⟩
    exact word.toNat_lt

end Random

end LatencyBalancer
