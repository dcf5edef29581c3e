import LatencyBalancer.Proofs.Latency.Range
import Mathlib.Algebra.GroupWithZero.Nat
import Mathlib.Algebra.Order.BigOperators.Group.List
import Mathlib.Algebra.Order.Group.Nat

/-!
# Weights in whole numbers

The weight of a window is calculated with machine words.  For no more samples than 32 bits can
count, no step on the way leaves its word: the sum does not wrap around, the product is not held
at the largest word, and nothing is cut off when the weight is narrowed.  So the weight is what
the same calculation gives in whole numbers.
-/

namespace LatencyBalancer.Latency

def wholeMean (samples : List UInt32) : Nat :=
  (samples.map UInt32.toNat).sum / samples.length

def wholeWeight (samples : List UInt32) (readTimeout : UInt32) : Nat :=
  max 1 (100 - 100 * wholeMean samples / (readTimeout.toNat + 10))

variable {samples : List UInt32}

/-! ### Machine words -/

theorem toNat_foldl_add (start : UInt64)
    (fits : start.toNat + (samples.map UInt32.toNat).sum < UInt64.size) :
    (samples.foldl (fun sum sample => sum + sample.toUInt64) start).toNat =
      start.toNat + (samples.map UInt32.toNat).sum := by
  induction samples generalizing start with
  | nil => rfl
  | cons sample samples inductionHypothesis =>
      rw [List.map_cons, List.sum_cons, ← Nat.add_assoc] at fits ⊢
      have next : (start + sample.toUInt64).toNat = start.toNat + sample.toNat := by
        rw [UInt64.toNat_add, UInt32.toNat_toUInt64]
        apply Nat.mod_eq_of_lt
        exact Nat.lt_of_le_of_lt (Nat.le_add_right _ _) fits
      rw [← next] at fits ⊢
      exact inductionHypothesis _ fits

theorem sum_toNat_le (samples : List UInt32) :
    (samples.map UInt32.toNat).sum ≤ samples.length * (UInt32.size - 1) := by
  have small : ∀ sample ∈ samples.map UInt32.toNat, sample ≤ UInt32.size - 1 := by
    intro sample listed
    obtain ⟨word, _, rfl⟩ := List.mem_map.mp listed
    exact Nat.le_sub_one_of_lt word.toNat_lt
  simpa using List.sum_le_card_nsmul _ _ small

theorem toNat_total (few : samples.length ≤ UInt32.size) :
    (total samples).toNat = (samples.map UInt32.toNat).sum := by
  have fits : (samples.map UInt32.toNat).sum < UInt64.size := calc
    (samples.map UInt32.toNat).sum
      ≤ samples.length * (UInt32.size - 1) := sum_toNat_le samples
    _ ≤ UInt32.size * (UInt32.size - 1) := Nat.mul_le_mul_right _ few
    _ < UInt64.size := by decide
  rw [total, toNat_foldl_add 0 (by simpa using fits)]
  exact Nat.zero_add _

theorem toNat_length (few : samples.length ≤ UInt32.size) :
    (UInt64.ofNat samples.length).toNat = samples.length :=
  UInt64.toNat_ofNat_of_lt' (Nat.lt_of_le_of_lt few (by decide))

theorem toNat_mean (few : samples.length ≤ UInt32.size) :
    (mean samples).toNat = wholeMean samples := by
  rw [mean, UInt64.toNat_div, toNat_total few, toNat_length few, wholeMean]

theorem wholeMean_lt (samples : List UInt32) : wholeMean samples < UInt32.size := by
  have mean : wholeMean samples ≤ UInt32.size - 1 :=
    Nat.div_le_of_le_mul (sum_toNat_le samples)
  exact Nat.lt_of_le_of_lt mean (by decide)

theorem toNat_saturatingMul {first second : UInt64}
    (fits : first.toNat * second.toNat < UInt64.size) :
    (saturatingMul first second).toNat = first.toNat * second.toNat := by
  rw [saturatingMul, if_pos fits, UInt64.toNat_mul]
  exact Nat.mod_eq_of_lt fits

theorem mean_mul_lt (few : samples.length ≤ UInt32.size) :
    (mean samples).toNat * maxWeight.toUInt64.toNat < UInt64.size := by
  have bounded := wholeMean_lt samples
  rw [toNat_mean few]
  calc wholeMean samples * 100
      ≤ UInt32.size * 100 := Nat.mul_le_mul_right _ bounded.le
    _ < UInt64.size := by decide

theorem toNat_divisor (readTimeout : UInt32) :
    (readTimeout.toUInt64 + timeoutPadding).toNat = readTimeout.toNat + 10 := by
  have bounded := readTimeout.toNat_lt
  rw [UInt64.toNat_add, UInt32.toNat_toUInt64]
  apply Nat.mod_eq_of_lt
  exact Nat.lt_trans (Nat.add_lt_add_right bounded 10) (by decide)

theorem toNat_load (few : samples.length ≤ UInt32.size) (readTimeout : UInt32) :
    (load samples readTimeout).toNat =
      100 * wholeMean samples / (readTimeout.toNat + 10) := by
  rw [load, UInt64.toNat_div, toNat_saturatingMul (mean_mul_lt few), toNat_divisor,
    toNat_mean few, Nat.mul_comm]
  rfl

/-! ### Weights -/

theorem toNat_weight (few : samples.length ≤ UInt32.size) (nonempty : samples ≠ [])
    (readTimeout : UInt32) :
    (weight samples readTimeout).toNat = wholeWeight samples readTimeout := by
  have used := toNat_load few readTimeout
  have most : maxWeight.toUInt64.toNat = 100 := rfl
  rw [wholeWeight, ← used]
  by_cases room : load samples readTimeout < maxWeight.toUInt64
  · have below := UInt64.lt_iff_toNat_lt.mp room
    have top : maxWeight.toNat = 100 := rfl
    rw [toNat_weight_of_load_lt nonempty room]
    omega
  · have spent := UInt64.not_lt.mp room
    have beyond := UInt64.le_iff_toNat_le.mp spent
    have least : minWeight.toNat = 1 := rfl
    rw [weight_of_le_load spent]
    omega

theorem wholeWeight_eq_most_iff {readTimeout : UInt32} :
    wholeWeight samples readTimeout = 100 ↔ 100 * wholeMean samples < readTimeout.toNat + 10 := by
  have unused : 100 * wholeMean samples / (readTimeout.toNat + 10) = 0 ↔
      100 * wholeMean samples < readTimeout.toNat + 10 := by
    rw [Nat.div_eq_zero_iff]
    omega
  rw [← unused, wholeWeight]
  omega

theorem wholeWeight_eq_least_iff {readTimeout : UInt32} :
    wholeWeight samples readTimeout = 1 ↔
      99 * (readTimeout.toNat + 10) ≤ 100 * wholeMean samples := by
  rw [← Nat.le_div_iff_mul_le (Nat.add_pos_right _ (by decide)), wholeWeight]
  omega

/-- The steps of the calculation and its result in whole numbers. -/
structure WeighedExactly (samples : List UInt32) (readTimeout : UInt32) : Prop where
  sum : (total samples).toNat = (samples.map UInt32.toNat).sum
  count : (UInt64.ofNat samples.length).toNat = samples.length
  /-- The product is not held at the largest word. -/
  unsaturated : (mean samples).toNat * maxWeight.toUInt64.toNat < UInt64.size
  product : (saturatingMul (mean samples) maxWeight.toUInt64).toNat =
    (mean samples).toNat * maxWeight.toUInt64.toNat
  divisor : (readTimeout.toUInt64 + timeoutPadding).toNat = readTimeout.toNat + 10
  /-- What is left of the scale keeps its value when it is narrowed. -/
  narrowed : load samples readTimeout < maxWeight.toUInt64 →
    (maxWeight.toUInt64 - load samples readTimeout).toUInt32.toNat =
      (maxWeight.toUInt64 - load samples readTimeout).toNat
  result : (weight samples readTimeout).toNat = max 1 (100 -
    100 * ((samples.map UInt32.toNat).sum / samples.length) / (readTimeout.toNat + 10))
  range : 1 ≤ (weight samples readTimeout).toNat ∧ (weight samples readTimeout).toNat ≤ 100
  most : weight samples readTimeout = maxWeight ↔
    100 * ((samples.map UInt32.toNat).sum / samples.length) < readTimeout.toNat + 10
  least : weight samples readTimeout = minWeight ↔
    99 * (readTimeout.toNat + 10) ≤ 100 * ((samples.map UInt32.toNat).sum / samples.length)

/-- Machine words give every weight as whole numbers do. -/
theorem weighedExactly (few : samples.length ≤ UInt32.size) (readTimeout : UInt32) :
    (samples = [] → weight samples readTimeout = minWeight) ∧
      (samples ≠ [] → WeighedExactly samples readTimeout) := by
  constructor
  · rintro rfl
    exact weight_nil readTimeout
  · intro nonempty
    have result := toNat_weight few nonempty readTimeout
    refine ⟨toNat_total few, toNat_length few, mean_mul_lt few,
      toNat_saturatingMul (mean_mul_lt few), toNat_divisor readTimeout, ?_, result,
      toNat_weight_mem samples readTimeout, ?_, ?_⟩
    · intro room
      obtain ⟨rest, narrow⟩ := toNat_rest room
      exact narrow.trans rest.symm
    · rw [← UInt32.toNat_inj, result]
      exact wholeWeight_eq_most_iff
    · rw [← UInt32.toNat_inj, result]
      exact wholeWeight_eq_least_iff

/-- The mean of the first samples is rounded down, and the sum of the others is beyond 32 bits. -/
theorem weighedExactly_rounded :
    ([77, 78, 77] : List UInt32).length ≤ UInt32.size ∧ WeighedExactly [77, 78, 77] 100 ∧
      weight [77, 78, 77] 100 = 30 ∧ WeighedExactly [4294967295, 4294967295] 0 ∧
      weight [4294967295, 4294967295] 0 = minWeight := by
  have few : ([77, 78, 77] : List UInt32).length ≤ UInt32.size := by decide
  have slow := (weighedExactly (by decide) 0).2 (List.cons_ne_nil 4294967295 [4294967295])
  exact ⟨few, (weighedExactly few 100).2 (by decide), by decide, slow, slow.least.mpr (by decide)⟩

end LatencyBalancer.Latency
