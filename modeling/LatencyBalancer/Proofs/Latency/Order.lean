import LatencyBalancer.Proofs.Latency.Exactness
import Mathlib.Algebra.BigOperators.Group.List.Basic
import Mathlib.Data.List.Forall2

/-!
# Slower servers weigh no more

A server with slower calls does not get a larger weight, in whichever order its calls came, and a
shorter timeout does not make up for them.
-/

namespace LatencyBalancer.Latency

/-- In some order the other samples are, one by one, as slow as these or slower. -/
def NoSlower (samples others : List UInt32) : Prop :=
  ∃ reordered : List UInt32, reordered.Perm others ∧ List.Forall₂ (· ≤ ·) samples reordered

variable {samples others : List UInt32}

namespace NoSlower

theorem of_perm (reordered : others.Perm samples) : NoSlower samples others :=
  ⟨samples, reordered.symm, List.forall₂_same.mpr fun _ _ => UInt32.le_refl _⟩

theorem set {index : Nat} (inside : index < samples.length) {latency : UInt32}
    (slower : samples[index] ≤ latency) : NoSlower samples (samples.set index latency) := by
  refine ⟨_, .refl _, List.forall₂_iff_get.mpr ⟨List.length_set.symm, ?_⟩⟩
  intro place listed _
  rw [List.get_eq_getElem, List.get_eq_getElem, List.getElem_set]
  by_cases same : index = place
  · subst same
    rw [if_pos rfl]
    exact slower
  · rw [if_neg same]
    exact UInt32.le_refl _

theorem length_eq (noSlower : NoSlower samples others) : samples.length = others.length := by
  obtain ⟨reordered, perm, ordered⟩ := noSlower
  exact ordered.length_eq.trans perm.length_eq

theorem sum_le (noSlower : NoSlower samples others) :
    (samples.map UInt32.toNat).sum ≤ (others.map UInt32.toNat).sum := by
  obtain ⟨reordered, perm, ordered⟩ := noSlower
  rw [← (perm.map UInt32.toNat).sum_eq]
  apply List.Forall₂.sum_le_sum
  rw [List.forall₂_map_left_iff, List.forall₂_map_right_iff]
  exact ordered.imp fun _ _ below => UInt32.le_iff_toNat_le.mp below

theorem wholeMean_le (noSlower : NoSlower samples others) :
    wholeMean samples ≤ wholeMean others := by
  rw [wholeMean, wholeMean, noSlower.length_eq]
  exact Nat.div_le_div_right noSlower.sum_le

end NoSlower

theorem wholeWeight_le {readTimeout shorter : UInt32}
    (slower : wholeMean samples ≤ wholeMean others) (patient : shorter ≤ readTimeout) :
    wholeWeight others shorter ≤ wholeWeight samples readTimeout := by
  have timeouts := UInt32.le_iff_toNat_le.mp patient
  have loads : 100 * wholeMean samples / (readTimeout.toNat + 10) ≤
      100 * wholeMean others / (shorter.toNat + 10) := by
    apply Nat.div_le_div
    · exact Nat.mul_le_mul_left 100 slower
    · exact Nat.add_le_add_right timeouts 10
    · exact Nat.succ_ne_zero _
  unfold wholeWeight
  omega

theorem weight_le_of_noSlower {readTimeout shorter : UInt32}
    (few : samples.length ≤ UInt32.size) (noSlower : NoSlower samples others)
    (patient : shorter ≤ readTimeout) :
    weight others shorter ≤ weight samples readTimeout := by
  by_cases empty : samples = []
  · obtain rfl : others = [] := by
      apply List.length_eq_zero_iff.mp
      rw [← noSlower.length_eq, empty, List.length_nil]
    rw [empty, weight_nil, weight_nil]
    exact UInt32.le_refl _
  · have present : others ≠ [] := by
      rintro rfl
      exact empty (List.length_eq_zero_iff.mp noSlower.length_eq)
    rw [UInt32.le_iff_toNat_le, toNat_weight few empty,
      toNat_weight (noSlower.length_eq ▸ few) present]
    exact wholeWeight_le noSlower.wholeMean_le patient

/-- How the weight of a server moves with its latencies and with the timeout. -/
structure WeighedInOrder (samples : List UInt32) (readTimeout : UInt32) : Prop where
  slower : ∀ others shorter, NoSlower samples others → shorter ≤ readTimeout →
    weight others shorter ≤ weight samples readTimeout
  reordered : ∀ others, others.Perm samples → weight others readTimeout = weight samples readTimeout
  replaced : ∀ (index : Nat) (inside : index < samples.length) (latency : UInt32),
    samples[index] ≤ latency →
      weight (samples.set index latency) readTimeout ≤ weight samples readTimeout
  hastened : ∀ shorter ≤ readTimeout, weight samples shorter ≤ weight samples readTimeout

theorem weighedInOrder (few : samples.length ≤ UInt32.size) (readTimeout : UInt32) :
    WeighedInOrder samples readTimeout := by
  refine ⟨fun others shorter => weight_le_of_noSlower few, ?_, ?_, ?_⟩
  · intro others perm
    apply UInt32.le_antisymm
    · exact weight_le_of_noSlower few (.of_perm perm) (UInt32.le_refl _)
    · exact weight_le_of_noSlower (perm.length_eq ▸ few) (.of_perm perm.symm) (UInt32.le_refl _)
  · intro index inside latency slower
    exact weight_le_of_noSlower few (.set inside slower) (UInt32.le_refl _)
  · intro shorter patient
    exact weight_le_of_noSlower few (.of_perm (.refl _)) patient

/-- The first latency falls, but it takes the place of a smaller one. -/
theorem weighedInOrder_reordered :
    ([30, 10, 50] : List UInt32).length ≤ UInt32.size ∧ NoSlower [30, 10, 50] [20, 60, 30] ∧
      weight [20, 60, 30] 90 ≤ weight [30, 10, 50] 100 := by
  have few : ([30, 10, 50] : List UInt32).length ≤ UInt32.size := by decide
  have noSlower : NoSlower [30, 10, 50] [20, 60, 30] :=
    ⟨[30, 20, 60], by decide, by simp⟩
  exact ⟨few, noSlower, (weighedInOrder few 100).slower _ 90 noSlower (by decide)⟩

end LatencyBalancer.Latency
