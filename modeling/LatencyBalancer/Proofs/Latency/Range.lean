import LatencyBalancer.Latency.Weight

/-!
# The range of weights

Whatever the latencies are, and also where their sum leaves the machine word, a weight lies
between the least one and that of a server whose calls take no time.
-/

namespace LatencyBalancer.Latency

variable {samples : List UInt32} {readTimeout : UInt32}

/-- What is left of the scale is a small number, of which no bit is cut off. -/
theorem toNat_rest {used : UInt64} (room : used < maxWeight.toUInt64) :
    (maxWeight.toUInt64 - used).toNat = maxWeight.toNat - used.toNat ∧
      (maxWeight.toUInt64 - used).toUInt32.toNat = maxWeight.toNat - used.toNat := by
  have rest : (maxWeight.toUInt64 - used).toNat = maxWeight.toNat - used.toNat :=
    UInt64.toNat_sub_of_le _ _ (UInt64.le_of_lt room)
  refine ⟨rest, ?_⟩
  rw [UInt64.toNat_toUInt32, rest]
  apply Nat.mod_eq_of_lt
  exact Nat.lt_of_le_of_lt (Nat.sub_le _ _) (by decide)

theorem toNat_weight_of_load_lt (nonempty : samples ≠ [])
    (room : load samples readTimeout < maxWeight.toUInt64) :
    (weight samples readTimeout).toNat =
      maxWeight.toNat - (load samples readTimeout).toNat := by
  have full : ¬ samples.isEmpty = true := mt List.isEmpty_iff.mp nonempty
  simp only [weight, if_neg full, if_pos room]
  exact (toNat_rest room).2

theorem weight_of_le_load (spent : maxWeight.toUInt64 ≤ load samples readTimeout) :
    weight samples readTimeout = minWeight := by
  unfold weight
  split
  next => rfl
  next => exact if_neg (UInt64.not_lt.mpr spent)

theorem weight_eq_or (samples : List UInt32) (readTimeout : UInt32) :
    weight samples readTimeout = minWeight ∨
      (load samples readTimeout).toNat < maxWeight.toNat ∧
        (weight samples readTimeout).toNat =
          maxWeight.toNat - (load samples readTimeout).toNat := by
  by_cases empty : samples = []
  · rw [empty]
    exact .inl (weight_nil readTimeout)
  · by_cases room : load samples readTimeout < maxWeight.toUInt64
    · exact .inr ⟨UInt64.lt_iff_toNat_lt.mp room, toNat_weight_of_load_lt empty room⟩
    · exact .inl (weight_of_le_load (UInt64.not_lt.mp room))

theorem toNat_weight_mem (samples : List UInt32) (readTimeout : UInt32) :
    minWeight.toNat ≤ (weight samples readTimeout).toNat ∧
      (weight samples readTimeout).toNat ≤ maxWeight.toNat := by
  rcases weight_eq_or samples readTimeout with least | ⟨below, rest⟩
  · rw [least]
    decide
  · rw [rest]
    have one : minWeight.toNat = 1 := rfl
    omega

end LatencyBalancer.Latency
