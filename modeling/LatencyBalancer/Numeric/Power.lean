/-!
Powers of the bases in which numbers are stored and written.
-/

namespace LatencyBalancer

def powerOfTwo (exponent : Nat) : Nat :=
  1 <<< exponent

def powerOfTen (exponent : Nat) : Nat :=
  Nat.pow 10 exponent

@[simp]
theorem powerOfTwo_zero : powerOfTwo 0 = 1 := rfl

theorem powerOfTwo_succ (exponent : Nat) : powerOfTwo (exponent + 1) = 2 * powerOfTwo exponent := by
  simp only [powerOfTwo, Nat.shiftLeft_succ]

theorem powerOfTwo_pos (exponent : Nat) : 0 < powerOfTwo exponent := by
  induction exponent with
  | zero => simp
  | succ exponent inductionHypothesis =>
      rw [powerOfTwo_succ]
      omega

theorem powerOfTwo_add (first second : Nat) :
    powerOfTwo (first + second) = powerOfTwo first * powerOfTwo second := by
  simp only [powerOfTwo, Nat.one_shiftLeft, Nat.pow_add]

theorem powerOfTwo_le {lower upper : Nat} (ordered : lower ≤ upper) :
    powerOfTwo lower ≤ powerOfTwo upper := by
  simp only [powerOfTwo, Nat.one_shiftLeft]
  exact Nat.pow_le_pow_right Nat.two_pos ordered

theorem powerOfTwo_le_iff_le_log2 {exponent number : Nat} (nonzero : number ≠ 0) :
    powerOfTwo exponent ≤ number ↔ exponent ≤ Nat.log2 number := by
  simp only [powerOfTwo, Nat.one_shiftLeft, Nat.le_log2 nonzero]

end LatencyBalancer
