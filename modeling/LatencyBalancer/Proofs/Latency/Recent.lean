import LatencyBalancer.Server
import Mathlib.Data.List.DropRight

/-!
# What a window remembers

However many latencies were recorded on a server, its window holds the newest of them, as many as
there is room for, in the order in which they came.
-/

namespace LatencyBalancer

namespace Window

/-- The end of a list that is no longer than the bound, or one element longer. -/
theorem rtake_concat (latencies : List UInt32) (latency : UInt32) (room : Nat) :
    (latencies ++ [latency]).rtake (room + 1) =
      (if room + 1 ≤ latencies.length then (latencies.rtake (room + 1)).tail
        else latencies.rtake (room + 1)) ++ [latency] := by
  rw [List.rtake_concat_succ]
  split
  next full =>
    rw [List.rtake, List.rtake, List.tail_drop]
    congr 2
    omega
  next spare =>
    rw [List.rtake, List.rtake]
    congr 2
    omega

theorem samples_recordAll_empty (capacity : Nat) (latencies : List UInt32) :
    ((empty capacity).recordAll latencies).samples = latencies.rtake (max capacity 1) := by
  obtain ⟨room, positive⟩ : ∃ room, max capacity 1 = room + 1 :=
    Nat.exists_eq_add_one_of_ne_zero (by omega)
  induction latencies using List.reverseRecOn with
  | nil => simp
  | append_singleton latencies latency inductionHypothesis =>
      rw [recordAll_append, recordAll_cons, recordAll_nil, positive, rtake_concat]
      have holds : ((empty capacity).recordAll latencies).isFull = true ↔
          room + 1 ≤ latencies.length := by
        simp only [isFull, size, inductionHypothesis, capacity_recordAll, capacity_empty, positive,
          beq_iff_eq, List.rtake, List.length_drop]
        omega
      rw [← positive, ← inductionHypothesis, positive]
      by_cases full : room + 1 ≤ latencies.length
      · rw [samples_record_of_isFull (holds.mpr full), if_pos full]
      · rw [samples_record_of_not_isFull (Bool.eq_false_iff.mpr (mt holds.mp full)), if_neg full]

theorem size_recordAll_empty (capacity : Nat) (latencies : List UInt32) :
    ((empty capacity).recordAll latencies).size = min latencies.length (max capacity 1) := by
  rw [size, samples_recordAll_empty, List.rtake, List.length_drop]
  omega

theorem isFull_recordAll_empty {capacity : Nat} {latencies : List UInt32} :
    ((empty capacity).recordAll latencies).isFull = true ↔
      max capacity 1 ≤ latencies.length := by
  rw [isFull, beq_iff_eq, size_recordAll_empty, capacity_recordAll, capacity_empty]
  omega

theorem isEmpty_recordAll_empty {capacity : Nat} {latencies : List UInt32} :
    ((empty capacity).recordAll latencies).isEmpty = true ↔ latencies.length = 0 := by
  have kept := size_recordAll_empty capacity latencies
  rw [isEmpty, List.isEmpty_iff, ← List.length_eq_zero_iff]
  rw [size] at kept
  omega

/-- What a window with so much room says after the latencies were recorded one by one. -/
structure KeepsNewest (capacity : Nat) (latencies : List UInt32) : Prop where
  samples : ((empty capacity).recordAll latencies).samples =
    latencies.rtake (min latencies.length (max capacity 1))
  size : ((empty capacity).recordAll latencies).size = min latencies.length (max capacity 1)
  isFull : ((empty capacity).recordAll latencies).isFull = true ↔
    max capacity 1 ≤ latencies.length
  staysFull : ((empty capacity).recordAll latencies).isFull = true →
    ∀ later, (((empty capacity).recordAll latencies).recordAll later).isFull = true
  isEmpty : ((empty capacity).recordAll latencies).isEmpty = true ↔ latencies.length = 0
  bounded : ((empty capacity).recordAll latencies).size ≤ max capacity 1

theorem recordAll_keepsNewest (capacity : Nat) (latencies : List UInt32) :
    KeepsNewest capacity latencies := by
  have size := size_recordAll_empty capacity latencies
  refine ⟨?_, size, isFull_recordAll_empty, ?_, isEmpty_recordAll_empty, ?_⟩
  · rw [samples_recordAll_empty, List.rtake, List.rtake]
    congr 1
    omega
  · intro full later
    rw [← recordAll_append]
    apply isFull_recordAll_empty.mpr
    apply (isFull_recordAll_empty.mp full).trans
    rw [List.length_append]
    exact Nat.le_add_right _ _
  · rw [size]
    exact min_le_right _ _

/-- A window without room keeps the last latency all the same. -/
example : ((empty 0).recordAll [30, 10, 20]).samples = [20] := rfl

end Window

/-- A server, the room in its window, and all the latencies that were ever recorded on it. -/
structure History where
  server : Server
  capacity : Nat
  latencies : List UInt32

namespace History

def member (history : History) : Member :=
  (Member.new history.server history.capacity).record history.latencies

def held (history : History) : Nat :=
  min history.latencies.length (max history.capacity 1)

@[simp]
theorem server_member (history : History) : history.member.server = history.server := rfl

theorem size_window_member (history : History) : history.member.window.size = history.held :=
  Window.size_recordAll_empty _ _

/-- The window holds the last latencies, as many as it holds. -/
theorem samples_window_member (history : History) :
    history.member.window.samples = history.latencies.rtake history.held := by
  refine (Window.samples_recordAll_empty _ _).trans ?_
  rw [List.rtake, List.rtake, held]
  congr 1
  omega

end History

end LatencyBalancer
