/-!
The recent latencies of one server.

A window keeps the newest samples up to its capacity, oldest first.  `record` drops the oldest
sample exactly when the window is full, so the samples are always the newest ones in the order
in which they were recorded.
-/

namespace LatencyBalancer

/-- Latencies in milliseconds, oldest first. -/
structure Window where
  capacity : Nat
  samples : List UInt32
deriving DecidableEq, Repr

namespace Window

/-- The window before any call; a window always has room for one sample. -/
def empty (capacity : Nat) : Window where
  capacity := max capacity 1
  samples := []

def size (window : Window) : Nat :=
  window.samples.length

def isEmpty (window : Window) : Bool :=
  window.samples.isEmpty

def isFull (window : Window) : Bool :=
  window.size == window.capacity

def record (window : Window) (latency : UInt32) : Window :=
  let kept := if window.isFull then window.samples.tail else window.samples
  { window with samples := kept ++ [latency] }

def recordAll (window : Window) (latencies : List UInt32) : Window :=
  latencies.foldl record window

@[simp]
theorem capacity_empty (capacity : Nat) : (empty capacity).capacity = max capacity 1 := rfl

@[simp]
theorem samples_empty (capacity : Nat) : (empty capacity).samples = [] := rfl

@[simp]
theorem capacity_record (window : Window) (latency : UInt32) :
    (window.record latency).capacity = window.capacity := rfl

theorem samples_record_of_isFull {window : Window} (full : window.isFull = true)
    (latency : UInt32) :
    (window.record latency).samples = window.samples.tail ++ [latency] := by
  simp [record, full]

theorem samples_record_of_not_isFull {window : Window} (room : window.isFull = false)
    (latency : UInt32) :
    (window.record latency).samples = window.samples ++ [latency] := by
  simp [record, room]

@[simp]
theorem recordAll_nil (window : Window) : window.recordAll [] = window := rfl

@[simp]
theorem recordAll_cons (window : Window) (latency : UInt32) (later : List UInt32) :
    window.recordAll (latency :: later) = (window.record latency).recordAll later := rfl

theorem recordAll_append (window : Window) (earlier later : List UInt32) :
    window.recordAll (earlier ++ later) = (window.recordAll earlier).recordAll later :=
  List.foldl_append

@[simp]
theorem capacity_recordAll (window : Window) (latencies : List UInt32) :
    (window.recordAll latencies).capacity = window.capacity := by
  induction latencies generalizing window with
  | nil => rfl
  | cons latency later inductionHypothesis => simp [inductionHypothesis]

end Window

end LatencyBalancer
