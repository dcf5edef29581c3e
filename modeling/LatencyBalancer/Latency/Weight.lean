/-!
Selection weights from latencies.

The mean latency is put on a scale of 0 to 100 against the read timeout, and the weight is what
is left of 100.  A server near the timeout keeps the least weight, so that it is still called
now and then and can recover.
-/

namespace LatencyBalancer.Latency

def minWeight : UInt32 := 1

def maxWeight : UInt32 := 100

/-- Added to the timeout, so that a latency just beyond it does not already fill the scale. -/
def timeoutPadding : UInt64 := 10

def saturatingMul (a b : UInt64) : UInt64 :=
  if a.toNat * b.toNat < UInt64.size then a * b else UInt64.ofNat (UInt64.size - 1)

/-- The sum of the samples as a machine word, which holds that of four billion of them. -/
def total (samples : List UInt32) : UInt64 :=
  samples.foldl (fun sum sample => sum + sample.toUInt64) 0

def mean (samples : List UInt32) : UInt64 :=
  total samples / UInt64.ofNat samples.length

/-- The share of the padded timeout that the mean latency takes, in hundredths. -/
def load (samples : List UInt32) (readTimeout : UInt32) : UInt64 :=
  saturatingMul (mean samples) maxWeight.toUInt64 / (readTimeout.toUInt64 + timeoutPadding)

/-- A window without samples says nothing about its server and gets the lowest weight. -/
def weight (samples : List UInt32) (readTimeout : UInt32) : UInt32 :=
  if samples.isEmpty then minWeight
  else
    let used := load samples readTimeout
    if used < maxWeight.toUInt64 then (maxWeight.toUInt64 - used).toUInt32 else minWeight

@[simp]
theorem weight_nil (readTimeout : UInt32) : weight [] readTimeout = minWeight := rfl

end LatencyBalancer.Latency
