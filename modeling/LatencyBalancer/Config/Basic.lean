import LatencyBalancer.Numeric.Decimal

/-!
The settings of a load balancer, and when they make sense.

The rules are checked in a fixed order, and the first that fails is the fault.
-/

namespace LatencyBalancer

structure Config where
  /-- How many latencies a server must have to be eligible, neither more nor less. -/
  windowSize : Nat := 30
  /-- The least share of the servers that must be eligible; eight tenths. -/
  minRatio : Single := Floating.ofFraction Format.single 8 10
  minEligible : Nat := 3
  /-- The read timeout of a call, in milliseconds. -/
  readTimeout : UInt32 := 1000
  /-- The time between two rebuilds, in milliseconds. -/
  rebuildInterval : Nat := 60000
  /-- How often a choice samples the tree before it falls back. -/
  maxAttempts : Nat := 3
deriving DecidableEq, Repr

inductive ConfigFault where
  | windowTooSmall (size : Nat)
  | ratioOutOfRange (ratio : Single)
  | noEligibleServers
  | noRebuildInterval
  | noSelectAttempts
deriving DecidableEq, Repr

namespace ConfigFault

/-- Ratios in messages have no exponent, however small or large, and no point when whole. -/
def ratioLayout : Layout where
  tie := .up
  positional _ := true
  pointZero := false
  plusSign := false

example : ratioLayout.write (Floating.ofFraction Format.single 15 100000000) = "0.00000015" := by
  decide +kernel

example : ratioLayout.write (Floating.ofNat Format.single 2) = "2" := by decide +kernel

def message : ConfigFault → String
  | windowTooSmall size => s!"latency window size must be greater than 1, got {size}"
  | ratioOutOfRange ratio =>
      "active instances ratio must be in (0, 1], got " ++ ratioLayout.write ratio
  | noEligibleServers => "minimum eligible instances must be at least 1"
  | noRebuildInterval => "rebuild interval must be greater than zero"
  | noSelectAttempts => "max select attempts must be at least 1"

end ConfigFault

namespace Config

def RatioInRange (ratio : Single) : Prop :=
  Floating.ofNat Format.single 0 < ratio ∧ ratio ≤ Floating.ofNat Format.single 1

instance (ratio : Single) : Decidable (RatioInRange ratio) :=
  inferInstanceAs (Decidable (_ ∧ _))

def fault? (config : Config) : Option ConfigFault :=
  if config.windowSize ≤ 1 then some (.windowTooSmall config.windowSize)
  else if ¬ RatioInRange config.minRatio then some (.ratioOutOfRange config.minRatio)
  else if config.minEligible = 0 then some .noEligibleServers
  else if config.rebuildInterval = 0 then some .noRebuildInterval
  else if config.maxAttempts = 0 then some .noSelectAttempts
  else none

def intervalParts (config : Config) : Nat × Nat :=
  (config.rebuildInterval / 1000, config.rebuildInterval % 1000 * 1000000)

theorem fault?_eq_none_iff {config : Config} :
    config.fault? = none ↔
      1 < config.windowSize ∧ RatioInRange config.minRatio ∧ config.minEligible ≠ 0 ∧
        config.rebuildInterval ≠ 0 ∧ config.maxAttempts ≠ 0 := by
  unfold fault?
  split
  · simp
    omega
  · split
    · simp_all
    · split
      · simp_all
      · split
        · simp_all
        · split
          · simp_all
          · simp_all

end Config

end LatencyBalancer
