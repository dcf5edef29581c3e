import LatencyBalancer.Engine.Basic
import LatencyBalancer.Numeric.Decimal

/-!
The one-line description of an engine: its settings, and whether its timer runs.
-/

namespace LatencyBalancer

namespace Config

/-- Ratios in descriptions keep a point when whole and have an exponent when tiny. -/
def ratioLayout : Layout where
  tie := .up
  positional power := -4 ≤ power ∧ power < 16
  pointZero := true
  plusSign := false

example : ratioLayout.write (Floating.ofNat Format.single 1) = "1.0" := by decide +kernel

example : ratioLayout.write (Floating.ofFraction Format.single 1 100000) = "1e-5" := by
  decide +kernel

def describe (config : Config) : String :=
  "FairConfig \x7b latency_window_size: " ++ toString config.windowSize ++
    ", active_instances_ratio: " ++ ratioLayout.write config.minRatio ++
    ", min_eligible_instances: " ++ toString config.minEligible ++
    ", read_timeout_millis: " ++ toString config.readTimeout ++
    ", rebuild_interval_ms: " ++ toString config.rebuildInterval ++
    ", max_select_attempts: " ++ toString config.maxAttempts ++ " \x7d"

end Config

namespace Engine

def describe (engine : Engine) : String :=
  "FairEngine \x7b config: " ++ engine.config.describe ++ ", running: " ++
    toString engine.isRunning ++ ", .. \x7d"

end Engine

end LatencyBalancer
