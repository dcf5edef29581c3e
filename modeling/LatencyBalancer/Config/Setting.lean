/-!
The settings of a configuration by name.

`ofKey?` finds the setting of a key; no two settings share one.
-/

namespace LatencyBalancer

/-- The settings that a document can give, in order. -/
inductive Setting where
  | windowSize
  | minRatio
  | minEligible
  | readTimeout
  | rebuildInterval
  | maxAttempts
deriving DecidableEq, Repr

namespace Setting

def all : List Setting :=
  [windowSize, minRatio, minEligible, readTimeout, rebuildInterval, maxAttempts]

def key : Setting → String
  | windowSize => "latency_window_size"
  | minRatio => "active_instances_ratio"
  | minEligible => "min_eligible_instances"
  | readTimeout => "read_timeout_millis"
  | rebuildInterval => "rebuild_interval_ms"
  | maxAttempts => "max_select_attempts"

def ofKey? (key : List Char) : Option Setting :=
  all.find? fun setting => setting.key.toList = key

def kind : Setting → String
  | windowSize => "usize"
  | minRatio => "f32"
  | minEligible => "usize"
  | readTimeout => "u32"
  | rebuildInterval => "u64"
  | maxAttempts => "u32"

@[simp]
theorem ofKey?_key (setting : Setting) : ofKey? setting.key.toList = some setting := by
  cases setting <;> decide +kernel

theorem eq_key_of_ofKey? {key : List Char} {setting : Setting}
    (found : ofKey? key = some setting) : key = setting.key.toList := by
  have same := List.find?_some found
  exact (of_decide_eq_true same).symm

end Setting

end LatencyBalancer
