import LatencyBalancer.Proofs.Config.Reading
import LatencyBalancer.Proofs.Numeric.Rounding
import Mathlib.Data.List.Nodup

/-!
# Which texts are configurations

A text gives a configuration exactly when it is a document whose numbers suit their settings and
all settings make sense.  When a setting does not, the fault is about the first such setting, and
a text that is no such document is unreadable.

Ratios that are integers are rounded only once when they are read.  Rounding them to a 64-bit
value first can give another 32-bit value, but only far away from the range of ratios.
-/

namespace LatencyBalancer

open Json (Number NumberLiteral)
open Setting (Gives)

/-! ### Measures -/

namespace Json.Number

def toDouble : Number → Double
  | natural value => Floating.ofNat Format.double value
  | negative magnitude => { Floating.ofNat Format.double magnitude with negative := true }
  | floating value => value

/-- The 32-bit value by way of the 64-bit one. -/
def viaDouble (number : Number) : Single :=
  number.toDouble.convert Format.single

end Json.Number

namespace Config

/-- Where two measures differ, neither value is a ratio that makes sense. -/
def Agree (first second : Number → Single) : Prop :=
  ∀ number, first number = second number ∨
    ¬ RatioInRange (first number) ∧ ¬ RatioInRange (second number)

theorem Agree.symm {first second : Number → Single} (agree : Agree first second) :
    Agree second first :=
  fun number => (agree number).imp Eq.symm And.symm

theorem not_ratioInRange_negative (magnitude : Nat) : ¬ RatioInRange ⟨true, magnitude⟩ := by
  rintro ⟨⟨_, _, above⟩, _⟩
  simp only [Floating.key, Floating.ofNat, if_true, Bool.false_eq_true, if_false] at above
  omega

theorem not_ratioInRange_of_two_le {magnitude : Nat} (large : Format.single.two ≤ magnitude) :
    ¬ RatioInRange ⟨false, magnitude⟩ := by
  rintro ⟨_, _, _, below⟩
  have small : Format.single.ofNat 1 < Format.single.two := by decide +kernel
  simp only [Floating.key, Floating.ofNat, Bool.false_eq_true, if_false] at below
  omega

theorem agree_once_viaDouble : Agree Number.once Number.viaDouble := by
  intro number
  match number with
  | .natural 0 => exact .inl (by decide +kernel)
  | .natural 1 => exact .inl (by decide +kernel)
  | .natural (value + 2) =>
      have single : Format.single.two ≤ Format.single.ofNat (value + 2) :=
        Format.two_le_ofNat Format.holdsTwo_single (Nat.le_add_left _ _)
      have double : Format.double.two ≤ Format.double.ofNat (value + 2) :=
        Format.two_le_ofNat Format.holdsTwo_double (Nat.le_add_left _ _)
      have converted := Format.two_le_convert Format.holdsTwo_double Format.holdsTwo_single double
      exact .inr ⟨not_ratioInRange_of_two_le single, not_ratioInRange_of_two_le converted⟩
  | .negative _ => exact .inr ⟨not_ratioInRange_negative _, not_ratioInRange_negative _⟩
  | .floating _ => exact .inl rfl

/-! ### Descriptions -/

variable {config base : Config} {setting : Setting} {givens : List (Setting × NumberLiteral)}
  {measure other : Number → Single}

/-- A text describes a configuration when it is a document that gives the numbers in it, the ratio
by way of its 64-bit value, and the configuration has its defaults everywhere else. -/
def Describes (text : String) (config : Config) : Prop :=
  ∃ givens, Document text.toList givens ∧ Updates Number.viaDouble { } givens config

/-- With numbers measured in another way, the same literals update to a configuration that can
only differ in its ratio. -/
theorem Updates.remeasured (distinct : (givens.map Prod.fst).Nodup)
    (updates : Updates measure base givens config) (other : Number → Single) :
    ∃ ratio, Updates other base givens (config.put .minRatio (.ratio ratio)) ∧
      (ratio = config.minRatio ∨
        ∃ number, config.minRatio = measure number ∧ ratio = other number) := by
  obtain ⟨given, kept⟩ := updates
  by_cases present : ∃ literal, (Setting.minRatio, literal) ∈ givens
  · obtain ⟨literal, present⟩ := present
    obtain ⟨number, finite, measured⟩ := (given _ present).exists_number
    refine ⟨other number, ⟨?_, ?_⟩, .inr ⟨number, SettingValue.ratio.inj measured, rfl⟩⟩
    · intro entry listed
      by_cases same : entry.1 = .minRatio
      · obtain rfl := List.inj_on_of_nodup_map distinct listed present same
        exact .ratio rfl finite
      · rw [get_put_of_ne same]
        exact (given entry listed).remeasured same
    · intro setting absent
      have different : setting ≠ .minRatio := by
        rintro rfl
        exact absent (List.mem_map_of_mem present)
      rw [get_put_of_ne different]
      exact kept setting absent
  · refine ⟨config.minRatio, ⟨?_, kept⟩, .inl rfl⟩
    intro entry listed
    refine (given entry listed).remeasured fun same => ?_
    exact present ⟨entry.2, same ▸ listed⟩

/-! ### Senseless settings -/

/-- The value of the setting makes no sense.  Every timeout does. -/
def Senseless (config : Config) : Setting → Prop
  | .windowSize => config.windowSize ≤ 1
  | .minRatio => ¬ RatioInRange config.minRatio
  | .minEligible => config.minEligible = 0
  | .readTimeout => False
  | .rebuildInterval => config.rebuildInterval = 0
  | .maxAttempts => config.maxAttempts = 0

instance (config : Config) : DecidablePred config.Senseless
  | .windowSize => inferInstanceAs (Decidable (_ ≤ _))
  | .minRatio => inferInstanceAs (Decidable (¬ _))
  | .minEligible => inferInstanceAs (Decidable (_ = _))
  | .readTimeout => inferInstanceAs (Decidable False)
  | .rebuildInterval => inferInstanceAs (Decidable (_ = _))
  | .maxAttempts => inferInstanceAs (Decidable (_ = _))

end Config

def ConfigFault.setting : ConfigFault → Setting
  | windowTooSmall _ => .windowSize
  | ratioOutOfRange _ => .minRatio
  | noEligibleServers => .minEligible
  | noRebuildInterval => .rebuildInterval
  | noSelectAttempts => .maxAttempts

namespace Config

variable {config : Config} {measure other : Number → Single}

/-- The fault of a configuration is about the first setting that makes no sense. -/
theorem setting_fault? (config : Config) :
    config.fault?.map ConfigFault.setting =
      Setting.all.find? fun setting => config.Senseless setting := by
  have timeout : ¬ config.Senseless .readTimeout := id
  simp only [Setting.all, List.find?_cons, List.find?_nil, timeout, decide_false]
  simp only [Senseless]
  unfold fault?
  split
  next senseless => simp [senseless, ConfigFault.setting]
  next windowSize =>
    split
    next senseless => simp [windowSize, senseless, ConfigFault.setting]
    next minRatio =>
      split
      next senseless => simp [windowSize, minRatio, senseless, ConfigFault.setting]
      next minEligible =>
        split
        next senseless =>
          simp [windowSize, minRatio, minEligible, senseless, ConfigFault.setting]
        next rebuildInterval =>
          split
          next senseless =>
            simp [windowSize, minRatio, minEligible, rebuildInterval, senseless,
              ConfigFault.setting]
          next maxAttempts =>
            simp [windowSize, minRatio, minEligible, rebuildInterval, maxAttempts]

/-- Where measures agree on what makes sense, so do the configurations that they lead to, and
they are the same when the ratio makes sense. -/
theorem Updates.exists_remeasured {base : Config} {givens : List (Setting × NumberLiteral)}
    (updates : Updates measure base givens config) (distinct : (givens.map Prod.fst).Nodup)
    (agree : Agree measure other) :
    ∃ next, Updates other base givens next ∧
      (∀ setting, next.Senseless setting ↔ config.Senseless setting) ∧
      (RatioInRange config.minRatio → next = config) := by
  obtain ⟨ratio, remeasured, rfl | ⟨number, measured, rfl⟩⟩ := updates.remeasured distinct other
  · exact ⟨_, remeasured, fun _ => Iff.rfl, fun _ => rfl⟩
  · refine ⟨_, remeasured, ?_, ?_⟩
    · intro setting
      cases setting with
      | minRatio =>
          rcases agree number with same | ⟨senseless, otherSenseless⟩
          · simp only [Senseless, put, measured, same]
          · rw [← measured] at senseless
            exact iff_of_true otherSenseless senseless
      | _ => exact Iff.rfl
    · intro inRange
      rw [measured] at inRange
      rcases agree number with same | ⟨senseless, _⟩
      · rw [← same, ← measured]
        rfl
      · exact absurd inRange senseless

/-! ### Texts -/

/-- What comes of a text: the configuration that it describes, a fault of the first setting in it
that makes no sense, or a fault of the text. -/
structure ReadsAs (text : String) : Prop where
  accepted : ∀ config, ofText text = .ok config ↔
    Describes text config ∧ ∀ setting, ¬ config.Senseless setting
  invalid : ∀ config setting, Describes text config →
    (Setting.all.find? fun setting => config.Senseless setting) = some setting →
    ∃ fault, ofText text = .error (.invalid fault) ∧ fault.setting = setting
  unreadable : (∀ config, ¬ Describes text config) →
    ∃ fault, ofText text = .error (.unreadable fault)

theorem ofText_eq_ok_iff {text : String} :
    ofText text = .ok config ↔ ofDocument text.toList = .ok config ∧ config.fault? = none := by
  unfold ofText
  split
  next fault failed => simp [failed]
  next found read =>
    rw [read, Except.ok.injEq]
    split
    next fault senseless =>
      simp only [reduceCtorEq, false_iff, not_and]
      rintro rfl
      simp [senseless]
    next sensible =>
      rw [Except.ok.injEq]
      constructor
      · rintro rfl
        exact ⟨rfl, sensible⟩
      · exact And.left

theorem fault?_eq_none_iff_sensible :
    config.fault? = none ↔ ∀ setting, ¬ config.Senseless setting := by
  rw [← Option.map_eq_none_iff, setting_fault?, List.find?_eq_none]
  simp [Setting.mem_all]

/-- A ratio may be written with an exponent, and a list may end early. -/
example : ofText " [ 30, 1e0 ] " = .ok { minRatio := Floating.ofNat Format.single 1 } := by
  decide +kernel

end Config

end LatencyBalancer
