import LatencyBalancer.Config.Document
import LatencyBalancer.Proofs.Json.Writing

/-!
# What number literals say of a configuration

A count is given by plain digits that stay below the bound of its setting, the ratio by any
number of finite value.  A configuration updates another by what is given when it holds the given
values and keeps all others.  Assigning the values one after another leads to just that
configuration.
-/

namespace LatencyBalancer

open Json (Number NumberLiteral ofDigits Value)

inductive SettingValue where
  | count (value : Nat)
  | ratio (value : Single)

/-- The 32-bit value as it is read from a document: integers are rounded once. -/
def Json.Number.once : Number → Single
  | .natural value => Floating.ofNat Format.single value
  | .negative magnitude => { Floating.ofNat Format.single magnitude with negative := true }
  | .floating value => value.convert Format.single

namespace Setting

theorem mem_all (setting : Setting) : setting ∈ all := by
  cases setting <;> decide

theorem nodup_all : all.Nodup := by
  decide

/-- Counts lie below the bound of their setting; the ratio is no count. -/
def bound? : Setting → Option Nat
  | windowSize => some UInt64.size
  | minRatio => none
  | minEligible => some UInt64.size
  | readTimeout => some UInt32.size
  | rebuildInterval => some UInt64.size
  | maxAttempts => some UInt32.size

theorem eq_minRatio_of_unbounded {setting : Setting} (unbounded : setting.bound? = none) :
    setting = minRatio := by
  cases setting with
  | minRatio => rfl
  | _ => cases unbounded

theorem bound?_le {setting : Setting} {bound : Nat} (bounded : setting.bound? = some bound) :
    bound ≤ UInt64.size := by
  cases setting <;> cases bounded <;> decide

/-- The value that a literal gives to a setting, when numbers are measured in some way. -/
inductive Gives (measure : Number → Single) :
    Setting → NumberLiteral → SettingValue → Prop where
  | count {setting : Setting} {literal : NumberLiteral} {bound : Nat} :
      setting.bound? = some bound → literal.IsInteger → literal.negative = false →
      ofDigits literal.whole < bound →
      Gives measure setting literal (.count (ofDigits literal.whole))
  | ratio {setting : Setting} {literal : NumberLiteral} {number : Number} :
      setting.bound? = none → literal.value? = some number →
      Gives measure setting literal (.ratio (measure number))

theorem Gives.exists_number {measure : Number → Single} {literal : NumberLiteral}
    {value : SettingValue} (gives : Gives measure minRatio literal value) :
    ∃ number, literal.value? = some number ∧ value = .ratio (measure number) := by
  cases gives with
  | count bounded _ _ _ => cases bounded
  | ratio _ finite => exact ⟨_, finite, rfl⟩

/-- Only the ratio depends on how numbers are measured. -/
theorem Gives.remeasured {measure other : Number → Single} {setting : Setting}
    {literal : NumberLiteral} {value : SettingValue} (gives : Gives measure setting literal value)
    (different : setting ≠ minRatio) : Gives other setting literal value := by
  cases gives with
  | count bounded integer unsigned small => exact .count bounded integer unsigned small
  | ratio unbounded finite => exact absurd (eq_minRatio_of_unbounded unbounded) different

end Setting

namespace Config

open Setting (Gives)

def get (config : Config) : Setting → SettingValue
  | .windowSize => .count config.windowSize
  | .minRatio => .ratio config.minRatio
  | .minEligible => .count config.minEligible
  | .readTimeout => .count config.readTimeout.toNat
  | .rebuildInterval => .count config.rebuildInterval
  | .maxAttempts => .count config.maxAttempts

/-- The configuration with another value for a setting, if it is of the kind of the setting. -/
def put (config : Config) : Setting → SettingValue → Config
  | .windowSize, .count value => { config with windowSize := value }
  | .minRatio, .ratio value => { config with minRatio := value }
  | .minEligible, .count value => { config with minEligible := value }
  | .readTimeout, .count value => { config with readTimeout := UInt32.ofNat value }
  | .rebuildInterval, .count value => { config with rebuildInterval := value }
  | .maxAttempts, .count value => { config with maxAttempts := value }
  | _, _ => config

variable {config base final : Config} {setting : Setting} {literal : NumberLiteral}
  {value : SettingValue} {measure : Number → Single} {givens : List (Setting × NumberLiteral)}

theorem ext_get (same : ∀ setting, config.get setting = base.get setting) : config = base := by
  have windowSize := SettingValue.count.inj (same .windowSize)
  have minRatio := SettingValue.ratio.inj (same .minRatio)
  have minEligible := SettingValue.count.inj (same .minEligible)
  have readTimeout := UInt32.toNat_inj.mp (SettingValue.count.inj (same .readTimeout))
  have rebuildInterval := SettingValue.count.inj (same .rebuildInterval)
  have maxAttempts := SettingValue.count.inj (same .maxAttempts)
  cases config
  cases base
  simp_all

theorem get_put (gives : Gives measure setting literal value) :
    (config.put setting value).get setting = value := by
  cases gives with
  | count bounded integer unsigned small =>
      cases setting with
      | minRatio => cases bounded
      | readTimeout =>
          cases bounded
          exact congrArg SettingValue.count (UInt32.toNat_ofNat_of_lt small)
      | _ => rfl
  | ratio unbounded finite =>
      obtain rfl := Setting.eq_minRatio_of_unbounded unbounded
      rfl

theorem get_put_of_ne {other : Setting} (different : other ≠ setting) :
    (config.put setting value).get other = config.get other := by
  cases setting <;> cases value <;> cases other <;> first | rfl | exact absurd rfl different

/-- What is given is held, and all else is as in the base. -/
structure Updates (measure : Number → Single) (base : Config)
    (givens : List (Setting × NumberLiteral)) (config : Config) : Prop where
  given : ∀ given ∈ givens, Gives measure given.1 given.2 (config.get given.1)
  kept : ∀ setting ∉ givens.map Prod.fst, config.get setting = base.get setting

/-! ### Assignment -/

theorem integer_eq_ok_iff {bound count : Nat} {number : Number} :
    integer setting bound (.number number) = .ok count ↔
      number = .natural count ∧ count < bound := by
  cases number with
  | natural value =>
      simp only [integer]
      split
      next small => simp; rintro rfl; exact small
      next large => simp; rintro rfl; exact Nat.not_lt.mp large
  | negative magnitude => simp [integer]
  | floating value => simp [integer]

theorem assign_of_bounded {bound : Nat} (bounded : setting.bound? = some bound) (found : Value) :
    config.assign setting found =
      (integer setting bound found).map fun value => config.put setting (.count value) := by
  cases setting with
  | minRatio => cases bounded
  | _ => cases bounded; rfl

theorem ratio_number (number : Number) : ratio setting (.number number) = .ok number.once := by
  cases number <;> rfl

theorem assign_of_unbounded (unbounded : setting.bound? = none) (found : Value) :
    config.assign setting found =
      (ratio setting found).map fun value => config.put setting (.ratio value) := by
  obtain rfl := Setting.eq_minRatio_of_unbounded unbounded
  rfl

theorem exists_number_of_assign {found : Value}
    (assigned : config.assign setting found = .ok final) : ∃ number, found = .number number := by
  cases found with
  | number number => exact ⟨number, rfl⟩
  | _ => cases setting <;> cases assigned

theorem assign_of_gives (config : Config) (gives : Gives Number.once setting literal value) :
    ∃ number, literal.value? = some number ∧
      config.assign setting (.number number) = .ok (config.put setting value) := by
  cases gives with
  | count bounded integer unsigned small =>
      have fits := Nat.lt_of_lt_of_le small (Setting.bound?_le bounded)
      refine ⟨_, Json.value?_eq_natural_iff.mpr ⟨integer, unsigned, rfl, fits⟩, ?_⟩
      rw [assign_of_bounded bounded, integer_eq_ok_iff.mpr ⟨rfl, small⟩]
      rfl
  | @ratio number unbounded finite =>
      refine ⟨number, finite, ?_⟩
      rw [assign_of_unbounded unbounded, ratio_number]
      rfl

theorem gives_of_assign {number : Number} (finite : literal.value? = some number)
    (assigned : config.assign setting (.number number) = .ok final) :
    ∃ value, Gives Number.once setting literal value ∧ config.put setting value = final := by
  cases bounds : setting.bound? with
  | some bound =>
      rw [assign_of_bounded bounds] at assigned
      obtain ⟨count, integerRead, rfl⟩ := Json.map_eq_ok_iff.mp assigned
      obtain ⟨rfl, small⟩ := integer_eq_ok_iff.mp integerRead
      obtain ⟨integer, unsigned, rfl, _⟩ := Json.value?_eq_natural_iff.mp finite
      exact ⟨_, .count bounds integer unsigned small, rfl⟩
  | none =>
      rw [assign_of_unbounded bounds, ratio_number] at assigned
      exact ⟨_, .ratio bounds finite, Except.ok.inj assigned⟩

/-- The values of the literals are put in place one after another. -/
inductive Assigns : Config → List (Setting × NumberLiteral) → Config → Prop where
  | nil {config : Config} : Assigns config [] config
  | cons {config final : Config} {setting : Setting} {literal : NumberLiteral}
      {value : SettingValue} {givens : List (Setting × NumberLiteral)} :
      Gives Number.once setting literal value →
      Assigns (config.put setting value) givens final →
      Assigns config ((setting, literal) :: givens) final

/-- As long as no setting is given twice, the order of assignments does not show. -/
theorem assigns_iff (distinct : (givens.map Prod.fst).Nodup) :
    Assigns base givens final ↔ Updates Number.once base givens final := by
  induction givens generalizing base with
  | nil =>
      constructor
      · rintro ⟨⟩
        exact ⟨nofun, fun _ _ => rfl⟩
      · rintro ⟨_, kept⟩
        rw [ext_get fun setting => kept setting (List.not_mem_nil)]
        exact .nil
  | cons head givens inductionHypothesis =>
      obtain ⟨setting, literal⟩ := head
      obtain ⟨fresh, distinct⟩ := List.nodup_cons.mp distinct
      constructor
      · intro assigns
        cases assigns with
        | @cons _ _ _ _ value _ gives later =>
            obtain ⟨given, kept⟩ := (inductionHypothesis distinct).mp later
            have held : final.get setting = value := (kept setting fresh).trans (get_put gives)
            refine ⟨?_, ?_⟩
            · rintro entry (_ | ⟨_, present⟩)
              · rwa [held]
              · exact given entry present
            · intro other absent
              obtain ⟨different, absent⟩ := not_or.mp (mt List.mem_cons.mpr absent)
              rw [kept other absent, get_put_of_ne different]
      · rintro ⟨given, kept⟩
        have gives := given (setting, literal) List.mem_cons_self
        refine .cons gives ((inductionHypothesis distinct).mpr ⟨?_, ?_⟩)
        · exact fun entry present => given entry (List.mem_cons_of_mem _ present)
        · intro other absent
          by_cases same : other = setting
          · rw [same, get_put gives]
          · rw [get_put_of_ne same]
            exact kept other (mt List.mem_cons.mp (not_or.mpr ⟨same, absent⟩))

end Config

end LatencyBalancer
