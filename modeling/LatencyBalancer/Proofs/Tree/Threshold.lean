import LatencyBalancer.Proofs.Config.Acceptance
import LatencyBalancer.Proofs.Numeric.Quotient
import LatencyBalancer.Proofs.Tree.Outcome

/-!
# Thresholds for the share of eligible servers

The least share of eligible servers is kept in 32 bits, and the share that is compared with it is
rounded to as many.  Rounding keeps order, so a threshold that is given as a fraction is met
by every pool that has this fraction, although neither side is exact.  What is let through below
the threshold is within one rounding of it.
-/

namespace LatencyBalancer.Config

variable {config : Config} {members : List Member} {ratio : Single}

def eligibleShare (config : Config) (members : List Member) : ℚ :=
  (config.eligible members).length / members.length

theorem RatioInRange.positive (range : RatioInRange ratio) : ratio.negative = false := by
  rcases ratio with ⟨_ | _, magnitude⟩
  · rfl
  · exact absurd range (not_ratioInRange_negative magnitude)

theorem RatioInRange.finite (range : RatioInRange ratio) : ratio.IsFinite := by
  have positive := range.positive
  rcases ratio with ⟨negative, magnitude⟩
  obtain rfl : negative = false := positive
  apply Nat.lt_of_not_le
  intro large
  exact not_ratioInRange_of_two_le (Format.holdsTwo_single.finite.trans large) range

theorem tooFew_iff_share_lt {eligible total : Nat} (enough : max 1 config.minEligible ≤ eligible) :
    config.TooFew eligible total ↔
      Floating.share Format.single eligible total < config.minRatio := by
  obtain ⟨present, wanted⟩ := max_le_iff.mp enough
  rw [TooFew, or_iff_right (Nat.ne_of_gt present), or_iff_right (Nat.not_lt.mpr wanted)]

theorem exists_built (enough : ¬ config.TooFew (config.eligible members).length members.length) :
    ∃ tree, config.build members = .built tree := by
  have nonempty : (config.eligible members).map config.weighed ≠ [] := by
    intro empty
    apply enough
    left
    rw [← List.length_map config.weighed, empty, List.length_nil]
  obtain ⟨tree, assembled, _⟩ := WeightTree.exists_assemble nonempty
  refine ⟨tree, ?_⟩
  simp only [build, if_neg enough, assembled]

/-- How the share of the eligible servers decides on whether there is a tree. -/
structure GatedByShare (config : Config) (members : List Member) : Prop where
  /-- The share that is compared is the exact one, rounded once. -/
  rounded : Floating.Nearest (config.eligibleShare members)
    (Floating.share Format.single (config.eligible members).length members.length)
  /-- The threshold is a fraction, as near as 32 bits come to it. -/
  met : ∀ part whole : Nat, 0 < whole → Floating.Nearest (part / whole) config.minRatio →
    part * members.length ≤ (config.eligible members).length * whole →
    ∃ tree, config.build members = .built tree
  metExactly : ∀ part whole : Nat, 0 < whole → config.minRatio.toRat = part / whole →
    part * members.length ≤ (config.eligible members).length * whole →
    ∃ tree, config.build members = .built tree
  kept : ∀ tree, config.build members = .built tree →
    config.minRatio.toRat ≤ config.eligibleShare members * (1 + 1 / 2 ^ 24)
  refused : config.eligibleShare members * (1 + 1 / 2 ^ 24) < config.minRatio.toRat →
    config.build members = .insufficient (config.eligible members).length members.length

theorem build_gatedByShare (range : RatioInRange config.minRatio) (few : members.length ≤ 2 ^ 24)
    (enough : max 1 config.minEligible ≤ (config.eligible members).length) :
    config.GatedByShare members := by
  have present : 0 < (config.eligible members).length := (max_le_iff.mp enough).1
  have ordered : (config.eligible members).length ≤ members.length := List.length_filter_le _ _
  have positive : 0 < members.length := lt_of_lt_of_le present ordered
  have rounded : Floating.Nearest (config.eligibleShare members)
      (Floating.share Format.single (config.eligible members).length members.length) :=
    Floating.nearest_share Format.holdsCounts_single positive ordered few
  have ratioNumber : config.minRatio.IsNumber := Nat.le_of_lt range.finite
  have compared := Floating.lt_iff_toRat_lt
    (Floating.isNumber_share (config.eligible members).length members.length) ratioNumber
  have met : ∀ part whole : Nat, 0 < whole → Floating.Nearest (part / whole) config.minRatio →
      part * members.length ≤ (config.eligible members).length * whole →
      ∃ tree, config.build members = .built tree := by
    intro part whole divisor nearest reached
    have below : (part / whole : ℚ) ≤ config.eligibleShare members := by
      rw [eligibleShare, div_le_div_iff₀ (Nat.cast_pos.mpr divisor) (Nat.cast_pos.mpr positive)]
      exact_mod_cast reached
    apply exists_built
    rw [tooFew_iff_share_lt enough, compared, Floating.toRat_lt_iff rfl range.positive]
    exact Nat.not_lt.mpr (nearest.magnitude_le rounded below range.positive rfl)
  have kept : ∀ tree, config.build members = .built tree →
      config.minRatio.toRat ≤ config.eligibleShare members * (1 + 1 / 2 ^ 24) := by
    intro tree built
    have passed := (build_eq_built built).1
    rw [tooFew_iff_share_lt enough, compared] at passed
    have normal := Floating.leastNormal_le_share Format.holdsCounts_single present positive few
    have binade : 2 * Format.single.binade = 2 ^ 24 := by decide
    have lastPlace : (2 ^ 24 : ℚ) = 2 * Format.single.binade := by exact_mod_cast binade.symm
    rw [lastPlace]
    exact (not_lt.mp passed).trans (rounded.toRat_le rfl normal)
  refine ⟨rounded, met, ?_, kept, ?_⟩
  · intro part whole divisor exact
    apply met part whole divisor
    rw [← exact]
    exact Floating.nearest_toRat range.finite
  · intro short
    apply build_of_tooFew
    by_contra passed
    obtain ⟨tree, built⟩ := exists_built passed
    exact absurd (kept tree built) (not_le.mpr short)

/-- The defaults, but for windows of two latencies; the threshold is eight tenths. -/
def pairwise : Config where
  windowSize := 2

/-- Ten servers, of which the first so many are eligible. -/
def tenServers (full : Nat) : List Member :=
  (List.range 10).map fun place =>
    (Member.new ⟨⟨place.toUInt64⟩, ⟨"10.0.0.1", 8000⟩⟩ 2).record
      (if place < full then [5, 7] else [])

/-- The 32-bit threshold lies above eight tenths; eight of ten servers meet it, and seven do not. -/
theorem build_gatedByShare_eightTenths :
    RatioInRange pairwise.minRatio ∧ (tenServers 8).length ≤ 2 ^ 24 ∧
      max 1 pairwise.minEligible ≤ (pairwise.eligible (tenServers 8)).length ∧
      pairwise.eligibleShare (tenServers 8) < pairwise.minRatio.toRat ∧
      (∃ tree, pairwise.build (tenServers 8) = .built tree) ∧
      pairwise.build (tenServers 7) = .insufficient 7 10 := by
  have range : RatioInRange pairwise.minRatio := by decide +kernel
  have few : (tenServers 8).length ≤ 2 ^ 24 := by decide
  have enough : max 1 pairwise.minEligible ≤ (pairwise.eligible (tenServers 8)).length := by
    decide
  have eight := build_gatedByShare range few enough
  have seven : pairwise.GatedByShare (tenServers 7) :=
    build_gatedByShare range (by decide) (by decide)
  refine ⟨range, few, enough, by decide +kernel, ?_, ?_⟩
  · apply eight.met 8 10 (by decide) _ (by decide)
    apply Floating.nearest_ofFraction
    · decide
    · decide
    · decide +kernel
  · apply seven.refused
    decide +kernel

end LatencyBalancer.Config
