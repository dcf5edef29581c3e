import Mathlib.Algebra.BigOperators.Fin
import Mathlib.Algebra.BigOperators.Intervals

/-!
# Shares of the draws

A list of items with weights gives every draw below the total weight to one item: the scan counts
the draw down through the weights.  An item owns consecutive draws, as many as it weighs, so the
draws that belong to some items are counted by adding up weights.
-/

namespace LatencyBalancer

universe u

/-- Items, each with the number of consecutive draws it is to own. -/
abbrev Shares (Item : Type u) := List (Item × Nat)

namespace Shares

variable {Item : Type u}

def total (shares : Shares Item) : Nat :=
  (shares.map Prod.snd).sum

/-- The first item whose running sum of weights exceeds the draw. -/
def scan : Shares Item → Nat → Option Item
  | [], _ => none
  | (item, weight) :: later, draw =>
      if draw < weight then some item else scan later (draw - weight)

def start (shares : Shares Item) (position : Nat) : Nat :=
  total (shares.take position)

def portion (property : Item → Bool) (shares : Shares Item) : Nat :=
  total (shares.filter fun share => property share.1)

@[simp]
theorem total_nil : total ([] : Shares Item) = 0 := rfl

@[simp]
theorem total_cons (share : Item × Nat) (later : Shares Item) :
    total (share :: later) = share.2 + total later := by
  simp [total]

@[simp]
theorem total_append (first second : Shares Item) :
    total (first ++ second) = total first + total second := by
  simp [total]

theorem total_perm {first second : Shares Item} (same : first.Perm second) :
    total first = total second :=
  (same.map Prod.snd).sum_eq

theorem portion_cons (property : Item → Bool) (share : Item × Nat) (later : Shares Item) :
    portion property (share :: later) =
      (if property share.1 then share.2 else 0) + portion property later := by
  by_cases holds : property share.1 = true <;> simp [portion, holds]

theorem portion_perm (property : Item → Bool) {first second : Shares Item}
    (same : first.Perm second) : portion property first = portion property second :=
  total_perm (same.filter _)

/-! ### The scan -/

theorem scan_append (first second : Shares Item) (draw : Nat) :
    scan (first ++ second) draw =
      if draw < total first then scan first draw else scan second (draw - total first) := by
  induction first generalizing draw with
  | nil => simp
  | cons share later inductionHypothesis =>
      rcases share with ⟨item, weight⟩
      simp only [List.cons_append, scan, total_cons]
      by_cases within : draw < weight
      · have inside : draw < weight + total later := by omega
        simp only [within, inside, if_true]
      · have shift : draw - weight < total later ↔ draw < weight + total later := by omega
        simp only [within, if_false, inductionHypothesis, shift, Nat.sub_sub]

theorem exists_scan {shares : Shares Item} {draw : Nat} (inside : draw < total shares) :
    ∃ item, scan shares draw = some item := by
  induction shares generalizing draw with
  | nil => simp at inside
  | cons share later inductionHypothesis =>
      rcases share with ⟨item, weight⟩
      by_cases within : draw < weight
      · exact ⟨item, by simp [scan, within]⟩
      · have remains : draw - weight < total later := by
          simp only [total_cons] at inside
          omega
        obtain ⟨found, owner⟩ := inductionHypothesis remains
        exact ⟨found, by simpa [scan, within] using owner⟩

theorem lt_total_of_scan {shares : Shares Item} {draw : Nat} {item : Item}
    (owner : scan shares draw = some item) : draw < total shares := by
  induction shares generalizing draw with
  | nil => contradiction
  | cons share later inductionHypothesis =>
      rcases share with ⟨first, weight⟩
      rw [total_cons]
      by_cases within : draw < weight
      · exact Nat.lt_add_right _ within
      · have remains : draw - weight < total later :=
          inductionHypothesis (by simpa [scan, within] using owner)
        simp only
        omega

theorem mem_of_scan {shares : Shares Item} {draw : Nat} {item : Item}
    (owner : scan shares draw = some item) : ∃ weight, (item, weight) ∈ shares := by
  induction shares generalizing draw with
  | nil => contradiction
  | cons share later inductionHypothesis =>
      rcases share with ⟨first, weight⟩
      by_cases within : draw < weight
      · obtain rfl : first = item := by simpa [scan, within] using owner
        exact ⟨weight, List.mem_cons_self⟩
      · obtain ⟨found, member⟩ :=
          inductionHypothesis (by simpa [scan, within] using owner)
        exact ⟨found, List.mem_cons_of_mem _ member⟩

/-! ### Intervals -/

theorem start_succ {shares : Shares Item} {position : Nat} (inside : position < shares.length) :
    start shares (position + 1) = start shares position + shares[position].2 := by
  rw [start, List.take_add_one, List.getElem?_eq_getElem inside, total_append, start]
  simp

theorem start_length (shares : Shares Item) : start shares shares.length = total shares := by
  simp [start]

theorem start_mono (shares : Shares Item) {first second : Nat} (ordered : first ≤ second) :
    start shares first ≤ start shares second := by
  obtain ⟨gap, rfl⟩ := Nat.exists_eq_add_of_le ordered
  simp [start, List.take_add]

/-- The draws of a share go from its start up to the start of the next one. -/
theorem scan_of_start_le {shares : Shares Item} {position draw : Nat}
    (inside : position < shares.length) (reached : start shares position ≤ draw)
    (within : draw < start shares (position + 1)) :
    scan shares draw = some shares[position].1 := by
  induction shares generalizing position draw with
  | nil => simp at inside
  | cons share later inductionHypothesis =>
      rcases share with ⟨item, weight⟩
      cases position with
      | zero =>
          have first : draw < weight := by simpa [start] using within
          simp [scan, first]
      | succ position =>
          simp only [start, List.take_succ_cons, total_cons] at reached within
          have beyond : ¬ draw < weight := by omega
          have remains : position < later.length := by simpa using inside
          have found : scan later (draw - weight) = some later[position].1 := by
            apply inductionHypothesis remains
            · simp only [start]
              omega
            · simp only [start]
              omega
          simpa [scan, beyond] using found

/-- The intervals of the shares cover the draws below the total without overlap. -/
theorem existsUnique_start_le {shares : Shares Item} {draw : Nat}
    (inside : draw < total shares) :
    ∃! position, position < shares.length ∧ start shares position ≤ draw ∧
      draw < start shares (position + 1) := by
  have reaches : ∃ position, draw < start shares (position + 1) := by
    refine ⟨shares.length, lt_of_lt_of_le inside ?_⟩
    rw [← start_length]
    exact start_mono shares (Nat.le_succ _)
  classical
  refine ⟨Nat.find reaches, ⟨?_, ?_, Nat.find_spec reaches⟩, ?_⟩
  · by_contra beyond
    cases nonempty : shares.length with
    | zero => simp [List.length_eq_zero_iff.mp nonempty] at inside
    | succ last =>
        have early := Nat.find_min reaches (m := last) (by omega)
        rw [← nonempty, start_length] at early
        exact early inside
  · cases found : Nat.find reaches with
    | zero => exact Nat.zero_le _
    | succ earlier =>
        have early := Nat.find_min reaches (m := earlier) (by omega)
        omega
  · rintro position ⟨_, reached, within⟩
    have least : Nat.find reaches ≤ position := Nat.find_min' reaches within
    have enclosed : position ≤ Nat.find reaches := by
      by_contra beyond
      have later : start shares (Nat.find reaches + 1) ≤ start shares position :=
        start_mono shares (Nat.lt_of_not_le beyond)
      have spec := Nat.find_spec reaches
      omega
    exact le_antisymm enclosed least

/-! ### Counting -/

/-- The draws that fall to items with a property are as many as these items weigh. -/
theorem card_scan (property : Item → Bool) (shares : Shares Item) :
    ((Finset.range shares.total).filter fun draw => (shares.scan draw).any property).card =
      portion property shares := by
  induction shares with
  | nil => rfl
  | cons share later inductionHypothesis =>
      rcases share with ⟨item, weight⟩
      rw [Finset.card_filter] at inductionHypothesis ⊢
      rw [total_cons, Finset.sum_range_add, portion_cons, ← inductionHypothesis]
      congr 1
      · have own : ∀ draw ∈ Finset.range weight,
            (if (scan ((item, weight) :: later) draw).any property then 1 else 0) =
              if property item then 1 else 0 := by
          intro draw within
          simp [scan, Finset.mem_range.mp within]
        rw [Finset.sum_congr rfl own, Finset.sum_const, Finset.card_range]
        split
        next => exact Nat.mul_one weight
        next => exact Nat.mul_zero weight
      · simp [scan]

theorem card_scan_fin {shares : Shares Item} {bound : Nat} (whole : bound = shares.total)
    (property : Item → Bool) :
    (Finset.univ.filter fun draw : Fin bound => (shares.scan draw.val).any property).card =
      shares.portion property := by
  rw [← card_scan, Finset.card_filter, Finset.card_filter, ← whole,
    Fin.sum_univ_eq_sum_range fun draw => if (shares.scan draw).any property then 1 else 0]

end Shares

end LatencyBalancer
