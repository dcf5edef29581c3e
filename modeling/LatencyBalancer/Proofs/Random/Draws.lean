import LatencyBalancer.Random.Uniform

/-!
# Draws from a tape

One word decides what a bounded draw does next: an accepted word is the draw, a refused one is
skipped.  A draw that returns lies below its bound, and a choice that returns is an element.
-/

namespace LatencyBalancer

universe u

namespace WordTape

theorem next?_ofList_cons (word : UInt64) (words : List UInt64) :
    (ofList (word :: words)).next? = some (word, ofList words) := rfl

/-- The tape on which this word is read first. -/
def unread (tape : WordTape) (word : UInt64) : WordTape :=
  { tape with given := word :: tape.given }

@[simp]
theorem next?_unread (tape : WordTape) (word : UInt64) :
    (tape.unread word).next? = some (word, tape) := rfl

/-- The words that are read from a tape, one after another, and the tape that is left. -/
inductive Reads : WordTape → List UInt64 → WordTape → Prop where
  | nil (tape : WordTape) : Reads tape [] tape
  | cons {tape middle rest : WordTape} {word : UInt64} {words : List UInt64} :
      tape.next? = some (word, middle) →
      Reads middle words rest →
      Reads tape (word :: words) rest

/-- The next so many draws from the tape return, whatever they are bounded by. -/
def Serves : Nat → WordTape → Prop
  | 0, _ => True
  | draws + 1, tape => ∀ width bound, 0 < bound →
      ∃ draw rest, Random.below width bound tape = some (draw, rest) ∧ Serves draws rest

theorem Serves.least {draws fewer : Nat} {tape : WordTape} (serves : tape.Serves draws)
    (ordered : fewer ≤ draws) : tape.Serves fewer := by
  induction fewer generalizing draws tape with
  | zero => trivial
  | succ fewer inductionHypothesis =>
      obtain ⟨draws, rfl⟩ := Nat.exists_eq_succ_of_ne_zero (Nat.ne_zero_of_lt ordered)
      intro width bound positive
      obtain ⟨draw, rest, drawn, later⟩ := serves width bound positive
      exact ⟨draw, rest, drawn, inductionHypothesis later (Nat.le_of_succ_le_succ ordered)⟩

end WordTape

namespace Random

theorem below_of_next? {width bound : Nat} {tape rest : WordTape} {word : UInt64}
    (read : tape.next? = some (word, rest)) :
    below width bound tape =
      if Accepts width bound (word.toNat % powerOfTwo width) then
        some (scaled width bound (word.toNat % powerOfTwo width), rest)
      else below width bound rest := by
  rw [below]
  split
  next ended =>
    rw [read] at ended
    contradiction
  next found =>
    rw [read] at found
    obtain ⟨rfl, rfl⟩ := Prod.mk.inj (Option.some.inj found)
    rfl

theorem accepts_zero {width bound : Nat} (positive : 0 < bound) : Accepts width bound 0 := by
  unfold Accepts
  rw [Nat.zero_mul, Nat.zero_mod]
  exact Nat.mul_pos positive (powerOfTwo_pos _)

theorem below_of_next?_zero {width bound : Nat} {tape rest : WordTape} (positive : 0 < bound)
    (read : tape.next? = some (0, rest)) : below width bound tape = some (0, rest) := by
  rw [below_of_next? read]
  simp [accepts_zero positive, scaled]

theorem below_lt {width bound draw : Nat} {tape rest : WordTape} (positive : 0 < bound)
    (drawn : below width bound tape = some (draw, rest)) : draw < bound := by
  fun_induction below width bound tape with
  | case1 => contradiction
  | case2 tape word later read kept accepted =>
      obtain ⟨rfl, rfl⟩ := Prod.mk.inj (Option.some.inj drawn)
      exact scaled_lt (Nat.mod_lt _ (powerOfTwo_pos width)) positive
  | case3 tape word later read kept refused inductionHypothesis => exact inductionHypothesis drawn

theorem serves_zeros (draws : Nat) :
    (WordTape.ofList (List.replicate draws 0)).Serves draws := by
  induction draws with
  | zero => trivial
  | succ draws inductionHypothesis =>
      intro width bound positive
      exact ⟨0, _, below_of_next?_zero positive (WordTape.next?_ofList_cons _ _),
        inductionHypothesis⟩

theorem below_unread {width bound : Nat} {tape : WordTape} {word : UInt64}
    (fits : word.toNat < powerOfTwo width) :
    below width bound (tape.unread word) =
      if Accepts width bound word.toNat then some (scaled width bound word.toNat, tape)
      else below width bound tape := by
  rw [below_of_next? (tape.next?_unread word), Nat.mod_eq_of_lt fits]

/-- A draw that returns has skipped the refused words and used up the first accepted one. -/
theorem below_eq_some_iff {width bound draw : Nat} {tape rest : WordTape} :
    below width bound tape = some (draw, rest) ↔
      ∃ refused word, tape.Reads (refused ++ [word]) rest ∧
        (∀ earlier ∈ refused, ¬ Accepts width bound (earlier.toNat % powerOfTwo width)) ∧
        Accepts width bound (word.toNat % powerOfTwo width) ∧
        scaled width bound (word.toNat % powerOfTwo width) = draw := by
  constructor
  · intro drawn
    fun_induction below width bound tape with
    | case1 => contradiction
    | case2 tape word later read kept accepted =>
        obtain ⟨rfl, rfl⟩ := Prod.mk.inj (Option.some.inj drawn)
        exact ⟨[], word, .cons read (.nil _), by simp, accepted, rfl⟩
    | case3 tape word later read kept refused inductionHypothesis =>
        obtain ⟨others, last, reads, rejected, accepted, same⟩ := inductionHypothesis drawn
        exact ⟨word :: others, last, .cons read reads,
          List.forall_mem_cons.mpr ⟨refused, rejected⟩, accepted, same⟩
  · rintro ⟨refused, word, reads, rejected, accepted, rfl⟩
    induction refused generalizing tape with
    | nil =>
        cases reads with
        | cons read after =>
            cases after
            rw [below_of_next? read, if_pos accepted]
    | cons first later inductionHypothesis =>
        obtain ⟨firstRejected, others⟩ := List.forall_mem_cons.mp rejected
        cases reads with
        | cons read after =>
            rw [below_of_next? read, if_neg firstRejected]
            exact inductionHypothesis after others

inductive Draws (bound : Nat) : WordTape → List Nat → WordTape → Prop where
  | nil (tape : WordTape) : Draws bound tape [] tape
  | cons {tape middle rest : WordTape} {draw : Nat} {later : List Nat}
      (drawn : below 64 bound tape = some (draw, middle)) (after : Draws bound middle later rest) :
      Draws bound tape (draw :: later) rest

/-! ### Choices -/

variable {Item : Type u}

theorem choose?_eq_some {items : List Item} {chosen : Option Item} {tape rest : WordTape}
    (drawn : choose? items tape = some (chosen, rest)) :
    (chosen = none ↔ items = []) ∧ ∀ item, chosen = some item → item ∈ items := by
  unfold choose? at drawn
  split at drawn
  next empty =>
    obtain ⟨rfl, rfl⟩ := Prod.mk.inj (Option.some.inj drawn)
    simpa using empty
  next nonempty =>
    have present : items ≠ [] := by simpa using nonempty
    obtain ⟨⟨index, later⟩, found, same⟩ := Option.map_eq_some_iff.mp drawn
    obtain ⟨rfl, rfl⟩ := Prod.mk.inj same
    have inside : index < items.length := below_lt (List.length_pos_iff.mpr present) found
    rw [List.getElem?_eq_getElem inside]
    refine ⟨by simp [present], ?_⟩
    intro item same
    rw [← Option.some.inj same]
    exact List.getElem_mem inside

theorem exists_choose? (items : List Item) {draws : Nat} {tape : WordTape}
    (serves : tape.Serves (draws + 1)) :
    ∃ chosen rest, choose? items tape = some (chosen, rest) ∧ rest.Serves draws := by
  by_cases empty : items = []
  · exact ⟨none, tape, by simp [empty], serves.least (Nat.le_succ draws)⟩
  · obtain ⟨index, rest, drawn, later⟩ :=
      serves (indexWidth items.length) items.length (List.length_pos_iff.mpr empty)
    refine ⟨items[index]?, rest, ?_, later⟩
    simp [choose?, empty, drawn]

end Random

end LatencyBalancer
