import LatencyBalancer.Proofs.Random.Zone
import LatencyBalancer.Proofs.Selection.Preference

/-!
# An even choice among the candidates

A fallback reads words until one is accepted, and the low half of that one stands for a place in
the best tier.  Every place has equally many half words, so that no server is preferred within the
tier but by being listed again, and no word is spent on the tiers that are passed over.
-/

namespace LatencyBalancer

universe u

namespace Random

variable {Item : Type u} {items : List Item} {item : Item} {count place : Nat}
  {tape rest : WordTape}

def Usable (count : Nat) (word : UInt32) : Prop :=
  word.toNat * count % 2 ^ 32 ≤ zone 32 count

instance (count : Nat) (word : UInt32) : Decidable (Usable count word) :=
  inferInstanceAs (Decidable (_ ≤ _))

def placeOf (count : Nat) (word : UInt32) : Nat :=
  word.toNat * count / 2 ^ 32

theorem usable_iff {word : UInt32} (positive : 0 < count) :
    Usable count word ↔ Accepts 32 count word.toNat :=
  (accepts_iff positive).symm

theorem scaled_eq_placeOf (word : UInt32) : scaled 32 count word.toNat = placeOf count word := by
  rw [scaled, powerOfTwo_eq, placeOf]

theorem placeOf_lt (positive : 0 < count) (word : UInt32) : placeOf count word < count := by
  rw [← scaled_eq_placeOf]
  exact scaled_lt word.toNat_lt positive

theorem toNat_mod_powerOfTwo (word : UInt64) :
    word.toNat % powerOfTwo 32 = word.toUInt32.toNat := by
  rw [UInt64.toNat_toUInt32, powerOfTwo_eq]

/-- Every place has as many half words as any other. -/
theorem ncard_usable (fits : count < 2 ^ 32) (inside : place < count) :
    {word : UInt32 | Usable count word ∧ placeOf count word = place}.ncard =
      2 ^ leadingZeros 32 count := by
  have positive : 0 < count := Nat.zero_lt_of_lt inside
  have counted := ncard_halfWords fun value =>
    decide (Accepts 32 count value ∧ scaled 32 count value = place)
  simp only [decide_eq_true_eq] at counted
  rw [card_accepts_scaled fits inside, powerOfTwo_eq] at counted
  simpa only [usable_iff positive, scaled_eq_placeOf] using counted

theorem choose?_eq_none_iff :
    choose? items tape = some (none, rest) ↔ items = [] ∧ rest = tape := by
  constructor
  · intro drawn
    obtain rfl := (choose?_eq_some drawn).1.mp rfl
    rw [choose?_nil] at drawn
    exact ⟨rfl, (Prod.mk.inj (Option.some.inj drawn)).2.symm⟩
  · rintro ⟨rfl, rfl⟩
    exact choose?_nil rest

/-- A choice that returns has skipped the words that cannot be used and read one that can. -/
theorem choose?_eq_some_iff (short : items.length < 2 ^ 32) :
    choose? items tape = some (some item, rest) ↔
      ∃ refused word, tape.Reads (refused ++ [word]) rest ∧
        (∀ earlier ∈ refused, ¬ Usable items.length earlier.toUInt32) ∧
        Usable items.length word.toUInt32 ∧
        items[placeOf items.length word.toUInt32]? = some item := by
  by_cases empty : items = []
  · subst empty
    simp
  · have positive : 0 < items.length := List.length_pos_iff.mpr empty
    have width : indexWidth items.length = 32 := if_pos short
    have opened : choose? items tape = some (some item, rest) ↔
        ∃ index, below 32 items.length tape = some (index, rest) ∧ items[index]? = some item := by
      simp [choose?, empty, width, Option.map_eq_some_iff]
    rw [opened]
    simp only [below_eq_some_iff, toNat_mod_powerOfTwo, usable_iff positive, scaled_eq_placeOf]
    constructor
    · rintro ⟨index, ⟨refused, word, reads, rejected, accepted, rfl⟩, found⟩
      exact ⟨refused, word, reads, rejected, accepted, found⟩
    · rintro ⟨refused, word, reads, rejected, accepted, found⟩
      exact ⟨_, ⟨refused, word, reads, rejected, accepted, rfl⟩, found⟩

end Random

namespace Selection

variable {tried : List ServerId} {reports : Reports} {candidates : List Server}

theorem find?_tiers (present : candidates ≠ []) :
    [fresh tried reports candidates, untried tried candidates, candidates].find?
      (fun tier => tier ≠ []) = some (preferred tried reports candidates) := by
  unfold preferred
  split
  next found => simp [found]
  next noFresh =>
    split
    next found => simp [Decidable.not_not.mp noFresh, found]
    next noUntried =>
      simp [Decidable.not_not.mp noFresh, Decidable.not_not.mp noUntried, present]

/-- How the fallback draws from the best tier of the candidates. -/
structure DrawsEvenly (tried : List ServerId) (reports : Reports)
    (candidates tier : List Server) : Prop where
  best : candidates ≠ [] →
    [fresh tried reports candidates, untried tried candidates, candidates].find?
      (fun tier => tier ≠ []) = some tier
  nothing : ∀ tape rest, chooseFallback? tried reports candidates tape = some (none, rest) ↔
    candidates = [] ∧ rest = tape
  /-- All words that are read are refused but the last one. -/
  drawn : ∀ tape server rest,
    chooseFallback? tried reports candidates tape = some (some server, rest) ↔
      ∃ refused word, tape.Reads (refused ++ [word]) rest ∧
        (∀ earlier ∈ refused, ¬ Random.Usable tier.length earlier.toUInt32) ∧
        Random.Usable tier.length word.toUInt32 ∧
        tier[Random.placeOf tier.length word.toUInt32]? = some server
  inside : candidates ≠ [] → ∀ word, Random.placeOf tier.length word < tier.length
  evenly : ∀ place < tier.length,
    {word : UInt32 | Random.Usable tier.length word ∧
      Random.placeOf tier.length word = place}.ncard = 2 ^ Random.leadingZeros 32 tier.length
  member : ∀ tape server rest,
    chooseFallback? tried reports candidates tape = some (some server, rest) → server ∈ tier

/-- The fallback is an even choice among the servers of the best tier, if their places can be
drawn with half words. -/
theorem chooseFallback?_drawsEvenly
    (short : (preferred tried reports candidates).length < 2 ^ 32) :
    DrawsEvenly tried reports candidates (preferred tried reports candidates) := by
  refine ⟨find?_tiers, ?_, fun _ _ _ => Random.choose?_eq_some_iff short, ?_,
    fun _ => Random.ncard_usable short, ?_⟩
  · intro tape rest
    rw [chooseFallback?, Random.choose?_eq_none_iff, preferred_eq_nil_iff]
  · intro present word
    apply Random.placeOf_lt
    exact List.length_pos_iff.mpr (mt preferred_eq_nil_iff.mp present)
  · intro tape server rest drawn
    exact (Random.choose?_eq_some drawn).2 server rfl

/-- Five candidates, of which the third one is listed again. -/
def relisted : List Server :=
  [⟨⟨0⟩, ⟨"10.0.0.1", 8000⟩⟩, ⟨⟨1⟩, ⟨"10.0.0.1", 8001⟩⟩, ⟨⟨2⟩, ⟨"10.0.0.1", 8002⟩⟩,
    ⟨⟨3⟩, ⟨"10.0.0.1", 8003⟩⟩, ⟨⟨2⟩, ⟨"10.0.0.1", 8002⟩⟩]

/-- One of them was tried and one is reported.  The first word is refused, and of the second one
only the low half counts. -/
theorem chooseFallback?_drawsEvenly_relisted :
    (preferred [⟨0⟩] ⟨[⟨1⟩]⟩ relisted).length < 2 ^ 32 ∧
    preferred [⟨0⟩] ⟨[⟨1⟩]⟩ relisted = relisted.drop 2 ∧
    (∀ place < 3, {word : UInt32 | Random.Usable 3 word ∧
      Random.placeOf 3 word = place}.ncard = 2 ^ 30) ∧
    chooseFallback? [⟨0⟩] ⟨[⟨1⟩]⟩ relisted (.ofList [0x40000000, 0x780000000]) =
      some (some ⟨⟨3⟩, ⟨"10.0.0.1", 8003⟩⟩, .ofList []) := by
  have tier : preferred [⟨0⟩] ⟨[⟨1⟩]⟩ relisted = relisted.drop 2 := rfl
  have short : (preferred [⟨0⟩] ⟨[⟨1⟩]⟩ relisted).length < 2 ^ 32 := by decide
  have even := chooseFallback?_drawsEvenly short
  refine ⟨short, tier, even.evenly, (even.drawn _ _ _).mpr ?_⟩
  exact ⟨[0x40000000], 0x780000000, .cons rfl (.cons rfl (.nil _)),
    List.forall_mem_singleton.mpr (by decide), by decide, rfl⟩

end Selection

end LatencyBalancer
