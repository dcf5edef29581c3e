import LatencyBalancer.Proofs.Selection.Preference
import LatencyBalancer.Proofs.Tree.Proportion
import Mathlib.Algebra.BigOperators.Fin
import Mathlib.Algebra.BigOperators.Ring.Finset
import Mathlib.Data.Fintype.BigOperators
import Mathlib.Tactic.Ring

/-!
# Retrying past excluded servers

The picks of a selection end with the first acceptable server, so what the selection makes of its
draws is settled by the first draw that such a server owns.  Counted over all tuples of draws, the
acceptable servers keep the ratio of their weights, and only the tuples without any such draw lead
to the fallback.
-/

namespace LatencyBalancer

universe u

/-! ### Tuples by their first success -/

section Tuples

variable {Choice : Type u} [Fintype Choice]

/-- How many tuples there are whose first good choice is as wanted. -/
def countFirst (good : Choice → Bool) (wanted : Option Choice → Bool) (count : Nat) : Nat :=
  (Finset.univ.filter fun tuple : Fin count → Choice =>
    wanted ((List.ofFn tuple).find? good)).card

/-- A good first choice settles a tuple, and after a bad one the others do. -/
theorem countFirst_succ (good : Choice → Bool) (wanted : Option Choice → Bool) (count : Nat) :
    countFirst good wanted (count + 1) =
      (Finset.univ.filter fun choice => good choice ∧ wanted (some choice)).card *
          Fintype.card Choice ^ count +
        (Finset.univ.filter fun choice => ¬ good choice).card * countFirst good wanted count := by
  have perChoice : ∀ choice : Choice,
      (∑ tuple : Fin count → Choice,
        if wanted ((List.ofFn (Fin.consEquiv (fun _ => Choice) (choice, tuple))).find? good) then 1
        else 0) =
        if good choice then if wanted (some choice) then Fintype.card Choice ^ count else 0
        else countFirst good wanted count := by
    intro choice
    simp only [Fin.consEquiv_apply, List.ofFn_succ, Fin.cons_zero, Fin.cons_succ]
    by_cases settled : good choice = true
    · by_cases counts : wanted (some choice) = true <;> simp [settled, counts]
    · simp [settled, countFirst]
  rw [countFirst, Finset.card_filter, ← (Fin.consEquiv fun _ => Choice).sum_comp,
    Fintype.sum_prod_type, Finset.sum_congr rfl fun choice _ => perChoice choice, Finset.sum_ite,
    ← Finset.sum_filter, Finset.filter_filter, Finset.sum_const, Finset.sum_const, smul_eq_mul,
    smul_eq_mul]

/-- Any number of bad choices may come before the first good one, and anything after it. -/
theorem countFirst_any (good property : Choice → Bool) (count : Nat) :
    countFirst good (fun first => first.any property) count =
      (Finset.univ.filter fun choice => good choice ∧ property choice).card *
        ∑ earlier ∈ Finset.range count,
          (Finset.univ.filter fun choice => ¬ good choice).card ^ earlier *
            Fintype.card Choice ^ (count - 1 - earlier) := by
  induction count with
  | zero => simp [countFirst]
  | succ count inductionHypothesis =>
      have shift : ∀ earlier, count + 1 - 1 - (earlier + 1) = count - 1 - earlier := by
        intro earlier
        omega
      rw [countFirst_succ, inductionHypothesis, Finset.sum_range_succ']
      simp only [shift, pow_succ', mul_assoc, ← Finset.mul_sum, Option.any_some]
      simp only [Nat.add_sub_cancel, Nat.sub_zero, pow_zero]
      ring

theorem countFirst_isNone (good : Choice → Bool) (count : Nat) :
    countFirst good Option.isNone count =
      (Finset.univ.filter fun choice => ¬ good choice).card ^ count := by
  induction count with
  | zero => simp [countFirst]
  | succ count inductionHypothesis =>
      rw [countFirst_succ, inductionHypothesis, pow_succ']
      simp

end Tuples

namespace Selection

def WeightedTo (id : ServerId) (selection : Selection) : Prop :=
  ∃ server, selection = .weighted server ∧ server.id = id

def Exhausted (selection : Selection) : Prop :=
  ∃ server, selection = .fallback server .retriesExhausted

end Selection

namespace Selector

variable {selector : Selector} {candidates : List Server} {tried : List ServerId}
  {tree : WeightTree Server} {shares : Shares Server}

/-! ### Picks by their draws -/

/-- One draw either ends the picks with its owner or leaves them to the next draw. -/
theorem pickAcceptable_succ (acceptable : Server → Bool) {tape middle : WordTape} {draw : Nat}
    (covered : Covers tree.nodes tree.root shares)
    (drawn : Random.below 64 shares.total tape = some (draw, middle)) (inside : draw < shares.total)
    (attempts : Nat) :
    ∃ server, shares.scan draw = some server ∧
      pickAcceptable tree acceptable (attempts + 1) tape =
        if acceptable server then some (.ok server, middle)
        else pickAcceptable tree acceptable attempts middle := by
  obtain ⟨server, owner, picked⟩ := WeightTree.pick_of_below covered drawn inside
  refine ⟨server, owner, ?_⟩
  rw [pickAcceptable, picked]

theorem pickAcceptable_refused {acceptable : Server → Bool} {draws : List Nat}
    {tape rest : WordTape} (covered : Covers tree.nodes tree.root shares)
    (drawn : Random.Draws shares.total tape draws rest)
    (inside : ∀ draw ∈ draws, draw < shares.total)
    (refused : ∀ draw ∈ draws, (shares.scan draw).any acceptable = false) :
    pickAcceptable tree acceptable draws.length tape = some (.error .retriesExhausted, rest) := by
  induction drawn with
  | nil tape => rfl
  | cons drawn after inductionHypothesis =>
      obtain ⟨first, others⟩ := List.forall_mem_cons.mp inside
      obtain ⟨firstRefused, othersRefused⟩ := List.forall_mem_cons.mp refused
      obtain ⟨server, owner, picked⟩ :=
        pickAcceptable_succ acceptable covered drawn first _
      rw [owner, Option.any_some] at firstRefused
      rw [List.length_cons, picked, firstRefused]
      exact inductionHypothesis others othersRefused

theorem pickAcceptable_first {acceptable : Server → Bool} {draws : List Nat} {draw : Nat}
    {tape rest : WordTape} (covered : Covers tree.nodes tree.root shares)
    (drawn : Random.Draws shares.total tape draws rest)
    (inside : ∀ draw ∈ draws, draw < shares.total)
    (first : draws.find? (fun draw => (shares.scan draw).any acceptable) = some draw) :
    ∃ server between, shares.scan draw = some server ∧
      pickAcceptable tree acceptable draws.length tape = some (.ok server, between) := by
  induction drawn with
  | nil tape => contradiction
  | @cons tape middle rest front later drawn after inductionHypothesis =>
      obtain ⟨frontInside, others⟩ := List.forall_mem_cons.mp inside
      obtain ⟨server, owner, picked⟩ :=
        pickAcceptable_succ acceptable covered drawn frontInside later.length
      rw [List.find?_cons, owner, Option.any_some] at first
      rw [List.length_cons, picked]
      by_cases accepted : acceptable server = true
      · rw [accepted] at first
        obtain rfl := Option.some.inj first
        exact ⟨server, middle, owner, if_pos accepted⟩
      · rw [Bool.not_eq_true] at accepted
        rw [accepted] at first
        rw [accepted]
        exact inductionHypothesis others first

/-! ### Selections by their draws -/

def usable (selector : Selector) (candidates : List Server) (tried : List ServerId)
    (shares : Shares Server) (draw : Nat) : Bool :=
  (shares.scan draw).any fun server => selector.Acceptable candidates tried server

theorem usable_iff {draw : Nat} : selector.usable candidates tried shares draw ↔
    ∃ server, shares.scan draw = some server ∧ selector.Acceptable candidates tried server := by
  simp [usable, Option.any_eq_true]

/-- The first usable draw decides a selection, and without one it falls back. -/
theorem select_of_draws {draws : List Nat} {tape rest : WordTape} (present : candidates ≠ [])
    (published : selector.tree = some tree) (covered : Covers tree.nodes tree.root shares)
    (enough : draws.length = max selector.attempts 1)
    (drawn : Random.Draws tree.totalWeight.toNat tape draws rest)
    (inside : ∀ draw ∈ draws, draw < tree.totalWeight.toNat) (serves : rest.Serves 1) :
    (∃ draw server after, draws.find? (selector.usable candidates tried shares) = some draw ∧
      shares.scan draw = some server ∧
      selector.select candidates tried tape = some (some (.weighted server), after)) ∨
    (draws.find? (selector.usable candidates tried shares) = none ∧ ∃ server after,
      selector.select candidates tried tape =
        some (some (.fallback server .retriesExhausted), after)) := by
  have nonempty : candidates.isEmpty = false := by simpa using present
  rw [WeightTree.totalWeight_of_covers covered] at drawn inside
  cases first : draws.find? (selector.usable candidates tried shares) with
  | some draw =>
      left
      obtain ⟨server, after, owner, picked⟩ := pickAcceptable_first covered drawn inside first
      refine ⟨draw, server, after, rfl, owner, ?_⟩
      simp [select, weightedPick, nonempty, published, ← enough, picked]
  | none =>
      right
      have refused : ∀ draw ∈ draws,
          selector.usable candidates tried shares draw = false := by
        simpa using List.find?_eq_none.mp first
      have picked := pickAcceptable_refused covered drawn inside refused
      obtain ⟨chosen, after, fallback⟩ :=
        Selection.exists_chooseFallback? tried selector.reports candidates serves
      obtain ⟨absent, _⟩ := Selection.chooseFallback?_eq_some fallback
      cases chosen with
      | none => exact absurd (absent.mp rfl) present
      | some server =>
          refine ⟨rfl, server, after, ?_⟩
          simp [select, weightedPick, nonempty, published, ← enough, picked, fallback]

abbrev Tuple (selector : Selector) (tree : WeightTree Server) :=
  Fin (max selector.attempts 1) → Fin tree.totalWeight.toNat

/-- The draws from the tape come out like this, and it holds another one for the fallback. -/
def Follows {count bound : Nat} (tape : WordTape) (draws : Fin count → Fin bound) : Prop :=
  ∃ rest, Random.Draws bound tape ((List.ofFn draws).map Fin.val) rest ∧ rest.Serves 1

/-- There are tapes on which the draws come out like this, and on all of them the selection ends
as described. -/
def Makes (selector : Selector) (candidates : List Server) (tried : List ServerId)
    {count bound : Nat} (draws : Fin count → Fin bound) (outcome : Selection → Prop) : Prop :=
  (∃ tape, Follows tape draws) ∧ ∀ tape, Follows tape draws → ∃ selection rest,
    selector.select candidates tried tape = some (some selection, rest) ∧ outcome selection

def firstUsable (selector : Selector) (candidates : List Server) (tried : List ServerId)
    (shares : Shares Server) {count bound : Nat} (draws : Fin count → Fin bound) :
    Option (Fin bound) :=
  (List.ofFn draws).find? fun draw => selector.usable candidates tried shares draw.val

theorem usable_of_firstUsable {count bound : Nat} {draws : Fin count → Fin bound}
    {draw : Fin bound} (first : selector.firstUsable candidates tried shares draws = some draw) :
    selector.usable candidates tried shares draw.val := by
  have found := List.find?_some first
  exact found

theorem firstUsable_eq_none_iff {count bound : Nat} {draws : Fin count → Fin bound} :
    selector.firstUsable candidates tried shares draws = none ↔
      ∀ place, ¬ selector.usable candidates tried shares (draws place).val := by
  rw [firstUsable, List.find?_eq_none]
  exact List.forall_mem_ofFn_iff

theorem exists_follows {count bound : Nat} (fits : bound < powerOfTwo 64)
    (draws : Fin count → Fin bound) : ∃ tape, Follows tape draws := by
  have inside : ∀ draw ∈ (List.ofFn draws).map Fin.val, draw < bound := by simp
  obtain ⟨tape, drawn⟩ :=
    Random.exists_draws fits inside (.ofList (List.replicate 1 0))
  exact ⟨tape, _, drawn, Random.serves_zeros 1⟩

theorem select_of_follows (tried : List ServerId) (present : candidates ≠ [])
    (published : selector.tree = some tree) (covered : Covers tree.nodes tree.root shares)
    {tape : WordTape} {draws : selector.Tuple tree} (follows : Follows tape draws) :
    (∃ draw server after, selector.firstUsable candidates tried shares draws = some draw ∧
      shares.scan draw.val = some server ∧
      selector.select candidates tried tape = some (some (.weighted server), after)) ∨
    (selector.firstUsable candidates tried shares draws = none ∧ ∃ server after,
      selector.select candidates tried tape =
        some (some (.fallback server .retriesExhausted), after)) := by
  obtain ⟨rest, drawn, serves⟩ := follows
  have inside : ∀ draw ∈ (List.ofFn draws).map Fin.val, draw < tree.totalWeight.toNat := by simp
  rcases select_of_draws present published covered (by simp) drawn inside serves with
    ⟨draw, server, after, first, owner, selected⟩ | ⟨first, fallback⟩
  · left
    rw [List.find?_map, Option.map_eq_some_iff] at first
    obtain ⟨place, first, rfl⟩ := first
    exact ⟨place, server, after, first, owner, selected⟩
  · right
    rw [List.find?_map, Option.map_eq_none_iff] at first
    exact ⟨first, fallback⟩

theorem makes_weightedTo_iff (present : candidates ≠ []) (published : selector.tree = some tree)
    (covered : Covers tree.nodes tree.root shares)
    (draws : selector.Tuple tree) (id : ServerId) :
    selector.Makes candidates tried draws (Selection.WeightedTo id) ↔
      (selector.firstUsable candidates tried shares draws).any fun draw =>
        (shares.scan draw.val).any fun server => server.id == id := by
  constructor
  · rintro ⟨⟨tape, follows⟩, ends⟩
    obtain ⟨_, rest, selected, server, rfl, same⟩ := ends tape follows
    rcases select_of_follows tried present published covered follows with
      ⟨draw, found, after, first, owner, weighted⟩ | ⟨_, found, after, fallback⟩
    · rw [selected] at weighted
      obtain ⟨⟨rfl⟩, rfl⟩ := Prod.mk.inj (Option.some.inj weighted)
      simp [first, owner, same]
    · rw [selected] at fallback
      simp at fallback
  · intro first
    refine ⟨exists_follows tree.totalWeight.toNat_lt draws, ?_⟩
    intro tape follows
    rcases select_of_follows tried present published covered follows with
      ⟨draw, server, after, found, owner, weighted⟩ | ⟨none, _⟩
    · refine ⟨_, after, weighted, server, rfl, ?_⟩
      simpa [found, owner] using first
    · simp [none] at first

theorem makes_exhausted_iff (present : candidates ≠ []) (published : selector.tree = some tree)
    (covered : Covers tree.nodes tree.root shares)
    (draws : selector.Tuple tree) :
    selector.Makes candidates tried draws Selection.Exhausted ↔
      (selector.firstUsable candidates tried shares draws).isNone := by
  constructor
  · rintro ⟨⟨tape, follows⟩, ends⟩
    obtain ⟨_, rest, selected, server, rfl⟩ := ends tape follows
    rcases select_of_follows tried present published covered follows with
      ⟨draw, found, after, _, _, weighted⟩ | ⟨none, _⟩
    · rw [selected] at weighted
      simp at weighted
    · simp [none]
  · intro none
    refine ⟨exists_follows tree.totalWeight.toNat_lt draws, ?_⟩
    intro tape follows
    rcases select_of_follows tried present published covered follows with
      ⟨draw, server, after, found, _, _⟩ | ⟨_, server, after, fallback⟩
    · simp [found] at none
    · exact ⟨_, after, fallback, server, rfl⟩

/-! ### Counting the selections -/

def excludedWeight (selector : Selector) (candidates : List Server) (tried : List ServerId)
    (shares : Shares Server) : Nat :=
  shares.portion fun server => ¬ selector.Acceptable candidates tried server

theorem ncard_makes {outcome : Selection → Prop}
    {wanted : Option (Fin tree.totalWeight.toNat) → Bool}
    (settled : ∀ draws : selector.Tuple tree, selector.Makes candidates tried draws outcome ↔
      wanted (selector.firstUsable candidates tried shares draws)) :
    {draws : selector.Tuple tree | selector.Makes candidates tried draws outcome}.ncard =
      countFirst (fun draw => selector.usable candidates tried shares draw.val) wanted
        (max selector.attempts 1) := by
  rw [countFirst, ← Set.ncard_coe_finset]
  congr 1
  ext draws
  simp [settled, firstUsable]

theorem card_usable {bound : Nat} {server : Server} (whole : bound = shares.total)
    (acceptable : selector.Acceptable candidates tried server) :
    (Finset.univ.filter fun draw : Fin bound =>
      selector.usable candidates tried shares draw.val ∧
        (shares.scan draw.val).any fun owner => owner.id == server.id).card =
      WeightTree.weightOf shares server.id := by
  rw [WeightTree.weightOf, ← Shares.card_scan_fin whole]
  congr 1
  apply Finset.filter_congr
  intro draw _
  rw [and_iff_right_iff_imp, usable_iff, Option.any_eq_true]
  rintro ⟨owner, owned, same⟩
  refine ⟨owner, owned, ?_⟩
  rw [Acceptable, beq_iff_eq.mp same]
  exact acceptable

theorem card_not_usable {bound : Nat} (whole : bound = shares.total) :
    (Finset.univ.filter fun draw : Fin bound =>
      ¬ selector.usable candidates tried shares draw.val).card =
      selector.excludedWeight candidates tried shares := by
  rw [excludedWeight, ← Shares.card_scan_fin whole]
  congr 1
  apply Finset.filter_congr
  intro draw _
  have inside : draw.val < shares.total := lt_of_lt_of_eq draw.isLt whole
  obtain ⟨owner, owned⟩ := Shares.exists_scan inside
  simp [usable, owned]

/-- The tuples of draws are split among the servers that may be used by their weights. -/
structure KeepsShares (selector : Selector) (candidates : List Server) (tried : List ServerId)
    (tree : WeightTree Server) : Prop where
  totalWeight : tree.totalWeight.toNat = tree.shares.total
  weighted : ∀ server, selector.Acceptable candidates tried server →
    {draws : selector.Tuple tree |
      selector.Makes candidates tried draws (Selection.WeightedTo server.id)}.ncard =
      WeightTree.weightOf tree.shares server.id *
        ∑ earlier ∈ Finset.range (max selector.attempts 1),
          selector.excludedWeight candidates tried tree.shares ^ earlier *
            tree.totalWeight.toNat ^ (max selector.attempts 1 - 1 - earlier)
  exhausted :
    {draws : selector.Tuple tree |
      selector.Makes candidates tried draws Selection.Exhausted}.ncard =
      selector.excludedWeight candidates tried tree.shares ^ max selector.attempts 1
  nothingElse : ∀ draws : selector.Tuple tree,
    (∃ server, selector.Acceptable candidates tried server ∧
      selector.Makes candidates tried draws (Selection.WeightedTo server.id)) ∨
    selector.Makes candidates tried draws Selection.Exhausted
  noneAcceptable : (∀ share ∈ tree.shares, ¬ selector.Acceptable candidates tried share.1) →
    ∀ draws : selector.Tuple tree, selector.Makes candidates tried draws Selection.Exhausted
  allAcceptable : (∀ share ∈ tree.shares, selector.Acceptable candidates tried share.1) →
    ∀ draws : selector.Tuple tree, ¬ selector.Makes candidates tried draws Selection.Exhausted

theorem keepsShares_of_covers (present : candidates ≠ []) (published : selector.tree = some tree)
    (covered : Covers tree.nodes tree.root shares) (same : shares.Perm tree.shares) :
    selector.KeepsShares candidates tried tree := by
  have whole := WeightTree.totalWeight_of_covers covered
  have excluded : selector.excludedWeight candidates tried tree.shares =
      selector.excludedWeight candidates tried shares :=
    (Shares.portion_perm _ same).symm
  have exhaustedIff : ∀ draws : selector.Tuple tree,
      selector.Makes candidates tried draws Selection.Exhausted ↔
        (selector.firstUsable candidates tried shares draws).isNone :=
    makes_exhausted_iff present published covered
  refine ⟨whole.trans (Shares.total_perm same), ?_, ?_, ?_, ?_, ?_⟩
  · intro server acceptable
    have weight : WeightTree.weightOf tree.shares server.id =
        WeightTree.weightOf shares server.id :=
      (Shares.portion_perm _ same).symm
    rw [ncard_makes fun draws => makes_weightedTo_iff present published covered draws server.id,
      countFirst_any, card_usable whole acceptable, card_not_usable whole, excluded, weight,
      Fintype.card_fin]
  · rw [ncard_makes exhaustedIff, countFirst_isNone, card_not_usable whole, excluded]
  · intro draws
    cases first : selector.firstUsable candidates tried shares draws with
    | none =>
        right
        rw [exhaustedIff, first]
        rfl
    | some draw =>
        left
        obtain ⟨server, owner, acceptable⟩ := usable_iff.mp (usable_of_firstUsable first)
        refine ⟨server, acceptable, ?_⟩
        rw [makes_weightedTo_iff present published covered, first]
        simp [owner]
  · intro none draws
    rw [exhaustedIff, Option.isNone_iff_eq_none, firstUsable_eq_none_iff]
    intro place usable
    obtain ⟨server, owner, acceptable⟩ := usable_iff.mp usable
    obtain ⟨weight, member⟩ := Shares.mem_of_scan owner
    exact none _ (same.mem_iff.mp member) acceptable
  · intro all draws exhausted
    rw [exhaustedIff, Option.isNone_iff_eq_none, firstUsable_eq_none_iff] at exhausted
    have positive : 0 < max selector.attempts 1 := lt_max_of_lt_right Nat.one_pos
    obtain ⟨server, owner⟩ :=
      Shares.exists_scan (lt_of_lt_of_eq (draws ⟨0, positive⟩).isLt whole)
    obtain ⟨weight, member⟩ := Shares.mem_of_scan owner
    apply exhausted ⟨0, positive⟩
    exact usable_iff.mpr ⟨server, owner, all _ (same.mem_iff.mp member)⟩

/-- A selection from an assembled tree keeps the shares of the servers that may be used, however
many others have to be passed over. -/
theorem select_keepsShares {items : List (Server × UInt32)}
    (fits : Shares.total (items.map WeightTree.shareOf) < UInt64.size)
    (assembled : WeightTree.assemble items = some tree) (published : selector.tree = some tree)
    (present : candidates ≠ []) (tried : List ServerId) :
    selector.KeepsShares candidates tried tree := by
  have nonempty : items ≠ [] := by
    rintro rfl
    simp [WeightTree.assemble, WeightTree.pairUp] at assembled
  obtain ⟨_, same, covered⟩ := WeightTree.assemble_covers nonempty fits
  rw [assembled] at same
  obtain rfl := Option.some.inj same
  apply keepsShares_of_covers present published covered
  rw [WeightTree.shares_assemble assembled]
  exact WeightTree.leafOrder_perm items

/-- Two picks, and a report on a server that owns four of eleven draws. -/
def reporting (tree : WeightTree Server) : Selector where
  tree := some tree
  reports := ⟨[⟨2⟩]⟩
  attempts := 2

theorem select_keepsShares_reporting :
    ∃ tree, WeightTree.assemble WeightTree.listedTwice = some tree ∧
      {draws : (reporting tree).Tuple tree | (reporting tree).Makes
        (WeightTree.listedTwice.map Prod.fst) [] draws (Selection.WeightedTo ⟨0⟩)}.ncard = 90 ∧
      {draws : (reporting tree).Tuple tree | (reporting tree).Makes
        (WeightTree.listedTwice.map Prod.fst) [] draws (Selection.WeightedTo ⟨1⟩)}.ncard = 15 ∧
      {draws : (reporting tree).Tuple tree | (reporting tree).Makes
        (WeightTree.listedTwice.map Prod.fst) [] draws Selection.Exhausted}.ncard = 16 := by
  have fits : Shares.total (WeightTree.listedTwice.map WeightTree.shareOf) < UInt64.size :=
    WeightTree.total_shareOf_lt (by decide)
  obtain ⟨tree, assembled, _⟩ := WeightTree.assemble_covers (by decide) fits
  have shares := WeightTree.shares_assemble assembled
  have present : WeightTree.listedTwice.map Prod.fst ≠ [] := by decide
  have kept : (reporting tree).KeepsShares (WeightTree.listedTwice.map Prod.fst) [] tree :=
    select_keepsShares fits assembled rfl present []
  refine ⟨tree, assembled, ?_, ?_, ?_⟩
  · apply (kept.weighted ⟨⟨0⟩, ⟨"10.0.0.1", 8000⟩⟩ ?_).trans
    · rw [kept.totalWeight, shares]
      rfl
    · simp [Acceptable, reporting, Reports.mem_iff, WeightTree.listedTwice]
  · apply (kept.weighted ⟨⟨1⟩, ⟨"10.0.0.1", 8001⟩⟩ ?_).trans
    · rw [kept.totalWeight, shares]
      rfl
    · simp [Acceptable, reporting, Reports.mem_iff, WeightTree.listedTwice]
  · apply kept.exhausted.trans
    rw [shares]
    rfl

end Selector

end LatencyBalancer
