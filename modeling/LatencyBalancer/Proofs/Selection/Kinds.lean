import LatencyBalancer.Proofs.Selection.Preference

/-!
# How the picks decide a selection

The picks of a selection pass over servers that must not be used, and end with the first other
result: a server that may be used, a fault, or no pick left.  Each way to end is one kind of
selection.  Only then is the fallback drawn, from the tape as the picks left it.
-/

namespace LatencyBalancer

universe u

/-- The results of picks one after another, and the tape that they leave. -/
inductive WeightTree.Picks {Item : Type u} (tree : WeightTree Item) :
    WordTape → List (Except TreeError Item) → WordTape → Prop where
  | nil (tape : WordTape) : Picks tree tape [] tape
  | cons {tape middle rest : WordTape} {result : Except TreeError Item}
      {later : List (Except TreeError Item)} :
      tree.pick tape = some (result, middle) →
      Picks tree middle later rest →
      Picks tree tape (result :: later) rest

namespace Selector

variable {selector : Selector} {candidates : List Server} {tried : List ServerId}
  {tree : WeightTree Server} {tape middle rest : WordTape} {server : Server}

/-! ### Ends of the picks -/

section Ends

variable {acceptable : Server → Bool} {refused : List Server} {attempts : Nat}

theorem pickAcceptable_of_picks (picked : tree.Picks tape (refused.map .ok) middle)
    (unusable : ∀ server ∈ refused, acceptable server = false) (attempts : Nat) :
    pickAcceptable tree acceptable (refused.length + attempts) tape =
      pickAcceptable tree acceptable attempts middle := by
  induction refused generalizing tape with
  | nil =>
      cases picked
      rw [List.length_nil, Nat.zero_add]
  | cons first later inductionHypothesis =>
      obtain ⟨firstUnusable, laterUnusable⟩ := List.forall_mem_cons.mp unusable
      cases picked with
      | cons once after =>
          rw [List.length_cons, Nat.add_right_comm, pickAcceptable, once]
          simp only [firstUnusable, Bool.false_eq_true, if_false]
          exact inductionHypothesis after laterUnusable

theorem exists_picks_of_pickAcceptable {outcome : Except FallbackReason Server}
    (ended : pickAcceptable tree acceptable attempts tape = some (outcome, rest)) :
    ∃ (refused : List Server) (middle : WordTape), tree.Picks tape (refused.map .ok) middle ∧
      (∀ server ∈ refused, acceptable server = false) ∧
      ((refused.length = attempts ∧ outcome = .error .retriesExhausted ∧ middle = rest) ∨
        (refused.length < attempts ∧ ∃ error, outcome = .error .samplingFault ∧
          tree.pick middle = some (.error error, rest)) ∨
        (refused.length < attempts ∧ ∃ server, outcome = .ok server ∧
          acceptable server = true ∧ tree.pick middle = some (.ok server, rest))) := by
  induction attempts generalizing tape with
  | zero =>
      obtain ⟨rfl, rfl⟩ := Prod.mk.inj (Option.some.inj ended)
      exact ⟨[], tape, .nil tape, by simp, .inl ⟨rfl, rfl, rfl⟩⟩
  | succ attempts inductionHypothesis =>
      unfold pickAcceptable at ended
      split at ended
      next => contradiction
      next error after failed =>
        obtain ⟨rfl, rfl⟩ := Prod.mk.inj (Option.some.inj ended)
        exact ⟨[], tape, .nil tape, by simp,
          .inr (.inl ⟨Nat.succ_pos attempts, error, rfl, failed⟩)⟩
      next server after picked =>
        split at ended
        next accepted =>
          obtain ⟨rfl, rfl⟩ := Prod.mk.inj (Option.some.inj ended)
          exact ⟨[], tape, .nil tape, by simp,
            .inr (.inr ⟨Nat.succ_pos attempts, server, rfl, accepted, picked⟩)⟩
        next unacceptable =>
          obtain ⟨refused, middle, earlier, unusable, last⟩ := inductionHypothesis ended
          refine ⟨server :: refused, middle, .cons picked earlier, ?_, ?_⟩
          · exact List.forall_mem_cons.mpr ⟨Bool.eq_false_iff.mpr unacceptable, unusable⟩
          · simpa only [List.length_cons, Nat.succ_lt_succ_iff, Nat.succ_inj] using last

end Ends

/-- The first picks find only servers that must not be used: these, one after another. -/
structure PassesOver (selector : Selector) (candidates : List Server) (tried : List ServerId)
    (tree : WeightTree Server) (tape : WordTape) (refused : List Server) (rest : WordTape) :
    Prop where
  picked : tree.Picks tape (refused.map .ok) rest
  unusable : ∀ server ∈ refused, ¬ selector.Acceptable candidates tried server

/-- One of the picks, as many as are allowed, is the first that finds a server that may be used. -/
def Finds (selector : Selector) (candidates : List Server) (tried : List ServerId)
    (tape : WordTape) (server : Server) (rest : WordTape) : Prop :=
  ∃ tree refused middle, selector.tree = some tree ∧
    refused.length < max selector.attempts 1 ∧
    selector.PassesOver candidates tried tree tape refused middle ∧
    tree.pick middle = some (.ok server, rest) ∧ selector.Acceptable candidates tried server

/-- The picks find no server, for this reason, and leave this tape. -/
def Defers (selector : Selector) (candidates : List Server) (tried : List ServerId)
    (tape : WordTape) : FallbackReason → WordTape → Prop
  | .noTree, rest => selector.tree = none ∧ rest = tape
  | .samplingFault, rest => ∃ tree refused middle error, selector.tree = some tree ∧
      refused.length < max selector.attempts 1 ∧
      selector.PassesOver candidates tried tree tape refused middle ∧
      tree.pick middle = some (.error error, rest)
  | .retriesExhausted, rest => ∃ tree refused, selector.tree = some tree ∧
      refused.length = max selector.attempts 1 ∧
      selector.PassesOver candidates tried tree tape refused rest

theorem PassesOver.pickAcceptable_add {refused : List Server}
    (passed : selector.PassesOver candidates tried tree tape refused middle) (attempts : Nat) :
    pickAcceptable tree (fun server => selector.Acceptable candidates tried server)
        (refused.length + attempts) tape =
      pickAcceptable tree (fun server => selector.Acceptable candidates tried server)
        attempts middle :=
  pickAcceptable_of_picks passed.picked
    (fun server present => decide_eq_false (passed.unusable server present)) attempts

theorem weightedPick_eq_ok_iff :
    selector.weightedPick candidates tried tape = some (.ok server, rest) ↔
      selector.Finds candidates tried tape server rest := by
  constructor
  · intro picked
    unfold weightedPick at picked
    split at picked
    next => simp at picked
    next tree published =>
      obtain ⟨refused, middle, earlier, unusable, last⟩ := exists_picks_of_pickAcceptable picked
      rcases last with ⟨_, same, _⟩ | ⟨_, _, same, _⟩ | ⟨fewer, _, ⟨rfl⟩, acceptable, found⟩
      · contradiction
      · contradiction
      · exact ⟨tree, refused, middle, published, fewer,
          ⟨earlier, fun server present => of_decide_eq_false (unusable server present)⟩, found,
          of_decide_eq_true acceptable⟩
  · rintro ⟨tree, refused, middle, published, fewer, passed, found, acceptable⟩
    obtain ⟨left, enough⟩ := Nat.exists_eq_add_of_lt fewer
    rw [weightedPick, published]
    simp only [enough, Nat.add_assoc, passed.pickAcceptable_add, pickAcceptable, found, acceptable,
      decide_true, if_true]

theorem weightedPick_eq_error_iff {reason : FallbackReason} :
    selector.weightedPick candidates tried tape = some (.error reason, rest) ↔
      selector.Defers candidates tried tape reason rest := by
  constructor
  · intro picked
    unfold weightedPick at picked
    split at picked
    next absent =>
      obtain ⟨⟨rfl⟩, rfl⟩ := Prod.mk.inj (Option.some.inj picked)
      exact ⟨absent, rfl⟩
    next tree published =>
      obtain ⟨refused, middle, earlier, unusable, last⟩ := exists_picks_of_pickAcceptable picked
      have passed : selector.PassesOver candidates tried tree tape refused middle :=
        ⟨earlier, fun server present => of_decide_eq_false (unusable server present)⟩
      rcases last with ⟨all, ⟨rfl⟩, rfl⟩ | ⟨fewer, error, ⟨rfl⟩, failed⟩ | ⟨_, _, same, _⟩
      · exact ⟨tree, refused, published, all, passed⟩
      · exact ⟨tree, refused, middle, error, published, fewer, passed, failed⟩
      · contradiction
  · intro deferred
    cases reason with
    | noTree =>
        obtain ⟨absent, rfl⟩ := deferred
        rw [weightedPick, absent]
    | samplingFault =>
        obtain ⟨tree, refused, middle, error, published, fewer, passed, failed⟩ := deferred
        obtain ⟨left, enough⟩ := Nat.exists_eq_add_of_lt fewer
        rw [weightedPick, published]
        simp only [enough, Nat.add_assoc, passed.pickAcceptable_add, pickAcceptable, failed]
    | retriesExhausted =>
        obtain ⟨tree, refused, published, all, passed⟩ := deferred
        rw [weightedPick, published]
        simp only [← all]
        exact passed.pickAcceptable_add 0

/-! ### Kinds of selections -/

theorem select_of_finds (present : candidates ≠ [])
    (finds : selector.Finds candidates tried tape server rest) :
    selector.select candidates tried tape = some (some (.weighted server), rest) := by
  have nonempty : candidates.isEmpty = false := by simpa using present
  simp only [select, nonempty, Bool.false_eq_true, if_false, weightedPick_eq_ok_iff.mpr finds]

theorem select_of_defers {reason : FallbackReason} (present : candidates ≠ [])
    (defers : selector.Defers candidates tried tape reason middle) :
    selector.select candidates tried tape =
      (Selection.chooseFallback? tried selector.reports candidates middle).map
        fun (server, rest) => (server.map (.fallback · reason), rest) := by
  have nonempty : candidates.isEmpty = false := by simpa using present
  simp only [select, nonempty, Bool.false_eq_true, if_false, weightedPick_eq_error_iff.mpr defers]

theorem finds_or_defers_of_select {outcome : Option Selection} (present : candidates ≠ [])
    (selected : selector.select candidates tried tape = some (outcome, rest)) :
    (∃ server, outcome = some (.weighted server) ∧
        selector.Finds candidates tried tape server rest) ∨
      ∃ server reason between, outcome = some (.fallback server reason) ∧
        selector.Defers candidates tried tape reason between ∧
        Selection.chooseFallback? tried selector.reports candidates between =
          some (some server, rest) := by
  rcases select_eq_some selected with
    ⟨empty, _⟩ | ⟨server, _, picked, rfl⟩ | ⟨reason, between, chosen, _, picked, drawn, rfl⟩
  · exact absurd empty present
  · exact .inl ⟨server, rfl, weightedPick_eq_ok_iff.mp picked⟩
  · cases chosen with
    | none => exact absurd ((Selection.chooseFallback?_eq_some drawn).1.mp rfl) present
    | some server =>
        exact .inr ⟨server, reason, between, rfl, weightedPick_eq_error_iff.mp picked, drawn⟩

theorem select_eq_weighted_iff (present : candidates ≠ []) :
    selector.select candidates tried tape = some (some (.weighted server), rest) ↔
      selector.Finds candidates tried tape server rest := by
  refine ⟨fun selected => ?_, select_of_finds present⟩
  rcases finds_or_defers_of_select present selected with
    ⟨found, ⟨rfl⟩, finds⟩ | ⟨_, _, _, same, _⟩
  · exact finds
  · simp at same

theorem select_eq_fallback_iff {reason : FallbackReason} (present : candidates ≠ []) :
    selector.select candidates tried tape = some (some (.fallback server reason), rest) ↔
      ∃ between, selector.Defers candidates tried tape reason between ∧
        Selection.chooseFallback? tried selector.reports candidates between =
          some (some server, rest) := by
  constructor
  · intro selected
    rcases finds_or_defers_of_select present selected with
      ⟨_, same, _⟩ | ⟨_, _, between, ⟨rfl⟩, defers, drawn⟩
    · simp at same
    · exact ⟨between, defers, drawn⟩
  · rintro ⟨between, defers, drawn⟩
    rw [select_of_defers present defers, drawn]
    rfl

theorem exists_weighted_iff {selection : Selection} (present : candidates ≠ [])
    (selected : selector.select candidates tried tape = some (some selection, rest)) :
    (∃ server, selection = .weighted server) ↔
      ∃ server after, selector.Finds candidates tried tape server after := by
  constructor
  · rintro ⟨server, rfl⟩
    exact ⟨server, rest, (select_eq_weighted_iff present).mp selected⟩
  · rintro ⟨server, after, finds⟩
    rw [select_of_finds present finds] at selected
    obtain ⟨⟨rfl⟩, _⟩ := Prod.mk.inj (Option.some.inj selected)
    exact ⟨server, rfl⟩

theorem exists_fallback_iff {selection : Selection} (present : candidates ≠ [])
    (selected : selector.select candidates tried tape = some (some selection, rest))
    (reason : FallbackReason) :
    (∃ server, selection = .fallback server reason) ↔
      ∃ between, selector.Defers candidates tried tape reason between := by
  constructor
  · rintro ⟨server, rfl⟩
    obtain ⟨between, defers, _⟩ := (select_eq_fallback_iff present).mp selected
    exact ⟨between, defers⟩
  · rintro ⟨between, defers⟩
    rw [select_of_defers present defers] at selected
    obtain ⟨⟨chosen, after⟩, _, same⟩ := Option.map_eq_some_iff.mp selected
    obtain ⟨server, _, rfl⟩ := Option.map_eq_some_iff.mp (congrArg Prod.fst same)
    exact ⟨server, rfl⟩

theorem select_ne_none (present : candidates ≠ []) :
    selector.select candidates tried tape ≠ some (none, rest) := by
  intro selected
  rcases finds_or_defers_of_select present selected with ⟨_, same, _⟩ | ⟨_, _, _, same, _⟩
  · contradiction
  · contradiction

theorem exists_selection (present : candidates ≠ [])
    (serves : tape.Serves (max selector.attempts 1 + 1)) :
    ∃ selection rest, selector.select candidates tried tape = some (some selection, rest) := by
  have returned : ∃ outcome rest, selector.select candidates tried tape = some (outcome, rest) :=
    exists_select serves
  obtain ⟨outcome, rest, selected⟩ := returned
  cases outcome with
  | none => exact absurd selected (select_ne_none present)
  | some selection => exact ⟨selection, rest, selected⟩

/-- How a selection among candidates is decided by the results of its picks. -/
structure DecidedByPicks (selector : Selector) (candidates : List Server) (tried : List ServerId)
    (tape : WordTape) : Prop where
  weighted : ∀ server rest,
    selector.select candidates tried tape = some (some (.weighted server), rest) ↔
      selector.Finds candidates tried tape server rest
  fallback : ∀ server reason rest,
    selector.select candidates tried tape = some (some (.fallback server reason), rest) ↔
      ∃ between, selector.Defers candidates tried tape reason between ∧
        Selection.chooseFallback? tried selector.reports candidates between =
          some (some server, rest)
  /-- The kind does not depend on the draw of the fallback. -/
  kind : ∀ selection rest,
    selector.select candidates tried tape = some (some selection, rest) →
      ((∃ server, selection = .weighted server) ↔
        ∃ server after, selector.Finds candidates tried tape server after) ∧
      ∀ reason, (∃ server, selection = .fallback server reason) ↔
        ∃ between, selector.Defers candidates tried tape reason between
  answered : ∀ rest, selector.select candidates tried tape ≠ some (none, rest)
  returns : tape.Serves (max selector.attempts 1 + 1) →
    ∃ selection rest, selector.select candidates tried tape = some (some selection, rest)

theorem decidedByPicks_of_ne_nil (present : candidates ≠ []) :
    selector.DecidedByPicks candidates tried tape :=
  ⟨fun _ _ => select_eq_weighted_iff present, fun _ _ _ => select_eq_fallback_iff present,
    fun _ _ selected => ⟨exists_weighted_iff present selected, exists_fallback_iff present selected⟩,
    fun _ => select_ne_none present, exists_selection present⟩

/-- The picks decide the kind of a selection and the words it costs, whatever tree is published;
without candidates there are no picks. -/
theorem select_decidedByPicks (selector : Selector) (candidates : List Server)
    (tried : List ServerId) (tape : WordTape) :
    (candidates = [] → selector.select candidates tried tape = some (none, tape)) ∧
    (candidates ≠ [] → selector.DecidedByPicks candidates tried tape) := by
  refine ⟨?_, decidedByPicks_of_ne_nil⟩
  rintro rfl
  rfl

/-- The left half of the draws belongs to a reported server, and the right half leads nowhere. -/
def halved : Selector where
  tree := some ⟨#[.leaf 1 reported, .branch 2 0 (some 7)], 1, 1⟩
  reports := ⟨[reported.id]⟩
  attempts := 2

def halves : List UInt64 := [0, 0x4000000000000000, 0x8000000000000000, 0]

theorem defers_halved :
    halved.Defers [reported, unreported] [] (.ofList halves) .samplingFault (.ofList [0]) := by
  have left : Random.below 64 2 (.ofList halves) = some (0, .ofList halves.tail) :=
    Random.below_of_next?_zero (by decide) (WordTape.next?_ofList_cons _ _)
  have right : Random.below 64 2 (.ofList halves.tail) = some (1, .ofList [0]) := by
    rw [halves, List.tail_cons, Random.below_of_next? (WordTape.next?_ofList_cons _ _),
      if_neg (by decide), Random.below_of_next? (WordTape.next?_ofList_cons _ _),
      if_pos (by decide)]
    rfl
  refine ⟨_, [reported], .ofList halves.tail, .danglingNode 7, rfl, by decide,
    ⟨.cons ?_ (.nil _), by decide⟩, ?_⟩
  · simp [WeightTree.pick, WeightTree.lookup, WeightTree.node?, left, WeightTree.sample,
      WeightTree.descend, WeightTree.step]
  · simp [WeightTree.pick, WeightTree.lookup, WeightTree.node?, right, WeightTree.sample,
      WeightTree.descend, WeightTree.step]

/-- One pick is passed over, the next one meets the fault, and one more word is drawn. -/
theorem select_decidedByPicks_halved :
    halved.select [] [] (.ofList halves) = some (none, .ofList halves) ∧
    [reported, unreported] ≠ [] ∧
    halved.select [reported, unreported] [] (.ofList halves) =
      some (some (.fallback unreported .samplingFault), .ofList []) := by
  have present : [reported, unreported] ≠ [] := by decide
  have decided := (select_decidedByPicks halved [reported, unreported] [] (.ofList halves)).2 present
  exact ⟨(select_decidedByPicks halved [] [] (.ofList halves)).1 rfl, present,
    (decided.fallback _ _ _).mpr ⟨_, defers_halved, chooseFallback?_reported⟩⟩

end Selector

end LatencyBalancer
