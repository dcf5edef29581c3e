import LatencyBalancer.Proofs.Random.Draws
import LatencyBalancer.Selection.Selector

/-!
# What a selection may return

Both ways to a server keep to one order of preference: servers that were neither tried nor
reported, then servers that were not tried, then any candidate.  A pick counts only when it is of
the first kind, and the fallback draws from the best kind that there is.  Nothing is asked of the
tree for this; one that cannot be read leads to the fallback.
-/

namespace LatencyBalancer

universe u

namespace WeightTree

variable {Item : Type u} {tree : WeightTree Item}

theorem mem_leaves_of_getElem? {index : Nat} {weight : UInt64} {item : Item}
    (present : tree.nodes[index]? = some (.leaf weight item)) : (item, weight) ∈ tree.leaves := by
  have member : Node.leaf weight item ∈ tree.nodes.toList :=
    Array.mem_toList_iff.mpr (Array.mem_of_getElem? present)
  exact List.mem_filterMap.mpr ⟨_, member, rfl⟩

theorem mem_leaves_of_step {node : Nat} {position : UInt64} {item : Item}
    (stepped : tree.step node position = .ok (.arrived item)) :
    ∃ weight, (item, weight) ∈ tree.leaves := by
  unfold step at stepped
  split at stepped
  next => contradiction
  next weight leafItem found =>
    obtain rfl : leafItem = item := by simpa using stepped
    exact ⟨weight, mem_leaves_of_getElem? (lookup_eq_ok_iff.mp found)⟩
  next => simp at stepped
  next =>
    split at stepped
    next => contradiction
    next =>
      split at stepped
      next => simp at stepped
      next => simp at stepped

theorem mem_leaves_of_descend {visits node : Nat} {position : UInt64} {item : Item}
    (reached : tree.descend visits node position = .ok item) :
    ∃ weight, (item, weight) ∈ tree.leaves := by
  induction visits generalizing node position with
  | zero => contradiction
  | succ visits inductionHypothesis =>
      unfold descend at reached
      split at reached
      next => contradiction
      next stopped stepped =>
        obtain rfl : stopped = item := by simpa using reached
        exact mem_leaves_of_step stepped
      next => exact inductionHypothesis reached

theorem mem_leaves_of_sample {draw : UInt64} {item : Item}
    (sampled : tree.sample draw = .ok item) : ∃ weight, (item, weight) ∈ tree.leaves := by
  unfold sample at sampled
  split at sampled
  next => contradiction
  next =>
    split at sampled
    next => contradiction
    next => exact mem_leaves_of_descend sampled

theorem mem_leaves_of_pick {tape rest : WordTape} {item : Item}
    (picked : tree.pick tape = some (.ok item, rest)) :
    ∃ weight, (item, weight) ∈ tree.leaves := by
  unfold pick at picked
  split at picked
  next => simp at picked
  next =>
    split at picked
    next => simp at picked
    next =>
      obtain ⟨⟨draw, later⟩, _, same⟩ := Option.map_eq_some_iff.mp picked
      exact mem_leaves_of_sample (congrArg Prod.fst same)

theorem exists_pick (tree : WeightTree Item) {draws : Nat} {tape : WordTape}
    (serves : tape.Serves (draws + 1)) :
    ∃ outcome rest, tree.pick tape = some (outcome, rest) ∧ rest.Serves draws := by
  unfold pick
  split
  next error _ => exact ⟨.error error, tape, rfl, serves.least (Nat.le_succ draws)⟩
  next root _ =>
    split
    next => exact ⟨_, tape, rfl, serves.least (Nat.le_succ draws)⟩
    next heavy =>
      have positive : 0 < root.weight.toNat := by
        apply Nat.pos_of_ne_zero
        intro zero
        exact heavy (UInt64.toNat_inj.mp zero)
      obtain ⟨draw, rest, drawn, later⟩ := serves 64 root.weight.toNat positive
      exact ⟨tree.sample (UInt64.ofNat draw), rest, by rw [drawn]; rfl, later⟩

end WeightTree

namespace Selection

variable {tried : List ServerId} {reports : Reports} {candidates : List Server}

/-- A server that may be chosen: a candidate by its id, and of the best tier that has a member. -/
structure BestTier (tried : List ServerId) (reports : Reports) (candidates : List Server)
    (server : Server) : Prop where
  listed : server.id ∈ candidates.map Server.id
  fresh : (∃ candidate ∈ candidates, candidate.id ∉ tried ∧ candidate.id ∉ reports) →
    server.id ∉ tried ∧ server.id ∉ reports
  untried : (∃ candidate ∈ candidates, candidate.id ∉ tried) → server.id ∉ tried

theorem bestTier_of_mem_preferred {server : Server}
    (member : server ∈ preferred tried reports candidates) :
    BestTier tried reports candidates server := by
  unfold preferred at member
  split at member
  next =>
    obtain ⟨listed, unspent, unreported⟩ := mem_fresh.mp member
    exact ⟨List.mem_map_of_mem listed, fun _ => ⟨unspent, unreported⟩, fun _ => unspent⟩
  next stale =>
    have noFresh : fresh tried reports candidates = [] := Decidable.not_not.mp stale
    split at member
    next =>
      obtain ⟨listed, unspent⟩ := mem_untried.mp member
      refine ⟨List.mem_map_of_mem listed, ?_, fun _ => unspent⟩
      rintro ⟨candidate, present, free⟩
      have found := mem_fresh.mpr ⟨present, free⟩
      rw [noFresh] at found
      contradiction
    next spent =>
      have noUntried : untried tried candidates = [] := Decidable.not_not.mp spent
      refine ⟨List.mem_map_of_mem member, ?_, ?_⟩
      · rintro ⟨candidate, present, free⟩
        have found := mem_fresh.mpr ⟨present, free⟩
        rw [noFresh] at found
        contradiction
      · rintro ⟨candidate, present, free⟩
        have found := mem_untried.mpr ⟨present, free⟩
        rw [noUntried] at found
        contradiction

theorem chooseFallback?_eq_some {chosen : Option Server} {tape rest : WordTape}
    (drawn : chooseFallback? tried reports candidates tape = some (chosen, rest)) :
    (chosen = none ↔ candidates = []) ∧
      ∀ server, chosen = some server → BestTier tried reports candidates server := by
  obtain ⟨absent, present⟩ := Random.choose?_eq_some drawn
  rw [preferred_eq_nil_iff] at absent
  exact ⟨absent, fun server same => bestTier_of_mem_preferred (present server same)⟩

theorem exists_chooseFallback? (tried : List ServerId) (reports : Reports)
    (candidates : List Server) {tape : WordTape} (serves : tape.Serves 1) :
    ∃ chosen rest, chooseFallback? tried reports candidates tape = some (chosen, rest) := by
  obtain ⟨chosen, rest, drawn, _⟩ := Random.exists_choose? (preferred tried reports candidates) serves
  exact ⟨chosen, rest, drawn⟩

end Selection

namespace Selector

variable {selector : Selector} {candidates : List Server} {tried : List ServerId}

theorem bestTier_of_acceptable {server : Server}
    (acceptable : selector.Acceptable candidates tried server) :
    Selection.BestTier tried selector.reports candidates server :=
  ⟨acceptable.2.2, fun _ => ⟨acceptable.1, acceptable.2.1⟩, fun _ => acceptable.1⟩

theorem pickAcceptable_ok {tree : WeightTree Server} {acceptable : Server → Bool} {attempts : Nat}
    {tape rest : WordTape} {server : Server}
    (picked : pickAcceptable tree acceptable attempts tape = some (.ok server, rest)) :
    acceptable server = true ∧ ∃ weight, (server, weight) ∈ tree.leaves := by
  induction attempts generalizing tape with
  | zero => simp [pickAcceptable] at picked
  | succ attempts inductionHypothesis =>
      unfold pickAcceptable at picked
      split at picked
      next => contradiction
      next => simp at picked
      next found later pickedOnce =>
        split at picked
        next accepted =>
          obtain rfl : found = server := by simpa using congrArg (Option.map Prod.fst) picked
          exact ⟨accepted, WeightTree.mem_leaves_of_pick pickedOnce⟩
        next => exact inductionHypothesis picked

theorem exists_pickAcceptable (tree : WeightTree Server) (acceptable : Server → Bool)
    {attempts draws : Nat} {tape : WordTape} (serves : tape.Serves (draws + attempts)) :
    ∃ outcome rest, pickAcceptable tree acceptable attempts tape = some (outcome, rest) ∧
      rest.Serves draws := by
  induction attempts generalizing tape with
  | zero => exact ⟨_, tape, rfl, serves⟩
  | succ attempts inductionHypothesis =>
      obtain ⟨outcome, rest, picked, later⟩ := tree.exists_pick serves
      unfold pickAcceptable
      rw [picked]
      cases outcome with
      | error error => exact ⟨_, rest, rfl, later.least (Nat.le_add_right draws attempts)⟩
      | ok server =>
          by_cases accepted : acceptable server = true
          · exact ⟨.ok server, rest, by simp [accepted], later.least (Nat.le_add_right draws attempts)⟩
          · simpa [accepted] using inductionHypothesis later

theorem weightedPick_ok {tape rest : WordTape} {server : Server}
    (picked : selector.weightedPick candidates tried tape = some (.ok server, rest)) :
    selector.Acceptable candidates tried server ∧
      ∃ tree weight, selector.tree = some tree ∧ (server, weight) ∈ tree.leaves := by
  unfold weightedPick at picked
  split at picked
  next => simp at picked
  next tree published =>
    obtain ⟨acceptable, weight, member⟩ := pickAcceptable_ok picked
    exact ⟨of_decide_eq_true acceptable, tree, weight, published, member⟩

theorem exists_weightedPick (selector : Selector) (candidates : List Server)
    (tried : List ServerId) {tape : WordTape}
    (serves : tape.Serves (max selector.attempts 1 + 1)) :
    ∃ outcome rest, selector.weightedPick candidates tried tape = some (outcome, rest) ∧
      rest.Serves 1 := by
  unfold weightedPick
  split
  next => exact ⟨_, tape, rfl, serves.least (Nat.le_add_left 1 _)⟩
  next tree _ =>
    rw [Nat.add_comm] at serves
    exact exists_pickAcceptable tree _ serves

theorem select_eq_some {tape rest : WordTape} {outcome : Option Selection}
    (selected : selector.select candidates tried tape = some (outcome, rest)) :
    (candidates = [] ∧ outcome = none ∧ rest = tape) ∨
      (∃ server, candidates ≠ [] ∧
        selector.weightedPick candidates tried tape = some (.ok server, rest) ∧
        outcome = some (.weighted server)) ∨
      ∃ reason between chosen, candidates ≠ [] ∧
        selector.weightedPick candidates tried tape = some (.error reason, between) ∧
        Selection.chooseFallback? tried selector.reports candidates between = some (chosen, rest) ∧
        outcome = chosen.map (.fallback · reason) := by
  unfold select at selected
  split at selected
  next empty =>
    obtain ⟨rfl, rfl⟩ := Prod.mk.inj (Option.some.inj selected)
    exact .inl ⟨List.isEmpty_iff.mp empty, rfl, rfl⟩
  next nonempty =>
    have present : candidates ≠ [] := by simpa using nonempty
    split at selected
    next => contradiction
    next server later picked =>
      obtain ⟨rfl, rfl⟩ := Prod.mk.inj (Option.some.inj selected)
      exact .inr (.inl ⟨server, present, picked, rfl⟩)
    next reason between picked =>
      obtain ⟨⟨chosen, later⟩, drawn, same⟩ := Option.map_eq_some_iff.mp selected
      obtain ⟨rfl, rfl⟩ := Prod.mk.inj same
      exact .inr (.inr ⟨reason, between, chosen, present, picked, drawn, rfl⟩)

theorem exists_select {tape : WordTape} (serves : tape.Serves (max selector.attempts 1 + 1)) :
    ∃ outcome rest, selector.select candidates tried tape = some (outcome, rest) := by
  obtain ⟨outcome, between, picked, later⟩ :=
    selector.exists_weightedPick candidates tried serves
  unfold select
  rw [picked]
  by_cases empty : candidates.isEmpty = true
  · exact ⟨none, tape, if_pos empty⟩
  · rw [if_neg empty]
    cases outcome with
    | ok server => exact ⟨_, between, rfl⟩
    | error reason =>
        obtain ⟨chosen, rest, drawn⟩ :=
          Selection.exists_chooseFallback? tried selector.reports candidates later
        refine ⟨chosen.map (.fallback · reason), rest, ?_⟩
        simp only [drawn, Option.map_some]

/-- A selection returns whenever its draws do.  It finds a server exactly when there are
candidates, and that server is of the best tier; one from the weights is besides a leaf of the
published tree that may be used. -/
theorem select_bestTier (selector : Selector) (candidates : List Server) (tried : List ServerId)
    (tape : WordTape) :
    (tape.Serves (max selector.attempts 1 + 1) →
      ∃ outcome rest, selector.select candidates tried tape = some (outcome, rest)) ∧
    ∀ outcome rest, selector.select candidates tried tape = some (outcome, rest) →
      (outcome = none ↔ candidates = []) ∧
      ∀ selection, outcome = some selection →
        Selection.BestTier tried selector.reports candidates selection.server ∧
        ∀ server, selection = .weighted server →
          server.id ∈ candidates.map Server.id ∧ server.id ∉ tried ∧ server.id ∉ selector.reports ∧
          ∃ tree weight, selector.tree = some tree ∧ (server, weight) ∈ tree.leaves := by
  refine ⟨exists_select, ?_⟩
  intro outcome rest selected
  rcases select_eq_some selected with
    ⟨none, rfl, _⟩ | ⟨server, present, picked, rfl⟩ | ⟨reason, between, chosen, present, _, drawn, rfl⟩
  · exact ⟨iff_of_true rfl none, by simp⟩
  · refine ⟨iff_of_false (by simp) present, ?_⟩
    rintro _ ⟨rfl⟩
    obtain ⟨acceptable, leaf⟩ := weightedPick_ok picked
    refine ⟨bestTier_of_acceptable acceptable, ?_⟩
    rintro _ ⟨rfl⟩
    exact ⟨acceptable.2.2, acceptable.1, acceptable.2.1, leaf⟩
  · obtain ⟨absent, best⟩ := Selection.chooseFallback?_eq_some drawn
    refine ⟨by rw [Option.map_eq_none_iff, absent], ?_⟩
    intro selection same
    obtain ⟨server, found, rfl⟩ := Option.map_eq_some_iff.mp same
    exact ⟨best server found, by simp⟩

def reported : Server := ⟨⟨0⟩, ⟨"10.0.0.1", 8000⟩⟩

def unreported : Server := ⟨⟨1⟩, ⟨"10.0.0.1", 8001⟩⟩

/-- A tree in which the reported server owns nearly all the draws. -/
def dominated : Selector where
  tree := some ⟨#[.leaf 97 reported, .leaf 1 unreported, .branch 98 0 (some 1)], 2, 2⟩
  reports := ⟨[reported.id]⟩
  attempts := 0

theorem chooseFallback?_reported :
    Selection.chooseFallback? [] ⟨[reported.id]⟩ [reported, unreported] (.ofList [0]) =
      some (some unreported, .ofList []) := by
  have first : Random.below (Random.indexWidth 1) 1 (.ofList [0]) = some (0, .ofList []) :=
    Random.below_of_next?_zero (by decide) (WordTape.next?_ofList_cons _ _)
  have preferred : Selection.preferred [] ⟨[reported.id]⟩ [reported, unreported] =
      [unreported] := rfl
  simp [Selection.chooseFallback?, preferred, Random.choose?, first]

/-- The only pick hits the reported server, and the fallback avoids it. -/
theorem select_dominated :
    dominated.select [reported, unreported] [] (.ofList [0, 0]) =
      some (some (.fallback unreported .retriesExhausted), .ofList []) := by
  have first : Random.below 64 98 (.ofList [0, 0]) = some (0, .ofList [0]) :=
    Random.below_of_next?_zero (by decide) (WordTape.next?_ofList_cons _ _)
  have picked : dominated.weightedPick [reported, unreported] [] (.ofList [0, 0]) =
      some (.error .retriesExhausted, .ofList [0]) := by
    simp [weightedPick, dominated, pickAcceptable, WeightTree.pick, WeightTree.lookup,
      WeightTree.node?, first, WeightTree.sample, WeightTree.descend, WeightTree.step, Acceptable,
      Reports.mem_iff]
  have drawn : Selection.chooseFallback? [] dominated.reports [reported, unreported]
      (.ofList [0]) = some (some unreported, .ofList []) := chooseFallback?_reported
  simp [select, picked, drawn]

theorem select_bestTier_dominated :
    (WordTape.ofList [0, 0]).Serves (max dominated.attempts 1 + 1) ∧
    (∃ outcome rest,
      dominated.select [reported, unreported] [] (.ofList [0, 0]) = some (outcome, rest)) ∧
    dominated.select [reported, unreported] [] (.ofList [0, 0]) =
      some (some (.fallback unreported .retriesExhausted), .ofList []) ∧
    Selection.BestTier [] dominated.reports [reported, unreported] unreported := by
  have served : (WordTape.ofList [0, 0]).Serves (max dominated.attempts 1 + 1) :=
    Random.serves_zeros 2
  obtain ⟨returns, correct⟩ :=
    select_bestTier dominated [reported, unreported] [] (.ofList [0, 0])
  exact ⟨served, returns served, select_dominated, ((correct _ _ select_dominated).2 _ rfl).1⟩

end Selector

end LatencyBalancer
