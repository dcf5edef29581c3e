import LatencyBalancer.Proofs.Random.Zone
import LatencyBalancer.Proofs.Tree.Sampling
import LatencyBalancer.Tree.Pick
import LatencyBalancer.Server

/-!
# Picks in proportion to the weights

A word that is accepted becomes a draw below the total weight, and the draw has one owner.  Every
draw has equally many accepted words and every leaf owns as many draws as it weighs, so the
accepted words are split among the servers in the ratio of their weights.
-/

namespace LatencyBalancer

namespace WeightTree

universe u

variable {Item : Type u} {tree : WeightTree Item} {shares : Shares Item}

theorem sample_ofNat {draw : Nat} {item : Item} (covered : Covers tree.nodes tree.root shares)
    (owner : shares.scan draw = some item) : tree.sample (UInt64.ofNat draw) = .ok item := by
  have inside := Shares.lt_total_of_scan owner
  rw [← totalWeight_of_covers covered] at inside
  apply sample_of_covers covered
  rw [UInt64.toNat_ofNat_of_lt' (lt_trans inside tree.totalWeight.toNat_lt)]
  exact owner

theorem pick_of_covers (covered : Covers tree.nodes tree.root shares) (positive : 0 < shares.total)
    (tape : WordTape) :
    tree.pick tape = (Random.below 64 shares.total tape).map fun (draw, rest) =>
      (tree.sample (UInt64.ofNat draw), rest) := by
  obtain ⟨node, present, weighs⟩ := covered.exists_node
  have found : tree.lookup tree.root = .ok node := lookup_eq_ok_iff.mpr present
  have heavy : node.weight ≠ 0 := by
    intro zero
    rw [zero] at weighs
    exact positive.ne weighs
  simp only [pick, found, heavy, if_false, weighs]

theorem pick_of_below {draw : Nat} {tape rest : WordTape}
    (covered : Covers tree.nodes tree.root shares)
    (drawn : Random.below 64 shares.total tape = some (draw, rest)) (inside : draw < shares.total) :
    ∃ item, shares.scan draw = some item ∧ tree.pick tape = some (.ok item, rest) := by
  obtain ⟨item, owner⟩ := Shares.exists_scan inside
  refine ⟨item, owner, ?_⟩
  simp only [pick_of_covers covered (Nat.zero_lt_of_lt inside), drawn, Option.map_some,
    sample_ofNat covered owner]

theorem pick_ne_error (covered : Covers tree.nodes tree.root shares)
    (positive : 0 < shares.total) (tape rest : WordTape) (error : TreeError) :
    tree.pick tape ≠ some (.error error, rest) := by
  cases drawn : Random.below 64 shares.total tape with
  | none => simp [pick_of_covers covered positive, drawn]
  | some read =>
      obtain ⟨item, _, picked⟩ :=
        pick_of_below covered drawn (Random.below_lt positive drawn)
      simp [picked]

/-- The next word decides: an accepted one is the draw, a refused one is skipped. -/
theorem pick_unread (covered : Covers tree.nodes tree.root shares) (positive : 0 < shares.total)
    (tape : WordTape) (word : UInt64) :
    tree.pick (tape.unread word) =
      if Random.Accepts 64 shares.total word.toNat then
        some (tree.sample (UInt64.ofNat (Random.scaled 64 shares.total word.toNat)), tape)
      else tree.pick tape := by
  rw [pick_of_covers covered positive, pick_of_covers covered positive,
    Random.below_unread word.toNat_lt]
  split <;> rfl

theorem exists_pick_unread (covered : Covers tree.nodes tree.root shares)
    (positive : 0 < shares.total) (tape : WordTape) {word : UInt64}
    (accepted : Random.Accepts 64 shares.total word.toNat) :
    ∃ item, shares.scan (Random.scaled 64 shares.total word.toNat) = some item ∧
      tree.pick (tape.unread word) = some (.ok item, tape) := by
  have small : word.toNat < powerOfTwo 64 := word.toNat_lt
  obtain ⟨item, owner⟩ := Shares.exists_scan (Random.scaled_lt small positive)
  refine ⟨item, owner, ?_⟩
  rw [pick_unread covered positive, if_pos accepted, sample_ofNat covered owner]

/-- The words that are accepted where they stand and lead to an item with a property. -/
def hits (tree : WeightTree Item) (property : Item → Bool) (tape : WordTape) : Set UInt64 :=
  {word | word.toNat * tree.totalWeight.toNat % 2 ^ 64 ≤ Random.zone 64 tree.totalWeight.toNat ∧
    ∃ item, tree.pick (tape.unread word) = some (.ok item, tape) ∧ property item = true}

theorem ncard_hits (covered : Covers tree.nodes tree.root shares) (positive : 0 < shares.total)
    (property : Item → Bool) (tape : WordTape) :
    (tree.hits property tape).ncard =
      shares.portion property * 2 ^ Random.leadingZeros 64 shares.total := by
  have total := totalWeight_of_covers covered
  have fits : shares.total < powerOfTwo 64 := by
    rw [← total]
    exact tree.totalWeight.toNat_lt
  have read : tree.hits property tape =
      {word | (decide (Random.Accepts 64 shares.total word.toNat) &&
        (shares.scan (Random.scaled 64 shares.total word.toNat)).any property) = true} := by
    ext word
    simp only [hits, total, Set.mem_ofPred_eq, Bool.and_eq_true, decide_eq_true_eq,
      ← Random.accepts_iff positive]
    apply and_congr_right
    intro accepted
    obtain ⟨item, owner, picked⟩ := exists_pick_unread covered positive tape accepted
    rw [owner, picked]
    simp
  have counted := Random.card_accepts_filter fits fun draw => (shares.scan draw).any property
  rw [Shares.card_scan, powerOfTwo_eq (Random.leadingZeros 64 shares.total)] at counted
  rw [read, ← counted, Random.ncard_words fun value =>
    decide (Random.Accepts 64 shares.total value) &&
      (shares.scan (Random.scaled 64 shares.total value)).any property]
  apply congrArg Finset.card
  apply Finset.filter_congr
  intro word _
  rw [Bool.and_eq_true, decide_eq_true_eq]

/-! ### Servers -/

def weightOf (shares : Shares Server) (id : ServerId) : Nat :=
  shares.portion fun server => server.id == id

/-- The words that are accepted where they stand and make the pick this server. -/
def wins (tree : WeightTree Server) (id : ServerId) (tape : WordTape) : Set UInt64 :=
  tree.hits (fun server => server.id == id) tape

/-- The next word decides a pick, and the words that decide it are split by weight. -/
structure Proportional (tree : WeightTree Server) (shares : Shares Server) : Prop where
  totalWeight : tree.totalWeight.toNat = shares.total
  accepted : ∀ (tape : WordTape) (word : UInt64),
    word.toNat * shares.total % 2 ^ 64 ≤ Random.zone 64 shares.total →
    ∃ server, tree.sample (UInt64.ofNat (word.toNat * shares.total / 2 ^ 64)) = .ok server ∧
      tree.pick (tape.unread word) = some (.ok server, tape)
  refused : ∀ (tape : WordTape) (word : UInt64),
    Random.zone 64 shares.total < word.toNat * shares.total % 2 ^ 64 →
    tree.pick (tape.unread word) = tree.pick tape
  counted : ∀ (tape : WordTape) (id : ServerId),
    (tree.wins id tape).ncard = weightOf shares id * 2 ^ Random.leadingZeros 64 shares.total
  ratio : ∀ (tape : WordTape) (first second : ServerId),
    (tree.wins first tape).ncard * weightOf shares second =
      (tree.wins second tape).ncard * weightOf shares first
  faultless : ∀ (tape rest : WordTape) (error : TreeError),
    tree.pick tape ≠ some (.error error, rest)

theorem proportional_of_covers {tree : WeightTree Server} {shares : Shares Server}
    (covered : Covers tree.nodes tree.root shares) (positive : 0 < shares.total) :
    tree.Proportional shares := by
  have counted : ∀ (tape : WordTape) (id : ServerId), (tree.wins id tape).ncard =
      weightOf shares id * 2 ^ Random.leadingZeros 64 shares.total := by
    intro tape id
    exact ncard_hits covered positive _ tape
  refine ⟨totalWeight_of_covers covered, ?_, ?_, counted, ?_, ?_⟩
  · intro tape word inZone
    obtain ⟨server, owner, picked⟩ :=
      exists_pick_unread covered positive tape ((Random.accepts_iff positive).mpr inZone)
    rw [Random.scaled, powerOfTwo_eq] at owner
    exact ⟨server, sample_ofNat covered owner, picked⟩
  · intro tape word beyond
    rw [pick_unread covered positive, if_neg]
    rw [Random.accepts_iff positive]
    exact Nat.not_le.mpr beyond
  · intro tape first second
    rw [counted, counted]
    ac_rfl
  · intro tape rest error
    exact pick_ne_error covered positive tape rest error

theorem Proportional.perm {tree : WeightTree Server} {first second : Shares Server}
    (proportional : tree.Proportional first) (same : first.Perm second) :
    tree.Proportional second := by
  have total : second.total = first.total := (Shares.total_perm same).symm
  have weights : ∀ id, weightOf second id = weightOf first id := by
    intro id
    exact (Shares.portion_perm _ same).symm
  refine ⟨?_, ?_, ?_, ?_, ?_, proportional.faultless⟩
  · rw [total]
    exact proportional.totalWeight
  · rw [total]
    exact proportional.accepted
  · rw [total]
    exact proportional.refused
  · simpa only [total, weights] using proportional.counted
  · simpa only [weights] using proportional.ratio

/-- A pick from an assembled tree is exactly proportional to the weights, as far as these add up
to a word. -/
theorem exists_proportional {items : List (Server × UInt32)} (nonempty : items ≠ [])
    (fits : Shares.total (items.map shareOf) < UInt64.size) :
    ∃ tree, assemble items = some tree ∧ tree.Proportional (items.map shareOf) := by
  obtain ⟨tree, assembled, covered⟩ := assemble_covers nonempty fits
  have positive : 0 < Shares.total (leafOrder items) := by
    rw [Shares.total_perm (leafOrder_perm items)]
    exact total_shareOf_pos nonempty
  exact ⟨tree, assembled, (proportional_of_covers covered positive).perm (leafOrder_perm items)⟩

/-- Three servers, of which the first is listed twice and the second has no weight. -/
def listedTwice : List (Server × UInt32) :=
  [(⟨⟨0⟩, ⟨"10.0.0.1", 8000⟩⟩, 5), (⟨⟨1⟩, ⟨"10.0.0.1", 8001⟩⟩, 0),
    (⟨⟨0⟩, ⟨"10.0.0.1", 8000⟩⟩, 1), (⟨⟨2⟩, ⟨"10.0.0.1", 8002⟩⟩, 4)]

theorem exists_proportional_listedTwice :
    ∃ tree, assemble listedTwice = some tree ∧
      (∀ tape, (tree.wins ⟨0⟩ tape).ncard = 6 * 2 ^ 60) ∧
      (∀ tape, (tree.wins ⟨1⟩ tape).ncard = 1 * 2 ^ 60) ∧
      ∀ tape, (tree.wins ⟨2⟩ tape).ncard = 4 * 2 ^ 60 := by
  have nonempty : listedTwice ≠ [] := by decide
  have fits : Shares.total (listedTwice.map shareOf) < UInt64.size :=
    total_shareOf_lt (by decide)
  obtain ⟨tree, assembled, proportional⟩ := exists_proportional nonempty fits
  refine ⟨tree, assembled, ?_, ?_, ?_⟩
  · exact fun tape => proportional.counted tape ⟨0⟩
  · exact fun tape => proportional.counted tape ⟨1⟩
  · exact fun tape => proportional.counted tape ⟨2⟩

end WeightTree

end LatencyBalancer
