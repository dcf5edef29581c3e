import LatencyBalancer.Proofs.Latency.Recent
import LatencyBalancer.Proofs.Numeric.Quotient
import LatencyBalancer.Proofs.Tree.Building

/-!
# The outcome of a build

Whether a tree is built, over which servers and with which weights, follows from what was ever
recorded on the servers.  The share that is compared with the threshold is the quotient of two
rounded counts, rounded again.  No items that are given fail to assemble, however much they weigh,
so a refusal always reports the true number of eligible servers.
-/

namespace LatencyBalancer

universe u

namespace WeightTree

variable {Item : Type u} {items : List (Item × UInt32)} {tree : WeightTree Item}

def slotWeight : Slot → Nat
  | none => 0
  | some (_, weight) => weight.toNat

/-- Pairing a queue to the end leaves a root with the weight of the queue, as a machine word. -/
theorem exists_pairUp {leafCount : Nat} {queue : List Slot} {nodes : Array (Node Item)}
    (nonempty : queue ≠ []) (aligned : Aligned queue)
    (weighs : ∀ slot ∈ queue, Weighs nodes slot) :
    ∃ tree, pairUp leafCount queue nodes = some tree ∧
      tree.totalWeight = UInt64.ofNat (queue.map slotWeight).sum := by
  fun_induction pairUp leafCount queue nodes with
  | case1 => exact absurd rfl nonempty
  | case2 queue nodes inductionHypothesis =>
      cases queue with
      | nil => exact absurd rfl aligned
      | cons second queue => exact absurd rfl aligned.1
  | case3 root weight nodes =>
      obtain ⟨node, present, same⟩ := weighs _ List.mem_cons_self root weight rfl
      refine ⟨_, rfl, ?_⟩
      simp [totalWeight, node?, present, same, slotWeight]
  | case4 left weight queue nodes inductionHypothesis =>
      obtain ⟨_, behind⟩ := List.forall_mem_cons.mp weighs
      obtain ⟨tree, paired, total⟩ := inductionHypothesis (by simp)
        (aligned.2.append_some _) (weighs_join (List.forall_mem_cons.mp behind).2 rfl)
      refine ⟨tree, paired, total.trans ?_⟩
      simp [slotWeight, Nat.add_comm]
  | case5 left weight right other queue nodes inductionHypothesis =>
      obtain ⟨_, behind⟩ := List.forall_mem_cons.mp weighs
      obtain ⟨tree, paired, total⟩ := inductionHypothesis (by simp)
        (aligned.2.append_some _) (weighs_join (List.forall_mem_cons.mp behind).2 rfl)
      refine ⟨tree, paired, total.trans ?_⟩
      simp only [List.map_append, List.map_cons, List.map_nil, List.sum_append, List.sum_cons,
        List.sum_nil, slotWeight, UInt64.ofNat_add, UInt64.ofNat_toNat]
      ac_rfl

theorem sum_slotWeight_leaves (leaves : List (Item × UInt64)) (first : Nat) :
    (((leaves.zipIdx first).map fun ((_, weight), index) => (some (index, weight) : Slot)).map
      slotWeight).sum = (leaves.map fun leaf => leaf.2.toNat).sum := by
  induction leaves generalizing first with
  | nil => rfl
  | cons leaf leaves inductionHypothesis =>
      simp only [List.zipIdx_cons, List.map_cons, List.sum_cons, inductionHypothesis, slotWeight]

theorem exists_assemble (nonempty : items ≠ []) :
    ∃ tree, assemble items = some tree ∧
      tree.totalWeight = UInt64.ofNat (items.map fun item => (raised item.2).toNat).sum := by
  unfold assemble
  refine (exists_pairUp ?_ ?_ ?_).imp fun tree paired => ⟨paired.1, paired.2.trans ?_⟩
  · simp [nonempty]
  · simpa using aligned_padded (items.map fun entry => (entry.1, raised entry.2)).zipIdx
      fun entry => (entry.2, entry.1.2)
  · exact weighs_leaves _ _ (by simp)
  · have weightless :
        ((if items.length % 2 = 1 then [none] else []).map slotWeight).sum = 0 := by
      split <;> rfl
    rw [List.map_append, List.sum_append, sum_slotWeight_leaves, List.length_map, weightless,
      Nat.add_zero, List.map_map]
    rfl

end WeightTree

namespace Config

variable {config : Config} {pool : List History} {tree : WeightTree Server}

/-- The servers that are weighted, by their histories and in the order of the pool. -/
def filled (config : Config) (pool : List History) : List History :=
  pool.filter fun history => history.held = config.windowSize

def recentWeight (config : Config) (history : History) : UInt64 :=
  (Latency.weight (history.latencies.rtake config.windowSize) config.readTimeout).toUInt64

/-- A server with room for more latencies than the configuration asks for outgrows its place. -/
example (server : Server) : filled { windowSize := 2 }
    [⟨server, 3, [10]⟩, ⟨server, 3, [10, 20]⟩, ⟨server, 3, [10, 20, 30]⟩] =
      [⟨server, 3, [10, 20]⟩] := rfl

theorem eligible_members :
    config.eligible (pool.map History.member) = (config.filled pool).map History.member := by
  rw [eligible, filled, List.filter_map]
  congr 1
  apply List.filter_congr
  intro history _
  simp [Eligible, History.size_window_member]

theorem weighed_member {history : History} (full : history ∈ config.filled pool) :
    config.weighed history.member =
      (history.server, Latency.weight (history.latencies.rtake config.windowSize)
        config.readTimeout) := by
  have held : history.held = config.windowSize := of_decide_eq_true (List.mem_filter.mp full).2
  rw [weighed, History.samples_window_member, held, History.server_member]

theorem raised_weight (samples : List UInt32) (readTimeout : UInt32) :
    WeightTree.raised (Latency.weight samples readTimeout) =
      (Latency.weight samples readTimeout).toUInt64 := by
  apply UInt64.toNat_inj.mp
  rw [WeightTree.toNat_raised, UInt32.toNat_toUInt64]
  exact max_eq_left (Latency.toNat_weight_mem samples readTimeout).1

structure AccountsFor (config : Config) (pool : List History) (tree : WeightTree Server) :
    Prop where
  leaves : tree.leaves =
    (config.filled pool).map fun history => (history.server, config.recentWeight history)
  leafCount : tree.leafCount = (config.filled pool).length
  /-- Machine words count modulo their size, which the sum does not reach. -/
  totalWeight : tree.totalWeight = UInt64.ofNat
    ((config.filled pool).map fun history => (config.recentWeight history).toNat).sum
  toNat_totalWeight : Weighable (config.filled pool).length → tree.totalWeight.toNat =
    ((config.filled pool).map fun history => (config.recentWeight history).toNat).sum
  faultless : tree.fault? = none

theorem weighed_filled : ((config.filled pool).map History.member).map config.weighed =
    (config.filled pool).map fun history => (history.server,
      Latency.weight (history.latencies.rtake config.windowSize) config.readTimeout) := by
  rw [List.map_map]
  exact List.map_congr_left fun history full => weighed_member full

theorem sum_recentWeight_lt (weighable : Weighable (config.filled pool).length) :
    ((config.filled pool).map fun history => (config.recentWeight history).toNat).sum <
      UInt64.size := by
  refine lt_of_le_of_lt ?_ weighable
  have small : ∀ weight ∈ (config.filled pool).map
      fun history => (config.recentWeight history).toNat, weight ≤ Latency.maxWeight.toNat := by
    intro weight listed
    obtain ⟨history, _, rfl⟩ := List.mem_map.mp listed
    rw [recentWeight, UInt32.toNat_toUInt64]
    exact (Latency.toNat_weight_mem _ _).2
  simpa using List.sum_le_card_nsmul _ _ small

theorem exists_accountsFor (nonempty : config.filled pool ≠ []) :
    ∃ tree, WeightTree.assemble
        ((config.eligible (pool.map History.member)).map config.weighed) = some tree ∧
      config.AccountsFor pool tree := by
  rw [eligible_members, weighed_filled]
  obtain ⟨tree, assembled, total⟩ :=
    WeightTree.exists_assemble (mt List.map_eq_nil_iff.mp nonempty)
  refine ⟨tree, assembled, ?_⟩
  have leaves := WeightTree.leaves_assemble assembled
  have leafCount := WeightTree.leafCount_assemble assembled
  simp only [List.map_map, Function.comp_def, raised_weight] at leaves total
  rw [List.length_map] at leafCount
  refine ⟨leaves, leafCount, total, ?_, WeightTree.fault?_assemble assembled⟩
  intro weighable
  rw [total]
  exact UInt64.toNat_ofNat_of_lt (sum_recentWeight_lt weighable)

/-- The share of the servers that are weighted, as it is compared with the threshold. -/
def filledShare (config : Config) (pool : List History) : Single :=
  Floating.share Format.single (config.filled pool).length pool.length

theorem roundedQuotient_filledShare (present : pool ≠ []) (countable : pool.length < UInt64.size) :
    Floating.RoundedQuotient (config.filled pool).length pool.length (config.filledShare pool) :=
  Floating.roundedQuotient_share Format.spans_single (List.length_pos_iff.mpr present)
    (List.length_filter_le _ _) (Nat.le_of_lt countable)

/-- What comes of building from a pool: the counts when no server is weighted, or too few by their
number or by their share, and else the tree of those that are. -/
structure BuildsFrom (config : Config) (pool : List History) : Prop where
  /-- The length of a list is a machine word, which 32 bits hold rounded only. -/
  rounded : pool ≠ [] → pool.length < UInt64.size →
    Floating.RoundedQuotient (config.filled pool).length pool.length (config.filledShare pool)
  /-- The pattern is that of infinity, which stands for a number beyond all finite values. -/
  compared : config.minRatio.magnitude ≤ 0x7F800000 →
    (config.filledShare pool < config.minRatio ↔
      (config.filledShare pool).toRat < config.minRatio.toRat)
  /-- Patterns beyond that one are no numbers. -/
  incomparable : 0x7F800000 < config.minRatio.magnitude →
    ¬ config.filledShare pool < config.minRatio
  refused : (config.filled pool).length = 0 ∨ (config.filled pool).length < config.minEligible ∨
      config.filledShare pool < config.minRatio →
    config.build (pool.map History.member) =
      .insufficient (config.filled pool).length pool.length
  accepted : (config.filled pool).length ≠ 0 → config.minEligible ≤ (config.filled pool).length →
    ¬ config.filledShare pool < config.minRatio →
    ∃ tree, config.build (pool.map History.member) = .built tree ∧ config.AccountsFor pool tree

theorem buildsFrom (config : Config) (pool : List History) : config.BuildsFrom pool := by
  have count : (config.eligible (pool.map History.member)).length =
      (config.filled pool).length := by
    rw [eligible_members, List.length_map]
  refine ⟨roundedQuotient_filledShare, ?_, ?_, ?_, ?_⟩
  · intro number
    exact Floating.lt_iff_toRat_lt (Floating.isNumber_share _ _) number
  · intro beyond
    exact Floating.not_lt_of_not_isNumber (Nat.not_le.mpr beyond)
  · intro few
    rw [build_of_tooFew (by rwa [count, List.length_map]), count, List.length_map]
  · intro present numerous reached
    obtain ⟨tree, assembled, accounts⟩ :=
      exists_accountsFor (mt List.length_eq_zero_iff.mpr present)
    have enough : ¬ config.TooFew (config.filled pool).length pool.length := by
      rintro (none | short | below)
      · exact present none
      · exact absurd numerous (Nat.not_le.mpr short)
      · exact reached below
    refine ⟨tree, ?_, accounts⟩
    simp only [build, count, List.length_map, if_neg enough, assembled]

end Config

end LatencyBalancer
