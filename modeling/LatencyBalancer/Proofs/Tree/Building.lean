import LatencyBalancer.Proofs.Latency.Range
import LatencyBalancer.Proofs.Tree.Checking
import LatencyBalancer.Proofs.Tree.Sampling
import LatencyBalancer.Tree.Build

/-!
# Built trees

A tree is built over at least as many servers as the configuration asks for, each with a weight
from one to a hundred.  It passes its check, and every draw below its total weight has an owner.
-/

namespace LatencyBalancer

universe u

namespace WeightTree

variable {Item : Type u} {tree : WeightTree Item} {items : List (Item × UInt32)}

theorem leafCount_assemble (assembled : assemble items = some tree) :
    tree.leafCount = items.length := by
  have counted := (leaves_pairUp assembled).2
  rwa [List.length_map] at counted

theorem length_leaves_assemble (assembled : assemble items = some tree) :
    tree.leaves.length = items.length := by
  have counted := congrArg List.length (shares_assemble assembled)
  rwa [shares, List.length_map, List.length_map] at counted

end WeightTree

namespace Config

variable {config : Config} {members : List Member} {tree : WeightTree Server}

/-- So many servers that their weights add up within a word, whatever these are.  The nodes of a
tree over more servers would not fit into one block of the memory that a word can address. -/
def Weighable (count : Nat) : Prop :=
  count * Latency.maxWeight.toNat < UInt64.size

instance (count : Nat) : Decidable (Weighable count) :=
  inferInstanceAs (Decidable (_ < _))

theorem Weighable.least {count fewer : Nat} (weighable : Weighable count)
    (ordered : fewer ≤ count) : Weighable fewer :=
  lt_of_le_of_lt (Nat.mul_le_mul_right _ ordered) weighable

theorem build_eq_built (built : config.build members = .built tree) :
    ¬ config.TooFew (config.eligible members).length members.length ∧
      WeightTree.assemble ((config.eligible members).map config.weighed) = some tree := by
  unfold build at built
  simp only at built
  split at built
  next => contradiction
  next enough =>
    split at built
    next found assembled =>
      obtain rfl := Build.built.inj built
      exact ⟨enough, assembled⟩
    next => contradiction

/-- The weights of servers are in their range, so being raised leaves them as they are. -/
theorem shareOf_weighed_mem {share : Server × Nat}
    (listed : share ∈ (members.map config.weighed).map WeightTree.shareOf) :
    1 ≤ share.2 ∧ share.2 ≤ 100 := by
  simp only [List.map_map, List.mem_map] at listed
  obtain ⟨member, _, rfl⟩ := listed
  obtain ⟨_, above⟩ := Latency.toNat_weight_mem member.window.samples config.readTimeout
  exact ⟨le_max_right _ _, max_le above (by decide)⟩

theorem total_shareOf_weighed_lt (weighable : Weighable members.length) :
    Shares.total ((members.map config.weighed).map WeightTree.shareOf) < UInt64.size := by
  refine lt_of_le_of_lt ?_ weighable
  have small : ∀ weight ∈ ((members.map config.weighed).map WeightTree.shareOf).map Prod.snd,
      weight ≤ Latency.maxWeight.toNat := by
    intro weight listed
    obtain ⟨share, present, rfl⟩ := List.mem_map.mp listed
    exact (shareOf_weighed_mem present).2
  simpa [Shares.total] using List.sum_le_card_nsmul _ _ small

theorem exists_covers_of_build (built : config.build members = .built tree)
    (weighable : Weighable members.length) :
    ∃ shares, Covers tree.nodes tree.root shares ∧ shares.Perm tree.shares ∧ 0 < shares.total := by
  obtain ⟨enough, assembled⟩ := build_eq_built built
  have nonempty : (config.eligible members).map config.weighed ≠ [] := by
    intro empty
    rw [List.map_eq_nil_iff] at empty
    exact enough (.inl (by rw [empty, List.length_nil]))
  have fewer : (config.eligible members).length ≤ members.length := List.length_filter_le _ _
  obtain ⟨_, same, covered⟩ := WeightTree.assemble_covers nonempty
    (total_shareOf_weighed_lt (weighable.least fewer))
  rw [assembled] at same
  obtain rfl := Option.some.inj same
  have ordered := WeightTree.leafOrder_perm ((config.eligible members).map config.weighed)
  refine ⟨_, covered, ?_, ?_⟩
  · rwa [WeightTree.shares_assemble assembled]
  · rw [Shares.total_perm ordered]
    exact WeightTree.total_shareOf_pos nonempty

/-- What selections rely on in a tree that is built under a configuration. -/
structure WellBuilt (config : Config) (tree : WeightTree Server) : Prop where
  faultless : tree.fault? = none
  leafCount : tree.leafCount = tree.leaves.length
  enough : config.minEligible ≤ tree.leafCount
  weights : ∀ leaf ∈ tree.leaves, 1 ≤ leaf.2.toNat ∧ leaf.2.toNat ≤ 100
  totalWeight : tree.totalWeight.toNat = (tree.leaves.map fun leaf => leaf.2.toNat).sum
  leafCount_le : tree.leafCount ≤ tree.totalWeight.toNat
  totalWeight_le : tree.totalWeight.toNat ≤ 100 * tree.leafCount
  sampled : ∀ draw < tree.totalWeight, ∃ server, tree.sample draw = .ok server

theorem wellBuilt_of_build (built : config.build members = .built tree)
    (weighable : Weighable members.length) : config.WellBuilt tree := by
  obtain ⟨enough, assembled⟩ := build_eq_built built
  obtain ⟨shares, covered, ordered, _⟩ := exists_covers_of_build built weighable
  have leafCount : tree.leafCount = tree.leaves.length :=
    (WeightTree.leafCount_assemble assembled).trans
      (WeightTree.length_leaves_assemble assembled).symm
  have weights : ∀ leaf ∈ tree.leaves, 1 ≤ leaf.2.toNat ∧ leaf.2.toNat ≤ 100 := by
    intro leaf present
    have listed : (leaf.1, leaf.2.toNat) ∈ tree.shares := List.mem_map.mpr ⟨leaf, present, rfl⟩
    rw [WeightTree.shares_assemble assembled] at listed
    exact shareOf_weighed_mem listed
  have totalWeight : tree.totalWeight.toNat = (tree.leaves.map fun leaf => leaf.2.toNat).sum := by
    rw [WeightTree.totalWeight_of_covers covered, Shares.total_perm ordered, Shares.total,
      WeightTree.shares, List.map_map]
    rfl
  have bounds : ∀ weight ∈ tree.leaves.map fun leaf => leaf.2.toNat,
      1 ≤ weight ∧ weight ≤ 100 := by
    intro weight listed
    obtain ⟨leaf, present, rfl⟩ := List.mem_map.mp listed
    exact weights leaf present
  refine ⟨WeightTree.fault?_assemble assembled, leafCount, ?_, weights, totalWeight, ?_, ?_, ?_⟩
  · rw [WeightTree.leafCount_assemble assembled, List.length_map]
    exact Nat.not_lt.mp fun few => enough (.inr (.inl few))
  · rw [leafCount, totalWeight]
    simpa using List.card_nsmul_le_sum _ _ fun weight listed => (bounds weight listed).1
  · rw [leafCount, totalWeight]
    simpa [Nat.mul_comm] using
      List.sum_le_card_nsmul _ _ fun weight listed => (bounds weight listed).2
  · intro draw inside
    obtain ⟨server, sampled, _⟩ := (WeightTree.sampledBy_of_covers covered).inside draw inside
    exact ⟨server, sampled⟩

end Config

end LatencyBalancer
