import LatencyBalancer.Proofs.Tree.Rotation

/-!
# Sampling an assembled tree

An assembled tree answers a draw as a plain scan of its leaves does, taken in the order in which
pairing leaves them.  Every leaf owns as many consecutive draws as it weighs, and the leaves share
all the draws below the total weight among them.
-/

namespace LatencyBalancer.WeightTree

universe u

variable {Item : Type u}

structure SampledBy (tree : WeightTree Item) (shares : Shares Item) : Prop where
  totalWeight : tree.totalWeight.toNat = shares.total
  inside : ∀ draw : UInt64, draw < tree.totalWeight →
    ∃ item, tree.sample draw = .ok item ∧ shares.scan draw.toNat = some item
  interval : ∀ draw : UInt64, draw < tree.totalWeight →
    ∃! position, position < shares.length ∧ shares.start position ≤ draw.toNat ∧
      draw.toNat < shares.start (position + 1)
  /-- The draws of a share are as many as it weighs, one after another. -/
  owner : ∀ (position : Nat) (present : position < shares.length) (draw : UInt64),
    shares.start position ≤ draw.toNat →
    draw.toNat < shares.start position + shares[position].2 →
    tree.sample draw = .ok shares[position].1
  outside : ∀ draw : UInt64, tree.totalWeight ≤ draw →
    tree.sample draw = .error (.drawOutOfRange draw tree.totalWeight)

theorem sampledBy_of_covers {tree : WeightTree Item} {shares : Shares Item}
    (covered : Covers tree.nodes tree.root shares) : tree.SampledBy shares := by
  have total := totalWeight_of_covers covered
  have below : ∀ draw : UInt64, draw < tree.totalWeight → draw.toNat < shares.total := by
    intro draw inside
    rw [← total]
    exact UInt64.lt_iff_toNat_lt.mp inside
  refine ⟨total, ?_, ?_, ?_, fun draw beyond => sample_of_total_le covered beyond⟩
  · intro draw inside
    obtain ⟨item, owner⟩ := Shares.exists_scan (below draw inside)
    exact ⟨item, sample_of_covers covered owner, owner⟩
  · intro draw inside
    exact Shares.existsUnique_start_le (below draw inside)
  · intro position present draw reached within
    rw [← Shares.start_succ present] at within
    exact sample_of_covers covered (Shares.scan_of_start_le present reached within)

theorem exists_sampledBy_leafOrder {items : List (Item × UInt32)} (nonempty : items ≠ [])
    (fits : Shares.total (items.map shareOf) < UInt64.size) :
    ∃ tree, assemble items = some tree ∧ tree.SampledBy (leafOrder items) := by
  obtain ⟨tree, assembled, covered⟩ := assemble_covers nonempty fits
  exact ⟨tree, assembled, sampledBy_of_covers covered⟩

/-- The last of five items comes first, and the one without weight owns a draw. -/
theorem exists_sampledBy_five :
    ∃ tree, assemble [("a", 3), ("b", 0), ("c", 2), ("d", 1), ("e", 2)] = some tree ∧
      tree.SampledBy [("e", 2), ("a", 3), ("b", 1), ("c", 2), ("d", 1)] := by
  have order : leafOrder [("a", 3), ("b", 0), ("c", 2), ("d", 1), ("e", 2)] =
      [("e", 2), ("a", 3), ("b", 1), ("c", 2), ("d", 1)] := by decide
  rw [← order]
  exact exists_sampledBy_leafOrder (by simp) (total_shareOf_lt (by decide))

end LatencyBalancer.WeightTree
