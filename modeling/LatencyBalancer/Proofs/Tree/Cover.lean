import LatencyBalancer.Proofs.Tree.Shares
import LatencyBalancer.Tree.Basic

/-!
# Shares under a node

`Covers nodes index shares` says that the node at the index carries exactly these shares, from
left to right, that every branch below it weighs what is below it, and that children stand before
their parents.  Sampling below such a node is the scan of its shares: a descent takes the weight
of the left child off its position exactly when the scan has passed the shares of that child.
-/

namespace LatencyBalancer

universe u

variable {Item : Type u}

inductive Covers (nodes : Array (Node Item)) : Nat → Shares Item → Prop where
  | leaf {index : Nat} {weight : UInt64} {item : Item} :
      nodes[index]? = some (.leaf weight item) →
      Covers nodes index [(item, weight.toNat)]
  | single {index left : Nat} {weight : UInt64} {shares : Shares Item} :
      nodes[index]? = some (.branch weight left none) →
      left < index →
      weight.toNat = shares.total →
      Covers nodes left shares →
      Covers nodes index shares
  | double {index left right : Nat} {weight : UInt64} {first second : Shares Item} :
      nodes[index]? = some (.branch weight left (some right)) →
      left < index →
      right < index →
      weight.toNat = first.total + second.total →
      Covers nodes left first →
      Covers nodes right second →
      Covers nodes index (first ++ second)

namespace Covers

variable {nodes : Array (Node Item)}

theorem exists_node {index : Nat} {shares : Shares Item} (covered : Covers nodes index shares) :
    ∃ node, nodes[index]? = some node ∧ node.weight.toNat = shares.total := by
  cases covered with
  | leaf present => exact ⟨_, present, by simp⟩
  | single present _ weighs _ => exact ⟨_, present, weighs⟩
  | double present _ _ weighs _ _ => exact ⟨_, present, by simpa using weighs⟩

theorem lt_size {index : Nat} {shares : Shares Item} (covered : Covers nodes index shares) :
    index < nodes.size := by
  obtain ⟨node, present, _⟩ := covered.exists_node
  exact (Array.getElem?_eq_some_iff.mp present).1

theorem push {index : Nat} {shares : Shares Item} (covered : Covers nodes index shares)
    (node : Node Item) : Covers (nodes.push node) index shares := by
  have kept : ∀ {place : Nat} {found : Node Item}, nodes[place]? = some found →
      (nodes.push node)[place]? = some found := by
    intro place found present
    have inside := (Array.getElem?_eq_some_iff.mp present).1
    rw [Array.getElem?_push_lt inside, ← Array.getElem?_eq_getElem inside, present]
  induction covered with
  | leaf present => exact .leaf (kept present)
  | single present before weighs _ inductionHypothesis =>
      exact .single (kept present) before weighs inductionHypothesis
  | double present leftBefore rightBefore weighs _ _ leftHypothesis rightHypothesis =>
      exact .double (kept present) leftBefore rightBefore weighs leftHypothesis rightHypothesis

end Covers

namespace WeightTree

variable {tree : WeightTree Item}

theorem step_leaf {index : Nat} {weight : UInt64} {item : Item}
    (present : tree.nodes[index]? = some (.leaf weight item)) (position : UInt64) :
    tree.step index position = .ok (.arrived item) := by
  have found : tree.lookup index = .ok (.leaf weight item) := lookup_eq_ok_iff.mpr present
  simp [step, found]

theorem step_single {index left : Nat} {weight : UInt64}
    (present : tree.nodes[index]? = some (.branch weight left none)) (position : UInt64) :
    tree.step index position = .ok (.onward left position) := by
  have found : tree.lookup index = .ok (.branch weight left none) := lookup_eq_ok_iff.mpr present
  simp [step, found]

theorem step_double {index left right : Nat} {weight : UInt64} {child : Node Item}
    (present : tree.nodes[index]? = some (.branch weight left (some right)))
    (leftPresent : tree.nodes[left]? = some child) (position : UInt64) :
    tree.step index position =
      if position ≤ child.weight then .ok (.onward left position)
      else .ok (.onward right (position - child.weight)) := by
  have found : tree.lookup index = .ok (.branch weight left (some right)) :=
    lookup_eq_ok_iff.mpr present
  have leftFound : tree.lookup left = .ok child := lookup_eq_ok_iff.mpr leftPresent
  simp only [step, found, leftFound]

/-- With more visits than the index of the node, a descent from it reaches the owner of its
position, which counts from one. -/
theorem descend_of_covers {index visits : Nat} {shares : Shares Item} {position : UInt64}
    {item : Item} (covered : Covers tree.nodes index shares) (enough : index < visits)
    (positive : 0 < position.toNat)
    (owner : shares.scan (position.toNat - 1) = some item) :
    tree.descend visits index position = .ok item := by
  induction covered generalizing visits position with
  | @leaf index weight leafItem present =>
      obtain ⟨visits, rfl⟩ := Nat.exists_eq_succ_of_ne_zero (Nat.ne_zero_of_lt enough)
      have within : position.toNat - 1 < weight.toNat := by
        simpa using Shares.lt_total_of_scan owner
      have same : leafItem = item := by simpa [Shares.scan, within] using owner
      simp only [descend, step_leaf present, same]
  | @single index left weight shares present before weighs _ inductionHypothesis =>
      obtain ⟨visits, rfl⟩ := Nat.exists_eq_succ_of_ne_zero (Nat.ne_zero_of_lt enough)
      simp only [descend, step_single present]
      exact inductionHypothesis (by omega) positive owner
  | @double index left right weight first second present leftBefore rightBefore weighs leftCovered
      _ leftHypothesis rightHypothesis =>
      obtain ⟨visits, rfl⟩ := Nat.exists_eq_succ_of_ne_zero (Nat.ne_zero_of_lt enough)
      obtain ⟨child, leftPresent, leftWeighs⟩ := leftCovered.exists_node
      simp only [descend, step_double present leftPresent]
      rw [Shares.scan_append] at owner
      by_cases within : position ≤ child.weight
      · have inside : position.toNat - 1 < first.total := by
          have bounded := UInt64.le_iff_toNat_le.mp within
          omega
        simp only [inside, if_true] at owner
        simp only [within, if_true]
        exact leftHypothesis (by omega) positive owner
      · have beyond : child.weight.toNat < position.toNat :=
          UInt64.lt_iff_toNat_lt.mp (UInt64.not_le.mp within)
        have outside : ¬ position.toNat - 1 < first.total := by omega
        have rest : (position - child.weight).toNat = position.toNat - first.total := by
          rw [UInt64.toNat_sub_of_le _ _ (UInt64.le_iff_toNat_le.mpr beyond.le), leftWeighs]
        simp only [outside, if_false] at owner
        simp only [within, if_false]
        apply rightHypothesis (by omega) (by omega)
        rw [rest, Nat.sub_right_comm]
        exact owner

theorem totalWeight_of_covers {shares : Shares Item}
    (covered : Covers tree.nodes tree.root shares) :
    tree.totalWeight.toNat = shares.total := by
  obtain ⟨node, present, weighs⟩ := covered.exists_node
  simp [totalWeight, node?, present, weighs]

theorem sample_of_covers {shares : Shares Item} {draw : UInt64} {item : Item}
    (covered : Covers tree.nodes tree.root shares) (owner : shares.scan draw.toNat = some item) :
    tree.sample draw = .ok item := by
  obtain ⟨node, present, weighs⟩ := covered.exists_node
  have found : tree.lookup tree.root = .ok node := lookup_eq_ok_iff.mpr present
  have inside : draw.toNat < node.weight.toNat := by
    rw [weighs]
    exact Shares.lt_total_of_scan owner
  have next : (draw + 1).toNat = draw.toNat + 1 := by
    have limit := node.weight.toNat_lt
    rw [UInt64.toNat_add]
    simp only [UInt64.toNat_one]
    omega
  have below : ¬ node.weight ≤ draw := UInt64.not_le.mpr (UInt64.lt_iff_toNat_lt.mpr inside)
  simp only [sample, found, below, if_false]
  apply descend_of_covers covered (Nat.lt_succ_of_lt covered.lt_size)
  · omega
  · simpa [next] using owner

theorem sample_of_total_le {shares : Shares Item} {draw : UInt64}
    (covered : Covers tree.nodes tree.root shares) (beyond : tree.totalWeight ≤ draw) :
    tree.sample draw = .error (.drawOutOfRange draw tree.totalWeight) := by
  obtain ⟨node, present, _⟩ := covered.exists_node
  have found : tree.lookup tree.root = .ok node := lookup_eq_ok_iff.mpr present
  have total : tree.totalWeight = node.weight := by simp [totalWeight, node?, present]
  rw [total] at beyond ⊢
  simp only [sample, found, beyond, if_true]

end WeightTree

end LatencyBalancer
