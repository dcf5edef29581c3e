import LatencyBalancer.Proofs.Tree.Cover

/-!
# Descents

`Leads nodes index position trail item` says that a position, taken down from the node at the index
for as long as it takes, visits the nodes of the trail and ends at a leaf with the item.  It asks
nothing of the array and counts no visits.  A descent with a bound finds the item exactly when the
trail is no longer than the bound.
-/

namespace LatencyBalancer

universe u

variable {Item : Type u}

def Node.children : Node Item → List Nat
  | leaf _ _ => []
  | branch _ left right => left :: right.toList

def Links (nodes : Array (Node Item)) (index child : Nat) : Prop :=
  ∃ node, nodes[index]? = some node ∧ child ∈ node.children

theorem Links.lt_size {nodes : Array (Node Item)} {index child : Nat}
    (linked : Links nodes index child) : index < nodes.size := by
  obtain ⟨node, present, _⟩ := linked
  exact (Array.getElem?_eq_some_iff.mp present).1

/-- No branch that can be reached from the node can reach itself. -/
def AcyclicFrom (nodes : Array (Node Item)) (root : Nat) : Prop :=
  ∀ index, Relation.ReflTransGen (Links nodes) root index →
    ¬ Relation.TransGen (Links nodes) index index

/-- Where every link leads lower, by any measure of height, no link is part of a circle. -/
theorem acyclicFrom_of_height_lt {nodes : Array (Node Item)} {root : Nat} (height : Nat → Nat)
    (lower : ∀ index, Relation.ReflTransGen (Links nodes) root index →
      ∀ child, Links nodes index child → height child < height index) : AcyclicFrom nodes root := by
  intro index reached circle
  have down : ∀ {place : Nat}, Relation.TransGen (Links nodes) index place →
      height place < height index := by
    intro place walk
    induction walk with
    | single linked => exact lower index reached _ linked
    | tail earlier linked inductionHypothesis =>
        exact (lower _ (reached.trans earlier.to_reflTransGen) _ linked).trans inductionHypothesis
  exact Nat.lt_irrefl _ (down circle)

/-- Children that stand before their parents make no circle. -/
theorem acyclicFrom_of_lt {nodes : Array (Node Item)} {root : Nat}
    (before : ∀ index ≤ root, ∀ node ∈ nodes[index]?, ∀ child ∈ node.children, child < index) :
    AcyclicFrom nodes root := by
  have down : ∀ {index child : Nat}, index ≤ root → Links nodes index child → child < index := by
    rintro index child low ⟨node, present, named⟩
    exact before index low node present child named
  have within : ∀ {index : Nat}, Relation.ReflTransGen (Links nodes) root index →
      index ≤ root := by
    intro index reached
    induction reached with
    | refl => exact Nat.le_refl _
    | tail _ linked inductionHypothesis =>
        exact (down inductionHypothesis linked).le.trans inductionHypothesis
  exact acyclicFrom_of_height_lt id fun index reached child linked => down (within reached) linked

/-- Where a position ends, and the nodes it visits; positions count from one. -/
inductive Leads (nodes : Array (Node Item)) : Nat → Nat → List Nat → Item → Prop where
  | leaf {index position : Nat} {weight : UInt64} {item : Item} :
      nodes[index]? = some (.leaf weight item) →
      Leads nodes index position [index] item
  | single {index left position : Nat} {weight : UInt64} {trail : List Nat} {item : Item} :
      nodes[index]? = some (.branch weight left none) →
      Leads nodes left position trail item →
      Leads nodes index position (index :: trail) item
  | left {index left right position : Nat} {weight : UInt64} {child : Node Item}
      {trail : List Nat} {item : Item} :
      nodes[index]? = some (.branch weight left (some right)) →
      nodes[left]? = some child →
      position ≤ child.weight.toNat →
      Leads nodes left position trail item →
      Leads nodes index position (index :: trail) item
  | right {index left right position : Nat} {weight : UInt64} {child : Node Item}
      {trail : List Nat} {item : Item} :
      nodes[index]? = some (.branch weight left (some right)) →
      nodes[left]? = some child →
      child.weight.toNat < position →
      Leads nodes right (position - child.weight.toNat) trail item →
      Leads nodes index position (index :: trail) item

namespace Leads

variable {nodes : Array (Node Item)} {index position : Nat} {trail : List Nat} {item : Item}

theorem exists_cons (leads : Leads nodes index position trail item) :
    ∃ rest, trail = index :: rest := by
  cases leads with
  | leaf | single | left | right => exact ⟨_, rfl⟩

theorem unique {otherTrail : List Nat} {other : Item}
    (leads : Leads nodes index position trail item)
    (again : Leads nodes index position otherTrail other) : trail = otherTrail ∧ item = other := by
  induction leads generalizing otherTrail with
  | leaf present =>
      cases again with
      | leaf same =>
          cases Option.some.inj (present.symm.trans same)
          exact ⟨rfl, rfl⟩
      | single same | left same | right same => cases present.symm.trans same
  | single present _ inductionHypothesis =>
      cases again with
      | leaf same | left same | right same => cases present.symm.trans same
      | single same rest =>
          cases Option.some.inj (present.symm.trans same)
          obtain ⟨rfl, rfl⟩ := inductionHypothesis rest
          exact ⟨rfl, rfl⟩
  | left present leftPresent within _ inductionHypothesis =>
      cases again with
      | leaf same | single same => cases present.symm.trans same
      | left same _ _ rest =>
          cases Option.some.inj (present.symm.trans same)
          obtain ⟨rfl, rfl⟩ := inductionHypothesis rest
          exact ⟨rfl, rfl⟩
      | right same leftSame beyond =>
          cases Option.some.inj (present.symm.trans same)
          obtain rfl := Option.some.inj (leftPresent.symm.trans leftSame)
          exact absurd within (Nat.not_le.mpr beyond)
  | right present leftPresent beyond _ inductionHypothesis =>
      cases again with
      | leaf same | single same => cases present.symm.trans same
      | left same leftSame within =>
          cases Option.some.inj (present.symm.trans same)
          obtain rfl := Option.some.inj (leftPresent.symm.trans leftSame)
          exact absurd within (Nat.not_le.mpr beyond)
      | right same leftSame _ rest =>
          cases Option.some.inj (present.symm.trans same)
          obtain rfl := Option.some.inj (leftPresent.symm.trans leftSame)
          obtain ⟨rfl, rfl⟩ := inductionHypothesis rest
          exact ⟨rfl, rfl⟩

theorem lt_size (leads : Leads nodes index position trail item) :
    ∀ place ∈ trail, place < nodes.size := by
  induction leads with
  | leaf present =>
      simp only [List.mem_singleton, forall_eq]
      exact (Array.getElem?_eq_some_iff.mp present).1
  | single present _ inductionHypothesis | left present _ _ _ inductionHypothesis
  | right present _ _ _ inductionHypothesis =>
      exact List.forall_mem_cons.mpr
        ⟨(Array.getElem?_eq_some_iff.mp present).1, inductionHypothesis⟩

end Leads

namespace WeightTree

variable {tree : WeightTree Item} {index visits : Nat} {position : UInt64} {trail : List Nat}
  {item : Item}

/-- A position that goes right loses the weight on its left. -/
theorem toNat_sub_weight {weight : UInt64} (beyond : ¬ position ≤ weight) :
    weight.toNat < position.toNat ∧ (position - weight).toNat = position.toNat - weight.toNat := by
  have above : weight < position := UInt64.not_le.mp beyond
  exact ⟨UInt64.lt_iff_toNat_lt.mp above, UInt64.toNat_sub_of_le _ _ (UInt64.le_of_lt above)⟩

theorem descend_of_leads (leads : Leads tree.nodes index position.toNat trail item)
    (enough : trail.length ≤ visits) : tree.descend visits index position = .ok item := by
  generalize counted : position.toNat = count at leads
  induction leads generalizing visits position with
  | leaf present =>
      obtain ⟨visits, rfl⟩ := Nat.exists_eq_add_one_of_ne_zero (Nat.ne_zero_of_lt enough)
      simp only [descend, step_leaf present]
  | single present _ inductionHypothesis =>
      obtain ⟨visits, rfl⟩ := Nat.exists_eq_add_one_of_ne_zero (Nat.ne_zero_of_lt enough)
      simp only [descend, step_single present]
      exact inductionHypothesis (Nat.le_of_succ_le_succ enough) counted
  | left present leftPresent within _ inductionHypothesis =>
      obtain ⟨visits, rfl⟩ := Nat.exists_eq_add_one_of_ne_zero (Nat.ne_zero_of_lt enough)
      rw [← counted] at within
      have inside := UInt64.le_iff_toNat_le.mpr within
      simp only [descend, step_double present leftPresent, inside, if_true]
      exact inductionHypothesis (Nat.le_of_succ_le_succ enough) counted
  | right present leftPresent beyond _ inductionHypothesis =>
      obtain ⟨visits, rfl⟩ := Nat.exists_eq_add_one_of_ne_zero (Nat.ne_zero_of_lt enough)
      rw [← counted] at beyond
      have outside := UInt64.not_le.mpr (UInt64.lt_iff_toNat_lt.mpr beyond)
      simp only [descend, step_double present leftPresent, outside, if_false]
      apply inductionHypothesis (Nat.le_of_succ_le_succ enough)
      rw [(toNat_sub_weight outside).2, counted]

theorem exists_leads_of_descend (found : tree.descend visits index position = .ok item) :
    ∃ trail, Leads tree.nodes index position.toNat trail item ∧ trail.length ≤ visits := by
  induction visits generalizing index position with
  | zero => simp [descend] at found
  | succ visits inductionHypothesis =>
      cases present : tree.nodes[index]? with
      | none => simp [descend, step, lookup, node?, present] at found
      | some node =>
          cases node with
          | leaf weight leafItem =>
              simp only [descend, step_leaf present, Except.ok.injEq] at found
              subst found
              exact ⟨[index], .leaf present, by simp⟩
          | branch weight left right =>
              cases right with
              | none =>
                  simp only [descend, step_single present] at found
                  obtain ⟨trail, leads, short⟩ := inductionHypothesis found
                  exact ⟨index :: trail, .single present leads, Nat.succ_le_succ short⟩
              | some right =>
                  cases leftPresent : tree.nodes[left]? with
                  | none => simp [descend, step, lookup, node?, present, leftPresent] at found
                  | some child =>
                      simp only [descend, step_double present leftPresent] at found
                      by_cases within : position ≤ child.weight
                      · simp only [within, if_true] at found
                        obtain ⟨trail, leads, short⟩ := inductionHypothesis found
                        exact ⟨index :: trail,
                          .left present leftPresent (UInt64.le_iff_toNat_le.mp within) leads,
                          Nat.succ_le_succ short⟩
                      · simp only [within, if_false] at found
                        obtain ⟨beyond, rest⟩ := toNat_sub_weight within
                        obtain ⟨trail, leads, short⟩ := inductionHypothesis found
                        rw [rest] at leads
                        exact ⟨index :: trail, .right present leftPresent beyond leads,
                          Nat.succ_le_succ short⟩

/-- A descent with a bound is the descent without one, cut off. -/
theorem descend_eq_ok_iff :
    tree.descend visits index position = .ok item ↔
      ∃ trail, Leads tree.nodes index position.toNat trail item ∧ trail.length ≤ visits := by
  constructor
  · exact exists_leads_of_descend
  · rintro ⟨trail, leads, enough⟩
    exact descend_of_leads leads enough

theorem exists_root_of_lt {draw : UInt64} (inside : draw < tree.totalWeight) :
    ∃ root, tree.nodes[tree.root]? = some root ∧ tree.totalWeight = root.weight := by
  cases present : tree.nodes[tree.root]? with
  | none => simp [totalWeight, node?, present] at inside
  | some root => exact ⟨root, rfl, by simp [totalWeight, node?, present]⟩

theorem sample_eq_descend {draw : UInt64} (inside : draw < tree.totalWeight) :
    tree.sample draw = tree.descend (tree.nodes.size + 1) tree.root (draw + 1) ∧
      (draw + 1).toNat = draw.toNat + 1 := by
  obtain ⟨root, present, total⟩ := exists_root_of_lt inside
  have found : tree.lookup tree.root = .ok root := lookup_eq_ok_iff.mpr present
  rw [total] at inside
  have below := UInt64.lt_iff_toNat_lt.mp inside
  have limit := root.weight.toNat_lt
  refine ⟨?_, ?_⟩
  · simp only [sample, found, UInt64.not_le.mpr inside, if_false]
  · rw [UInt64.toNat_add, UInt64.toNat_one]
    omega

end WeightTree

end LatencyBalancer
