import LatencyBalancer.Proofs.Tree.Cover
import LatencyBalancer.Tree.Assembly
import Mathlib.Algebra.Order.BigOperators.Group.List
import Mathlib.Data.List.Forall2
import Mathlib.Data.Nat.Log

/-!
# The order of the leaves of an assembled tree

Pairing takes two slots from the front of the queue and puts what they carry, in order, at its
back.  Read from front to back the queue therefore stays a rotation of the items.  As many slots
are turned to the back as it takes to leave a power of two of them; from there on every pass
through the queue keeps the order.
-/

namespace LatencyBalancer.WeightTree

universe u

/-- How many slots go to the back before a power of two of them is left. -/
def turn (slots : Nat) : Nat :=
  2 * slots - 2 ^ Nat.clog 2 slots

def turned {Entry : Type u} (entries : List Entry) : List Entry :=
  entries.drop (turn entries.length) ++ entries.take (turn entries.length)

variable {Item : Type u}

def shareOf (entry : Item × UInt32) : Item × Nat :=
  (entry.1, max entry.2.toNat 1)

/-- The items from left to right in the assembled tree.  An odd number of items leaves room for
one more slot, which is empty. -/
def leafOrder (items : List (Item × UInt32)) : Shares Item :=
  let slots := items.length + items.length % 2
  (items.drop (turn slots) ++ items.take (turn slots)).map shareOf

def shares (tree : WeightTree Item) : Shares Item :=
  tree.leaves.map fun leaf => (leaf.1, leaf.2.toNat)

theorem toNat_raised (weight : UInt32) : (raised weight).toNat = max weight.toNat 1 := by
  have largest : (max weight Latency.minWeight).toNat = max weight.toNat 1 := by
    rw [UInt32.max_def]
    split
    next above =>
      have ordered : weight.toNat ≤ 1 := UInt32.le_iff_toNat_le.mp above
      rw [max_eq_right ordered]
      rfl
    next below =>
      have ordered : 1 < weight.toNat := UInt32.lt_iff_toNat_lt.mp (UInt32.not_le.mp below)
      rw [max_eq_left ordered.le]
  rw [raised, UInt32.toNat_toUInt64, largest]

/-! ### Rotation -/

/-- One pairing either brings the end of the turn two slots closer, or ends it. -/
theorem turn_add_two (slots : Nat) :
    (turn (slots + 2) = turn (slots + 1) + 2 ∧ turn (slots + 1) ≤ slots) ∨
      (turn (slots + 2) = 2 ∧ turn (slots + 1) = slots + 1) := by
  have covers : slots + 1 ≤ 2 ^ Nat.clog 2 (slots + 1) := Nat.le_pow_clog Nat.one_lt_two _
  by_cases isPower : slots + 1 = 2 ^ Nat.clog 2 (slots + 1)
  · right
    have beyond : Nat.clog 2 (slots + 1) < Nat.clog 2 (slots + 2) :=
      (Nat.lt_clog_iff_pow_lt Nat.one_lt_two).mpr (by omega)
    have enough : Nat.clog 2 (slots + 2) ≤ Nat.clog 2 (slots + 1) + 1 := by
      apply Nat.clog_le_of_le_pow
      rw [Nat.pow_succ]
      omega
    have next : Nat.clog 2 (slots + 2) = Nat.clog 2 (slots + 1) + 1 := by omega
    simp only [turn, next, Nat.pow_succ]
    omega
  · left
    have same : Nat.clog 2 (slots + 2) = Nat.clog 2 (slots + 1) :=
      le_antisymm (Nat.clog_le_of_le_pow (by omega)) (Nat.clog_mono_right 2 (by omega))
    have half : 2 ^ Nat.clog 2 (slots + 1) ≤ 2 * (slots + 1) := by
      cases power : Nat.clog 2 (slots + 1) with
      | zero => omega
      | succ smaller =>
          have less : 2 ^ smaller < slots + 1 := Nat.pow_lt_of_lt_clog (by omega)
          rw [Nat.pow_succ]
          omega
    simp only [turn, same]
    omega

/-- Joining the two lists at the front and moving them to the back keeps the turned order. -/
theorem flatten_turned_pair {Entry : Type u} (first second : List Entry)
    (later : List (List Entry)) :
    (turned (first :: second :: later)).flatten = (turned (later ++ [first ++ second])).flatten := by
  unfold turned
  rw [List.length_append, List.length_singleton, List.length_cons, List.length_cons]
  rcases turn_add_two later.length with ⟨twoMore, within⟩ | ⟨last, all⟩
  · rw [twoMore, List.drop_append_of_le_length within, List.take_append_of_le_length within]
    simp [List.append_assoc]
  · have whole : (later ++ [first ++ second]).length ≤ later.length + 1 := by simp
    rw [last, all, List.drop_eq_nil_of_le whole, List.take_of_length_le whole]
    simp

theorem turned_singleton {Entry : Type u} (entry : Entry) : turned [entry] = [entry] := rfl

/-! ### The queue -/

/-- What a slot carries: nothing for the padding, and else the shares of its node. -/
def Waits (nodes : Array (Node Item)) : Slot → Shares Item → Prop
  | none, shares => shares = []
  | some (index, weight), shares => Covers nodes index shares ∧ weight.toNat = shares.total

/-- The padding waits to become a right child: it never has an even number of slots before it. -/
def Aligned : List Slot → Prop
  | [] => True
  | [front] => front ≠ none
  | front :: _ :: queue => front ≠ none ∧ Aligned queue

theorem Aligned.append_some {queue : List Slot} (aligned : Aligned queue)
    (entry : Nat × UInt64) : Aligned (queue ++ [some entry]) := by
  fun_induction Aligned queue with
  | case1 => simp [Aligned]
  | case2 front => exact ⟨aligned, trivial⟩
  | case3 front second queue inductionHypothesis =>
      exact ⟨aligned.1, inductionHypothesis aligned.2⟩

theorem aligned_padded {Entry : Type u} (entries : List Entry) (place : Entry → Nat × UInt64) :
    Aligned (entries.map (fun entry => some (place entry)) ++
      if entries.length % 2 = 1 then [none] else []) := by
  match entries with
  | [] => simp [Aligned]
  | [_] => simp [Aligned]
  | first :: second :: later =>
      have rest := aligned_padded later place
      have parity : (first :: second :: later).length % 2 = later.length % 2 := by
        simp only [List.length_cons]
        omega
      rw [parity]
      exact ⟨by simp, rest⟩

theorem Waits.push {nodes : Array (Node Item)} {slot : Slot} {shares : Shares Item}
    (waits : Waits nodes slot shares) (node : Node Item) : Waits (nodes.push node) slot shares := by
  cases slot with
  | none => exact waits
  | some entry => exact ⟨waits.1.push node, waits.2⟩

theorem waits_join {nodes : Array (Node Item)} {queue : List Slot} {spans : List (Shares Item)}
    {node : Node Item} {weight : UInt64} {shares : Shares Item}
    (waits : List.Forall₂ (Waits nodes) queue spans)
    (covered : Covers (nodes.push node) nodes.size shares)
    (weighs : weight.toNat = shares.total) :
    List.Forall₂ (Waits (nodes.push node)) (queue ++ [some (nodes.size, weight)])
      (spans ++ [shares]) := by
  have earlier : List.Forall₂ (Waits (nodes.push node)) queue spans :=
    waits.imp fun _ _ present => present.push node
  exact List.rel_append earlier (.cons ⟨covered, weighs⟩ .nil)

/-- Pairing the queue to the end leaves a root that carries the turned queue. -/
theorem pairUp_covers {leafCount : Nat} {queue : List Slot} {nodes : Array (Node Item)}
    {spans : List (Shares Item)} (nonempty : queue ≠ []) (aligned : Aligned queue)
    (waits : List.Forall₂ (Waits nodes) queue spans)
    (fits : Shares.total spans.flatten < UInt64.size) :
    ∃ tree, pairUp leafCount queue nodes = some tree ∧
      Covers tree.nodes tree.root (turned spans).flatten := by
  fun_induction pairUp leafCount queue nodes generalizing spans with
  | case1 nodes => exact absurd rfl nonempty
  | case2 queue nodes inductionHypothesis =>
      cases queue with
      | nil => exact absurd rfl aligned
      | cons second queue => exact absurd rfl aligned.1
  | case3 root weight nodes =>
      obtain ⟨shares, rest, ⟨covered, _⟩, empty, rfl⟩ := List.forall₂_cons_left_iff.mp waits
      rw [List.forall₂_nil_left_iff.mp empty, turned_singleton]
      exact ⟨_, rfl, by simpa using covered⟩
  | case4 left weight queue nodes inductionHypothesis =>
      obtain ⟨shares, rest, ⟨covered, weighs⟩, behind, rfl⟩ := List.forall₂_cons_left_iff.mp waits
      obtain ⟨padding, later, rfl, remaining, rfl⟩ := List.forall₂_cons_left_iff.mp behind
      rw [flatten_turned_pair, List.append_nil]
      apply inductionHypothesis
      · simp
      · exact aligned.2.append_some _
      · apply waits_join remaining _ weighs
        exact .single (by simp) covered.lt_size weighs (covered.push _)
      · simpa [Nat.add_comm] using fits
  | case5 left weight right other queue nodes inductionHypothesis =>
      obtain ⟨first, rest, ⟨leftCovered, leftWeighs⟩, behind, rfl⟩ :=
        List.forall₂_cons_left_iff.mp waits
      obtain ⟨second, later, ⟨rightCovered, rightWeighs⟩, remaining, rfl⟩ :=
        List.forall₂_cons_left_iff.mp behind
      have sum : (weight + other).toNat = first.total + second.total := by
        simp only [List.flatten_cons, Shares.total_append] at fits
        rw [UInt64.toNat_add, leftWeighs, rightWeighs]
        exact Nat.mod_eq_of_lt (lt_of_le_of_lt (by omega) fits)
      rw [flatten_turned_pair]
      apply inductionHypothesis
      · simp
      · exact aligned.2.append_some _
      · apply waits_join remaining
        · exact .double (by simp) leftCovered.lt_size rightCovered.lt_size sum
            (leftCovered.push _) (rightCovered.push _)
        · rw [Shares.total_append, sum]
      · simp only [List.flatten_cons, List.flatten_append, List.flatten_nil,
          Shares.total_append, Shares.total_nil] at fits ⊢
        omega

theorem leaves_pairUp {leafCount : Nat} {queue : List Slot} {nodes : Array (Node Item)}
    {tree : WeightTree Item} (paired : pairUp leafCount queue nodes = some tree) :
    tree.leaves = nodes.toList.filterMap Node.leaf? ∧ tree.leafCount = leafCount := by
  fun_induction pairUp leafCount queue nodes with
  | case1 => contradiction
  | case2 queue nodes inductionHypothesis => exact inductionHypothesis paired
  | case3 root weight nodes =>
      obtain rfl := Option.some.inj paired
      exact ⟨rfl, rfl⟩
  | case4 left weight queue nodes inductionHypothesis =>
      simpa [List.filterMap_cons] using inductionHypothesis paired
  | case5 left weight right other queue nodes inductionHypothesis =>
      simpa [List.filterMap_cons] using inductionHypothesis paired

/-! ### Assembly -/

theorem leafOrder_perm (items : List (Item × UInt32)) :
    (leafOrder items).Perm (items.map shareOf) := by
  unfold leafOrder
  apply List.Perm.map
  exact List.perm_append_comm.trans (by rw [List.take_append_drop])

/-- The slots that an assembly starts from carry one item each, and the padding nothing. -/
def spans (items : List (Item × UInt32)) : List (Shares Item) :=
  items.map (fun entry => [shareOf entry]) ++ List.replicate (items.length % 2) []

theorem flatten_drop_spans (items : List (Item × UInt32)) (count : Nat) :
    ((spans items).drop count).flatten = (items.drop count).map shareOf := by
  rw [spans, List.drop_append, List.flatten_append, List.drop_replicate,
    List.flatten_replicate_nil, List.append_nil, ← List.map_drop, ← List.flatMap_def,
    List.map_eq_flatMap]

theorem flatten_take_spans (items : List (Item × UInt32)) (count : Nat) :
    ((spans items).take count).flatten = (items.take count).map shareOf := by
  rw [spans, List.take_append, List.flatten_append, List.take_replicate,
    List.flatten_replicate_nil, List.append_nil, ← List.map_take, ← List.flatMap_def,
    List.map_eq_flatMap]

theorem flatten_turned_spans (items : List (Item × UInt32)) :
    (turned (spans items)).flatten = leafOrder items := by
  have slots : (spans items).length = items.length + items.length % 2 := by simp [spans]
  rw [turned, slots, List.flatten_append, flatten_drop_spans, flatten_take_spans, leafOrder,
    List.map_append]

theorem total_flatten_spans (items : List (Item × UInt32)) :
    Shares.total (spans items).flatten = Shares.total (items.map shareOf) := by
  have whole := flatten_drop_spans items 0
  rw [List.drop_zero, List.drop_zero] at whole
  rw [whole]

theorem shareOf_eq (item : Item) (weight : UInt32) :
    shareOf (item, weight) = (item, (raised weight).toNat) := by
  rw [shareOf, toNat_raised]

theorem total_shareOf_pos {items : List (Item × UInt32)} (nonempty : items ≠ []) :
    0 < Shares.total (items.map shareOf) := by
  obtain ⟨first, later, rfl⟩ := List.exists_cons_of_ne_nil nonempty
  have owned : 0 < (shareOf first).2 := lt_max_of_lt_right Nat.one_pos
  rw [List.map_cons, Shares.total_cons]
  exact Nat.add_pos_left owned _

/-- No list that an index of 32 bits can address weighs more than a word. -/
theorem total_shareOf_lt {items : List (Item × UInt32)} (few : items.length ≤ UInt32.size) :
    Shares.total (items.map shareOf) < UInt64.size := by
  have small : ∀ weight ∈ (items.map shareOf).map Prod.snd, weight ≤ UInt32.size - 1 := by
    simp only [List.map_map, List.mem_map]
    rintro _ ⟨entry, _, rfl⟩
    exact max_le (Nat.le_sub_one_of_lt entry.2.toNat_lt) (by decide)
  have sum := List.sum_le_card_nsmul _ _ small
  simp only [List.length_map, Nat.nsmul_eq_mul] at sum
  calc Shares.total (items.map shareOf)
      ≤ items.length * (UInt32.size - 1) := sum
    _ ≤ UInt32.size * (UInt32.size - 1) := Nat.mul_le_mul_right _ few
    _ < UInt64.size := by decide

theorem waits_spans (items : List (Item × UInt32)) :
    List.Forall₂ (Waits ((items.map fun (item, weight) => (item, raised weight)).map
        fun (item, weight) => Node.leaf weight item).toArray)
      (((items.map fun (item, weight) => (item, raised weight)).zipIdx.map
        fun ((_, weight), index) => some (index, weight)) ++
        if items.length % 2 = 1 then [none] else [])
      (spans items) := by
  apply List.rel_append
  · apply List.forall₂_iff_get.mpr
    refine ⟨by simp, ?_⟩
    intro index inQueue inItems
    simp only [List.get_eq_getElem, List.getElem_map, List.getElem_zipIdx, Nat.zero_add]
    rw [shareOf_eq]
    refine ⟨.leaf ?_, by simp⟩
    have inside : index < items.length := by simpa using inItems
    simp [List.getElem?_eq_getElem inside]
  · split
    next odd =>
      rw [odd]
      exact .cons rfl .nil
    next even =>
      have parity : items.length % 2 = 0 := by omega
      rw [parity]
      exact .nil

theorem assemble_covers {items : List (Item × UInt32)} (nonempty : items ≠ [])
    (fits : Shares.total (items.map shareOf) < UInt64.size) :
    ∃ tree, assemble items = some tree ∧ Covers tree.nodes tree.root (leafOrder items) := by
  unfold assemble
  rw [← flatten_turned_spans]
  apply pairUp_covers
  · simp [nonempty]
  · simpa using aligned_padded (items.map fun (item, weight) => (item, raised weight)).zipIdx
      fun ((_, weight), index) => (index, weight)
  · simpa using waits_spans items
  · rwa [total_flatten_spans]

theorem leaves_assemble {items : List (Item × UInt32)} {tree : WeightTree Item}
    (assembled : assemble items = some tree) :
    tree.leaves = items.map fun entry => (entry.1, raised entry.2) := by
  rw [(leaves_pairUp assembled).1, List.map_map, List.filterMap_map]
  exact congrFun List.filterMap_eq_map' items

theorem shares_assemble {items : List (Item × UInt32)} {tree : WeightTree Item}
    (assembled : assemble items = some tree) : tree.shares = items.map shareOf := by
  rw [shares, leaves_assemble assembled, List.map_map]
  apply List.map_congr_left
  intro entry _
  exact (shareOf_eq entry.1 entry.2).symm

end LatencyBalancer.WeightTree
