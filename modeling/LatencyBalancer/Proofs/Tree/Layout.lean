import LatencyBalancer.Proofs.Tree.Building
import LatencyBalancer.Proofs.Tree.Unfolding

/-!
# The layout of an assembled tree

Every slot that ever waits in the queue has a place: first the items, then the padding, then the
branches in the order in which they are made.  Slots leave the queue in the order of their places,
two at a time, so the number of a branch tells which nodes are its children.  Behind the padding
the nodes are one place further on than their indices.
-/

namespace LatencyBalancer.WeightTree

universe u

variable {Item : Type u} {items : List (Item × UInt32)} {tree : WeightTree Item}

/-! ### Passes of the loop -/

/-- The slots that wait, and the nodes made so far. -/
abbrev Pairing (Item : Type u) := List Slot × Array (Node Item)

/-- One pass through the loop of the pairing. -/
inductive Pairs : Pairing Item → Pairing Item → Prop where
  | skip {queue : List Slot} {nodes : Array (Node Item)} :
      Pairs (none :: queue, nodes) (queue, nodes)
  | single {left : Nat} {weight : UInt64} {queue : List Slot} {nodes : Array (Node Item)} :
      Pairs (some (left, weight) :: none :: queue, nodes)
        (queue ++ [some (nodes.size, weight)], nodes.push (.branch weight left none))
  | double {left right : Nat} {weight other : UInt64} {queue : List Slot}
      {nodes : Array (Node Item)} :
      Pairs (some (left, weight) :: some (right, other) :: queue, nodes)
        (queue ++ [some (nodes.size, weight + other)],
          nodes.push (.branch (weight + other) left (some right)))

theorem pairUp_eq_of_pairs {leafCount : Nat} {state next : Pairing Item}
    (pairs : Pairs state next) :
    pairUp leafCount state.1 state.2 = pairUp leafCount next.1 next.2 := by
  cases pairs <;> rw [pairUp]

theorem pairUp_eq_of_run {leafCount : Nat} {state later : Pairing Item}
    (run : Relation.ReflTransGen Pairs state later) :
    pairUp leafCount state.1 state.2 = pairUp leafCount later.1 later.2 := by
  induction run with
  | refl => rfl
  | tail _ pairs inductionHypothesis => exact inductionHypothesis.trans (pairUp_eq_of_pairs pairs)

theorem exists_run_of_pairUp {leafCount : Nat} {queue : List Slot} {nodes : Array (Node Item)}
    (paired : pairUp leafCount queue nodes = some tree) :
    ∃ weight, Relation.ReflTransGen Pairs (queue, nodes)
      ([some (tree.root, weight)], tree.nodes) := by
  fun_induction pairUp leafCount queue nodes with
  | case1 => contradiction
  | case2 queue nodes inductionHypothesis =>
      obtain ⟨weight, run⟩ := inductionHypothesis paired
      exact ⟨weight, .head .skip run⟩
  | case3 root weight nodes =>
      obtain rfl := Option.some.inj paired
      exact ⟨weight, .refl⟩
  | case4 left weight queue nodes inductionHypothesis =>
      obtain ⟨total, run⟩ := inductionHypothesis paired
      exact ⟨total, .head .single run⟩
  | case5 left weight right other queue nodes inductionHypothesis =>
      obtain ⟨total, run⟩ := inductionHypothesis paired
      exact ⟨total, .head .double run⟩

def entered (items : List (Item × UInt32)) : Pairing Item :=
  (items.zipIdx.map (fun entry => some (entry.2, raised entry.1.2)) ++
      List.replicate (items.length % 2) none,
    (items.map fun entry => Node.leaf (raised entry.2) entry.1).toArray)

theorem assemble_eq_pairUp :
    assemble items = pairUp items.length (entered items).1 (entered items).2 := by
  have padding : (if items.length % 2 = 1 then [none] else []) =
      List.replicate (items.length % 2) (none : Slot) := by
    rcases Nat.mod_two_eq_zero_or_one items.length with parity | parity <;> rw [parity] <;> rfl
  simp only [assemble, entered, List.length_map, List.map_map, List.zipIdx_map, ← padding]
  rfl

theorem assemble_nil : assemble ([] : List (Item × UInt32)) = none := by
  rw [assemble_eq_pairUp]
  simp [entered, pairUp]

/-! ### Places -/

/-- The node at a place of the queue; the place behind an odd number of items is padding. -/
def slotNode (count place : Nat) : Option Nat :=
  if count % 2 = 0 ∨ place < count then some place
  else if place = count then none
  else some (place - 1)

/-- The place of a node in the queue. -/
def placeOf (count index : Nat) : Nat :=
  if count % 2 = 0 ∨ index < count then index else index + 1

/-- The children of a branch, by the number of items and the number of the branch. -/
def childrenAt (count number : Nat) : Nat × Option Nat :=
  if count % 2 = 0 ∨ 2 * number + 1 < count then (2 * number, some (2 * number + 1))
  else if 2 * number + 1 = count then (count - 1, none)
  else (2 * number - 1, some (2 * number))

theorem slotNode_eq_some_iff {count place index : Nat} :
    slotNode count place = some index ↔ place = placeOf count index := by
  unfold slotNode placeOf
  split_ifs <;> simp only [Option.some.injEq, false_iff] <;> omega

theorem slotNode_children (count number : Nat) :
    slotNode count (2 * number) = some (childrenAt count number).1 ∧
      slotNode count (2 * number + 1) = (childrenAt count number).2 := by
  unfold slotNode childrenAt
  split_ifs <;> simp only [Option.some.injEq, and_true, true_and] <;> omega

def slots (count : Nat) : Nat :=
  count + count % 2

/-- Every item has the place of its number, and the padding is the last slot. -/
theorem map_slotNode_slots (count : Nat) : (List.range' 0 (slots count)).map (slotNode count) =
    (List.range' 0 count).map some ++ List.replicate (count % 2) none := by
  rw [slots, ← List.range'_append_1, Nat.zero_add, List.map_append]
  congr 1
  · apply List.map_congr_left
    intro place listed
    have inside : place < count := by simpa using listed
    simp [slotNode, inside]
  · rcases Nat.mod_two_eq_zero_or_one count with parity | parity
    · simp [parity]
    · simp [parity, slotNode]

theorem childrenAt_distinct (count number : Nat) :
    (childrenAt count number).2 ≠ some (childrenAt count number).1 := by
  unfold childrenAt
  split_ifs <;> simp only [ne_eq, Option.some.injEq, reduceCtorEq, not_false_eq_true] <;> omega

theorem placeOf_branch (count number : Nat) :
    placeOf count (count + number) = slots count + number := by
  unfold placeOf slots
  split_ifs <;> omega

def parentOf (count index : Nat) : Nat :=
  count + placeOf count index / 2

theorem parentOf_lt_iff {count index : Nat} :
    parentOf count index < count + (slots count - 1) ↔ index + 1 < count + (slots count - 1) := by
  unfold parentOf placeOf slots
  split_ifs <;> omega

theorem lt_parentOf {count index : Nat} (below : index + 1 < count + (slots count - 1)) :
    index < parentOf count index := by
  unfold parentOf placeOf slots at *
  split_ifs <;> omega

theorem mem_childrenAt_iff {count number child : Nat} :
    child ∈ (childrenAt count number).1 :: (childrenAt count number).2.toList ↔
      number = placeOf count child / 2 := by
  obtain ⟨left, right⟩ := slotNode_children count number
  have first : child = (childrenAt count number).1 ↔ 2 * number = placeOf count child := by
    rw [← slotNode_eq_some_iff, left, Option.some_inj, eq_comm]
  have second : (childrenAt count number).2 = some child ↔
      2 * number + 1 = placeOf count child := by
    rw [← slotNode_eq_some_iff, right]
  rw [List.mem_cons, Option.mem_toList, first, second]
  omega

/-! ### The loop -/

/-- A pairing after so many passes. -/
structure Laid (items : List (Item × UInt32)) (passes : Nat) (state : Pairing Item) : Prop where
  size : state.2.size = items.length + passes
  waiting : state.1.map (Option.map Prod.fst) =
    (List.range' (2 * passes) (slots items.length - passes)).map (slotNode items.length)
  leaf : ∀ (index : Nat) (inside : index < items.length),
    state.2[index]? = some (.leaf (raised items[index].2) items[index].1)
  branch : ∀ number < passes, ∃ weight, state.2[items.length + number]? = some
    (.branch weight (childrenAt items.length number).1 (childrenAt items.length number).2)

theorem laid_entered (items : List (Item × UInt32)) : Laid items 0 (entered items) := by
  refine ⟨by simp [entered], ?_, ?_, by simp⟩
  · simp only [entered, Nat.mul_zero, Nat.sub_zero, map_slotNode_slots, ← List.zipIdx_map_snd,
      List.map_append, List.map_map, List.map_replicate]
    rfl
  · intro index inside
    simp [entered, inside]

namespace Laid

variable {passes : Nat} {state next : Pairing Item}

/-- The padding never comes to the front. -/
theorem head?_ne (laid : Laid items passes state) : state.1.head? ≠ some none := by
  intro front
  obtain ⟨queue, same⟩ := List.head?_eq_some_iff.mp front
  have waiting := laid.waiting
  rw [same] at waiting
  cases left : slots items.length - passes with
  | zero => simp [left] at waiting
  | succ later =>
      rw [left, List.range'_succ, List.map_cons, List.map_cons] at waiting
      have absent := (List.cons.inj waiting).1
      rw [(slotNode_children _ passes).1] at absent
      contradiction

/-- The two slots at the front become the children of the next branch. -/
theorem join {first second : Slot} {queue : List Slot} {nodes : Array (Node Item)} {left : Nat}
    {right : Option Nat} (laid : Laid items passes (first :: second :: queue, nodes))
    (leftSame : first.map Prod.fst = some left) (rightSame : second.map Prod.fst = right)
    (weight : UInt64) :
    Laid items (passes + 1)
      (queue ++ [some (nodes.size, weight)], nodes.push (.branch weight left right)) := by
  have size : nodes.size = items.length + passes := laid.size
  have waiting : (first :: second :: queue).map (Option.map Prod.fst) = _ := laid.waiting
  have count : slots items.length - passes = queue.length + 2 := by
    simpa using (congrArg List.length waiting).symm
  simp only [count, List.range'_succ, List.map_cons, List.cons.injEq, leftSame, rightSame,
    (slotNode_children items.length passes).1, (slotNode_children items.length passes).2,
    Option.some_inj] at waiting
  obtain ⟨rfl, rfl, behind⟩ := waiting
  refine ⟨?_, ?_, ?_, ?_⟩
  · rw [Array.size_push, size, Nat.add_assoc]
  · have remaining : slots items.length - (passes + 1) = queue.length + 1 := by omega
    have made : slotNode items.length (2 * (passes + 1) + queue.length) =
        some (items.length + passes) := by
      rw [slotNode_eq_some_iff, placeOf_branch]
      omega
    have places : 2 * passes + 1 + 1 = 2 * (passes + 1) := rfl
    simp only [remaining, List.range'_1_concat, List.map_append, List.map_cons, List.map_nil,
      behind, places, made, size, Option.map_some]
  · intro index inside
    exact Node.getElem?_push_of_eq_some (laid.leaf index inside) _
  · intro number below
    rcases Nat.lt_succ_iff_lt_or_eq.mp below with earlier | rfl
    · obtain ⟨other, present⟩ := laid.branch number earlier
      exact ⟨other, Node.getElem?_push_of_eq_some present _⟩
    · exact ⟨weight, by rw [← size, Array.getElem?_push_size]⟩

theorem pairs (laid : Laid items passes state) (pairs : Pairs state next) :
    Laid items (passes + 1) next := by
  cases pairs with
  | skip => exact absurd rfl laid.head?_ne
  | single => exact laid.join rfl rfl _
  | double => exact laid.join rfl rfl _

end Laid

theorem exists_laid_of_run {state : Pairing Item}
    (run : Relation.ReflTransGen Pairs (entered items) state) :
    ∃ passes, Laid items passes state := by
  induction run with
  | refl => exact ⟨0, laid_entered items⟩
  | tail _ pairs inductionHypothesis =>
      obtain ⟨passes, laid⟩ := inductionHypothesis
      exact ⟨passes + 1, laid.pairs pairs⟩

namespace Laid

variable {passes : Nat} {state : Pairing Item}

theorem links_iff (laid : Laid items passes state) {parent child : Nat} :
    Links state.2 parent child ↔
      parent < state.2.size ∧ parent = parentOf items.length child := by
  rw [laid.size, parentOf]
  constructor
  · intro linked
    have inside := laid.size ▸ linked.lt_size
    refine ⟨inside, ?_⟩
    obtain ⟨node, present, named⟩ := linked
    rcases Nat.lt_or_ge parent items.length with low | high
    · rw [laid.leaf parent low] at present
      obtain rfl := Option.some.inj present
      simp [Node.children] at named
    · obtain ⟨number, rfl⟩ := Nat.exists_eq_add_of_le high
      obtain ⟨weight, same⟩ := laid.branch number (by omega)
      rw [same] at present
      obtain rfl := Option.some.inj present
      exact congrArg _ (mem_childrenAt_iff.mp named)
  · rintro ⟨inside, rfl⟩
    obtain ⟨weight, present⟩ := laid.branch (placeOf items.length child / 2) (by omega)
    exact ⟨_, present, mem_childrenAt_iff.mpr rfl⟩

theorem finished {root : Nat} {weight : UInt64} {nodes : Array (Node Item)}
    (laid : Laid items passes ([some (root, weight)], nodes)) :
    passes = slots items.length - 1 ∧ root + 1 = nodes.size := by
  have size : nodes.size = items.length + passes := laid.size
  have waiting : [some root] = _ := laid.waiting
  have count : slots items.length - passes = 1 := by
    simpa using (congrArg List.length waiting).symm
  rw [count, List.range'_one, List.map_singleton, List.singleton_inj, eq_comm,
    slotNode_eq_some_iff] at waiting
  unfold slots placeOf at *
  split_ifs at waiting <;> omega

end Laid

/-- What the number of the items and their order say about the arena of their tree. -/
structure LaidOut (items : List (Item × UInt32)) (tree : WeightTree Item) : Prop where
  size : tree.nodes.size = items.length + (slots items.length - 1)
  root : tree.root + 1 = tree.nodes.size
  leaf : ∀ (index : Nat) (inside : index < items.length), ∃ weight,
    tree.nodes[index]? = some (.leaf weight items[index].1) ∧
      weight.toNat = max items[index].2.toNat 1
  branch : ∀ number < slots items.length - 1, ∃ weight,
    tree.nodes[items.length + number]? = some
      (.branch weight (childrenAt items.length number).1 (childrenAt items.length number).2)
  before : ∀ parent child, Links tree.nodes parent child → child < parent
  parent : ∀ index < tree.nodes.size, index ≠ tree.root →
    ∃! parent, Links tree.nodes parent index
  top : ∀ parent, ¬ Links tree.nodes parent tree.root
  leafCount : tree.leafCount = items.length
  shares : tree.shares = items.map shareOf
  faultless : tree.fault? = none
  ends : ∃ weight, Relation.ReflTransGen Pairs (entered items)
    ([some (tree.root, weight)], tree.nodes)
  looped : ∀ state, Relation.ReflTransGen Pairs (entered items) state →
    pairUp items.length state.1 state.2 = some tree
  /-- The padding leaves the queue behind the last item, in the same pass. -/
  padding : ∀ state, Relation.ReflTransGen Pairs (entered items) state →
    state.1.head? ≠ some none

theorem exists_laid_of_assemble (assembled : assemble items = some tree) :
    ∃ weight, Relation.ReflTransGen Pairs (entered items)
        ([some (tree.root, weight)], tree.nodes) ∧
      Laid items (slots items.length - 1) ([some (tree.root, weight)], tree.nodes) ∧
      tree.root + 1 = tree.nodes.size := by
  obtain ⟨weight, run⟩ := exists_run_of_pairUp (assemble_eq_pairUp.symm.trans assembled)
  obtain ⟨passes, laid⟩ := exists_laid_of_run run
  obtain ⟨rfl, root⟩ := laid.finished
  exact ⟨weight, run, laid, root⟩

theorem links_assemble (assembled : assemble items = some tree) {parent child : Nat} :
    Links tree.nodes parent child ↔
      child < tree.root ∧ parent = parentOf items.length child := by
  obtain ⟨weight, _, laid, root⟩ := exists_laid_of_assemble assembled
  have size : tree.nodes.size = items.length + (slots items.length - 1) := laid.size
  rw [laid.links_iff, and_congr_left_iff, size]
  rintro rfl
  rw [parentOf_lt_iff, ← size, ← root, Nat.add_lt_add_iff_right]

theorem laidOut_of_assemble (assembled : assemble items = some tree) : tree.LaidOut items := by
  obtain ⟨weight, run, laid, root⟩ := exists_laid_of_assemble assembled
  have size : tree.nodes.size = items.length + (slots items.length - 1) := laid.size
  refine ⟨size, root, ?_, laid.branch, ?_, ?_, ?_, leafCount_assemble assembled,
    shares_assemble assembled, fault?_assemble assembled, ⟨weight, run⟩, ?_, ?_⟩
  · intro index inside
    exact ⟨_, laid.leaf index inside, toNat_raised _⟩
  · intro parent child linked
    obtain ⟨inside, rfl⟩ := (links_assemble assembled).mp linked
    exact lt_parentOf (by omega)
  · intro index inside other
    refine ⟨_, (links_assemble assembled).mpr ⟨by omega, rfl⟩, ?_⟩
    intro parent linked
    exact ((links_assemble assembled).mp linked).2
  · intro parent linked
    exact Nat.lt_irrefl _ ((links_assemble assembled).mp linked).1
  · intro state run
    exact (pairUp_eq_of_run run).symm.trans (assemble_eq_pairUp.symm.trans assembled)
  · intro state run
    obtain ⟨passes, laid⟩ := exists_laid_of_run run
    exact laid.head?_ne

theorem LaidOut.root_add_one (laidOut : tree.LaidOut items) :
    tree.root + 1 = items.length + (slots items.length - 1) :=
  laidOut.root.trans laidOut.size

theorem LaidOut.node_cases (laidOut : tree.LaidOut items) {index : Nat} {node : Node Item}
    (present : tree.nodes[index]? = some node) :
    (∃ inside : index < items.length, ∃ weight, node = .leaf weight items[index].1) ∨
      ∃ number weight, index = items.length + number ∧
        node = .branch weight (childrenAt items.length number).1
          (childrenAt items.length number).2 := by
  rcases Nat.lt_or_ge index items.length with inside | beyond
  · obtain ⟨weight, same, _⟩ := laidOut.leaf index inside
    exact .inl ⟨inside, weight, Option.some.inj (present.symm.trans same)⟩
  · have below := (Array.getElem?_eq_some_iff.mp present).1
    obtain ⟨number, rfl⟩ := Nat.exists_eq_add_of_le beyond
    rw [laidOut.size, Nat.add_lt_add_iff_left] at below
    obtain ⟨weight, same⟩ := laidOut.branch number below
    exact .inr ⟨number, weight, rfl, Option.some.inj (present.symm.trans same)⟩

theorem LaidOut.reached (laidOut : tree.LaidOut items) {index : Nat}
    (inside : index < tree.nodes.size) :
    Relation.ReflTransGen (Links tree.nodes) tree.root index := by
  induction gap : tree.root - index using Nat.strong_induction_on generalizing index with
  | h gap inductionHypothesis =>
      by_cases last : index = tree.root
      · exact last ▸ .refl
      · obtain ⟨parent, linked, _⟩ := laidOut.parent index inside last
        have above := laidOut.before parent index linked
        have below := linked.lt_size
        have root := laidOut.root
        exact (inductionHypothesis _ (by omega) below rfl).tail linked

/-! ### Weights -/

theorem exists_covers_of_links {nodes : Array (Node Item)} {parent child : Nat}
    {shares : Shares Item} (covered : Covers nodes parent shares)
    (linked : Links nodes parent child) : ∃ shares, Covers nodes child shares := by
  obtain ⟨node, present, named⟩ := linked
  cases covered with
  | leaf found =>
      obtain rfl := Option.some.inj (found.symm.trans present)
      simp [Node.children] at named
  | single found _ _ below =>
      obtain rfl := Option.some.inj (found.symm.trans present)
      obtain rfl := List.mem_singleton.mp named
      exact ⟨_, below⟩
  | double found _ _ _ leftCovered rightCovered =>
      obtain rfl := Option.some.inj (found.symm.trans present)
      rcases List.mem_cons.mp named with rfl | last
      · exact ⟨_, leftCovered⟩
      · obtain rfl := List.mem_singleton.mp last
        exact ⟨_, rightCovered⟩

theorem exact_of_covers {nodes : Array (Node Item)}
    (covered : ∀ index < nodes.size, ∃ shares, Covers nodes index shares) : Exact nodes := by
  constructor
  · intro index left weight present
    obtain ⟨shares, covers⟩ := covered index (Array.getElem?_eq_some_iff.mp present).1
    cases covers with
    | leaf found | double found => cases found.symm.trans present
    | single found _ weighs below =>
        cases found.symm.trans present
        obtain ⟨child, there, same⟩ := below.exists_node
        exact ⟨child, there, same.trans weighs.symm⟩
  · intro index left right weight present
    obtain ⟨shares, covers⟩ := covered index (Array.getElem?_eq_some_iff.mp present).1
    cases covers with
    | leaf found | single found => cases found.symm.trans present
    | double found _ _ weighs leftCovered rightCovered =>
        cases found.symm.trans present
        obtain ⟨first, leftThere, leftSame⟩ := leftCovered.exists_node
        obtain ⟨second, rightThere, rightSame⟩ := rightCovered.exists_node
        exact ⟨first, second, leftThere, rightThere, by rw [leftSame, rightSame, weighs]⟩

theorem LaidOut.exists_covers (laidOut : tree.LaidOut items) {whole : Shares Item}
    (covered : Covers tree.nodes tree.root whole) {index : Nat} (inside : index < tree.nodes.size) :
    ∃ shares, Covers tree.nodes index shares := by
  induction laidOut.reached inside with
  | refl => exact ⟨whole, covered⟩
  | tail _ linked inductionHypothesis =>
      obtain ⟨shares, covers⟩ := inductionHypothesis linked.lt_size
      exact exists_covers_of_links covers linked

/-- No sum of an assembly overflows if the sum of all its weights does not. -/
theorem exact_of_assemble (assembled : assemble items = some tree)
    (fits : Shares.total (items.map shareOf) < UInt64.size) :
    Exact tree.nodes ∧ tree.totalWeight.toNat = Shares.total (items.map shareOf) := by
  have nonempty : items ≠ [] := by
    rintro rfl
    rw [assemble_nil] at assembled
    contradiction
  obtain ⟨_, same, covered⟩ := assemble_covers nonempty fits
  obtain rfl := Option.some.inj (assembled.symm.trans same)
  refine ⟨exact_of_covers fun index inside =>
    (laidOut_of_assemble assembled).exists_covers covered inside, ?_⟩
  rw [totalWeight_of_covers covered, Shares.total_perm (leafOrder_perm items)]

theorem assemble_laidOut (fits : Shares.total (items.map shareOf) < UInt64.size) :
    (items = [] → assemble items = none) ∧
      (items ≠ [] → ∃ tree, assemble items = some tree ∧ tree.LaidOut items ∧
        Exact tree.nodes ∧ tree.totalWeight.toNat = Shares.total (items.map shareOf)) := by
  constructor
  · rintro rfl
    exact assemble_nil
  · intro nonempty
    obtain ⟨tree, assembled, _⟩ := assemble_covers nonempty fits
    exact ⟨tree, assembled, laidOut_of_assemble assembled, exact_of_assemble assembled fits⟩

/-- The last of three items is an only child, and its parent a right child. -/
def trio : WeightTree String where
  nodes := #[.leaf 10 "a", .leaf 1 "b", .leaf 30 "c", .branch 11 0 (some 1), .branch 30 2 none,
    .branch 41 3 (some 4)]
  root := 5
  leafCount := 3

theorem assemble_trio : assemble [("a", 10), ("b", 0), ("c", 30)] = some trio := by
  have weights : raised 10 = 10 ∧ raised 0 = 1 ∧ raised 30 = 30 := by decide
  simp [assemble_eq_pairUp, entered, pairUp, weights, trio]

theorem assemble_laidOut_trio :
    Shares.total (([("a", 10), ("b", 0), ("c", 30)] : List (String × UInt32)).map shareOf) <
        UInt64.size ∧
      trio.LaidOut [("a", 10), ("b", 0), ("c", 30)] ∧ Exact trio.nodes := by
  have fits : Shares.total (([("a", 10), ("b", 0), ("c", 30)] : List (String × UInt32)).map
      shareOf) < UInt64.size := by decide
  obtain ⟨tree, assembled, laidOut, exact, _⟩ := (assemble_laidOut fits).2 (by simp)
  obtain rfl := Option.some.inj (assemble_trio.symm.trans assembled)
  exact ⟨fits, laidOut, exact⟩

end LatencyBalancer.WeightTree
