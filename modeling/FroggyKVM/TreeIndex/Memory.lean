/-
# FroggyKVM.TreeIndex.Memory — nodes in memory, slots in the file, and the tree they hold.

`Shows n b` says that the arrays of a node in memory hold the node `b` of a tree, with zeros behind
its keys.  Every operation of `Node` is described by what it does to `b`; the rest of the
development never looks at the arrays again.
-/
import FroggyKVM.Lib.BTree
import FroggyKVM.TreeIndex.Operations

namespace FroggyKVM.TreeIndex

/-- A node as the file holds it: its offset, and offsets for its children. -/
abbrev Stored := BTree.Node Int (Int × Int) Int

/-! ## Arrays -/

/-- An entry with the child behind it. -/
def tripletOf (x : (Int × Int) × Int) : Triplet := ⟨x.1.1, x.1.2, x.2⟩

/-- The triplet at an index, zero behind the last entry. -/
def tripletAt (rest : List ((Int × Int) × Int)) (i : Nat) : Triplet :=
  ((rest[i]?).map tripletOf).getD .zero

theorem tripletAt_of_le {rest : List ((Int × Int) × Int)} {i : Nat} (h : rest.length ≤ i) :
    tripletAt rest i = .zero := by
  rw [tripletAt, List.getElem?_eq_none h]
  rfl

theorem tripletAt_left {a r : List ((Int × Int) × Int)} {i : Nat} (h : i < a.length) :
    tripletAt (a ++ r) i = tripletAt a i := by
  rw [tripletAt, List.getElem?_append_left h]
  rfl

theorem tripletAt_right {a r : List ((Int × Int) × Int)} {i : Nat} :
    tripletAt (a ++ r) (a.length + i) = tripletAt r i := by
  rw [tripletAt, List.getElem?_append_right (Nat.le_add_right ..), Nat.add_sub_cancel_left]
  rfl

theorem tripletAt_middle {a r : List ((Int × Int) × Int)} {x : (Int × Int) × Int} :
    tripletAt (a ++ x :: r) a.length = tripletOf x := by
  exact tripletAt_right (i := 0)

theorem tripletAt_cons_succ {r : List ((Int × Int) × Int)} {x : (Int × Int) × Int} {i : Nat} :
    tripletAt (x :: r) (i + 1) = tripletAt r i := rfl

/-- The node in memory holds the stored node. -/
structure Shows (n : Node) (b : Stored) : Prop where
  offset : n.offset = b.label
  child0 : n.child0 = b.first
  numKeys : n.numKeys = b.rest.length
  triplet : ∀ i < 9, n.triplet i = tripletAt b.rest i

/-- The slot holds the stored node: what is behind its keys starts with a triplet without a key. -/
def HeldBy (b : Stored) (s : Slot) : Prop :=
  s.child0 = b.first ∧ ∃ tail, s.triplets = b.rest.map tripletOf ++ tail ∧
    ∀ x ∈ tail.head?, x.key ≤ 0

/-- A stored node can be loaded: it fits into a slot, and keys and offsets are positive. -/
structure Loadable (b : Stored) : Prop where
  label : 0 < b.label
  length : b.rest.length ≤ 8
  keys : ∀ x ∈ b.rest, 0 < x.1.1

/-! ## The loops over the arrays -/

theorem addKeyLoop_eq {index : Nat} {t : Nat → Triplet} : ∀ {i : Nat} {j : Nat},
    Node.addKeyLoop index i t j = if index < j ∧ j ≤ i then t (j - 1) else t j := by
  intro i
  induction i generalizing t with
  | zero =>
    intro j
    rw [Node.addKeyLoop, if_neg (by omega)]
  | succ i ih =>
    intro j
    rw [Node.addKeyLoop]
    split
    · rw [ih]
      rcases Nat.lt_trichotomy j (i + 1) with hj | rfl | hj
      · rw [Function.update_of_ne (by omega), Function.update_of_ne (by omega)]
        exact if_congr (by omega) rfl rfl
      · rw [if_neg (by omega), Function.update_self, if_pos (by omega)]
        rfl
      · rw [if_neg (by omega), Function.update_of_ne (by omega), if_neg (by omega)]
    · rw [if_neg (by omega)]

theorem deleteKeyLoop_eq {t : Nat → Triplet} : ∀ {left i j : Nat},
    Node.deleteKeyLoop left i t j = if i ≤ j ∧ j < i + left then t (j + 1) else t j := by
  intro left
  induction left generalizing t with
  | zero =>
    intro i j
    rw [Node.deleteKeyLoop, if_neg (by omega)]
  | succ left ih =>
    intro i j
    rw [Node.deleteKeyLoop, ih]
    rcases Nat.lt_trichotomy j i with hj | rfl | hj
    · rw [if_neg (by omega), Function.update_of_ne (by omega), if_neg (by omega)]
    · rw [if_neg (by omega), Function.update_self, if_pos (by omega)]
    · rw [Function.update_of_ne (by omega), Function.update_of_ne (by omega)]
      exact if_congr (by omega) rfl rfl

theorem clearLoop_eq {t : Nat → Triplet} : ∀ {left i j : Nat},
    Node.clearLoop left i t j = if i ≤ j ∧ j < i + left then .zero else t j := by
  intro left
  induction left generalizing t with
  | zero =>
    intro i j
    rw [Node.clearLoop, if_neg (by lia)]
  | succ left ih =>
    intro i j
    rw [Node.clearLoop, ih]
    rcases Nat.lt_trichotomy j i with hj | rfl | hj
    · rw [if_neg (by omega), Function.update_of_ne (by omega), if_neg (by omega)]
    · rw [if_neg (by omega), Function.update_self, if_pos (by omega)]
    · rw [Function.update_of_ne (by omega)]
      exact if_congr (by lia) rfl rfl

/-- Loading stops behind the last key. -/
theorem loadLoop_eq {tail : List Triplet} (htail : ∀ x ∈ tail.head?, x.key ≤ 0) :
    ∀ (rest : List ((Int × Int) × Int)) (i : Nat) (t : Nat → Triplet),
    (∀ x ∈ rest, 0 < x.1.1) →
    ∃ t', Node.loadLoop (rest.map tripletOf ++ tail) i t = (i + rest.length, t') ∧
      ∀ j, t' j = if i ≤ j ∧ j < i + rest.length then tripletAt rest (j - i) else t j
  | [], i, t, _ => by
    refine ⟨t, ?_, fun j => (if_neg (by rw [List.length_nil]; omega)).symm⟩
    cases tail with
    | nil => rfl
    | cons z tail =>
      rw [List.map_nil, List.nil_append, Node.loadLoop, if_pos (htail z rfl)]
      rfl
  | x :: rest, i, t, hkeys => by
    obtain ⟨t', hloop, ht'⟩ := loadLoop_eq htail rest (i + 1)
      (Function.update t i (tripletOf x)) fun y hy => hkeys y (List.mem_cons_of_mem _ hy)
    refine ⟨t', ?_, fun j => ?_⟩
    · have hpos : ¬ (tripletOf x).key ≤ 0 := Int.not_le.2 (hkeys x (List.mem_cons_self ..))
      rw [List.map_cons, List.cons_append, Node.loadLoop, if_neg hpos, hloop, List.length_cons]
      exact congrArg (·, t') (by omega)
    · rw [ht', List.length_cons]
      rcases Nat.lt_trichotomy j i with hj | rfl | hj
      · rw [if_neg (by omega), Function.update_of_ne (by omega), if_neg (by omega)]
      · rw [if_neg (by omega), Function.update_self, if_pos (by omega), Nat.sub_self]
        rfl
      · obtain ⟨k, rfl⟩ := Nat.exists_eq_add_of_lt hj
        rw [Function.update_of_ne (by omega), show i + k + 1 - (i + 1) = k by omega,
          show i + k + 1 - i = k + 1 by omega, tripletAt_cons_succ]
        exact if_congr (by omega) rfl rfl

/-! ## Node operations -/

section
variable {n : Node} {p f : Int} {a r : List ((Int × Int) × Int)} {x : (Int × Int) × Int}

theorem Shows.copyStack {b : Stored} (h : Shows n b) (fromNode : Node) :
    Shows (n.copyStack fromNode) b := ⟨h.offset, h.child0, h.numKeys, h.triplet⟩

theorem Shows.pushParent {b : Stored} (h : Shows n b) (offset : Int) :
    Shows (n.pushParent offset) b := ⟨h.offset, h.child0, h.numKeys, h.triplet⟩

/-- Another first child. -/
theorem Shows.first (h : Shows n ⟨p, f, r⟩) (c : Int) : Shows { n with child0 := c } ⟨p, c, r⟩ :=
  ⟨h.offset, rfl, h.numKeys, h.triplet⟩

theorem Shows.triplet_at (h : Shows n ⟨p, f, a ++ x :: r⟩) (ha : a.length < 9) :
    n.triplet a.length = tripletOf x := (h.triplet _ ha).trans tripletAt_middle

theorem Shows.addKey (h : Shows n ⟨p, f, a ++ r⟩) (k v c : Int) :
    Shows (n.addKey k v c a.length) ⟨p, f, a ++ ((k, v), c) :: r⟩ := by
  have hn : n.numKeys = a.length + r.length := h.numKeys.trans List.length_append
  refine ⟨h.offset, h.child0, ?_, ?_⟩
  · show n.numKeys + 1 = _
    rw [hn, List.length_append, List.length_cons, Nat.add_assoc]
  · intro j hj
    show Function.update (Node.addKeyLoop a.length n.numKeys n.triplet) a.length ⟨k, v, c⟩ j = _
    rcases Nat.lt_trichotomy j a.length with hlt | rfl | hgt
    · rw [Function.update_of_ne (by omega), addKeyLoop_eq, if_neg (by omega), h.triplet j hj,
        tripletAt_left hlt, tripletAt_left hlt]
    · rw [Function.update_self, tripletAt_middle]
      rfl
    · obtain ⟨i, rfl⟩ := Nat.exists_eq_add_of_lt hgt
      rw [Nat.add_assoc] at hj ⊢
      rw [Function.update_of_ne (by omega), addKeyLoop_eq, tripletAt_right, tripletAt_cons_succ]
      by_cases hi : i < r.length
      · rw [if_pos (by lia), ← Nat.add_assoc, Nat.add_sub_cancel, h.triplet _ (by lia),
          tripletAt_right]
      · rw [if_neg (by omega), h.triplet _ hj, tripletAt_right, tripletAt_of_le (by omega),
          tripletAt_of_le (by omega)]

/-- A triplet behind the last key. -/
theorem Shows.addKey_last {b : Stored} (h : Shows n b) (k v c : Int) :
    Shows (n.addKey k v c n.numKeys) ⟨b.label, b.first, b.rest ++ [((k, v), c)]⟩ := by
  obtain ⟨p, f, rest⟩ := b
  rw [h.numKeys]
  rw [← List.append_nil rest] at h
  exact h.addKey k v c

theorem Shows.deleteKey (h : Shows n ⟨p, f, a ++ x :: r⟩) (hlen : a.length + r.length < 8) :
    Shows (n.deleteKey a.length) ⟨p, f, a ++ r⟩ := by
  have hn : n.numKeys = a.length + (r.length + 1) := by
    rw [h.numKeys, List.length_append, List.length_cons]
  refine ⟨h.offset, h.child0, ?_, ?_⟩
  · show n.numKeys - 1 = _
    rw [hn, List.length_append]
    rfl
  · intro j hj
    show Node.deleteKeyLoop (n.numKeys - a.length) a.length n.triplet j = _
    rw [deleteKeyLoop_eq]
    rcases Nat.lt_or_ge j a.length with hlt | hge
    · rw [if_neg (by omega), h.triplet _ hj, tripletAt_left hlt, tripletAt_left hlt]
    · obtain ⟨i, rfl⟩ := Nat.exists_eq_add_of_le hge
      rw [tripletAt_right]
      by_cases hi : i < r.length + 1
      · rw [if_pos (by omega), h.triplet _ (by omega), Nat.add_assoc, tripletAt_right,
          tripletAt_cons_succ]
      · have hx : (x :: r).length ≤ i := by
          rw [List.length_cons]
          omega
        rw [if_neg (by omega), h.triplet _ hj, tripletAt_right, tripletAt_of_le hx,
          tripletAt_of_le (by omega)]

/-- The first key goes, and the child behind it becomes the first child. -/
theorem Shows.deleteFirst (h : Shows n ⟨p, f, x :: r⟩) (hlen : r.length < 8) :
    Shows ({ n with child0 := n.child 1 }.deleteKey 0) ⟨p, x.2, r⟩ := by
  have hx : n.child 1 = x.2 :=
    congrArg Triplet.child (h.triplet_at (a := []) (by rw [List.length_nil]; omega))
  rw [hx]
  exact (h.first x.2).deleteKey (a := []) (by rw [List.length_nil]; omega)

theorem Shows.set (h : Shows n ⟨p, f, a ++ x :: r⟩) (y : (Int × Int) × Int) :
    Shows (n.set a.length (tripletOf y)) ⟨p, f, a ++ y :: r⟩ := by
  refine ⟨h.offset, h.child0, ?_, ?_⟩
  · show n.numKeys = _
    rw [h.numKeys, List.length_append, List.length_append, List.length_cons, List.length_cons]
  · intro j hj
    show Function.update n.triplet a.length (tripletOf y) j = _
    rcases Nat.lt_trichotomy j a.length with hlt | rfl | hgt
    · rw [Function.update_of_ne (by omega), h.triplet j hj, tripletAt_left hlt, tripletAt_left hlt]
    · rw [Function.update_self, tripletAt_middle]
    · obtain ⟨i, rfl⟩ := Nat.exists_eq_add_of_lt hgt
      rw [Nat.add_assoc] at hj ⊢
      rw [Function.update_of_ne (by omega), h.triplet _ hj, tripletAt_right, tripletAt_right,
        tripletAt_cons_succ, tripletAt_cons_succ]

/-- A new node. -/
theorem shows_init (n : Node) (p c : Int) : Shows { n.init p with child0 := c } ⟨p, c, []⟩ :=
  ⟨rfl, rfl, rfl, fun _ _ => (tripletAt_of_le (Nat.zero_le _)).symm⟩

/-- The keys of the right node, from one on. -/
theorem mergeLoop_shows {rightNode : Node} {q g : Int} {b : List ((Int × Int) × Int)}
    (hright : Shows rightNode ⟨q, g, a ++ b⟩) (hlen : a.length + b.length ≤ 9) {s : Stored}
    (h : Shows n s) : Shows (mergeLoop rightNode b.length a.length n)
      ⟨s.label, s.first, s.rest ++ b⟩ := by
  induction b generalizing a n s with
  | nil =>
    rw [List.append_nil]
    exact h
  | cons x b ih =>
    obtain ⟨⟨k, v⟩, c⟩ := x
    rw [List.length_cons] at hlen ⊢
    have hx : rightNode.triplet a.length = ⟨k, v, c⟩ := hright.triplet_at (by omega)
    have hkey : rightNode.key a.length = k := congrArg Triplet.key hx
    have hvalue : rightNode.value a.length = v := congrArg Triplet.value hx
    have hchild : rightNode.child (a.length + 1) = c := congrArg Triplet.child hx
    have hnext := ih (a := a ++ [((k, v), c)])
      (by rw [List.append_assoc]; exact hright)
      (by rw [List.length_append, List.length_singleton]; omega) (h.addKey_last k v c)
    rw [mergeLoop, hkey, hvalue, hchild]
    rw [List.length_append, List.length_singleton, List.append_assoc] at hnext
    exact hnext

/-- **Merging two nodes.** -/
theorem mergeNodes_shows {leftNode rightNode : Node} {s t : Stored} (hleft : Shows leftNode s)
    (hright : Shows rightNode t) (hlen : t.rest.length ≤ 9) (e : Int × Int) (c : Int) :
    Shows (mergeNodes leftNode rightNode ⟨e.1, e.2, c⟩)
      ⟨s.label, s.first, s.rest ++ (e, t.first) :: t.rest⟩ := by
  rw [mergeNodes, hright.numKeys, show rightNode.child 0 = t.first from hright.child0]
  have h := mergeLoop_shows (a := []) hright (by rw [List.length_nil, Nat.zero_add]; exact hlen)
    (hleft.addKey_last e.1 e.2 t.first)
  rw [List.append_assoc] at h
  exact h

/-- So many triplets from index 5 on are moved. -/
theorem splitLoop_eq (node newNode : Node) (m : Nat) :
    (List.range m).foldl (fun p j =>
      let i := NODE_ELEMENTS / 2 + 1 + j
      (p.1.set i .zero, p.2.set j (p.1.triplet i))) (node, newNode) =
    ({ node with triplet := fun i => if 5 ≤ i ∧ i < 5 + m then .zero else node.triplet i },
      { newNode with triplet := fun j => if j < m then node.triplet (5 + j)
        else newNode.triplet j }) := by
  have hmid : NODE_ELEMENTS / 2 + 1 = 5 := rfl
  induction m with
  | zero =>
    have hnone : ∀ i, ¬ (5 ≤ i ∧ i < 5 + 0) := fun i => by omega
    simp only [List.range_zero, List.foldl_nil, hnone, if_false, Nat.not_lt_zero]
  | succ m ih =>
    have hm : ¬ (5 ≤ 5 + m ∧ 5 + m < 5 + m) := by omega
    rw [List.range_succ, List.foldl_append, ih, List.foldl_cons, List.foldl_nil]
    simp only [Node.set, hmid, if_neg hm]
    congr 2
    · funext i
      rw [Function.update_apply]
      by_cases hi : i = 5 + m
      · rw [if_pos hi, if_pos (by omega)]
      · rw [if_neg hi]
        exact if_congr (by omega) rfl rfl
    · funext j
      rw [Function.update_apply]
      by_cases hj : j = m
      · rw [if_pos hj, if_pos (by omega), hj]
      · rw [if_neg hj]
        exact if_congr (by omega) rfl rfl

/-- **Splitting a node.** The middle key goes up. -/
theorem split_shows {b : List ((Int × Int) × Int)} (h : Shows n ⟨p, f, a ++ x :: b⟩)
    (ha : a.length = 4) (hb : b.length = 4) (q : Int) : ∃ n₁ n₂,
    splitLoop (n.set (NODE_ELEMENTS / 2) .zero) { Node.new.init q with child0 := x.2 } = (n₁, n₂) ∧
    Shows { n₁ with numKeys := NODE_ELEMENTS / 2 } ⟨p, f, a⟩ ∧
    Shows { n₂ with numKeys := NODE_ELEMENTS / 2 } ⟨q, x.2, b⟩ ∧
    n₁.parentStack = n.parentStack := by
  have hmid : NODE_ELEMENTS / 2 = 4 := rfl
  refine ⟨_, _, splitLoop_eq _ _ (NODE_ELEMENTS / 2), ⟨h.offset, h.child0, ha.symm, ?_⟩,
    ⟨rfl, rfl, hb.symm, ?_⟩, rfl⟩
  · intro i hi
    show (if 5 ≤ i ∧ i < 5 + 4 then .zero else Function.update n.triplet 4 .zero i) = tripletAt a i
    rcases Nat.lt_trichotomy i 4 with hlt | rfl | hgt
    · rw [if_neg (by omega), Function.update_of_ne (by omega), h.triplet i hi,
        tripletAt_left (by omega)]
    · rw [if_neg (by omega), Function.update_self, tripletAt_of_le (by omega)]
    · rw [if_pos (by omega), tripletAt_of_le (by omega)]
  · intro j hj
    show (if j < 4 then Function.update n.triplet 4 .zero (5 + j) else .zero) = tripletAt b j
    by_cases hlt : j < 4
    · have hright := tripletAt_right (a := a) (r := x :: b) (i := j + 1)
      rw [ha, tripletAt_cons_succ] at hright
      rw [if_pos hlt, Function.update_of_ne (by omega), h.triplet _ (by omega), ← hright]
      exact congrArg _ (by omega)
    · rw [if_neg hlt, tripletAt_of_le (by omega)]

/-! ## Loading and saving -/

theorem Shows.load {b : Stored} {file : IndexFile} {s : Slot} (hb : Loadable b)
    (hslot : file.slots b.label = some s) (hs : HeldBy b s) (n : Node) :
    ∃ n', n.load file b.label = .ok n' ∧ Shows n' b ∧ n'.parentStack = n.parentStack := by
  obtain ⟨hchild, tail, htriplets, htail⟩ := hs
  obtain ⟨t, hloop, ht⟩ := loadLoop_eq htail b.rest 0 n.triplet hb.keys
  rw [← htriplets, Nat.zero_add] at hloop
  have hlen := hb.length
  have hload : n.load file b.label = .ok { n with
      offset := b.label, numKeys := b.rest.length, child0 := b.first
      triplet := Node.clearLoop (NODE_ELEMENTS + 1 - b.rest.length) b.rest.length t } := by
    rw [Node.load, hslot]
    dsimp only
    rw [hloop, hchild]
  refine ⟨_, hload, ⟨rfl, rfl, rfl, ?_⟩, rfl⟩
  intro i hi
  dsimp only
  rw [clearLoop_eq, ht, Nat.zero_add, Nat.sub_zero, NODE_ELEMENTS]
  rcases Nat.lt_or_ge i b.rest.length with hlt | hge
  · rw [if_neg (by omega), if_pos (by omega)]
  · rw [if_pos (by lia), tripletAt_of_le hge]

/-- What is written can be read. -/
theorem Shows.heldBy {b : Stored} (h : Shows n b) (hlen : b.rest.length ≤ 8) :
    HeldBy b ⟨n.child0, (List.range NODE_ELEMENTS).map n.triplet⟩ := by
  refine ⟨h.child0, List.replicate (8 - b.rest.length) .zero, ?_, ?_⟩
  · apply List.ext_getElem?
    intro i
    have hmax : NODE_ELEMENTS = 8 := rfl
    rw [List.getElem?_map, List.getElem?_append, List.length_map, List.getElem?_map,
      List.getElem?_replicate]
    rcases Nat.lt_or_ge i NODE_ELEMENTS with hi | hi
    · rw [List.getElem?_range hi, Option.map_some, h.triplet i (by omega)]
      rcases Nat.lt_or_ge i b.rest.length with hlt | hge
      · rw [if_pos hlt, tripletAt, List.getElem?_eq_getElem hlt]
        rfl
      · rw [if_neg (by omega), if_pos (by omega), tripletAt_of_le hge]
    · rw [List.getElem?_eq_none (by rw [List.length_range]; exact hi), if_neg (by omega),
        if_neg (by omega), Option.map_none]
  · intro x hx
    obtain rfl := List.eq_of_mem_replicate (List.mem_of_mem_head? hx)
    exact le_refl _

theorem Shows.save {b : Stored} (h : Shows n b) {file : IndexFile}
    (hrange : 0 ≤ b.label ∧ b.label + NODE_SIZE ≤ 2147483647) : n.save file =
      .ok (file.write b.label ⟨n.child0, (List.range NODE_ELEMENTS).map n.triplet⟩) := by
  rw [Node.save, h.offset, if_pos hrange]

end

/-! ## Around one child -/

section
open BTree.Node (fill length_before fill_cons)
variable {n : Node} {p u : Int} {l : List (Int × (Int × Int))} {r : List ((Int × Int) × Int)}
  {x : (Int × Int) × Int}

theorem Shows.child_at (h : Shows n (fill p l u r)) (hl : l.length ≤ 9) :
    n.child l.length = u := by
  cases l with
  | nil => exact h.child0
  | cons y l =>
    obtain ⟨c, e⟩ := y
    rw [List.length_cons] at hl
    rw [fill_cons, fill, ← List.singleton_append] at h
    have hx := h.triplet_at (by rw [length_before]; omega)
    rw [length_before] at hx
    exact congrArg Triplet.child hx

theorem Shows.next_at (h : Shows n (fill p l u (x :: r))) (hl : l.length < 9) :
    n.triplet l.length = tripletOf x := by
  have hx := h.triplet_at (by rw [length_before]; exact hl)
  rw [length_before] at hx
  exact hx

theorem Shows.end_at (h : Shows n (fill p l u [])) (hl : l.length < 9) :
    n.triplet l.length = .zero := by
  rw [h.triplet _ hl, tripletAt_of_le]
  rw [BTree.Node.length_rest_fill, List.length_nil, Nat.add_zero]

theorem Shows.addKey_at (h : Shows n (fill p l u r)) (e : Int × Int) (c : Int) :
    Shows (n.addKey e.1 e.2 c l.length) (fill p l u ((e, c) :: r)) := by
  have hadd := h.addKey e.1 e.2 c
  rw [length_before] at hadd
  exact hadd

theorem Shows.deleteKey_at (h : Shows n (fill p l u (x :: r))) (hlen : l.length + r.length < 8) :
    Shows (n.deleteKey l.length) (fill p l u r) := by
  have hdelete := h.deleteKey (by rw [length_before]; exact hlen)
  rw [length_before] at hdelete
  exact hdelete

theorem Shows.set_at (h : Shows n (fill p l u (x :: r))) (y : (Int × Int) × Int) :
    Shows (n.set l.length (tripletOf y)) (fill p l u (y :: r)) := by
  have hset := h.set y
  rw [length_before] at hset
  exact hset

/-- The children in front of a position. -/
theorem Shows.child_mem (h : Shows n (fill p l u r)) (hl : l.length ≤ 9) {j : Nat}
    (hj : j < l.length) : n.child j ∈ l.map Prod.fst := by
  induction l generalizing u r with
  | nil => exact absurd hj (Nat.not_lt_zero j)
  | cons y l ih =>
    obtain ⟨c, e⟩ := y
    rw [List.length_cons] at hl hj
    rw [fill_cons] at h
    rw [List.map_cons]
    rcases Nat.lt_succ_iff_lt_or_eq.1 hj with hlt | rfl
    · exact List.mem_cons_of_mem _ (ih h (by omega) hlt)
    · rw [h.child_at (by omega)]
      exact List.mem_cons_self ..

theorem findChild_eq {offset : Int} {k : Nat} (hk : n.child k = offset) :
    ∀ (left i : Nat), i ≤ k → k ≤ i + left → (∀ j < k, n.child j ≠ offset) →
    n.findChild offset left i = k
  | 0, i, hi, hle, _ => by
    rw [Node.findChild]
    omega
  | left + 1, i, hi, hle, hne => by
    rw [Node.findChild]
    by_cases hik : i = k
    · rw [hik, if_pos hk]
    · rw [if_neg (hne i (by omega)), findChild_eq hk left (i + 1) (by omega) (by omega) hne]

/-- The search for a child among the children of its parent. -/
theorem Shows.findChild (h : Shows n (fill p l u r)) (hu : u ∉ l.map Prod.fst) {left : Nat}
    (hl : l.length ≤ left) (hleft : left ≤ 9) : n.findChild u left 0 = l.length := by
  apply findChild_eq (h.child_at (by omega)) left 0 (Nat.zero_le _) (by omega)
  intro j hj heq
  have hmem := h.child_mem (by omega) hj
  rw [heq] at hmem
  exact hu hmem

end

end FroggyKVM.TreeIndex
