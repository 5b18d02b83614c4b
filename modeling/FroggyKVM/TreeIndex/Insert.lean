/-
# FroggyKVM.TreeIndex.Insert — adding an entry to the tree.

`updateLoop` walks up the stack of parents, which is an induction over the context of the node: at
each level the file holds the node as it was, all its children and the new one, and the rest of the
tree.  What is left in the end is a tree with the new entry in its place.
-/
import FroggyKVM.TreeIndex.Search

namespace FroggyKVM.TreeIndex

open BTree (Subtree Ctx Spot)
open BTree.Node (fill left right)

/-- What an operation leaves: the file holds a tree in shape with the entries `es`.  If an offset is
returned, it is the new root, and `lost` is in limbo. -/
def Rebuilt (root cap : Int) (es : List (Int × Int)) (oldRoot : Int) (lost : Multiset Int)
    (res : IndexFile × Int) : Prop :=
  ∃ H, ∃ t : IdTree H, ∃ free,
    Holds root cap res.1 (t.nodes 0) free (if 0 < res.2 then lost else 0) ∧
    t.Rooted (NODE_ELEMENTS / 2) ∧ t.entries = es ∧
    t.root 0 = if 0 < res.2 then res.2 else oldRoot

section
variable {root cap : Int} {file : IndexFile} {M : Multiset Stored} {free : List Int} {n : Node}

/-! ## Splitting -/

theorem splitNode_spec {b₀ : Stored} {f : Int} {a b : List ((Int × Int) × Int)}
    {x : (Int × Int) × Int} (hfile : Holds root cap file (b₀ ::ₘ M) free 0)
    (hn : Shows n ⟨b₀.label, f, a ++ x :: b⟩) (ha : a.length = 4) (hb : b.length = 4)
    (hkeys : ∀ y ∈ a ++ x :: b, 0 < y.1.1) :
    Ends (splitNode file n) (OutOfSpace (cap + NODE_SIZE)) fun res =>
      res.2.2.1 = tripletOf x ∧ Shows res.2.1 ⟨b₀.label, f, a⟩ ∧
      res.2.1.parentStack = n.parentStack ∧ ∃ free', Holds root (cap + NODE_SIZE) res.1
        (⟨res.2.2.2, x.2, b⟩ ::ₘ ⟨b₀.label, f, a⟩ ::ₘ M) free' 0 := by
  obtain ⟨file₁, q, halloc, hor⟩ := hfile.allocateNode
  have hmid : n.triplet (NODE_ELEMENTS / 2) = tripletOf x := by
    have hx := hn.triplet_at (by omega)
    rw [ha] at hx
    exact hx
  obtain ⟨n₁, n₂, hsplit, hn₁, hn₂, hstack⟩ := split_shows hn ha hb q
  have hsplit' : splitLoop (n.set (NODE_ELEMENTS / 2) .zero)
      { Node.new.init q with child0 := (tripletOf x).child } = (n₁, n₂) := hsplit
  rw [splitNode]
  refine Ends.bind_ok halloc ?_
  dsimp only
  rw [hmid, hsplit']
  dsimp only
  rw [List.forall_mem_append, List.forall_mem_cons] at hkeys
  have hlabel : 0 < b₀.label := (hfile.loadable b₀ (Multiset.mem_cons_self ..)).label
  have hleft : Loadable ⟨b₀.label, f, a⟩ := ⟨hlabel, by dsimp only; omega, hkeys.1⟩
  rcases hor with ⟨free', hfile₁⟩ | ⟨hfull, hq⟩
  · -- both nodes are saved
    have hright : Loadable ⟨q, x.2, b⟩ := by
      refine ⟨?_, by dsimp only; omega, hkeys.2.2⟩
      have hrange := hfile₁.limbo_inRange
      dsimp only
      omega
    obtain ⟨file₂, hsave₂, hfile₂⟩ := hfile₁.resave hn₁ rfl hleft
    obtain ⟨file₃, hsave₃, hfile₃⟩ := Holds.save (b := ⟨q, x.2, b⟩) hfile₂ hn₂ hright
    refine Ends.bind_ok hsave₂ (Ends.bind_ok hsave₃ ⟨rfl, hn₁, hstack, free', ?_⟩)
    rw [show n₂.offset = q from hn₂.offset]
    exact hfile₃
  · -- the right node does not fit into the file
    have hq₂ : n₂.offset = q := hn₂.offset
    refine Ends.bind ((save_ends ..).mono (fun _ he => ⟨he, by omega⟩) fun _ => id) fun file₂ _ => ?_
    rw [save_outside (by dsimp only; omega)]
    exact ⟨rfl, by omega⟩

theorem growRoot_spec {lc rc : Int} {midpoint : Triplet} (hfile : Holds root cap file M free 0)
    (hkey : 0 < midpoint.key) (n : Node) :
    Ends (growRoot file n lc midpoint rc) (OutOfSpace (cap + NODE_SIZE)) fun res =>
      0 < res.2 ∧ ∃ free', Holds root (cap + NODE_SIZE) res.1
        (⟨res.2, lc, [((midpoint.key, midpoint.value), rc)]⟩ ::ₘ M) free' 0 := by
  obtain ⟨file₁, q, halloc, hor⟩ := hfile.allocateNode
  rw [growRoot]
  refine Ends.bind_ok halloc ?_
  dsimp only
  have hadd : Shows ({ ({ n.init q with child0 := lc } : Node).set 0
      ⟨midpoint.key, midpoint.value, rc⟩ with numKeys := 1 })
      ⟨q, lc, [((midpoint.key, midpoint.value), rc)]⟩ :=
    (shows_init n q lc).addKey (a := []) midpoint.key midpoint.value rc
  rcases hor with ⟨free', hfile₁⟩ | ⟨hfull, hq⟩
  · have hpos : 0 < q := by
      have hrange := hfile₁.limbo_inRange
      omega
    have hload : Loadable ⟨q, lc, [((midpoint.key, midpoint.value), rc)]⟩ := by
      refine ⟨hpos, Nat.le_add_left 1 7, ?_⟩
      intro y hy
      rw [List.mem_singleton.1 hy]
      exact hkey
    -- the number of keys is not set, and not saved
    obtain ⟨file₂, hsave, hfile₂⟩ := hfile₁.save hadd hload
    exact Ends.bind_ok hsave ⟨hpos, free', hfile₂⟩
  · have hoffset : (({ n.init q with child0 := lc } : Node).set 0
        ⟨midpoint.key, midpoint.value, rc⟩).offset = q := rfl
    rw [save_outside (by rw [hoffset]; exact hfull)]
    exact ⟨rfl, by omega⟩

/-- The tree with a new root. -/
theorem growRoot_rebuilt {h : Nat} {lt rt : IdTree (h + 1)} {e : Int × Int} {c o : Int}
    (hfile : Holds root cap file (lt.nodes 0 + rt.nodes 0) free 0) (hkey : 0 < e.1)
    (hlt : lt.Filled 4) (hrt : rt.Filled 4) (n : Node) :
    Ends (growRoot file n (lt.root 0) ⟨e.1, e.2, c⟩ (rt.root 0)) (OutOfSpace (cap + NODE_SIZE))
      (Rebuilt root (cap + NODE_SIZE) (lt.entries ++ e :: rt.entries) o 0) := by
  refine (growRoot_spec hfile hkey n).mono (fun _ => id) ?_
  rintro ⟨file', q⟩ ⟨hpos, free', hfile'⟩
  refine ⟨h + 2, .node ⟨q, lt, [(e, rt)]⟩, free', ?_, ?_, ?_, (if_pos hpos).symm⟩
  · rw [ite_self, Subtree.nodes_node, BTree.Node.sum, List.map_cons, List.map_nil, List.sum_singleton]
    exact hfile'
  · refine ⟨Nat.le_add_left 1 7, fun _ => Nat.one_pos, hlt, fun y hy => ?_⟩
    rw [List.mem_singleton.1 hy]
    exact hrt
  · rw [Subtree.entries_node, BTree.Node.flat, right, List.flatMap_singleton]

/-! ## Adding an entry -/

/-- Where an entry is added, the child behind it comes along. -/
theorem Shows.insert {h : Nat} {p : Int} {l : List (IdTree h × (Int × Int))} {u : IdTree h}
    {r : List ((Int × Int) × IdTree h)} (hn : Shows n (storedParent p l (u.root 0) r))
    (e : Int × Int) (c : IdTree h) : Shows (n.addKey e.1 e.2 (c.root 0) l.length)
      (toStored (fill p l u ((e, c) :: r))) := by
  have hadd := hn.addKey_at e (c.root 0)
  rw [List.length_map] at hadd
  rw [toStored_fill]
  exact hadd

/-- The last key tells whether a node has overflowed. -/
theorem Shows.key_last {b : Stored} (hn : Shows n b) (hkeys : ∀ x ∈ b.rest, 0 < x.1.1) :
    n.key NODE_ELEMENTS = 0 ↔ b.rest.length ≤ 8 := by
  have htriplet := hn.triplet NODE_ELEMENTS (by decide)
  rw [Node.key, htriplet]
  constructor
  · intro hzero
    by_contra hlt
    have hget : NODE_ELEMENTS < b.rest.length := Nat.not_le.1 hlt
    rw [tripletAt, List.getElem?_eq_getElem hget] at hzero
    exact (hkeys _ (List.getElem_mem hget)).ne' hzero
  · intro hle
    have hzero : tripletAt b.rest NODE_ELEMENTS = .zero := tripletAt_of_le hle
    rw [hzero]
    rfl

theorem popParent_nil (h : n.parentStack = []) : n.popParent = (0, n) := by
  rw [Node.popParent, h]

theorem popParent_cons {q : Int} {stack : List Int} (h : n.parentStack = q :: stack) :
    n.popParent = (q, { n with parentStack := stack }) := by
  rw [Node.popParent, h]

/-- A node of nine entries has a middle. -/
theorem exists_middle {α : Type} {m : List α} (h : m.length = 9) :
    ∃ a x b, m = a ++ x :: b ∧ a.length = 4 ∧ b.length = 4 := by
  refine ⟨m.take 4, m[4], m.drop 5, ?_, ?_, ?_⟩
  · rw [← List.drop_eq_getElem_cons, List.take_append_drop]
  · rw [List.length_take, h]
    rfl
  · rw [List.length_drop, h]

/-- A node of nine entries in memory becomes two trees in the file. -/
theorem splitNode_trees {h : Nat} {m : BTree.Node Int (Int × Int) (IdTree h)} {b₀ : Stored}
    (hfile : Holds root cap file (b₀ ::ₘ (m.sum (Subtree.nodes 0) + M)) free 0)
    (hb₀ : b₀.label = m.label) (hn : Shows n (toStored m)) (hlen : m.rest.length = 9)
    (hkeys : ∀ y ∈ m.rest, 0 < y.1.1) (hkids : m.Kids (Subtree.Filled 4)) :
    Ends (splitNode file n) (OutOfSpace (cap + NODE_SIZE)) fun res =>
      ∃ lt rt : IdTree (h + 1), ∃ e : Int × Int, ∃ c, ∃ free', lt.Filled 4 ∧ rt.Filled 4 ∧
        0 < e.1 ∧ lt.root 0 = m.label ∧ lt.entries ++ e :: rt.entries = m.flat Subtree.entries ∧
        res.2.2.1 = ⟨e.1, e.2, c⟩ ∧ res.2.2.2 = rt.root 0 ∧ res.2.1.offset = lt.root 0 ∧
        res.2.1.parentStack = n.parentStack ∧
        Holds root (cap + NODE_SIZE) res.1 (lt.nodes 0 + rt.nodes 0 + M) free' 0 := by
  obtain ⟨p, f, rest⟩ := m
  obtain rfl : b₀.label = p := hb₀
  obtain ⟨a, x, b, rfl, ha, hb⟩ := exists_middle hlen
  rw [toStored, BTree.Node.map, List.map_append, List.map_cons] at hn
  have hkeys' : ∀ y ∈ a.map (fun y => (y.1, y.2.root 0)) ++ (x.1, x.2.root 0) ::
      b.map (fun y => (y.1, y.2.root 0)), 0 < y.1.1 := by
    rw [← List.map_cons (f := fun y : (Int × Int) × IdTree h => (y.1, y.2.root 0)),
      ← List.map_append]
    intro y hy
    obtain ⟨z, hz, rfl⟩ := List.mem_map.1 hy
    exact hkeys z hz
  refine (splitNode_spec hfile hn (by rw [List.length_map, ha]) (by rw [List.length_map, hb])
    hkeys').mono (fun _ => id) ?_
  rintro ⟨file', n', mid, q⟩ ⟨hmid, hn', hstack, free', hfile'⟩
  obtain ⟨hlkids, hrkids⟩ := (BTree.Node.kids_append q).1 hkids
  refine ⟨.node ⟨b₀.label, f, a⟩, .node ⟨q, x.2, b⟩, x.1, _, free',
    ⟨ha.ge, ha.le.trans (Nat.le_add_left 4 4), hlkids⟩,
    ⟨hb.ge, hb.le.trans (Nat.le_add_left 4 4), hrkids⟩,
    hkeys x (List.mem_append_right _ (List.mem_cons_self ..)), rfl,
    (BTree.Node.flat_append _ q).symm, hmid, rfl, hn'.offset, hstack, ?_⟩
  have hsum : (⟨q, x.2.root 0, b.map fun y => (y.1, y.2.root 0)⟩ ::ₘ
      ⟨b₀.label, f.root 0, a.map fun y => (y.1, y.2.root 0)⟩ ::ₘ
        (BTree.Node.sum (Subtree.nodes 0) ⟨b₀.label, f, a ++ x :: b⟩ + M) : Multiset Stored) =
      (Subtree.node ⟨b₀.label, f, a⟩).nodes 0 + (Subtree.node ⟨q, x.2, b⟩).nodes 0 + M := by
    rw [BTree.Node.sum_append _ q, Subtree.nodes_node, Subtree.nodes_node]
    simp only [← Multiset.singleton_add, BTree.Node.map]
    abel
  rw [← hsum]
  exact hfile'

/-- The loop of `updateKey` at a node that the file holds as it was, `b₀`. -/
theorem updateLoop_spec : ∀ (fuel : Nat) {h H : Nat} (c : IdCtx (h + 1) H) {cap : Int}
    {file : IndexFile} {free : List Int} {n : Node} {p : Int} {l : List (IdTree h × (Int × Int))}
    {u : IdTree h} {r : List ((Int × Int) × IdTree h)} {e : Int × Int} {t : IdTree h} {b₀ : Stored},
    c.path.length < fuel →
    Holds root cap file
      (b₀ ::ₘ ((fill p l u ((e, t) :: r)).sum (Subtree.nodes 0) + c.others 0 p)) free 0 →
    b₀.label = p → Shows n (storedParent p l (u.root 0) r) → n.parentStack = c.path →
    Loadable (storedParent p l (u.root 0) r) → 0 < e.1 → c.Fits 4 →
    (fill p l u ((e, t) :: r)).Kids (Subtree.Filled 4) →
    (c.isTop = false → 4 ≤ l.length + r.length) →
    Ends (updateLoop fuel file n e.1 e.2 (t.root 0) l.length)
      (OutOfSpace (cap + NODE_SIZE * (c.path.length + 2)))
      (Rebuilt root (cap + NODE_SIZE * (c.path.length + 2))
        (c.before ++ ((fill p l u ((e, t) :: r)).flat Subtree.entries ++ c.after)) (c.rootOf p) 0)
  | 0, _, _, _, _, _, _, _, _, _, _, _, _, _, _, hfuel, _, _, _, _, _, _, _, _, _ =>
    absurd hfuel (Nat.not_lt_zero _)
  | fuel + 1, h, H, c, cap, file, free, n, p, l, u, r, e, t, b₀, hfuel, hfile, hb₀, hn, hstack,
      hload, hkey, hfits, hkids, hleast => by
    have hadd := hn.insert e t
    obtain ⟨hp, hlen, hlkeys, hrkeys⟩ := loadable_storedParent.1 hload
    have hsize : (fill p l u ((e, t) :: r)).rest.length = l.length + r.length + 1 := by
      rw [BTree.Node.length_rest_fill, List.length_cons]
      rfl
    have hkeys : ∀ y ∈ (fill p l u ((e, t) :: r)).rest, 0 < y.1.1 := by
      rw [BTree.Node.forall_rest_fill (Q := fun e : Int × Int => 0 < e.1), List.forall_mem_cons]
      exact ⟨hlkeys, hkey, hrkeys⟩
    have hkeys' : ∀ y ∈ (toStored (fill p l u ((e, t) :: r))).rest, 0 < y.1.1 := by
      intro y hy
      obtain ⟨z, hz, rfl⟩ := List.mem_map.1 hy
      exact hkeys z hz
    have hlast := hadd.key_last hkeys'
    rw [toStored, BTree.Node.map, List.length_map, hsize] at hlast
    rw [updateLoop, if_neg (not_le.2 hkey)]
    by_cases hle : l.length + r.length + 1 ≤ 8
    · -- the node has room
      rw [if_pos (hlast.2 hle)]
      obtain ⟨file', hsave, hfile'⟩ := hfile.resave hadd hb₀.symm ⟨hp, by
        rw [toStored, BTree.Node.map, List.length_map, hsize]
        exact hle, hkeys'⟩
      refine Ends.bind_ok hsave ⟨H, c.plug (.node (fill p l u ((e, t) :: r))), free, ?_, ?_, ?_, ?_⟩
      · rw [BTree.Ctx.nodes_plug, Subtree.nodes_node, Multiset.cons_add]
        exact hfile'.mono (by simp only [NODE_SIZE]; lia)
      · rw [BTree.Ctx.rooted_plug _ _ (Nat.succ_pos h)]
        cases htop : c.isTop with
        | true =>
          rw [if_pos rfl, Subtree.rooted_node, hsize]
          exact ⟨hfits, hle, fun _ => Nat.succ_pos _, hkids⟩
        | false =>
          rw [if_neg Bool.false_ne_true, Subtree.filled_node, hsize]
          exact ⟨hfits, (hleast htop).trans (Nat.le_succ _), hle, hkids⟩
      · rw [BTree.Ctx.entries_plug]
        rfl
      · rw [BTree.Ctx.root_plug]
        rfl
    · -- the node is split
      rw [if_neg (fun hzero => hle (hlast.1 hzero))]
      refine Ends.bind ((splitNode_trees hfile hb₀ hadd (hsize.trans (by omega)) hkeys
        hkids).mono (fun _ he => he.mono (by simp only [NODE_SIZE]; omega)) fun _ => id) ?_
      rintro ⟨file₁, n₁, mid, q⟩ ⟨lt, rt, x, y, free₁, hlt, hrt, hxkey, hroot, hflat, hmid, hq,
        hoffset, hstack₁, hfile₁⟩
      dsimp only at hmid hq hoffset hstack₁ hfile₁ ⊢
      obtain rfl : lt.root 0 = p := hroot
      subst hmid hq
      rw [← hflat, hoffset]
      cases c with
      | top =>
        rw [popParent_nil (hstack₁.trans hstack), if_pos rfl]
        have hgrow := growRoot_rebuilt (c := y) (o := lt.root 0) (by
          rw [← add_zero (lt.nodes 0 + rt.nodes 0)]
          exact hfile₁) hxkey hlt hrt n₁
        have hcap : cap + NODE_SIZE + NODE_SIZE = cap + NODE_SIZE * (((0 : Nat) : Int) + 2) := by
          simp only [NODE_SIZE]
          omega
        rw [hcap] at hgrow
        rw [Ctx.before, Ctx.after, List.nil_append, List.append_nil]
        exact hgrow
      | down p' l' r' up =>
        obtain ⟨hl', hr', hwidth, hone, hup⟩ := hfits
        obtain ⟨n₂, hload₂, hn₂, hstack₂⟩ := hfile₁.load_parent { n₁ with parentStack := up.path }
        have hloadable := hfile₁.loadable _ storedParent_mem
        have hne : p' ≠ 0 := ne_of_gt hloadable.label
        rw [popParent_cons (hstack₁.trans hstack)]
        dsimp only
        rw [if_neg hne]
        refine Ends.bind_ok hload₂ ?_
        have hfound : n₂.findChild (lt.root 0) NODE_ELEMENTS 0 = l'.length := by
          have hcons : lt.nodes 0 = toStored lt.toNode ::ₘ lt.toNode.sum (Subtree.nodes 0) := rfl
          rw [hcons, Multiset.cons_add, Multiset.cons_add] at hfile₁
          exact hfile₁.findChild_parent hn₂ (Nat.le_of_add_right_le hwidth) (by decide)
        rw [hfound]
        have hregroup : storedParent p' l' (lt.root 0) r' ::ₘ
            ((fill p' l' lt ((x, rt) :: r')).sum (Subtree.nodes 0) + up.others 0 p') =
            lt.nodes 0 + rt.nodes 0 + Ctx.others 0 (.down p' l' r' up) (lt.root 0) := by
          rw [add_right_comm (lt.nodes 0), Ctx.nodes_add_others, Multiset.cons_add, BTree.Node.sum_fill,
            BTree.Node.sum_fill, List.map_cons, List.sum_cons, storedParent]
          congr 1
          abel
        rw [← hregroup] at hfile₁
        have hnext := updateLoop_spec fuel up (u := lt) (e := x) (t := rt)
          (Nat.lt_of_succ_lt_succ hfuel) hfile₁ rfl hn₂ hstack₂ hloadable hxkey hup
          (BTree.Node.kids_fill.2 ⟨hl', hlt, List.forall_mem_cons.2 ⟨hrt, hr'⟩⟩)
          (fun htop => by rw [htop] at hone; exact hone)
        have hcap : cap + NODE_SIZE + NODE_SIZE * (up.path.length + 2) =
            cap + NODE_SIZE * ((Ctx.down p' l' r' up).path.length + 2) := by
          rw [Ctx.path, List.length_cons]
          simp only [NODE_SIZE]
          omega
        rw [hcap] at hnext
        rw [BTree.Node.flat_fill, right, List.flatMap_cons] at hnext
        rw [Ctx.before, Ctx.after]
        simp only [List.append_assoc, List.cons_append] at hnext ⊢
        exact hnext

end

/-! ## The operation -/

section
variable {es a b : List (Int × Int)} {k v v' : Int}

/-- The entries after an update: the key has the value. -/
def Updated (k v : Int) (es es' : List (Int × Int)) : Prop :=
  Increasing es' ∧ ∀ e, e ∈ es' ↔ e = (k, v) ∨ e ∈ es ∧ e.1 ≠ k

/-- A value is replaced. -/
theorem updated_replace (h : Increasing (a ++ (k, v') :: b)) :
    Updated k v (a ++ (k, v') :: b) (a ++ (k, v) :: b) := by
  obtain ⟨ha, hb, hab⟩ := List.pairwise_append.1 h
  obtain ⟨hk, hb⟩ := List.pairwise_cons.1 hb
  have hleft : ∀ e ∈ a, e.1 ≠ k := fun e he => ne_of_lt (hab e he _ (List.mem_cons_self ..))
  have hright : ∀ e ∈ b, e.1 ≠ k := fun e he => ne_of_gt (hk e he)
  refine ⟨List.pairwise_append.2 ⟨ha, List.pairwise_cons.2 ⟨hk, hb⟩, ?_⟩, fun e => ?_⟩
  · intro x hx y hy
    rcases List.mem_cons.1 hy with rfl | hy
    · exact hab x hx (k, v') (List.mem_cons_self ..)
    · exact hab x hx y (List.mem_cons_of_mem _ hy)
  · simp only [List.mem_append, List.mem_cons]
    constructor
    · rintro (he | rfl | he)
      · exact Or.inr ⟨Or.inl he, hleft e he⟩
      · exact Or.inl rfl
      · exact Or.inr ⟨Or.inr (Or.inr he), hright e he⟩
    · rintro (rfl | ⟨he | rfl | he, hne⟩)
      · exact Or.inr (Or.inl rfl)
      · exact Or.inl he
      · exact absurd rfl hne
      · exact Or.inr (Or.inr he)

/-- An entry is added. -/
theorem updated_add (h : Increasing (a ++ b)) (ha : ∀ e ∈ a, e.1 < k) (hb : ∀ e ∈ b, k < e.1) :
    Updated k v (a ++ b) (a ++ (k, v) :: b) := by
  obtain ⟨hinca, hincb, hab⟩ := List.pairwise_append.1 h
  refine ⟨List.pairwise_append.2 ⟨hinca, List.pairwise_cons.2 ⟨hb, hincb⟩, ?_⟩, fun e => ?_⟩
  · intro x hx y hy
    rcases List.mem_cons.1 hy with rfl | hy
    · exact ha x hx
    · exact hab x hx y hy
  · simp only [List.mem_append, List.mem_cons]
    constructor
    · rintro (he | rfl | he)
      · exact Or.inr ⟨Or.inl he, ne_of_lt (ha e he)⟩
      · exact Or.inl rfl
      · exact Or.inr ⟨Or.inr he, ne_of_gt (hb e he)⟩
    · rintro (rfl | ⟨he | he, -⟩)
      · exact Or.inr (Or.inl rfl)
      · exact Or.inl he
      · exact Or.inr (Or.inr he)

end

section
variable {file : IndexFile} {h : Nat} {t : IdTree (h + 1)} {free : List Int} {n : Node}

theorem Rebuilt.mono {root cap cap' oldRoot : Int} {es : List (Int × Int)} {lost : Multiset Int}
    {res : IndexFile × Int} (hres : Rebuilt root cap es oldRoot lost res) (hcap : cap ≤ cap') :
    Rebuilt root cap' es oldRoot lost res := by
  obtain ⟨H, t, free, hfile, hrest⟩ := hres
  exact ⟨H, t, free, hfile.mono hcap, hrest⟩

/-- A tree left behind without a new root, or with one. -/
theorem Rebuilt.wellFormed {root cap : Int} {es : List (Int × Int)} {res : IndexFile × Int}
    (hres : Rebuilt root cap es root 0 res) (hinc : Increasing es) : ∃ h', ∃ t' : IdTree (h' + 1),
    ∃ free', WellFormed (if 0 < res.2 then { res.1 with idRoot := res.2 } else res.1) t' free' ∧
      t'.entries = es := by
  obtain ⟨H, t, free, hfile, hrooted, rfl, hroot⟩ := hres
  rw [ite_self] at hfile
  cases H with
  | zero => exact hrooted.elim
  | succ h' =>
    refine ⟨h', t, free, ⟨?_, hrooted, hinc⟩, rfl⟩
    rw [hroot]
    by_cases hpos : 0 < res.2
    · rw [if_pos hpos, if_pos hpos]
      exact (hfile.setRoot res.2).tight
    · rw [if_neg hpos, if_neg hpos]
      exact hfile.tight

/-- An entry in the place of another one. -/
theorem Holds.replace {root cap : Int} {limbo : Multiset Int} {H : Nat} {s : IdSpot H}
    (hfile : Holds root cap file (s.tree.nodes 0) free limbo) (hn : Shows n (toStored s.node))
    {e₀ e : Int × Int} {c : IdTree s.h} {r : List ((Int × Int) × IdTree s.h)}
    (hr : s.right = (e₀, c) :: r) (he : 0 < e.1) :
    ∃ file', (n.set s.left.length ⟨e.1, e.2, c.root 0⟩).save file = .ok file' ∧
      Holds root cap file' ((s.replace e c r).tree.nodes 0) free limbo := by
  have hload := hfile.spot_loadable (le_refl _)
  rw [Spot.node, toStored_fill, loadable_storedParent, hr, List.forall_mem_cons] at hload
  obtain ⟨hp, hlen, hl, -, hrest⟩ := hload
  have hshow : Shows (n.set s.left.length ⟨e.1, e.2, c.root 0⟩)
      (toStored (s.replace e c r).node) := by
    rw [Spot.node, hr, toStored_fill] at hn
    have hset := hn.set_at (e, c.root 0)
    rw [List.length_map] at hset
    rw [Spot.node, toStored_fill]
    exact hset
  have hload' : Loadable (toStored (s.replace e c r).node) := by
    rw [Spot.node, toStored_fill, loadable_storedParent, List.forall_mem_cons]
    exact ⟨hp, hlen, hl, he, hrest⟩
  rw [s.nodes_tree] at hfile
  rw [s.nodes_replace 0 hr]
  exact hfile.resave hshow rfl hload'

/-- A key in the tree gets another value. -/
theorem update_found {s : IdSpot (h + 1)} (hw : WellFormed file s.tree free) (hn : AtSpot n s)
    {k v₀ : Int} {c : IdTree s.h} {r : List ((Int × Int) × IdTree s.h)}
    (hr : s.right = ((k, v₀), c) :: r) (v : Int) : ∃ es, 0 < k ∧ Updated k v s.tree.entries es ∧
      ∃ file', (n.set s.left.length ⟨k, v, c.root 0⟩).save file = .ok file' ∧
        Rebuilt (s.tree.root 0) file.size es (s.tree.root 0) 0 (file', 0) := by
  have hload := hw.holds.spot_loadable (le_refl _)
  rw [Spot.node, toStored_fill, loadable_storedParent, hr, List.forall_mem_cons] at hload
  have hpos : 0 < k := hload.2.2.2.1
  have hentries := s.entries_tree
  rw [s.after_cons hr, ← List.append_assoc] at hentries
  have hinc := hw.increasing
  rw [hentries] at hinc
  obtain ⟨file', hsave, hfile'⟩ := hw.holds.replace hn.1 hr (e := (k, v)) hpos
  have hentries' := (s.replace (k, v) c r).entries_tree
  rw [(s.replace (k, v) c r).after_cons rfl, ← List.append_assoc] at hentries'
  refine ⟨_, hpos, hentries ▸ updated_replace (v := v) hinc, file', hsave, h + 1,
    (s.replace (k, v) c r).tree, free, hfile', (s.rooted_replace hr).2 hw.rooted, hentries',
    s.root_replace 0⟩

/-- A key is added to a leaf. -/
theorem update_absent {s : IdSpot (h + 1)} (hw : WellFormed file s.tree free) (hn : AtSpot n s)
    {k : Int} (hs : BelongsAt k s) (hpos : 0 < k) (v : Int) : ∃ es, Updated k v s.tree.entries es ∧
      Ends (updateLoop (n.parentStack.length + 1) file n k v 0 s.left.length)
        (OutOfSpace (file.size + NODE_SIZE * (h + 2)))
        (Rebuilt (s.tree.root 0) (file.size + NODE_SIZE * (h + 2)) es (s.tree.root 0) 0) := by
  obtain ⟨hzero, hbefore, hafter⟩ := hs
  have hentries := s.entries_tree
  have hinc := hw.increasing
  obtain ⟨hfits, hkids, -, hleast, -⟩ := s.rooted_tree.1 hw.rooted
  have hfile := hw.holds
  rw [s.nodes_tree] at hfile
  have hpath := s.ctx.length_path
  have hload := hw.holds.spot_loadable (le_refl _)
  have hshow := hn.1
  have hstack := hn.2
  obtain ⟨h', c, p, l, u, r⟩ := s
  obtain rfl : h' = 0 := hzero
  dsimp only at hfits hkids hleast hpath hstack ⊢
  rw [show u.entries = [] from rfl, List.nil_append] at hentries
  rw [hentries] at hinc ⊢
  let leaf : IdTree 0 := PUnit.unit
  have hsum : (fill p l u (((k, v), leaf) :: r)).sum (Subtree.nodes 0) =
      (fill p l u r).sum (Subtree.nodes 0) := by
    rw [BTree.Node.sum_fill, BTree.Node.sum_fill, List.map_cons, List.sum_cons,
      show leaf.nodes 0 = 0 from rfl, zero_add]
  rw [Spot.node, toStored_fill] at hshow hload
  rw [Spot.node] at hfile
  dsimp only at hfile hshow hload
  rw [← hsum] at hfile
  have hloop := updateLoop_spec (n.parentStack.length + 1) c (e := (k, v)) (t := leaf)
    (by rw [hstack]; exact Nat.lt_succ_self _) hfile rfl hshow hstack hload hpos hfits
    (BTree.Node.kids_fill.2 ⟨fun x _ => trivial, trivial, fun x _ => trivial⟩) hleast
  have hdepth : c.path.length = h := by omega
  have hes : c.before ++ ((fill p l u (((k, v), leaf) :: r)).flat Subtree.entries ++ c.after) =
      Spot.before ⟨0, c, p, l, u, r⟩ ++ (k, v) :: Spot.after ⟨0, c, p, l, u, r⟩ := by
    rw [BTree.Node.flat_fill, right, List.flatMap_cons, show u.entries = [] from rfl,
      show leaf.entries = [] from rfl, Spot.before, Spot.after, right]
    simp only [List.append_assoc, List.nil_append, List.cons_append]
  rw [hdepth, hes] at hloop
  refine ⟨_, updated_add (v := v) hinc hbefore hafter, ?_⟩
  rw [show (Spot.tree ⟨0, c, p, l, u, r⟩).root 0 = c.rootOf p from Ctx.root_plug ..] at hloop ⊢
  exact hloop

/-- The tree as it was. -/
theorem WellFormed.rebuilt (hw : WellFormed file t free) {file' : IndexFile} {cap : Int}
    {lost : Multiset Int} (hfile : Holds (t.root 0) cap file' (t.nodes 0) free 0) :
    Rebuilt (t.root 0) cap t.entries (t.root 0) lost (file', 0) :=
  ⟨h + 1, t, free, hfile, hw.rooted, rfl, rfl⟩

/-- What is read where a key belongs is another one, unless the tree is empty and the key is 0. -/
theorem BelongsAt.keyless {s : IdSpot (h + 1)} {k : Int} (hs : BelongsAt k s)
    (hw : WellFormed file s.tree free) (hn : AtSpot n s) (hkey : n.key s.left.length = k) :
    k = 0 ∧ s.left = [] ∧ s.right = [] := by
  obtain ⟨hzero, hbefore, hafter⟩ := hs
  have htriplet := hn.1.spot_triplet (hw.holds.spot_length (le_refl _))
  have hload := hw.holds.spot_loadable (le_refl _)
  rw [Spot.node, toStored_fill, loadable_storedParent] at hload
  cases hr : s.right with
  | cons x r =>
    -- the next key is greater
    rw [hr] at htriplet
    have hx : n.key s.left.length = x.1.1 := congrArg Triplet.key htriplet
    have hgt := hafter x.1 (by
      rw [s.after_cons (e := x.1) (c := x.2) hr]
      exact List.mem_cons_self ..)
    rw [← hkey, hx] at hgt
    exact absurd hgt (lt_irrefl _)
  | nil =>
    rw [hr] at htriplet
    obtain rfl : k = 0 := hkey.symm.trans (congrArg Triplet.key htriplet)
    refine ⟨rfl, ?_, rfl⟩
    cases hl : s.left with
    | nil => rfl
    | cons x l =>
      have hpos : 0 < x.2.1 := hload.2.2.1 x (by rw [hl]; exact List.mem_cons_self ..)
      have hneg := hbefore x.2 (by
        rw [Spot.before, hl, left]
        exact List.mem_append_right _ (List.mem_append_right _
          (List.mem_append_right _ (List.mem_singleton_self _))))
      exact absurd hneg (not_lt.2 hpos.le)

/-- A key that is not positive, in place of the keys of an empty node. -/
theorem update_keyless {s : IdSpot (h + 1)} (hw : WellFormed file s.tree free) (hn : AtSpot n s)
    {k : Int} (hs : BelongsAt k s) (hkey : n.key s.left.length = k) (v : Int) : ¬ 0 < k ∧
      ∃ file', (n.set s.left.length { n.triplet s.left.length with value := v }).save file =
        .ok file' ∧ Rebuilt (s.tree.root 0) file.size s.tree.entries (s.tree.root 0) 0 (file', 0) := by
  have htriplet := hn.1.spot_triplet (hw.holds.spot_length (le_refl _))
  obtain ⟨rfl, hleft, hr⟩ := hs.keyless hw hn hkey
  rw [hr] at htriplet
  have hfile := hw.holds
  rw [s.nodes_tree] at hfile
  have hempty : (toStored s.node).rest = [] := by
    rw [toStored, Spot.node, hleft, hr]
    rfl
  obtain ⟨file', hsave, hfile'⟩ := hfile.save_keyless hn.1 hempty v 0
  refine ⟨lt_irrefl _, file', ?_, hw.rebuilt (s.nodes_tree 0 ▸ hfile')⟩
  rw [htriplet, hleft]
  exact hsave

/-! ## The operation -/

/-- **Updating a key.** -/
theorem WellFormed.updateKey (hw : WellFormed file t free) (hn : AtSpot n (rootSpot t))
    (k v : Int) : ∃ es, (if 0 < k then Updated k v t.entries es else es = t.entries) ∧
      Ends (TreeIndex.updateKey file n k v) (OutOfSpace (file.size + NODE_SIZE * (h + 2)))
        (Rebuilt (t.root 0) (file.size + NODE_SIZE * (h + 2)) es (t.root 0) 0) := by
  obtain ⟨n', s, hfind, rfl, hn', hor⟩ := hw.find hn k
  have hcap : file.size ≤ file.size + NODE_SIZE * (h + 2) := by
    simp only [NODE_SIZE]
    omega
  have hstart : TreeIndex.updateKey file n k v =
      if n'.key s.left.length = k then
        (n'.set s.left.length { n'.triplet s.left.length with value := v }).save file >>=
          fun file => .ok (file, 0)
      else updateLoop (n'.parentStack.length + 1) file n' k v 0 s.left.length := by
    rw [TreeIndex.updateKey, hfind]
    rfl
  rw [hstart]
  rcases hor with ⟨v₀, c, r, hr⟩ | hbelongs
  · have htriplet := hn'.1.spot_triplet (hw.holds.spot_length (le_refl _))
    rw [hr] at htriplet
    obtain ⟨es, hpos, hes, file', hsave, hfile'⟩ := update_found hw hn' hr v
    refine ⟨es, by rw [if_pos hpos]; exact hes, ?_⟩
    have hkey : n'.key s.left.length = k := congrArg Triplet.key htriplet
    rw [if_pos hkey, htriplet]
    exact Ends.bind_ok hsave (hfile'.mono hcap)
  · by_cases hkey : n'.key s.left.length = k
    · obtain ⟨hpos, file', hsave, hfile'⟩ := update_keyless hw hn' hbelongs hkey v
      refine ⟨s.tree.entries, by rw [if_neg hpos], ?_⟩
      rw [if_pos hkey]
      exact Ends.bind_ok hsave (hfile'.mono hcap)
    · rw [if_neg hkey]
      by_cases hpos : 0 < k
      · obtain ⟨es, hes, hends⟩ := update_absent hw hn' hbelongs hpos v
        exact ⟨es, by rw [if_pos hpos]; exact hes, hends⟩
      · refine ⟨s.tree.entries, by rw [if_neg hpos], ?_⟩
        rw [updateLoop, if_pos (not_lt.1 hpos)]
        exact hw.rebuilt (hw.holds.mono hcap)

/-- **Updating a record id** leaves a well-formed index with the entry. -/
theorem WellFormed.updateRecordId (hw : WellFormed file t free) (k v : Int) :
    Ends (TreeIndex.updateRecordId file k v) (OutOfSpace (file.size + NODE_SIZE * (h + 2)))
      fun file' => ∃ h', ∃ t' : IdTree (h' + 1), ∃ free', WellFormed file' t' free' ∧
        if 0 < k then Updated k v t.entries t'.entries else t'.entries = t.entries := by
  obtain ⟨n, hload, hn⟩ := hw.load
  obtain ⟨es, hes, hends⟩ := hw.updateKey hn k v
  have hinc : Increasing es := by
    by_cases hpos : 0 < k
    · rw [if_pos hpos] at hes
      exact hes.1
    · rw [if_neg hpos] at hes
      rw [hes]
      exact hw.increasing
  rw [TreeIndex.updateRecordId]
  refine Ends.bind_ok hload (Ends.bind hends ?_)
  rintro ⟨file', off⟩ hres
  obtain ⟨h', t', free', hw', rfl⟩ := hres.wellFormed hinc
  dsimp only at hw' ⊢
  by_cases hpos : 0 < off
  · rw [if_pos hpos] at hw' ⊢
    exact ⟨h', t', free', hw', hes⟩
  · rw [if_neg hpos] at hw' ⊢
    exact ⟨h', t', free', hw', hes⟩

end

end FroggyKVM.TreeIndex
