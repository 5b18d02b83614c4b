/-
# FroggyKVM.TreeIndex.Delete — removing an entry from the tree.

`rebalanceLoop` walks up the stack of parents as `updateLoop` does.  At each level the node may be
one key short; it is then merged with a sibling, or takes a key from it through the parent.  A node
that is no root is never more than one key short, so the two branches of the code for a parent
without keys below the root and for a sibling that has given too much are not reached.
-/
import FroggyKVM.TreeIndex.Insert

namespace FroggyKVM.TreeIndex

open BTree (Subtree Ctx Spot)
open BTree.Node (fill left right)

section
variable {root cap : Int} {file : IndexFile} {W : Multiset Stored} {free : List Int}
  {limbo : Multiset Int} {n parent sibling : Node} {p : Int} {l : List (Int × (Int × Int))}
  {r : List ((Int × Int) × Int)} {e : Int × Int}

/-! ## Two siblings and their parent -/

/-- **Merging siblings.** -/
theorem mergeSiblings_spec {a b : Node} {s t : Stored}
    (hfile : Holds root cap file (s ::ₘ t ::ₘ W) free limbo) (ha : Shows a s) (hb : Shows b t)
    (hparent : Shows parent (fill p l s.label ((e, t.label) :: r)))
    (hlen : s.rest.length + t.rest.length + 1 ≤ 8) (he : 0 < e.1)
    (hwidth : l.length + r.length < 8) :
    Succeeds (mergeSiblings file a b parent l.length) fun res =>
      Holds root cap res.1 (⟨s.label, s.first, s.rest ++ (e, t.first) :: t.rest⟩ ::ₘ W)
        (t.label :: free) limbo ∧
      res.2.1.offset = s.label ∧ Shows res.2.2 (fill p l s.label r) ∧
      res.2.2.parentStack = parent.parentStack := by
  have hs := hfile.loadable s (Multiset.mem_cons_self ..)
  have ht := hfile.loadable t (Multiset.mem_cons_of_mem (Multiset.mem_cons_self ..))
  have hmid : parent.triplet l.length = ⟨e.1, e.2, t.label⟩ := hparent.next_at (by omega)
  have hmerged := mergeNodes_shows ha hb (by omega) e t.label
  have hload : Loadable ⟨s.label, s.first, s.rest ++ (e, t.first) :: t.rest⟩ := by
    refine ⟨hs.label, ?_, ?_⟩
    · rw [List.length_append, List.length_cons]
      omega
    · rw [List.forall_mem_append, List.forall_mem_cons]
      exact ⟨hs.keys, he, ht.keys⟩
  obtain ⟨file', hsave, hfile'⟩ := hfile.resave hmerged rfl hload
  rw [Multiset.cons_swap] at hfile'
  refine ⟨(file'.freeNode t.label, mergeNodes a b ⟨e.1, e.2, t.label⟩, parent.deleteKey l.length),
    ?_, hfile'.drop.freeNode, hmerged.offset, hparent.deleteKey_at hwidth, rfl⟩
  rw [mergeSiblings, hmid]
  dsimp only
  rw [hsave, hb.offset]
  rfl

/-- A node on the left takes a key from the right. -/
theorem borrowRight_shows {s : Stored} {q g : Int} {x : (Int × Int) × Int}
    {b : List ((Int × Int) × Int)} (hn : Shows n s)
    (hparent : Shows parent (fill p l s.label ((e, q) :: r))) (hl : l.length < 9)
    (hsibling : Shows sibling ⟨q, g, x :: b⟩) (hb : b.length < 8) : ∃ n' parent' sibling',
    borrowRight n parent sibling l.length = (n', parent', sibling') ∧
      Shows n' ⟨s.label, s.first, s.rest ++ [(e, g)]⟩ ∧
      Shows parent' (fill p l s.label ((x.1, q) :: r)) ∧ Shows sibling' ⟨q, x.2, b⟩ ∧
      n'.parentStack = n.parentStack := by
  have hmid : parent.triplet l.length = ⟨e.1, e.2, q⟩ := hparent.next_at hl
  have hkey : parent.key l.length = e.1 := congrArg Triplet.key hmid
  have hvalue : parent.value l.length = e.2 := congrArg Triplet.value hmid
  have hx : sibling.triplet 0 = tripletOf x := hsibling.triplet_at (a := []) (by decide)
  have hxkey : sibling.key 0 = x.1.1 := congrArg Triplet.key hx
  have hxvalue : sibling.value 0 = x.1.2 := congrArg Triplet.value hx
  have hfirst : sibling.child 0 = g := hsibling.child0
  refine ⟨_, _, _, rfl, ?_, ?_, hsibling.deleteFirst hb, rfl⟩
  · rw [hkey, hvalue, hfirst]
    exact hn.addKey_last e.1 e.2 g
  · rw [hmid, hxkey, hxvalue]
    exact hparent.set_at (x.1, q)

/-- A node on the right takes a key from the left. -/
theorem borrowLeft_shows {q f : Int} {rest : List ((Int × Int) × Int)} {s g : Int}
    {x : (Int × Int) × Int} {b : List ((Int × Int) × Int)} (hn : Shows n ⟨q, f, rest⟩)
    (hparent : Shows parent (fill p l s ((e, q) :: r))) (hl : l.length < 9)
    (hsibling : Shows sibling ⟨s, g, b ++ [x]⟩) (hb : b.length < 8) : ∃ n' parent' sibling',
    borrowLeft n parent sibling l.length = (n', parent', sibling') ∧
      Shows n' ⟨q, x.2, (e, f) :: rest⟩ ∧ Shows parent' (fill p l s ((x.1, q) :: r)) ∧
      Shows sibling' ⟨s, g, b⟩ ∧ n'.parentStack = n.parentStack := by
  have hmid : parent.triplet l.length = ⟨e.1, e.2, q⟩ := hparent.next_at hl
  have hkey : parent.key l.length = e.1 := congrArg Triplet.key hmid
  have hvalue : parent.value l.length = e.2 := congrArg Triplet.value hmid
  have hkeys : sibling.numKeys = b.length + 1 := by
    rw [hsibling.numKeys, List.length_append, List.length_singleton]
  have hx : sibling.triplet b.length = tripletOf x := hsibling.triplet_at (by omega)
  have hxkey : sibling.key b.length = x.1.1 := congrArg Triplet.key hx
  have hxvalue : sibling.value b.length = x.1.2 := congrArg Triplet.value hx
  have hxchild : sibling.child (b.length + 1) = x.2 := congrArg Triplet.child hx
  have hfirst : n.child 0 = f := hn.child0
  rw [borrowLeft, hkeys, Nat.add_sub_cancel]
  refine ⟨_, _, _, rfl, ?_, ?_, ?_, rfl⟩
  · rw [hkey, hvalue, hfirst, hxchild]
    exact (hn.addKey (a := []) e.1 e.2 f).first x.2
  · rw [hmid, hxkey, hxvalue]
    exact hparent.set_at (x.1, q)
  · have hdelete := hsibling.deleteKey (by rw [List.length_nil]; lia)
    rw [List.append_nil] at hdelete
    exact hdelete

/-- **Saving two siblings and their parent.** -/
theorem balanceSiblings_spec {onLeft : Bool} {i : Nat} {s s' t t' u u' : Stored}
    (hfile : Holds root cap file (s ::ₘ t ::ₘ u ::ₘ W) free limbo) {n' parent' sibling' : Node}
    (hborrow : (if onLeft then borrowRight n parent sibling i else borrowLeft n parent sibling i) =
      (n', parent', sibling')) (hs : Shows sibling' s') (ht : Shows parent' t') (hu : Shows n' u')
    (hslabel : s'.label = s.label) (htlabel : t'.label = t.label) (hulabel : u'.label = u.label)
    (hsload : Loadable s') (htload : Loadable t') (huload : Loadable u') :
    ∃ file', balanceSiblings file n parent sibling i onLeft =
      .ok (file', n', parent', sibling') ∧
      Holds root cap file' (s' ::ₘ t' ::ₘ u' ::ₘ W) free limbo := by
  obtain ⟨file₁, hsave₁, hfile₁⟩ := hfile.resave hs hslabel hsload
  rw [Multiset.cons_swap] at hfile₁
  obtain ⟨file₂, hsave₂, hfile₂⟩ := hfile₁.resave ht htlabel htload
  rw [Multiset.cons_swap, Multiset.cons_swap t', Multiset.cons_swap s'] at hfile₂
  obtain ⟨file₃, hsave₃, hfile₃⟩ := hfile₂.resave hu hulabel huload
  refine ⟨file₃, ?_, ?_⟩
  · rw [balanceSiblings, hborrow]
    dsimp only
    rw [hsave₁]
    show (parent'.save file₁ >>= fun file => n'.save file >>= fun file => _) = _
    rw [hsave₂]
    show (n'.save file₂ >>= fun file => _) = _
    rw [hsave₃]
    rfl
  · rw [Multiset.cons_swap u', Multiset.cons_swap u'] at hfile₃
    exact hfile₃

end

section
variable {root cap : Int} {file : IndexFile} {X : Multiset Stored} {free : List Int}
  {limbo : Multiset Int} {n parent : Node} {h H : Nat} {p q : Int}
  {l : List (IdTree (h + 1) × (Int × Int))} {r : List ((Int × Int) × IdTree (h + 1))}
  {up : IdCtx (h + 2) H}

/-- The sibling is the nearest one on either side. -/
theorem chooseSibling_spec
    (hfile : Holds root cap file (X + Ctx.others 0 (.down p l r up) q) free limbo)
    (hparent : Shows parent (storedParent p l q r)) (hlen : l.length + r.length ≤ 8)
    (hpos : 0 < l.length + r.length) (n : Node) :
    Succeeds (chooseSibling file n parent l.length) fun res =>
      (∃ s e l', l = (s, e) :: l' ∧ res.2 = l'.length ∧ Shows res.1 (toStored s.toNode)) ∨
      ∃ e s r', r = (e, s) :: r' ∧ res.2 = l.length ∧ Shows res.1 (toStored s.toNode) := by
  -- the sibling on the right
  have hright : ∀ e s r', r = (e, s) :: r' → l.length + 1 < NODE_ELEMENTS + 1 ∧
      0 < parent.child (l.length + 1) ∧ ∀ m : Node, ∃ m',
        m.load file (parent.child (l.length + 1)) = .ok m' ∧ Shows m' (toStored s.toNode) := by
    rintro e s r' rfl
    rw [List.length_cons] at hlen
    have hnext := hparent.next_at (by rw [List.length_map]; omega)
    rw [List.length_map] at hnext
    have hchild : parent.child (l.length + 1) = s.root 0 := congrArg Triplet.child hnext
    have hs : s.nodes 0 ≤ X + Ctx.others 0 (.down p l ((e, s) :: r') up) q :=
      (Ctx.right_le_others 0 (List.mem_cons_self ..) q).trans (Multiset.le_add_left ..)
    rw [hchild]
    refine ⟨by rw [NODE_ELEMENTS]; omega, hfile.root_pos hs, fun m => ?_⟩
    obtain ⟨m', hload, hshow, -⟩ := hfile.load_root hs m
    exact ⟨m', hload, hshow⟩
  have hnone : r = [] → ¬ (l.length + 1 < NODE_ELEMENTS + 1 ∧ 0 < parent.child (l.length + 1)) := by
    rintro rfl ⟨hlt, hchild⟩
    have hend := hparent.end_at (by rw [List.length_map]; exact Nat.lt_of_succ_lt hlt)
    rw [List.length_map] at hend
    exact absurd hchild (by rw [Node.child, hend]; exact lt_irrefl 0)
  rw [chooseSibling]
  cases hl : l with
  | nil =>
    rw [hl] at hright hpos
    cases hr : r with
    | nil =>
      rw [hr] at hpos
      exact absurd hpos (lt_irrefl _)
    | cons x r' =>
      obtain ⟨hlt, hchild, hload⟩ := hright x.1 x.2 r' hr
      obtain ⟨m', hm', hshow⟩ := hload Node.new
      refine ⟨(m', 0), ?_, Or.inr ⟨x.1, x.2, r', rfl, rfl, hshow⟩⟩
      show (if 0 + 1 < NODE_ELEMENTS + 1 ∧ 0 < parent.child (0 + 1) then
        Node.new.load file (parent.child (0 + 1)) >>= fun s => pure (s, 0)
        else pure (Node.new, 0)) = _
      rw [if_pos ⟨hlt, hchild⟩, show 0 + 1 = ([] : List (IdTree (h + 1) × (Int × Int))).length + 1
        from rfl, hm']
      rfl
  | cons x l' =>
    obtain ⟨s, e⟩ := x
    have hs : s.nodes 0 ≤ X + Ctx.others 0 (.down p l r up) q :=
      (Ctx.left_le_others 0 (hl ▸ List.mem_cons_self ..) q).trans (Multiset.le_add_left ..)
    have hchild : parent.child l'.length = s.root 0 := by
      rw [hl, storedParent, List.map_cons, BTree.Node.fill_cons] at hparent
      rw [hl, List.length_cons] at hlen
      have hat := hparent.child_at (by rw [List.length_map]; lia)
      rw [List.length_map] at hat
      exact hat
    obtain ⟨m, hm, hshow, -⟩ := hfile.load_root hs Node.new
    have hleft : leftSibling file parent (l'.length + 1) = .ok (some m, l'.length) := by
      rw [leftSibling, if_pos (Nat.le_add_left ..), Nat.add_sub_cancel, hchild, hm]
      rfl
    rw [List.length_cons, hleft]
    rw [hl, List.length_cons] at hright hnone
    by_cases hmove : NODE_ELEMENTS < n.numKeys + m.numKeys + 1 ∧
        l'.length + 1 + 1 < NODE_ELEMENTS + 1 ∧ 0 < parent.child (l'.length + 1 + 1)
    · cases hr : r with
      | nil => exact absurd hmove.2 (hnone hr)
      | cons y r' =>
        obtain ⟨-, -, hload⟩ := hright y.1 y.2 r' hr
        obtain ⟨m', hm', hshow'⟩ := hload m
        refine ⟨(m', l'.length + 1), ?_, Or.inr ⟨y.1, y.2, r', rfl, rfl, hshow'⟩⟩
        show (if NODE_ELEMENTS < n.numKeys + m.numKeys + 1 ∧
            l'.length + 1 + 1 < NODE_ELEMENTS + 1 ∧ 0 < parent.child (l'.length + 1 + 1) then
          m.load file (parent.child (l'.length + 1 + 1)) >>= fun s => pure (s, l'.length + 1)
          else pure (m, l'.length)) = _
        rw [if_pos hmove, hm']
        rfl
    · refine ⟨(m, l'.length), ?_, Or.inl ⟨s, e, l', rfl, rfl, hshow⟩⟩
      show (if NODE_ELEMENTS < n.numKeys + m.numKeys + 1 ∧
          l'.length + 1 + 1 < NODE_ELEMENTS + 1 ∧ 0 < parent.child (l'.length + 1 + 1) then
        m.load file (parent.child (l'.length + 1 + 1)) >>= fun s => pure (s, l'.length + 1)
        else pure (m, l'.length)) = _
      rw [if_neg hmove]
      rfl

end

section
variable {root cap : Int} {file : IndexFile} {Y : Multiset Stored} {free : List Int}
  {a b parent : Node} {h : Nat} {p : Int} {l : List (IdTree (h + 1) × (Int × Int))}
  {r : List ((Int × Int) × IdTree (h + 1))} {e : Int × Int}
  {s t : BTree.Node Int (Int × Int) (IdTree h)}

/-- Two siblings in one node. -/
abbrev merged (s : BTree.Node Int (Int × Int) (IdTree h)) (e : Int × Int)
    (t : BTree.Node Int (Int × Int) (IdTree h)) : BTree.Node Int (Int × Int) (IdTree h) :=
  ⟨s.label, s.first, s.rest ++ (e, t.first) :: t.rest⟩

/-- The nodes of two siblings and what is around them. -/
theorem siblings_nodes : (fill p l (Subtree.node s) ((e, Subtree.node t) :: r)).sum (Subtree.nodes 0) =
    toStored s ::ₘ toStored t ::ₘ (s.sum (Subtree.nodes 0) + t.sum (Subtree.nodes 0) +
      ((l.map fun x => x.1.nodes 0).sum + (r.map fun x => x.2.nodes 0).sum)) := by
  rw [BTree.Node.sum_fill, List.map_cons, List.sum_cons, Subtree.nodes_node, Subtree.nodes_node]
  simp only [← Multiset.singleton_add]
  abel

theorem merged_nodes : (fill p l (Subtree.node (merged s e t)) r).sum (Subtree.nodes 0) =
    toStored (merged s e t) ::ₘ (s.sum (Subtree.nodes 0) + t.sum (Subtree.nodes 0) +
      ((l.map fun x => x.1.nodes 0).sum + (r.map fun x => x.2.nodes 0).sum)) := by
  rw [BTree.Node.sum_fill, Subtree.nodes_node, merged, BTree.Node.sum_append _ t.label]
  simp only [← Multiset.singleton_add]
  abel

/-- Merging two trees, whose parent is saved later. -/
theorem mergeSiblings_trees {b₀ : Stored} (hfile : Holds root cap file
      (b₀ ::ₘ ((fill p l (Subtree.node s) ((e, Subtree.node t) :: r)).sum (Subtree.nodes 0) + Y)) free 0)
    (ha : Shows a (toStored s)) (hb : Shows b (toStored t))
    (hparent : Shows parent (storedParent p l s.label ((e, Subtree.node t) :: r)))
    (hlen : s.rest.length + t.rest.length + 1 ≤ 8) (he : 0 < e.1)
    (hwidth : l.length + r.length < 8) :
    Succeeds (mergeSiblings file a b parent l.length) fun res =>
      Holds root cap res.1
        (b₀ ::ₘ ((fill p l (Subtree.node (merged s e t)) r).sum (Subtree.nodes 0) + Y))
        (t.label :: free) 0 ∧
      res.2.1.offset = s.label ∧ Shows res.2.2 (storedParent p l s.label r) ∧
      res.2.2.parentStack = parent.parentStack := by
  rw [siblings_nodes, Multiset.cons_add, Multiset.cons_add, Multiset.cons_swap,
    Multiset.cons_swap b₀] at hfile
  have hmerge := mergeSiblings_spec hfile ha hb hparent
    (by
      rw [toStored, toStored, BTree.Node.map, BTree.Node.map, List.length_map, List.length_map]
      exact hlen)
    he (by rw [List.length_map, List.length_map]; exact hwidth)
  rw [List.length_map] at hmerge
  refine hmerge.mono fun res hres => ?_
  have hstored : toStored (merged s e t) = ⟨(toStored s).label, (toStored s).first,
      (toStored s).rest ++ (e, (toStored t).first) :: (toStored t).rest⟩ := by
    rw [toStored, BTree.Node.map, merged, List.map_append, List.map_cons]
    rfl
  rw [← hstored] at hres
  rw [merged_nodes, Multiset.cons_add, Multiset.cons_swap]
  exact hres

variable {c d : List ((Int × Int) × IdTree h)} {x : (Int × Int) × IdTree h}

/-- The nodes of two siblings are those of the same entries cut at another one. -/
theorem recut_nodes (hcut : s.rest ++ (e, t.first) :: t.rest = c ++ x :: d) :
    s.sum (Subtree.nodes 0) + t.sum (Subtree.nodes 0) =
      BTree.Node.sum (Subtree.nodes 0) ⟨s.label, s.first, c⟩ +
        BTree.Node.sum (Subtree.nodes 0) ⟨t.label, x.2, d⟩ := by
  have hone := BTree.Node.sum_append (p := s.label) (f := s.first) (a := s.rest)
    (x := (e, t.first)) (b := t.rest) (Subtree.nodes 0) t.label
  rw [hcut, BTree.Node.sum_append _ t.label] at hone
  exact hone.symm

theorem toStored_keys {m : BTree.Node Int (Int × Int) (IdTree h)}
    (hm : ∀ y ∈ (toStored m).rest, 0 < y.1.1) : ∀ y ∈ m.rest, 0 < y.1.1 := fun y hy =>
  hm (y.1, y.2.root 0) (List.mem_map_of_mem hy)

theorem loadable_toStored {m : BTree.Node Int (Int × Int) (IdTree h)} (hlabel : 0 < m.label)
    (hlen : m.rest.length ≤ 8) (hkeys : ∀ y ∈ m.rest, 0 < y.1.1) : Loadable (toStored m) := by
  refine ⟨hlabel, ?_, ?_⟩
  · rw [toStored, BTree.Node.map, List.length_map]
    exact hlen
  · intro y hy
    obtain ⟨z, hz, rfl⟩ := List.mem_map.1 hy
    exact hkeys z hz

/-- Balancing two trees, when the entries in memory are cut at another one. -/
theorem balanceSiblings_trees {n sibling : Node} {onLeft : Bool}
    (hcut : s.rest ++ (e, t.first) :: t.rest = c ++ x :: d)
    (hfile : Holds root cap file (storedParent p l s.label ((e, Subtree.node t) :: r) ::ₘ
      ((fill p l (Subtree.node s) ((e, Subtree.node t) :: r)).sum (Subtree.nodes 0) + Y)) free 0)
    (hc : c.length ≤ 8) (hd : d.length ≤ 8)
    (hborrow : ∃ n' parent' sibling', (if onLeft then borrowRight n parent sibling l.length
        else borrowLeft n parent sibling l.length) = (n', parent', sibling') ∧
      Shows n' (toStored (if onLeft then ⟨s.label, s.first, c⟩ else ⟨t.label, x.2, d⟩)) ∧
      Shows parent' (storedParent p l s.label ((x.1, Subtree.node ⟨t.label, x.2, d⟩) :: r)) ∧
      Shows sibling' (toStored (if onLeft then ⟨t.label, x.2, d⟩ else ⟨s.label, s.first, c⟩)) ∧
      n'.parentStack = n.parentStack) :
    ∃ file' n' parent' sibling', balanceSiblings file n parent sibling l.length onLeft =
        .ok (file', n', parent', sibling') ∧ n'.parentStack = n.parentStack ∧
      Shows parent' (storedParent p l s.label ((x.1, Subtree.node ⟨t.label, x.2, d⟩) :: r)) ∧
      sibling'.numKeys = (if onLeft then d else c).length ∧
      Holds root cap file'
        (storedParent p l s.label ((x.1, Subtree.node ⟨t.label, x.2, d⟩) :: r) ::ₘ
          ((fill p l (Subtree.node ⟨s.label, s.first, c⟩)
            ((x.1, Subtree.node ⟨t.label, x.2, d⟩) :: r)).sum (Subtree.nodes 0) + Y)) free 0 := by
  obtain ⟨n', parent', sibling', hborrow, hn', hparent', hsibling', hstack⟩ := hborrow
  rw [siblings_nodes, recut_nodes hcut, Multiset.cons_add, Multiset.cons_add] at hfile
  rw [siblings_nodes, Multiset.cons_add, Multiset.cons_add]
  have hparent := hfile.loadable _ (Multiset.mem_cons_self ..)
  rw [loadable_storedParent, List.forall_mem_cons] at hparent
  obtain ⟨hp, hwidth, hl, he, hr⟩ := hparent
  have hs := hfile.loadable (toStored s)
    (Multiset.mem_cons_of_mem (Multiset.mem_cons_self ..))
  have ht := hfile.loadable (toStored t)
    (Multiset.mem_cons_of_mem (Multiset.mem_cons_of_mem (Multiset.mem_cons_self ..)))
  have hkeys : ∀ y ∈ c ++ x :: d, 0 < y.1.1 := by
    rw [← hcut, List.forall_mem_append, List.forall_mem_cons]
    exact ⟨toStored_keys hs.keys, he, toStored_keys ht.keys⟩
  rw [List.forall_mem_append, List.forall_mem_cons] at hkeys
  have hs' : Loadable (toStored ⟨s.label, s.first, c⟩) := loadable_toStored hs.label hc hkeys.1
  have ht' : Loadable (toStored ⟨t.label, x.2, d⟩) := loadable_toStored ht.label hd hkeys.2.2
  have hparentload : Loadable
      (storedParent p l s.label ((x.1, Subtree.node ⟨t.label, x.2, d⟩) :: r)) := by
    rw [loadable_storedParent, List.forall_mem_cons]
    exact ⟨hp, hwidth, hl, hkeys.2.1, hr⟩
  cases onLeft with
  | true =>
    rw [Multiset.cons_swap (toStored s), Multiset.cons_swap _ (toStored t)] at hfile
    obtain ⟨file', hrun, hfile'⟩ := balanceSiblings_spec hfile hborrow hsibling' hparent' hn'
      rfl rfl rfl ht' hparentload hs'
    rw [Multiset.cons_swap, Multiset.cons_swap (toStored _) (toStored _)] at hfile'
    refine ⟨file', n', parent', sibling', hrun, hstack, hparent', ?_, hfile'⟩
    rw [hsibling'.numKeys]
    exact List.length_map ..
  | false =>
    rw [Multiset.cons_swap] at hfile
    obtain ⟨file', hrun, hfile'⟩ := balanceSiblings_spec hfile hborrow hsibling' hparent' hn'
      rfl rfl rfl hs' hparentload ht'
    rw [Multiset.cons_swap] at hfile'
    refine ⟨file', n', parent', sibling', hrun, hstack, hparent', ?_, hfile'⟩
    rw [hsibling'.numKeys]
    exact List.length_map ..

/-- A tree takes an entry from its sibling on the right. -/
theorem borrowRight_trees {n sibling : Node} (hn : Shows n (toStored s))
    (hsibling : Shows sibling (toStored t))
    (hparent : Shows parent (storedParent p l s.label ((e, Subtree.node t) :: r)))
    (hl : l.length < 9) (hpos : 0 < t.rest.length) (hlen : t.rest.length ≤ 8) :
    ∃ c x d, s.rest ++ (e, t.first) :: t.rest = c ++ x :: d ∧ c.length = s.rest.length + 1 ∧
      d.length + 1 = t.rest.length ∧ ∃ n' parent' sibling',
      borrowRight n parent sibling l.length = (n', parent', sibling') ∧
      Shows n' (toStored ⟨s.label, s.first, c⟩) ∧
      Shows parent' (storedParent p l s.label ((x.1, Subtree.node ⟨t.label, x.2, d⟩) :: r)) ∧
      Shows sibling' (toStored ⟨t.label, x.2, d⟩) ∧ n'.parentStack = n.parentStack := by
  obtain ⟨q, g, rest⟩ := t
  obtain ⟨x, b, rfl⟩ := List.exists_cons_of_length_pos hpos
  rw [List.length_cons] at hlen
  obtain ⟨n', parent', sibling', hborrow, hn', hparent', hsibling', hstack⟩ :=
    borrowRight_shows (x := (x.1, x.2.root 0)) (b := b.map fun y => (y.1, y.2.root 0)) hn hparent
      (by rw [List.length_map]; exact hl) hsibling (by rw [List.length_map]; omega)
  rw [List.length_map] at hborrow
  refine ⟨s.rest ++ [(e, g)], x, b, ?_, ?_, rfl, n', parent', sibling', hborrow, ?_, hparent',
    hsibling', hstack⟩
  · rw [List.append_assoc, List.singleton_append]
  · rw [List.length_append, List.length_singleton]
  · rw [toStored, BTree.Node.map, List.map_append, List.map_singleton]
    exact hn'

/-- A tree takes an entry from its sibling on the left. -/
theorem borrowLeft_trees {n sibling : Node} (hn : Shows n (toStored t))
    (hsibling : Shows sibling (toStored s))
    (hparent : Shows parent (storedParent p l s.label ((e, Subtree.node t) :: r)))
    (hl : l.length < 9) (hpos : 0 < s.rest.length) (hlen : s.rest.length ≤ 8) :
    ∃ c x d, s.rest ++ (e, t.first) :: t.rest = c ++ x :: d ∧ c.length + 1 = s.rest.length ∧
      d.length = t.rest.length + 1 ∧ ∃ n' parent' sibling',
      borrowLeft n parent sibling l.length = (n', parent', sibling') ∧
      Shows n' (toStored ⟨t.label, x.2, d⟩) ∧
      Shows parent' (storedParent p l s.label ((x.1, Subtree.node ⟨t.label, x.2, d⟩) :: r)) ∧
      Shows sibling' (toStored ⟨s.label, s.first, c⟩) ∧ n'.parentStack = n.parentStack := by
  obtain ⟨q, g, rest⟩ := s
  obtain ⟨b, x, rfl⟩ : ∃ b x, rest = b ++ [x] := by
    rcases List.eq_nil_or_concat rest with hnil | ⟨b, x, hb⟩
    · rw [hnil] at hpos
      exact absurd hpos (lt_irrefl _)
    · exact ⟨b, x, hb.trans List.concat_eq_append⟩
  rw [List.length_append, List.length_singleton] at hlen
  rw [toStored, BTree.Node.map, List.map_append, List.map_singleton] at hsibling
  obtain ⟨n', parent', sibling', hborrow, hn', hparent', hsibling', hstack⟩ :=
    borrowLeft_shows hn hparent (by rw [List.length_map]; exact hl) hsibling
      (by rw [List.length_map]; omega)
  rw [List.length_map] at hborrow
  refine ⟨b, x, (e, t.first) :: t.rest, ?_, ?_, rfl, n', parent', sibling', hborrow, hn', hparent',
    hsibling', hstack⟩
  · rw [List.append_assoc, List.singleton_append]
  · rw [List.length_append, List.length_singleton]

end

/-! ## Rebalancing -/

theorem popParent_eq (n : Node) :
    n.popParent = (n.parentStack.headD 0, { n with parentStack := n.parentStack.tail }) := by
  obtain ⟨numKeys, offset, child0, triplet, stack⟩ := n
  cases stack with
  | nil => rfl
  | cons q stack => rfl

section
variable {root cap : Int}

theorem toStored_above {h : Nat} {m : BTree.Node Int (Int × Int) (IdTree h)} {p : Int}
    {l : List (IdTree (h + 1) × (Int × Int))} {r : List ((Int × Int) × IdTree (h + 1))} :
    toStored (fill p l (Subtree.node m) r) = storedParent p l m.label r := toStored_fill

/-- The nodes of a tree, seen from the node above it. -/
theorem nodes_regroup {h H : Nat} {m : BTree.Node Int (Int × Int) (IdTree h)} {p : Int}
    {l : List (IdTree (h + 1) × (Int × Int))} {r : List ((Int × Int) × IdTree (h + 1))}
    {up : IdCtx (h + 2) H} :
    toStored m ::ₘ (m.sum (Subtree.nodes 0) + Ctx.others 0 (.down p l r up) m.label) =
      storedParent p l m.label r ::ₘ
        ((fill p l (Subtree.node m) r).sum (Subtree.nodes 0) + up.others 0 p) := by
  rw [← Multiset.cons_add]
  exact Ctx.nodes_add_others 0 (t := Subtree.node m)

/-- The nodes below a root without keys. -/
theorem only_child_nodes {h : Nat} {p : Int} {t : IdTree (h + 1)} :
    BTree.Node.sum (Subtree.nodes 0) (fill p ([] : List (IdTree (h + 1) × (Int × Int))) t []) +
      Ctx.others 0 (.top (h + 2)) p = t.nodes 0 := by
  rw [Ctx.others, add_zero]
  exact add_zero _

/-- A node `m` that is short and the sibling chosen for it, named from left to right: `s`, then the key
`e` of the parent, then `t`. -/
structure Siblings {h : Nat} (p : Int) (l : List (IdTree (h + 1) × (Int × Int)))
    (m : BTree.Node Int (Int × Int) (IdTree h)) (r : List ((Int × Int) × IdTree (h + 1)))
    (sibling : Node) (s t : BTree.Node Int (Int × Int) (IdTree h))
    (l₀ : List (IdTree (h + 1) × (Int × Int))) (r₀ : List ((Int × Int) × IdTree (h + 1)))
    (e : Int × Int) (onLeft : Bool) : Prop where
  filled : fill p l (Subtree.node m) r = fill p l₀ (Subtree.node s) ((e, Subtree.node t) :: r₀)
  side : decide (l₀.length = l.length) = onLeft
  pair : if onLeft then s = m ∧ Shows sibling (toStored t) ∧ 4 ≤ t.rest.length
    else t = m ∧ Shows sibling (toStored s) ∧ 4 ≤ s.rest.length
  leftKids : s.Kids (Subtree.Filled 4) ∧ s.rest.length ≤ 8
  rightKids : t.Kids (Subtree.Filled 4) ∧ t.rest.length ≤ 8
  before : ∀ x ∈ l₀, x.1.Filled 4
  behind : ∀ x ∈ r₀, x.2.Filled 4
  count : l.length + r.length = l₀.length + r₀.length + 1

section Siblings

variable {h : Nat} {p : Int} {l l₀ : List (IdTree (h + 1) × (Int × Int))}
  {r r₀ : List ((Int × Int) × IdTree (h + 1))} {m s t : BTree.Node Int (Int × Int) (IdTree h)}
  {sibling : Node} {e : Int × Int} {onLeft : Bool}

theorem Siblings.stored (hsib : Siblings p l m r sibling s t l₀ r₀ e onLeft) :
    storedParent p l m.label r = storedParent p l₀ s.label ((e, Subtree.node t) :: r₀) := by
  have hboth := congrArg toStored hsib.filled
  rwa [toStored_above, toStored_above] at hboth

theorem Siblings.flat (hsib : Siblings p l m r sibling s t l₀ r₀ e onLeft) :
    left Subtree.entries l ++ (m.flat Subtree.entries ++ right Subtree.entries r) =
      left Subtree.entries l₀ ++ (s.flat Subtree.entries ++ e :: (t.flat Subtree.entries ++
        right Subtree.entries r₀)) := by
  have hboth := congrArg (BTree.Node.flat Subtree.entries) hsib.filled
  rw [BTree.Node.flat_fill, BTree.Node.flat_fill, BTree.Node.right_cons] at hboth
  exact hboth

/-- What `chooseSibling` finds, from left to right. -/
theorem Siblings.exists_of {mid : Nat}
    (hor : (∃ (s : IdTree (h + 1)) (e : Int × Int) (l' : List (IdTree (h + 1) × (Int × Int))),
        l = (s, e) :: l' ∧ mid = l'.length ∧ Shows sibling (toStored s.toNode)) ∨
      ∃ (e : Int × Int) (t : IdTree (h + 1)) (r' : List ((Int × Int) × IdTree (h + 1))),
        r = (e, t) :: r' ∧ mid = l.length ∧ Shows sibling (toStored t.toNode))
    (hl : ∀ x ∈ l, x.1.Filled 4) (hr : ∀ x ∈ r, x.2.Filled 4) (hkids : m.Kids (Subtree.Filled 4))
    (hlen : m.rest.length ≤ 8) :
    ∃ s t l₀ r₀ e onLeft, mid = l₀.length ∧ Siblings p l m r sibling s t l₀ r₀ e onLeft := by
  rcases hor with ⟨s, e, l', rfl, rfl, hsibling⟩ | ⟨e, t, r', rfl, rfl, hsibling⟩
  · have hs := hl _ (List.mem_cons_self ..)
    refine ⟨s.toNode, m, l', r, e, false, rfl, BTree.Node.fill_cons, ?_,
      ⟨rfl, hsibling, hs.1⟩, ⟨hs.2.2, hs.2.1⟩, ⟨hkids, hlen⟩,
      fun x hx => hl x (List.mem_cons_of_mem _ hx), hr, ?_⟩
    · exact decide_eq_false (by rw [List.length_cons]; omega)
    · rw [List.length_cons]
      omega
  · have ht := hr _ (List.mem_cons_self ..)
    refine ⟨m, t.toNode, l, r', e, true, rfl, rfl, decide_eq_true rfl,
      ⟨rfl, hsibling, ht.1⟩, ⟨hkids, hlen⟩, ⟨ht.2.2, ht.2.1⟩, hl,
      fun x hx => hr x (List.mem_cons_of_mem _ hx), ?_⟩
    rw [List.length_cons]
    omega

/-- The two nodes to be merged, from left to right, where their keys fit one node. -/
theorem Siblings.mergeable (hsib : Siblings p l m r sibling s t l₀ r₀ e onLeft) {n : Node}
    (hn : Shows n (toStored m)) (hm : m.rest.length = 3)
    (hmerge : m.rest.length + sibling.numKeys + 1 ≤ NODE_ELEMENTS) :
    ∃ a b, (if l.length = l₀.length then (n, sibling) else (sibling, n)) = (a, b) ∧
      Shows a (toStored s) ∧ Shows b (toStored t) ∧ s.rest.length + t.rest.length + 1 ≤ 8 ∧
      4 ≤ s.rest.length + t.rest.length + 1 := by
  have hpair := hsib.pair
  have hside := hsib.side
  cases onLeft with
  | true =>
    obtain ⟨rfl, hsibling, -⟩ := hpair
    refine ⟨n, sibling, if_pos (of_decide_eq_true hside).symm, hn, hsibling, ?_, by omega⟩
    rw [hsibling.numKeys, toStored, BTree.Node.map, List.length_map] at hmerge
    exact hmerge
  | false =>
    obtain ⟨rfl, hsibling, -⟩ := hpair
    refine ⟨sibling, n, if_neg fun heq => of_decide_eq_false hside heq.symm, hsibling, hn,
      ?_, by omega⟩
    rw [hsibling.numKeys, toStored, BTree.Node.map, List.length_map] at hmerge
    have hmax : NODE_ELEMENTS = 8 := rfl
    omega

/-- Where the keys do not fit one node, one entry goes from the sibling to the node. -/
theorem Siblings.borrowable (hsib : Siblings p l m r sibling s t l₀ r₀ e onLeft) {n parent : Node}
    (hn : Shows n (toStored m)) (hm : m.rest.length = 3) (hl₀ : l₀.length < 9)
    (hparent : Shows parent (storedParent p l₀ s.label ((e, Subtree.node t) :: r₀)))
    (hmerge : ¬ m.rest.length + sibling.numKeys + 1 ≤ NODE_ELEMENTS) :
    ∃ c x d, s.rest ++ (e, t.first) :: t.rest = c ++ x :: d ∧
      (4 ≤ c.length ∧ c.length ≤ 8) ∧ (4 ≤ d.length ∧ d.length ≤ 8) ∧
      4 ≤ (if onLeft then d else c).length ∧
      ∃ n' parent' sibling', (if onLeft then borrowRight n parent sibling l₀.length
        else borrowLeft n parent sibling l₀.length) = (n', parent', sibling') ∧
      Shows n' (toStored (if onLeft then ⟨s.label, s.first, c⟩ else ⟨t.label, x.2, d⟩)) ∧
      Shows parent' (storedParent p l₀ s.label ((x.1, Subtree.node ⟨t.label, x.2, d⟩) :: r₀)) ∧
      Shows sibling' (toStored (if onLeft then ⟨t.label, x.2, d⟩ else ⟨s.label, s.first, c⟩)) ∧
      n'.parentStack = n.parentStack := by
  have hmax : NODE_ELEMENTS = 8 := rfl
  have hs := hsib.leftKids.2
  have ht := hsib.rightKids.2
  have hpair := hsib.pair
  cases onLeft with
  | true =>
    obtain ⟨rfl, hsibling, -⟩ := hpair
    rw [hsibling.numKeys, toStored, BTree.Node.map, List.length_map] at hmerge
    obtain ⟨c, x, d, hcut, hc, hd, hborrow⟩ := borrowRight_trees hn hsibling hparent hl₀
      (by omega) ht
    exact ⟨c, x, d, hcut, by omega, by omega, by rw [if_pos rfl]; omega, hborrow⟩
  | false =>
    obtain ⟨rfl, hsibling, -⟩ := hpair
    rw [hsibling.numKeys, toStored, BTree.Node.map, List.length_map] at hmerge
    obtain ⟨c, x, d, hcut, hc, hd, hborrow⟩ := borrowLeft_trees hn hsibling hparent hl₀
      (by omega) hs
    exact ⟨c, x, d, hcut, by omega, by omega, by rw [if_neg Bool.false_ne_true]; omega, hborrow⟩

end Siblings

/-- The loop of `deleteKeyFromNode` at a node that may be one key short. -/
theorem rebalanceLoop_spec : ∀ (fuel : Nat) {h H : Nat} (c : IdCtx (h + 1) H) {file : IndexFile}
    {free : List Int} {n : Node} {m : BTree.Node Int (Int × Int) (IdTree h)},
    c.path.length < fuel →
    Holds root cap file (toStored m ::ₘ (m.sum (Subtree.nodes 0) + c.others 0 m.label)) free 0 →
    Shows n (toStored m) → n.parentStack = c.path.tail → c.Fits 4 → m.Kids (Subtree.Filled 4) →
    m.rest.length ≤ 8 → (c.isTop = false → 3 ≤ m.rest.length) →
    (c.isTop = true → 0 < h → 0 < m.rest.length) →
    Succeeds (rebalanceLoop fuel file n (c.path.headD 0))
      (Rebuilt root cap (c.before ++ (m.flat Subtree.entries ++ c.after)) (c.rootOf m.label)
        {c.rootOf m.label})
  | 0, _, _, _, _, _, _, _, hfuel, _, _, _, _, _, _, _, _ => absurd hfuel (Nat.not_lt_zero _)
  | fuel + 1, h, H, c, file, free, n, m, hfuel, hfile, hn, hstack, hfits, hkids, hlen, hleast,
      hpos => by
    cases c with
    | top =>
      refine ⟨(file, 0), ?_, h + 1, .node m, free, ?_, ⟨hlen, hpos rfl, hkids⟩, ?_, rfl⟩
      · rw [rebalanceLoop]
        rfl
      · rw [Ctx.others, add_zero] at hfile
        exact hfile
      · rw [Ctx.before, Ctx.after, List.nil_append, List.append_nil]
        rfl
    | down p l r up =>
      obtain ⟨hl, hr, hwidth, hone, hup⟩ := hfits
      have hm₃ := hleast rfl
      rw [Ctx.path, List.tail_cons] at hstack
      rw [Ctx.path, List.length_cons] at hfuel
      have hparentmem : storedParent p l m.label r ∈
          toStored m ::ₘ (m.sum (Subtree.nodes 0) + Ctx.others 0 (.down p l r up) m.label) := by
        rw [nodes_regroup]
        exact Multiset.mem_cons_self ..
      have hpp : 0 < p := (hfile.loadable _ hparentmem).label
      -- the induction hypothesis, for a parent that has been saved
      have hascend : ∀ {file' : IndexFile} {free' : List Int} {n' : Node}
          {m' : BTree.Node Int (Int × Int) (IdTree (h + 1))}, m'.label = p →
          Holds root cap file' (toStored m' ::ₘ (m'.sum (Subtree.nodes 0) + up.others 0 p)) free' 0 →
          Shows n' (toStored m') → n'.parentStack = up.path → m'.Kids (Subtree.Filled 4) →
          m'.rest.length ≤ 8 → (up.isTop = false → 3 ≤ m'.rest.length) →
          (up.isTop = true → 0 < m'.rest.length) →
          m'.flat Subtree.entries = left Subtree.entries l ++ (m.flat Subtree.entries ++
            right Subtree.entries r) →
          Succeeds (rebalanceLoop fuel file' n'.popParent.2 n'.popParent.1)
            (Rebuilt root cap ((Ctx.down p l r up).before ++
              (m.flat Subtree.entries ++ (Ctx.down p l r up).after))
              (up.rootOf p) {up.rootOf p}) := by
        rintro file' free' n' m' rfl hfile' hn' hstack' hkids' hlen' hleast' hpos' hflat
        have hnext := rebalanceLoop_spec fuel up (n := n'.popParent.2)
          (Nat.lt_of_succ_lt_succ hfuel) hfile' (by
            rw [popParent_eq]
            exact ⟨hn'.offset, hn'.child0, hn'.numKeys, hn'.triplet⟩)
          (by rw [popParent_eq, hstack']) hup hkids' hlen' hleast' fun htop _ => hpos' htop
        rw [popParent_eq, hstack', hflat] at hnext
        rw [popParent_eq, hstack', Ctx.before, Ctx.after]
        simp only [List.append_assoc] at hnext ⊢
        exact hnext
      have hkeys : n.numKeys = m.rest.length := hn.numKeys.trans (List.length_map ..)
      rw [Ctx.path, List.headD_cons, rebalanceLoop, if_neg (not_le.2 hpp), hkeys]
      by_cases henough : NODE_ELEMENTS / 2 ≤ m.rest.length
      · -- the node has enough keys
        obtain ⟨n', hload', hn', hstack'⟩ := hfile.load hparentmem n
        rw [if_pos henough]
        refine Succeeds.bind_ok hload' ?_
        rw [nodes_regroup] at hfile
        have hsize : (fill p l (Subtree.node m) r).rest.length = l.length + r.length :=
          BTree.Node.length_rest_fill
        rw [← toStored_above] at hn' hfile
        refine hascend rfl hfile hn' (hstack'.trans hstack)
          (BTree.Node.kids_fill.2 ⟨hl, ⟨henough, hlen, hkids⟩, hr⟩) (by rw [hsize]; exact hwidth)
          (fun htop => ?_) (fun htop => ?_) (BTree.Node.flat_fill _)
        · rw [htop, if_neg Bool.false_ne_true] at hone
          omega
        · rw [htop, if_pos rfl] at hone
          omega
      · have hm : m.rest.length = 3 := by
          have hhalf : NODE_ELEMENTS / 2 = 4 := rfl
          omega
        rw [if_neg henough]
        obtain ⟨parent, hload, hparent, -⟩ := hfile.load hparentmem Node.new
        refine Succeeds.bind_ok hload ?_
        have hfind : parent.findChild n.offset (NODE_ELEMENTS + 1) 0 = l.length := by
          rw [show n.offset = m.label from hn.offset]
          exact hfile.findChild_parent hparent (by rw [NODE_ELEMENTS]; omega) (by decide)
        have hone' : 0 < l.length + r.length := by
          by_cases htop : up.isTop = true
          · rw [if_pos htop] at hone
            exact hone
          · rw [if_neg htop] at hone
            omega
        obtain ⟨⟨sibling, mid⟩, hchoose, hor⟩ := chooseSibling_spec (X := toStored m ::ₘ
          m.sum (Subtree.nodes 0)) (by rw [Multiset.cons_add]; exact hfile) hparent hwidth hone' n
        dsimp only
        rw [hfind]
        refine Succeeds.bind_ok hchoose ?_
        dsimp only at hor ⊢
        rw [nodes_regroup] at hfile
        obtain ⟨s, t, l₀, r₀, e, onLeft, rfl, hsib⟩ := Siblings.exists_of (p := p) hor hl hr hkids hlen
        have hfill := hsib.filled
        have hflat := hsib.flat
        have hcount := hsib.count
        rw [hsib.stored] at hparent
        rw [hfill, hsib.stored] at hfile
        have hparentload := hfile.loadable _ (Multiset.mem_cons_self ..)
        rw [loadable_storedParent, List.forall_mem_cons] at hparentload
        have he : 0 < e.1 := hparentload.2.2.2.1
        by_cases hmerge : m.rest.length + sibling.numKeys + 1 ≤ NODE_ELEMENTS
        · rw [if_pos hmerge]
          obtain ⟨a, b, hab, ha, hb, hst, hst₄⟩ := hsib.mergeable hn hm hmerge
          obtain ⟨⟨file₁, leftNode, parent₁⟩, hrun, hfile₁, hoffset, hparent₁, -⟩ :=
            mergeSiblings_trees hfile ha hb hparent hst he (by omega)
          rw [hab]
          refine Succeeds.bind_ok hrun ?_
          dsimp only at hfile₁ hoffset hparent₁ ⊢
          have hkeys₁ : parent₁.numKeys = l₀.length + r₀.length := by
            rw [hparent₁.numKeys, storedParent, BTree.Node.length_rest_fill, List.length_map,
              List.length_map]
          have hmkids : (merged s e t).Kids (Subtree.Filled 4) :=
            (BTree.Node.kids_append t.label).2 ⟨hsib.leftKids.1, hsib.rightKids.1⟩
          have hmlen : (merged s e t).rest.length = s.rest.length + t.rest.length + 1 := by
            rw [merged, List.length_append, List.length_cons]
            rfl
          have hmflat : (merged s e t).flat Subtree.entries =
              s.flat Subtree.entries ++ e :: t.flat Subtree.entries := BTree.Node.flat_append _ _
          by_cases hrest : 0 < parent₁.numKeys
          · -- the parent has keys left
            rw [if_pos hrest]
            have hsize : (fill p l₀ (Subtree.node (merged s e t)) r₀).rest.length =
                l₀.length + r₀.length := BTree.Node.length_rest_fill
            have hload₁ : Loadable (storedParent p l₀ s.label r₀) :=
              loadable_storedParent.2 ⟨hpp, by omega, hparentload.2.2.1, hparentload.2.2.2.2⟩
            obtain ⟨file₂, hsave, hfile₂⟩ := hfile₁.resave hparent₁ rfl hload₁
            have hshow := hparent₁.copyStack n
            rw [← toStored_above (m := merged s e t)] at hfile₂ hshow
            refine Succeeds.bind_ok hsave (hascend rfl hfile₂ hshow hstack ?_
              (by rw [hsize]; omega) (fun htop => ?_) (fun _ => by rw [hsize]; omega) ?_)
            · rw [BTree.Node.kids_fill, Subtree.filled_node, hmlen]
              exact ⟨hsib.before, ⟨hst₄, hst, hmkids⟩, hsib.behind⟩
            · rw [htop, if_neg Bool.false_ne_true] at hone
              rw [hsize]
              omega
            · rw [BTree.Node.flat_fill, hflat, Subtree.entries_node, hmflat]
              simp only [List.append_assoc, List.cons_append]
          · -- the parent was the root, which has had one key
            rw [if_neg hrest]
            obtain rfl : l₀ = [] := List.eq_nil_of_length_eq_zero (by omega)
            obtain rfl : r₀ = [] := List.eq_nil_of_length_eq_zero (by omega)
            cases up with
            | down p' l' r' up =>
              rw [Ctx.isTop, if_neg Bool.false_ne_true] at hone
              rw [List.length_nil, List.length_nil] at hcount
              omega
            | top =>
              rw [only_child_nodes] at hfile₁
              have hpos₁ : 0 < leftNode.offset := by
                rw [hoffset]
                exact hfile₁.drop.root_pos (t := Subtree.node (merged s e t)) (le_refl _)
              rw [popParent_eq, hstack]
              refine ⟨(file₁, leftNode.offset), rfl, h + 1, .node (merged s e t), t.label :: free,
                ?_, ⟨by rw [Subtree.toNode_node, hmlen]; exact hst, fun _ => ?_, hmkids⟩, ?_, ?_⟩
              · rw [if_pos hpos₁]
                exact hfile₁.drop
              · rw [Subtree.toNode_node, hmlen]
                exact Nat.succ_pos _
              · have hes := hflat
                rw [left, List.nil_append, show right Subtree.entries ([] : List ((Int × Int) ×
                  IdTree (h + 1))) = [] from rfl, List.append_nil, ← hmflat] at hes
                rw [Ctx.before, Ctx.after, Ctx.before, Ctx.after, List.append_nil, List.nil_append,
                  hes]
                rfl
              · rw [if_pos hpos₁]
                exact hoffset.symm
        · rw [if_neg hmerge, hsib.side]
          obtain ⟨c, x, d, hcut, hc, hd, hmin, hborrow⟩ :=
            hsib.borrowable hn hm (by omega) hparent hmerge
          obtain ⟨file₁, n₁, parent₁, sibling₁, hrun, hstack₁, hparent₁, hnum, hfile₁⟩ :=
            balanceSiblings_trees hcut hfile hc.2 hd.2 hborrow
          refine Succeeds.bind_ok hrun ?_
          have hgiven : ¬ sibling₁.numKeys < NODE_ELEMENTS / 2 := by
            rw [hnum]
            exact not_lt.2 hmin
          dsimp only
          rw [if_neg hgiven]
          have hsize : (fill p l₀ (Subtree.node ⟨s.label, s.first, c⟩)
              ((x.1, Subtree.node ⟨t.label, x.2, d⟩) :: r₀)).rest.length =
              l₀.length + (r₀.length + 1) := BTree.Node.length_rest_fill
          have hshow := hparent₁.copyStack n₁
          rw [← toStored_above (m := ⟨s.label, s.first, c⟩)] at hfile₁ hshow
          have hcutkids := (BTree.Node.kids_append (p := s.label) (f := s.first) (a := s.rest)
            (x := (e, t.first)) (b := t.rest) t.label).2 ⟨hsib.leftKids.1, hsib.rightKids.1⟩
          rw [hcut, BTree.Node.kids_append t.label] at hcutkids
          refine hascend rfl hfile₁ hshow (hstack₁.trans hstack) ?_ (by rw [hsize]; omega)
            (fun htop => ?_) (fun _ => by rw [hsize]; omega) ?_
          · rw [BTree.Node.kids_fill, List.forall_mem_cons]
            exact ⟨hsib.before, ⟨hc.1, hc.2, hcutkids.1⟩, ⟨hd.1, hd.2, hcutkids.2⟩, hsib.behind⟩
          · rw [htop, if_neg Bool.false_ne_true] at hone
            rw [hsize]
            omega
          · have hone := BTree.Node.flat_append (p := s.label) (f := s.first) (a := s.rest)
              (x := (e, t.first)) (b := t.rest) Subtree.entries t.label
            rw [hcut, BTree.Node.flat_append _ t.label] at hone
            rw [BTree.Node.flat_fill, hflat, BTree.Node.right_cons, Subtree.entries_node,
              Subtree.entries_node]
            have hgoal := congrArg (fun es => left Subtree.entries l₀ ++ (es ++
              right Subtree.entries r₀)) hone
            simp only [List.append_assoc, List.cons_append] at hgoal
            exact hgoal

end

/-! ## Deleting from a leaf -/

section
variable {root cap : Int} {file : IndexFile} {M : Multiset Stored} {free : List Int}
  {limbo : Multiset Int} {n : Node}

theorem Holds.fuel_le {H : Nat} {t : IdTree H} (hfile : Holds root cap file (t.nodes 0) free limbo)
    (ht : t.Rooted 4) : H < file.fuel := by
  have hpow : 2 ^ H ≤ Multiset.card (t.nodes 0) + 1 := ht.two_pow_le 0 (by decide)
  have hlt : H < 2 ^ H := Nat.lt_two_pow_self
  have hcard := hfile.card_le
  rw [IndexFile.fuel]
  omega

theorem save_fuel {file' : IndexFile} (h : n.save file = .ok file') : file'.fuel = file.fuel := by
  rw [Node.save] at h
  split at h
  · obtain rfl := Except.ok.inj h
    rfl
  · cases h

/-- There are no nodes below a leaf. -/
theorem leaf_nodes (m : BTree.Node Int (Int × Int) (IdTree 0)) : m.sum (Subtree.nodes 0) = 0 := by
  rw [BTree.Node.sum, show m.first.nodes 0 = 0 from rfl, zero_add]
  apply List.sum_eq_zero
  intro y hy
  obtain ⟨x, -, rfl⟩ := List.mem_map.1 hy
  rfl

/-- A leaf that has lost a key is saved, and the tree rebalanced. -/
theorem deleteLeaf_spec {H : Nat} (c : IdCtx 1 H) {m m' : BTree.Node Int (Int × Int) (IdTree 0)}
    (hfile : Holds root cap file ((c.plug (Subtree.node m)).nodes 0) free 0)
    (hrooted : (c.plug (Subtree.node m)).Rooted 4) (hn : Shows n (toStored m'))
    (hstack : n.parentStack = c.path) (hlabel : m'.label = m.label)
    (hlen : m.rest.length = m'.rest.length + 1) (hkeys : ∀ y ∈ m'.rest, 0 < y.1.1) :
    Succeeds (do
        let file ← n.save file
        let (parentOffset, node) := n.popParent
        rebalanceLoop file.fuel file node parentOffset)
      (Rebuilt root cap (c.before ++ (m'.flat Subtree.entries ++ c.after))
        ((c.plug (Subtree.node m)).root 0) {(c.plug (Subtree.node m)).root 0}) := by
  have hfuel := hfile.fuel_le hrooted
  obtain ⟨hfits, hshape⟩ := (Ctx.rooted_plug c _ Nat.one_pos).1 hrooted
  have hlength : m.rest.length ≤ 8 ∧ (c.isTop = false → 4 ≤ m.rest.length) := by
    cases htop : c.isTop with
    | true =>
      rw [htop, if_pos rfl] at hshape
      exact ⟨hshape.1, Bool.noConfusion⟩
    | false =>
      rw [htop, if_neg Bool.false_ne_true] at hshape
      exact ⟨hshape.2.1, fun _ => hshape.1⟩
  have hpath := c.length_path
  have hroot : (c.plug (Subtree.node m)).root 0 = c.rootOf m'.label := by
    rw [Ctx.root_plug, hlabel]
    rfl
  rw [Ctx.nodes_plug, Subtree.nodes_node, leaf_nodes, Multiset.cons_add, zero_add] at hfile
  have hmlabel := (hfile.loadable _ (Multiset.mem_cons_self ..)).label
  obtain ⟨file', hsave, hfile'⟩ := hfile.resave hn hlabel
    (loadable_toStored (hlabel ▸ hmlabel) (by omega) hkeys)
  refine Succeeds.bind_ok hsave ?_
  dsimp only
  have hsum : Holds root cap file' (toStored m' ::ₘ (m'.sum (Subtree.nodes 0) +
      c.others 0 m'.label)) free 0 := by
    rw [leaf_nodes, zero_add, hlabel]
    exact hfile'
  have hloop := rebalanceLoop_spec file'.fuel c (n := n.popParent.2)
    (by rw [save_fuel hsave]; omega) hsum (by
      rw [popParent_eq]
      exact ⟨hn.offset, hn.child0, hn.numKeys, hn.triplet⟩)
    (by rw [popParent_eq, hstack]) hfits ⟨trivial, fun _ _ => trivial⟩ (by omega)
    (fun htop => by have := hlength.2 htop; omega) (fun _ hpos => absurd hpos (lt_irrefl _))
  rw [popParent_eq, hstack] at hloop
  rw [popParent_eq, hstack, hroot]
  exact hloop

end

/-! ## The least key of a subtree -/

section
variable {root cap : Int} {file : IndexFile} {M : Multiset Stored} {free : List Int}
  {limbo : Multiset Int}

/-- The descent along first children ends in a leaf, with nothing left of it. -/
theorem leastLoop_spec (hfile : Holds root cap file M free limbo) : ∀ (fuel : Nat) {h : Nat}
    (t : IdTree (h + 1)) (n : Node), h < fuel → t.nodes 0 ≤ M → t.Filled 4 →
    Shows n (toStored t.toNode) → ∃ (d : IdCtx 1 (h + 1))
      (m : BTree.Node Int (Int × Int) (IdTree 0)) (n' : Node), leastLoop file fuel n = .ok n' ∧
      d.plug (Subtree.node m) = t ∧ d.before = [] ∧ Shows n' (toStored m) ∧
      n'.parentStack = d.path ++ n.parentStack ∧ 4 ≤ m.rest.length
  | 0, _, _, _, hfuel, _, _, _ => absurd hfuel (Nat.not_lt_zero _)
  | fuel + 1, 0, t, n, _, _, ht, hn => by
    have hleaf : ¬ 0 < n.child 0 := by
      rw [show n.child 0 = 0 from hn.child0]
      exact lt_irrefl 0
    refine ⟨.top 1, t.toNode, n, ?_, rfl, rfl, hn, rfl, ht.1⟩
    rw [leastLoop, if_neg hleaf]
  | fuel + 1, h + 1, t, n, hfuel, hM, ht, hn => by
    obtain ⟨hleast, hmost, hfirst, hrest⟩ := ht
    have hu : t.toNode.first.nodes 0 ≤ M := by
      apply le_trans _ hM
      rw [← Subtree.node_toNode t, Subtree.nodes_node, BTree.Node.sum]
      exact (Multiset.le_add_right ..).trans (Multiset.le_cons_self ..)
    have hchild : n.child 0 = t.toNode.first.root 0 := hn.child0
    have hpos : 0 < n.child 0 := by
      rw [hchild]
      exact hfile.root_pos hu
    obtain ⟨n₁, hload, hn₁, hstack₁⟩ := hfile.load_root hu (n.pushParent n.offset)
    obtain ⟨d, m, n', hloop, hplug, hbefore, hn', hstack', hlen⟩ :=
      leastLoop_spec hfile fuel t.toNode.first n₁ (Nat.lt_of_succ_lt_succ hfuel) hu hfirst hn₁
    refine ⟨d.comp (.down t.toNode.label [] t.toNode.rest (.top (h + 2))), m, n', ?_, ?_, ?_, hn',
      ?_, hlen⟩
    · rw [leastLoop, if_pos hpos, hchild, hload]
      exact hloop
    · rw [Ctx.plug_comp, hplug]
      rfl
    · rw [Ctx.before_comp, hbefore]
      rfl
    · have hoffset : n.offset = t.toNode.label := hn.offset
      rw [hstack', hstack₁, Ctx.path_comp, List.append_assoc, Node.pushParent, hoffset]
      rfl

end

/-! ## Deleting a key -/

section
variable {file : IndexFile} {H : Nat} {free : List Int} {n : Node}

/-- A key in a leaf is deleted there. -/
theorem deleteKeyFromNode_leaf {c : IdCtx 1 (H + 1)} {p : Int} {l : List (IdTree 0 × (Int × Int))}
    {u t : IdTree 0} {e : Int × Int} {r : List ((Int × Int) × IdTree 0)}
    (hw : WellFormed file (Spot.mk 0 c p l u ((e, t) :: r)).tree free)
    (hn : AtSpot n ⟨0, c, p, l, u, (e, t) :: r⟩) :
    Succeeds (deleteKeyFromNode file n l.length)
      (Rebuilt ((Spot.mk 0 c p l u ((e, t) :: r)).tree.root 0) file.size
        (Spot.before ⟨0, c, p, l, u, (e, t) :: r⟩ ++ Spot.after ⟨0, c, p, l, t, r⟩)
        ((Spot.mk 0 c p l u ((e, t) :: r)).tree.root 0)
        {(Spot.mk 0 c p l u ((e, t) :: r)).tree.root 0}) := by
  have htriplet := hn.1.spot_triplet (hw.holds.spot_length (le_refl _))
  have hload := hw.holds.spot_loadable (le_refl _)
  rw [Spot.node, toStored_fill, loadable_storedParent, List.length_cons,
    List.forall_mem_cons] at hload
  obtain ⟨hp, hlen, hl, he, hrest⟩ := hload
  have hleaf : ¬ 0 < n.child (l.length + 1) := by
    have hchild : n.child (l.length + 1) = 0 := congrArg Triplet.child htriplet
    rw [hchild]
    exact lt_irrefl 0
  have hkeep : replaceByLeast file n l.length = .ok (file, n, l.length) := by
    rw [replaceByLeast, if_neg hleaf]
    rfl
  have hdelete : Shows (n.deleteKey l.length) (toStored (fill p l u r)) := by
    have hshow := hn.1
    rw [Spot.node, toStored_fill, storedParent, List.map_cons] at hshow
    have hat := hshow.deleteKey_at (by rw [List.length_map, List.length_map]; omega)
    rw [List.length_map] at hat
    rw [toStored_fill]
    exact hat
  have hkeys : ∀ y ∈ (fill p l u r).rest, 0 < y.1.1 :=
    (BTree.Node.forall_rest_fill (Q := fun e : Int × Int => 0 < e.1)).2 ⟨hl, hrest⟩
  have hdone := deleteLeaf_spec c (m := fill p l u ((e, t) :: r)) hw.holds
    hw.rooted hdelete hn.2 rfl (by
      rw [BTree.Node.length_rest_fill, BTree.Node.length_rest_fill, List.length_cons]
      omega) hkeys
  have hes : c.before ++ ((fill p l u r).flat Subtree.entries ++ c.after) =
      Spot.before ⟨0, c, p, l, u, (e, t) :: r⟩ ++ Spot.after ⟨0, c, p, l, t, r⟩ := by
    rw [BTree.Node.flat_fill, Spot.before, Spot.after, show u.entries = [] from rfl]
    simp only [List.append_assoc, List.nil_append]
  rw [hes] at hdone
  rw [deleteKeyFromNode]
  exact Succeeds.bind_ok hkeep hdone

/-- A key above the leaves is replaced by the next one, which is deleted in its leaf. -/
theorem deleteKeyFromNode_inner {h : Nat} {c : IdCtx (h + 2) (H + 1)} {p : Int}
    {l : List (IdTree (h + 1) × (Int × Int))} {u t : IdTree (h + 1)} {e : Int × Int}
    {r : List ((Int × Int) × IdTree (h + 1))}
    (hw : WellFormed file (Spot.mk (h + 1) c p l u ((e, t) :: r)).tree free)
    (hn : AtSpot n ⟨h + 1, c, p, l, u, (e, t) :: r⟩) :
    Succeeds (deleteKeyFromNode file n l.length)
      (Rebuilt ((Spot.mk (h + 1) c p l u ((e, t) :: r)).tree.root 0) file.size
        (Spot.before ⟨h + 1, c, p, l, u, (e, t) :: r⟩ ++ (u.entries ++ (t.entries ++
          Spot.after ⟨h + 1, c, p, l, t, r⟩)))
        ((Spot.mk (h + 1) c p l u ((e, t) :: r)).tree.root 0)
        {(Spot.mk (h + 1) c p l u ((e, t) :: r)).tree.root 0}) := by
  have htriplet := hn.1.spot_triplet (hw.holds.spot_length (le_refl _))
  have hmid : n.triplet l.length = ⟨e.1, e.2, t.root 0⟩ := htriplet
  have hchild : n.child (l.length + 1) = t.root 0 := congrArg Triplet.child htriplet
  obtain ⟨-, hkids, -⟩ := Spot.rooted_tree _ |>.1 hw.rooted
  rw [Spot.node, BTree.Node.kids_fill, List.forall_mem_cons] at hkids
  have hfuel := hw.holds.fuel_le hw.rooted
  have hdepth := c.length_path
  have ht : t.nodes 0 ≤ (Spot.mk (h + 1) c p l u ((e, t) :: r)).tree.nodes 0 := by
    have hnext := (Spot.mk (h + 1) c p ((u, e) :: l) t r).nodes_child_le 0
    rw [(Spot.mk (h + 1) c p l u ((e, t) :: r)).tree_next rfl] at hnext
    exact hnext
  -- the leaf with the least key
  obtain ⟨n₁, hload, hn₁, -⟩ := hw.holds.load_root ht Node.new
  obtain ⟨d, m, n₂, hloop, hplug, hbefore, hn₂, hstack₂, hm⟩ := leastLoop_spec hw.holds file.fuel t
    ((n₁.copyStack n).pushParent n.offset) (by omega) ht hkids.2.2.1
    ((hn₁.copyStack n).pushParent n.offset)
  obtain ⟨q, f, _ | ⟨⟨e', g⟩, b⟩⟩ := m
  · exact absurd hm (Nat.not_succ_le_zero 3)
  have hleast := hn₂
  rw [toStored, BTree.Node.map, List.map_cons] at hleast
  have hx : n₂.triplet 0 = ⟨e'.1, e'.2, g.root 0⟩ := hleast.triplet_at (a := []) (by decide)
  have hkey : n₂.key 0 = e'.1 := congrArg Triplet.key hx
  have hvalue : n₂.value 0 = e'.2 := congrArg Triplet.value hx
  have hmem : toStored (⟨q, f, (e', g) :: b⟩ : BTree.Node Int (Int × Int) (IdTree 0)) ∈
      (Spot.mk (h + 1) c p l u ((e, t) :: r)).tree.nodes 0 := by
    apply Multiset.mem_of_le ht
    rw [← hplug, Ctx.nodes_plug]
    exact Multiset.mem_add.2 (Or.inl (Multiset.mem_cons_self ..))
  have hmload := hw.holds.loadable _ hmem
  have hmkeys := hmload.keys
  have hmlen := hmload.length
  rw [toStored, BTree.Node.map, List.map_cons] at hmkeys hmlen
  rw [List.forall_mem_cons, List.forall_mem_map] at hmkeys
  rw [List.length_cons, List.length_map] at hmlen
  -- it takes the place of the key
  obtain ⟨file₁, hsave, hfile₁⟩ := hw.holds.replace hn.1 (c := t) (r := r) rfl hmkeys.1
  have hreplaced : (d.comp (.down p ((u, e') :: l) r c)).plug (Subtree.node ⟨q, f, (e', g) :: b⟩) =
      ((Spot.mk (h + 1) c p l u ((e, t) :: r)).replace e' t r).tree := by
    rw [Ctx.plug_comp, hplug, Ctx.plug, BTree.Node.fill_cons]
    rfl
  have hroot := (Spot.mk (h + 1) c p l u ((e, t) :: r)).root_replace 0 (e := e') (c := t) (r := r)
  have hrooted : ((Spot.mk (h + 1) c p l u ((e, t) :: r)).replace e' t r).tree.Rooted 4 :=
    (Spot.rooted_replace _ rfl).2 hw.rooted
  rw [← hreplaced] at hfile₁ hroot hrooted
  rw [← hroot] at hfile₁ ⊢
  have hstart : replaceByLeast file n l.length =
      .ok (file₁, { n₂ with child0 := n₂.child 1 }, 0) := by
    rw [replaceByLeast, if_pos (by rw [hchild]; exact hw.holds.root_pos ht)]
    show (Node.new.load file (n.child (l.length + 1)) >>= _) = _
    rw [hchild, hload]
    show (leastLoop file file.fuel ((n₁.copyStack n).pushParent n.offset) >>= _) = _
    rw [hloop]
    show (Node.save (n.set l.length { n.triplet l.length with
      key := n₂.key 0, value := n₂.value 0 }) file >>= _) = _
    rw [hmid, hkey, hvalue]
    show (Node.save (n.set l.length ⟨e'.1, e'.2, t.root 0⟩) file >>= _) = _
    rw [hsave]
    rfl
  have hless : Shows ({ n₂ with child0 := n₂.child 1 }.deleteKey 0)
      (toStored (⟨q, g, b⟩ : BTree.Node Int (Int × Int) (IdTree 0))) :=
    hleast.deleteFirst (by rw [List.length_map]; lia)
  have hdone := deleteLeaf_spec (d.comp (.down p ((u, e') :: l) r c)) (m := ⟨q, f, (e', g) :: b⟩)
    hfile₁ hrooted hless ?_ rfl rfl (fun y hy => hmkeys.2 y hy)
  · have htentries : t.entries = e' :: (BTree.Node.flat Subtree.entries ⟨q, g, b⟩ ++ d.after) := by
      rw [← hplug, Ctx.entries_plug, hbefore]
      rfl
    rw [Ctx.before_comp, Ctx.after_comp, hbefore, List.append_nil] at hdone
    have hes : Ctx.before (.down p ((u, e') :: l) r c) ++
        (BTree.Node.flat Subtree.entries ⟨q, g, b⟩ ++ (d.after ++ Ctx.after (.down p ((u, e') :: l) r c))) =
        Spot.before ⟨h + 1, c, p, l, u, (e, t) :: r⟩ ++ (u.entries ++ (t.entries ++
          Spot.after ⟨h + 1, c, p, l, t, r⟩)) := by
      rw [htentries, Ctx.before, Ctx.after, left, Spot.before, Spot.after]
      simp only [List.append_assoc, List.cons_append, List.nil_append]
    rw [hes] at hdone
    rw [deleteKeyFromNode]
    exact Succeeds.bind_ok hstart hdone
  · show n₂.parentStack = _
    rw [hstack₂, Ctx.path_comp, Ctx.path, ← hn.2, ← show n.offset = p from hn.1.offset]
    rfl

end

/-! ## The operation -/

section
variable {es a b : List (Int × Int)} {k v : Int}

/-- The entries after a deletion: the key is gone. -/
def Removed (k : Int) (es es' : List (Int × Int)) : Prop :=
  Increasing es' ∧ ∀ e, e ∈ es' ↔ e ∈ es ∧ e.1 ≠ k

theorem removed_absent (h : Increasing es) (hk : ∀ e ∈ es, e.1 ≠ k) : Removed k es es :=
  ⟨h, fun e => ⟨fun he => ⟨he, hk e he⟩, fun he => he.1⟩⟩

theorem removed_middle (h : Increasing (a ++ (k, v) :: b)) :
    Removed k (a ++ (k, v) :: b) (a ++ b) := by
  obtain ⟨ha, hb, hab⟩ := List.pairwise_append.1 h
  obtain ⟨hk, hb⟩ := List.pairwise_cons.1 hb
  have hleft : ∀ e ∈ a, e.1 ≠ k := fun e he => ne_of_lt (hab e he _ (List.mem_cons_self ..))
  have hright : ∀ e ∈ b, e.1 ≠ k := fun e he => ne_of_gt (hk e he)
  refine ⟨List.pairwise_append.2 ⟨ha, hb, fun x hx y hy => hab x hx y
    (List.mem_cons_of_mem _ hy)⟩, fun e => ?_⟩
  simp only [List.mem_append, List.mem_cons]
  constructor
  · rintro (he | he)
    · exact ⟨Or.inl he, hleft e he⟩
    · exact ⟨Or.inr (Or.inr he), hright e he⟩
  · rintro ⟨he | rfl | he, hne⟩
    · exact Or.inl he
    · exact absurd rfl hne
    · exact Or.inr he

end

section
variable {file : IndexFile} {h : Nat} {t : IdTree (h + 1)} {free : List Int} {n : Node}

/-- A key that is found is deleted. -/
theorem delete_found {s : IdSpot (h + 1)} {k : Int} (hw : WellFormed file s.tree free)
    (hn : AtSpot n s) (hs : FoundAt k s) : ∃ es, Removed k s.tree.entries es ∧
      Succeeds (deleteKeyFromNode file n s.left.length)
        (Rebuilt (s.tree.root 0) file.size es (s.tree.root 0) {s.tree.root 0}) := by
  have hentries := s.entries_tree
  have hinc := hw.increasing
  obtain ⟨h', ctx, p, l, u, right₀⟩ := s
  obtain ⟨v, c, r, rfl⟩ : ∃ v c r, right₀ = ((k, v), c) :: r := hs
  rw [Spot.after_cons _ rfl, ← List.append_assoc] at hentries
  rw [hentries] at hinc ⊢
  refine ⟨_, removed_middle hinc, ?_⟩
  cases h' with
  | zero =>
    have hdone := deleteKeyFromNode_leaf hw hn
    rw [show u.entries = [] from rfl, show c.entries = [] from rfl, List.append_nil,
      List.nil_append]
    exact hdone
  | succ h' =>
    have hdone := deleteKeyFromNode_inner hw hn
    rw [List.append_assoc]
    exact hdone

/-- Key 0 in an empty tree: the root is saved as it is. -/
theorem delete_keyless {s : IdSpot (h + 1)} (hw : WellFormed file s.tree free) (hn : AtSpot n s)
    {k : Int} (hs : BelongsAt k s) (hkey : n.key s.left.length = k) :
    Succeeds (deleteKeyFromNode file n s.left.length)
      (Rebuilt (s.tree.root 0) file.size s.tree.entries (s.tree.root 0) {s.tree.root 0}) := by
  have htriplet := hn.1.spot_triplet (hw.holds.spot_length (le_refl _))
  obtain ⟨rfl, hleft, hr⟩ := hs.keyless hw hn hkey
  rw [hleft, hr] at htriplet
  have hchild : ¬ 0 < n.child (0 + 1) := by
    rw [show n.child (0 + 1) = 0 from congrArg Triplet.child htriplet]
    exact lt_irrefl 0
  have hkeep : replaceByLeast file n 0 = .ok (file, n, 0) := by
    rw [replaceByLeast, if_neg hchild]
    rfl
  have hnone : n.numKeys = 0 := by
    rw [hn.1.numKeys, toStored, Spot.node, hleft, hr]
    rfl
  have hdelete : Shows (n.deleteKey 0) (toStored s.node) := by
    refine ⟨hn.1.offset, hn.1.child0, ?_, ?_⟩
    · rw [← hn.1.numKeys]
      show n.numKeys - 1 = n.numKeys
      rw [hnone]
    · intro i hi
      rw [← hn.1.triplet i hi]
      show Node.deleteKeyLoop (n.numKeys - 0) 0 n.triplet i = n.triplet i
      rw [hnone]
      rfl
  -- the node is the root
  obtain ⟨-, -, -, hleast, -⟩ := s.rooted_tree.1 hw.rooted
  rw [hleft, hr] at hleast
  have hstack : n.parentStack = [] := by
    rw [hn.2]
    apply Ctx.path_of_isTop
    by_contra htop
    exact absurd (hleast (Bool.eq_false_of_not_eq_true htop)) (Nat.not_succ_le_zero 3)
  have hfile := hw.holds
  rw [s.nodes_tree] at hfile
  obtain ⟨file', hsave, hfile'⟩ := hfile.resave hdelete rfl (hfile.loadable _
    (Multiset.mem_cons_self ..))
  rw [← s.nodes_tree] at hfile'
  have hpop : (n.deleteKey 0).popParent = (0, n.deleteKey 0) := popParent_nil hstack
  rw [hleft, deleteKeyFromNode]
  refine Succeeds.bind_ok hkeep (Succeeds.bind_ok hsave ?_)
  refine ⟨(file', 0), ?_, hw.rebuilt hfile'⟩
  have hfuel := hw.fuel_le
  rw [hpop, save_fuel hsave]
  dsimp only
  obtain ⟨fuel, hsucc⟩ := Nat.exists_eq_add_one_of_ne_zero (show file.fuel ≠ 0 by omega)
  rw [hsucc, rebalanceLoop, if_pos (le_refl _)]

/-- **Deleting a key.** -/
theorem WellFormed.deleteKey (hw : WellFormed file t free) (hn : AtSpot n (rootSpot t)) (k : Int) :
    ∃ es, Removed k t.entries es ∧ Succeeds (TreeIndex.deleteKey file n k)
      (Rebuilt (t.root 0) file.size es (t.root 0) {t.root 0}) := by
  obtain ⟨n', s, hfind, rfl, hn', hor⟩ := hw.find hn k
  have hstart : TreeIndex.deleteKey file n k =
      if n'.key s.left.length = k then deleteKeyFromNode file n' s.left.length
      else .ok (file, 0) := by
    rw [TreeIndex.deleteKey, hfind]
    rfl
  rw [hstart]
  rcases hor with hfound | hbelongs
  · have htriplet := hn'.1.spot_triplet (hw.holds.spot_length (le_refl _))
    obtain ⟨v, c, r, hr⟩ := hfound
    rw [hr] at htriplet
    have hkey : n'.key s.left.length = k := congrArg Triplet.key htriplet
    rw [if_pos hkey]
    exact delete_found hw hn' ⟨v, c, r, hr⟩
  · refine ⟨s.tree.entries, removed_absent hw.increasing hbelongs.absent, ?_⟩
    by_cases hkey : n'.key s.left.length = k
    · rw [if_pos hkey]
      exact delete_keyless hw hn' hbelongs hkey
    · rw [if_neg hkey]
      exact ⟨_, rfl, hw.rebuilt hw.holds⟩

/-- **Deleting a record id** leaves a well-formed index without it. -/
theorem WellFormed.deleteRecordIndex (hw : WellFormed file t free) (k : Int) :
    Succeeds (TreeIndex.deleteRecordIndex file k) fun file' => ∃ h', ∃ t' : IdTree (h' + 1),
      ∃ free', WellFormed file' t' free' ∧ file'.size ≤ file.size ∧
        Removed k t.entries t'.entries := by
  obtain ⟨n, hload, hn⟩ := hw.load
  obtain ⟨es, hes, ⟨file', off⟩, hdelete, H, t', free', hfile', hrooted, rfl, hroot⟩ :=
    hw.deleteKey hn k
  rw [TreeIndex.deleteRecordIndex]
  refine Succeeds.bind_ok hload (Succeeds.bind_ok hdelete ?_)
  cases H with
  | zero => exact hrooted.elim
  | succ h' =>
    dsimp only at hfile' hroot ⊢
    by_cases hpos : 0 < off
    · rw [if_pos hpos] at hfile' hroot
      rw [if_pos hpos]
      have hlost : Holds (t.root 0) file.size file' (t'.nodes 0) free' (t.root 0 ::ₘ 0) := hfile'
      have hfreed := hlost.freeNode.setRoot off
      refine ⟨_, rfl, h', t', file.idRoot :: free', ⟨?_, hrooted, hes.1⟩, hfile'.size_le, hes⟩
      rw [hroot, hw.holds.idRoot]
      exact hfreed.tight
    · rw [if_neg hpos] at hfile' hroot
      rw [if_neg hpos]
      refine ⟨_, rfl, h', t', free', ⟨?_, hrooted, hes.1⟩, hfile'.size_le, hes⟩
      rw [hroot]
      exact hfile'.tight

end

end FroggyKVM.TreeIndex
