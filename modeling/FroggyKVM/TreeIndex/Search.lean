/-
# FroggyKVM.TreeIndex.Search — looking up keys and walking the tree.

`findNodeWithKey` stops at a position of the tree: either behind it is the key, or it is in a leaf
and the key belongs there.  `walk` goes through the keys in order.  Both read the file only, so they
are described for any file that holds the nodes of the tree.
-/
import FroggyKVM.TreeIndex.Storage

namespace FroggyKVM.TreeIndex

open BTree (Subtree Ctx Spot)
open BTree.Node (fill left right)

/-- The id tree, with keys and values for entries. -/
abbrev IdTree (h : Nat) := Subtree Int (Int × Int) h

/-- The id tree around one of its nodes. -/
abbrev IdCtx (h H : Nat) := Ctx Int (Int × Int) h H

/-- A position in the id tree. -/
abbrev IdSpot (H : Nat) := Spot Int (Int × Int) H

/-- The stored form of a node of the tree. -/
abbrev toStored {h : Nat} (n : BTree.Node Int (Int × Int) (IdTree h)) : Stored := n.map (Subtree.root 0)

/-- The keys are strictly increasing. -/
def Increasing (es : List (Int × Int)) : Prop := es.Pairwise fun x y => x.1 < y.1

/-- A node in memory is at the position. -/
def AtSpot (n : Node) {H : Nat} (s : IdSpot H) : Prop :=
  Shows n (toStored s.node) ∧ n.parentStack = s.ctx.path

/-- The key is behind the position. -/
def FoundAt (k : Int) {H : Nat} (s : IdSpot H) : Prop :=
  ∃ v c r, s.right = ((k, v), c) :: r

/-- The position is in a leaf, with the smaller keys on its left and the greater ones on its
right. -/
def BelongsAt (k : Int) {H : Nat} (s : IdSpot H) : Prop :=
  s.h = 0 ∧ (∀ e ∈ s.before, e.1 < k) ∧ ∀ e ∈ s.after, k < e.1

/-! ## Order -/

section
variable {a b : List (Int × Int)} {e : Int × Int} {k : Int}

/-- What is left of a smaller entry is smaller. -/
theorem Increasing.lt_of_left (h : Increasing (a ++ e :: b)) (he : e.1 < k) :
    ∀ x ∈ a ++ [e], x.1 < k := by
  intro x hx
  rcases List.mem_append.1 hx with hx | hx
  · exact ((List.pairwise_append.1 h).2.2 x hx e (List.mem_cons_self ..)).trans he
  · rw [List.mem_singleton.1 hx]
    exact he

/-- What is right of a greater entry is greater. -/
theorem Increasing.lt_of_right (h : Increasing (a ++ e :: b)) (he : k < e.1) :
    ∀ x ∈ e :: b, k < x.1 := by
  intro x hx
  rcases List.mem_cons.1 hx with rfl | hx
  · exact he
  · exact he.trans (List.rel_of_pairwise_cons (List.pairwise_append.1 h).2.1 hx)

end

/-! ## Loading a child -/

section
variable {root cap : Int} {file : IndexFile} {M : Multiset Stored} {free : List Int}
  {limbo : Multiset Int} {k : Int} {H : Nat}

/-- The offset of a node is positive. -/
theorem Holds.root_pos (hfile : Holds root cap file M free limbo) {h : Nat} {t : IdTree (h + 1)}
    (ht : t.nodes 0 ≤ M) : 0 < t.root 0 :=
  (hfile.loadable _ (Multiset.mem_of_le ht (Multiset.mem_cons_self ..))).label

theorem Holds.load_root (hfile : Holds root cap file M free limbo) {h : Nat} {t : IdTree (h + 1)}
    (ht : t.nodes 0 ≤ M) (n : Node) : ∃ n', n.load file (t.root 0) = .ok n' ∧
      Shows n' (toStored t.toNode) ∧ n'.parentStack = n.parentStack :=
  hfile.load (Multiset.mem_of_le ht (Multiset.mem_cons_self ..)) n

theorem Holds.spot_loadable (hfile : Holds root cap file M free limbo) {s : IdSpot H}
    (hs : s.tree.nodes 0 ≤ M) : Loadable (toStored s.node) :=
  hfile.loadable _ (Multiset.mem_of_le hs (s.stored_mem 0))

theorem Holds.spot_length (hfile : Holds root cap file M free limbo) {s : IdSpot H}
    (hs : s.tree.nodes 0 ≤ M) : s.left.length + s.right.length ≤ 8 := by
  have hlen := (hfile.spot_loadable hs).length
  rw [toStored, Spot.node, BTree.Node.map_fill, BTree.Node.length_rest_fill, List.length_map,
    List.length_map] at hlen
  exact hlen

theorem Shows.spot_child {n : Node} {s : IdSpot H} (hn : Shows n (toStored s.node))
    (hlen : s.left.length + s.right.length ≤ 8) : n.child s.left.length = s.child.root 0 := by
  rw [toStored, Spot.node, BTree.Node.map_fill] at hn
  have hchild := hn.child_at (by rw [List.length_map]; omega)
  rw [List.length_map] at hchild
  exact hchild

/-- What is read behind a position. -/
theorem Shows.spot_triplet {n : Node} {s : IdSpot H} (hn : Shows n (toStored s.node))
    (hlen : s.left.length + s.right.length ≤ 8) : n.triplet s.left.length =
      ((s.right.head?).map fun x => (⟨x.1.1, x.1.2, x.2.root 0⟩ : Triplet)).getD .zero := by
  rw [toStored, Spot.node, BTree.Node.map_fill] at hn
  cases hr : s.right with
  | nil =>
    rw [hr] at hn
    have hzero := hn.end_at (by rw [List.length_map]; omega)
    rw [List.length_map] at hzero
    exact hzero
  | cons x r =>
    rw [hr] at hn
    have hnext := hn.next_at (by rw [List.length_map]; omega)
    rw [List.length_map] at hnext
    exact hnext

/-! ## Loading the parent -/

section
variable {h : Nat} {X : Multiset Stored} {p q : Int} {l : List (IdTree h × (Int × Int))}
  {r : List ((Int × Int) × IdTree h)} {up : IdCtx (h + 1) H}

/-- The stored form of the node around a hole, with `q` for the offset of what is in the hole. -/
def storedParent (p : Int) (l : List (IdTree h × (Int × Int))) (q : Int)
    (r : List ((Int × Int) × IdTree h)) : Stored :=
  fill p (l.map fun x => (x.1.root 0, x.2)) q (r.map fun x => (x.1, x.2.root 0))

theorem toStored_fill {u : IdTree h} :
    toStored (fill p l u r) = storedParent p l (u.root 0) r := BTree.Node.map_fill _

theorem loadable_storedParent : Loadable (storedParent p l q r) ↔ 0 < p ∧
    l.length + r.length ≤ 8 ∧ (∀ x ∈ l, 0 < x.2.1) ∧ ∀ x ∈ r, 0 < x.1.1 := by
  have hlen : (storedParent p l q r).rest.length = l.length + r.length := by
    rw [storedParent, BTree.Node.length_rest_fill, List.length_map, List.length_map]
  have hkeys : (∀ x ∈ (storedParent p l q r).rest, 0 < x.1.1) ↔
      (∀ x ∈ l, 0 < x.2.1) ∧ ∀ x ∈ r, 0 < x.1.1 := by
    rw [storedParent, BTree.Node.forall_rest_fill (Q := fun e : Int × Int => 0 < e.1),
      List.forall_mem_map, List.forall_mem_map]
  rw [← hkeys, ← hlen]
  exact ⟨fun h => ⟨h.label, h.length, h.keys⟩, fun h => ⟨h.1, h.2.1, h.2.2⟩⟩

theorem storedParent_mem : storedParent p l q r ∈ X + Ctx.others 0 (.down p l r up) q := by
  rw [Ctx.others]
  exact Multiset.mem_add.2 (Or.inr (Multiset.mem_cons_self ..))

theorem Holds.load_parent
    (hfile : Holds root cap file (X + Ctx.others 0 (.down p l r up) q) free limbo) (n : Node) :
    ∃ n', n.load file p = .ok n' ∧ Shows n' (storedParent p l q r) ∧
      n'.parentStack = n.parentStack := hfile.load storedParent_mem n

end

/-- A node of the file has no offset of another one. -/
theorem Holds.label_ne {a b : Stored} (hfile : Holds root cap file (b ::ₘ M) free limbo)
    (ha : a ∈ M) : a.label ≠ b.label := by
  have hnodup := hfile.label_nodup
  rw [Multiset.map_cons] at hnodup
  intro heq
  apply (Multiset.nodup_cons.1 hnodup).1
  rw [← heq]
  exact Multiset.mem_map_of_mem _ ha

/-- A node is found in its parent. -/
theorem Holds.findChild_parent {h : Nat} {p : Int} {l : List (IdTree (h + 1) × (Int × Int))}
    {r : List ((Int × Int) × IdTree (h + 1))} {up : IdCtx (h + 2) H} {b : Stored}
    (hfile : Holds root cap file (b ::ₘ (M + Ctx.others 0 (.down p l r up) b.label)) free limbo)
    {n : Node} (hn : Shows n (storedParent p l b.label r)) {m : Nat} (hl : l.length ≤ m)
    (hm : m ≤ 9) : n.findChild b.label m 0 = l.length := by
  have hother : b.label ∉ (l.map fun x => (x.1.root 0, x.2)).map Prod.fst := by
    rw [List.map_map]
    intro hmem
    obtain ⟨x, hx, heq⟩ := List.mem_map.1 hmem
    refine hfile.label_ne (a := toStored x.1.toNode) ?_ heq
    apply Multiset.mem_add.2 (Or.inr _)
    exact Multiset.mem_of_le (Ctx.left_le_others 0 hx b.label) (Multiset.mem_cons_self ..)
  have hfound := hn.findChild hother (by rw [List.length_map]; exact hl) hm
  rw [List.length_map] at hfound
  exact hfound

/-! ## The search -/

/-- **Searching.** The search ends at a position, with the key or where it belongs. -/
theorem findNodeWithKey_spec (hfile : Holds root cap file M free limbo) :
    ∀ (fuel : Nat) (s : IdSpot H) (n : Node), s.tree.nodes 0 ≤ M → Increasing s.tree.entries →
    AtSpot n s → (∀ e ∈ s.before, e.1 < k) → (∀ e ∈ s.ctx.after, k < e.1) →
    10 * s.h + 10 ≤ fuel + s.left.length →
    ∃ n', ∃ s' : IdSpot H, findNodeWithKey file k fuel n s.left.length =
      .ok (n', s'.left.length) ∧ s'.tree = s.tree ∧ AtSpot n' s' ∧ (FoundAt k s' ∨ BelongsAt k s')
  | 0, s, n, hM, _, _, _, _, hfuel => by
    have hlen := hfile.spot_length hM
    omega
  | fuel + 1, s, n, hM, hinc, hn, hbefore, hafter, hfuel => by
    have hlen := hfile.spot_length hM
    have hload := hfile.spot_loadable hM
    have htriplet := hn.1.spot_triplet hlen
    have hchild := hn.1.spot_child hlen
    -- the child is entered, or the search ends in a leaf
    have hdown : (∀ e ∈ s.after, k < e.1) →
        ¬ (0 < n.key s.left.length ∧ k = n.key s.left.length) →
        (n.key s.left.length ≤ 0 ∨ k < n.key s.left.length) →
        ∃ n', ∃ s' : IdSpot H, findNodeWithKey file k (fuel + 1) n s.left.length =
          .ok (n', s'.left.length) ∧ s'.tree = s.tree ∧ AtSpot n' s' ∧
          (FoundAt k s' ∨ BelongsAt k s') := by
      intro hright hne hgt
      rw [findNodeWithKey, if_pos (by rw [NODE_ELEMENTS]; omega), if_neg hne, if_pos hgt]
      obtain ⟨h, c, p, l, u, r⟩ := s
      cases h with
      | zero =>
        have hleaf : ¬ 0 < n.child l.length := by
          rw [hchild]
          exact lt_irrefl 0
        rw [if_neg hleaf]
        exact ⟨n, _, rfl, rfl, hn, Or.inr ⟨rfl, hbefore, hright⟩⟩
      | succ h =>
        have hu : u.nodes 0 ≤ M := (Spot.nodes_child_le _ 0).trans hM
        have hpos : 0 < n.child l.length := by
          rw [hchild]
          exact hfile.root_pos hu
        obtain ⟨n', hn', hshow, hstack⟩ := hfile.load_root hu (n.pushParent n.offset)
        rw [if_pos hpos]
        dsimp only at hchild ⊢
        rw [hchild, hn']
        refine findNodeWithKey_spec hfile fuel
          ⟨h, .down p l r c, u.toNode.label, [], u.toNode.first, u.toNode.rest⟩ n' hM hinc
          ⟨hshow, ?_⟩ ?_ hright ?_
        · rw [hstack, Ctx.path, ← hn.2, Node.pushParent]
          exact congrArg (· :: _) hn.1.offset
        · rw [Spot.before, Ctx.before, left, List.append_nil]
          exact hbefore
        · dsimp only at hfuel hlen ⊢
          rw [List.length_nil]
          omega
    cases hr : s.right with
    | nil =>
      rw [hr] at htriplet
      have hkey : n.key s.left.length = 0 := congrArg Triplet.key htriplet
      refine hdown ?_ (fun hpos => ?_) (Or.inl (le_of_eq hkey))
      · rw [Spot.after, hr]
        exact hafter
      · rw [hkey] at hpos
        exact lt_irrefl _ hpos.1
    | cons x r =>
      obtain ⟨⟨e, v⟩, y⟩ := x
      rw [hr] at htriplet
      have hkey : n.key s.left.length = e := congrArg Triplet.key htriplet
      have hentries := s.entries_tree
      rw [s.after_cons hr, ← List.append_assoc] at hentries
      rw [hentries] at hinc
      have hepos : 0 < e := hload.keys ((e, v), y.root 0) (by
        rw [toStored, Spot.node, BTree.Node.map_fill, fill, hr]
        exact List.mem_append_right _ (List.mem_cons_self ..))
      rcases Int.lt_trichotomy k e with hlt | rfl | hgt
      · refine hdown ?_ (fun heq => ?_) (Or.inr (hkey ▸ hlt))
        · rw [s.after_cons hr]
          exact hinc.lt_of_right hlt
        · rw [hkey] at heq
          exact absurd heq.2 (ne_of_lt hlt)
      · refine ⟨n, s, ?_, rfl, hn, Or.inl ⟨v, y, r, hr⟩⟩
        rw [findNodeWithKey, if_pos (by rw [NODE_ELEMENTS]; lia), if_pos ⟨hkey ▸ hepos, hkey.symm⟩]
      · rw [findNodeWithKey, if_pos (by rw [NODE_ELEMENTS]; omega), hkey,
          if_neg (fun heq => (ne_of_gt hgt) heq.2), if_neg (by omega)]
        have htree := s.tree_next hr
        have hnext := findNodeWithKey_spec hfile fuel (s.next (e, v) y r) n
          (by rw [htree]; exact hM) (by rw [htree, hentries]; exact hinc)
          ⟨by rw [s.node_next hr]; exact hn.1, hn.2⟩
          (by rw [s.before_next]; exact hinc.lt_of_left hgt) hafter
          (by
            show 10 * s.h + 10 ≤ fuel + (s.left.length + 1)
            omega)
        rw [htree] at hnext
        exact hnext

/-! ## The walk -/

/-- The keys that fit into the array. -/
def fits (len : Nat) (out : List Int) (es : List (Int × Int)) : List Int :=
  (out ++ es.map Prod.fst).take len

theorem fits_nil {len : Nat} {out : List Int} (hout : out.length ≤ len) : fits len out [] = out := by
  rw [fits, List.map_nil, List.append_nil, List.take_of_length_le hout]

theorem fits_full {len : Nat} {out : List Int} (hout : out.length = len) (es : List (Int × Int)) :
    fits len out es = out := List.take_left' hout

theorem length_fits_le {len : Nat} {out : List Int} {es : List (Int × Int)} :
    (fits len out es).length ≤ len := List.length_take_le ..

theorem fits_append {len : Nat} {out : List Int} {es es' : List (Int × Int)} :
    fits len (fits len out es) es' = fits len out (es ++ es') := by
  rcases Nat.le_total (out ++ es.map Prod.fst).length len with hle | hge
  · rw [fits, fits, List.take_of_length_le hle, fits, List.map_append, List.append_assoc]
  · have hfull : (fits len out es).length = len := List.length_take_of_le hge
    rw [fits_full hfull, fits, fits, List.map_append, ← List.append_assoc,
      List.take_append_of_le_length hge]

theorem fits_cons {len : Nat} {out : List Int} (hout : out.length < len) {e : Int × Int}
    {es : List (Int × Int)} : fits len (out ++ [e.1]) es = fits len out (e :: es) := by
  have hone : fits len out [e] = out ++ [e.1] := by
    apply List.take_of_length_le
    rw [List.length_append, List.map_cons, List.map_nil, List.length_singleton]
    exact hout
  rw [← hone, fits_append, List.singleton_append]

/-- The rest of a node, where walking the children is described. -/
theorem walkLoop_spec (hfile : Holds root cap file M free limbo) {len : Nat}
    {sub : Node → List Int → Except Fault (List Int)} {m : Nat}
    (hsub : ∀ h, m = h + 1 → ∀ (t : IdTree (h + 1)) (n : Node) (out : List Int), t.nodes 0 ≤ M →
      Shows n (toStored t.toNode) → out.length ≤ len → sub n out = .ok (fits len out t.entries)) :
    ∀ (k : Nat) (s : IdSpot H) (n : Node) (out : List Int), s.h = m →
    s.tree.nodes 0 ≤ M → Shows n (toStored s.node) → out.length ≤ len → k + s.left.length = 9 →
    walkLoop file len sub k s.left.length n out =
      .ok (fits len out (s.child.entries ++ right Subtree.entries s.right))
  | 0, s, _, _, _, hM, _, _, hk => by
    have hlen := hfile.spot_length hM
    omega
  | k + 1, s, n, out, hh, hM, hn, hout, hk => by
    have hlen := hfile.spot_length hM
    have hload := hfile.spot_loadable hM
    have htriplet := hn.spot_triplet hlen
    have hchild := hn.spot_child hlen
    have hstored : toStored s.node ∈ M := Multiset.mem_of_le hM (s.stored_mem 0)
    rw [walkLoop]
    rcases Nat.lt_or_ge out.length len with hlt | hge
    swap
    · rw [if_neg (Nat.not_lt.2 hge), fits_full (le_antisymm hout hge)]
    · rw [if_pos hlt]
      -- the child, after which the node is loaded again
      have hentered : ∃ n', walkChild file sub n s.left.length out =
          .ok (n', fits len out s.child.entries) ∧ Shows n' (toStored s.node) := by
        obtain ⟨h', c, p, l, u, r⟩ := s
        cases h' with
        | zero =>
          have hleaf : ¬ 0 < n.child l.length := by
            rw [hchild]
            exact lt_irrefl 0
          rw [walkChild, if_neg hleaf]
          exact ⟨n, by rw [show u.entries = [] from rfl, fits_nil hout]; rfl, hn⟩
        | succ h' =>
          have hu : u.nodes 0 ≤ M := (Spot.nodes_child_le _ 0).trans hM
          have hpos : 0 < n.child l.length := by
            rw [hchild]
            exact hfile.root_pos hu
          obtain ⟨n₁, hn₁, hshow₁, -⟩ := hfile.load_root hu n
          obtain ⟨n₂, hn₂, hshow₂, -⟩ := hfile.load hstored n₁
          have hoffset : n.offset = (toStored (Spot.node ⟨h' + 1, c, p, l, u, r⟩)).label := hn.offset
          refine ⟨n₂, ?_, hshow₂⟩
          dsimp only at hchild ⊢
          rw [walkChild, if_pos hpos, hchild, hn₁, hoffset]
          show (sub n₁ out >>= fun out => n₁.load file _ >>= fun node => pure (node, out)) = _
          rw [hsub h' hh.symm u n₁ out hu hshow₁ hout]
          show (n₁.load file _ >>= fun node => pure (node, _)) = _
          rw [hn₂]
          rfl
      obtain ⟨n', hrun, hn'⟩ := hentered
      rw [hrun]
      have htriplet' := hn'.spot_triplet hlen
      show (if 0 < n'.key s.left.length ∧ (fits len out s.child.entries).length < len then
        walkLoop file len sub k (s.left.length + 1) n'
          (fits len out s.child.entries ++ [n'.key s.left.length])
        else .ok (fits len out s.child.entries)) = _
      cases hr : s.right with
      | nil =>
        rw [hr] at htriplet'
        have hkey : n'.key s.left.length = 0 := congrArg Triplet.key htriplet'
        rw [hkey, if_neg (fun hpos => lt_irrefl _ hpos.1), right, List.flatMap_nil, List.append_nil]
      | cons x r =>
        obtain ⟨⟨e, v⟩, y⟩ := x
        rw [hr] at htriplet'
        have hkey : n'.key s.left.length = e := congrArg Triplet.key htriplet'
        have hepos : 0 < e := hload.keys ((e, v), y.root 0) (by
          rw [toStored, Spot.node, BTree.Node.map_fill, fill, hr]
          exact List.mem_append_right _ (List.mem_cons_self ..))
        rw [hkey, right, List.flatMap_cons, ← fits_append]
        rcases Nat.lt_or_ge (fits len out s.child.entries).length len with hroom | hfull
        · rw [if_pos ⟨hepos, hroom⟩]
          have hnext := walkLoop_spec hfile hsub k (s.next (e, v) y r) n'
            (fits len out s.child.entries ++ [e]) hh (by rw [s.tree_next hr]; exact hM)
            (by rw [s.node_next hr]; exact hn')
            (by rw [List.length_append, List.length_singleton]; exact hroom)
            (by
              show k + (s.left.length + 1) = 9
              omega)
          rw [fits_cons (e := (e, v)) hroom] at hnext
          exact hnext
        · rw [if_neg (fun hroom => absurd hroom.2 (Nat.not_lt.2 hfull)),
            fits_full (le_antisymm length_fits_le hfull)]

/-- **Walking a subtree** adds its keys, in order, as long as there is room. -/
theorem walk_spec (hfile : Holds root cap file M free limbo) {len : Nat} :
    ∀ (fuel h : Nat) (t : IdTree (h + 1)) (n : Node) (out : List Int), t.nodes 0 ≤ M →
    Shows n (toStored t.toNode) → h < fuel → out.length ≤ len →
    walk file len fuel n out = .ok (fits len out t.entries)
  | 0, _, _, _, _, _, _, hfuel, _ => absurd hfuel (Nat.not_lt_zero _)
  | fuel + 1, h, t, n, out, hM, hn, hfuel, hout => by
    rw [walk]
    rcases Nat.lt_or_ge out.length len with hlt | hge
    swap
    · rw [if_pos hge, fits_full (le_antisymm hout hge)]
    · rw [if_neg (Nat.not_le.2 hlt)]
      have hsub : ∀ h', h = h' + 1 → ∀ (t' : IdTree (h' + 1)) (n' : Node) (out' : List Int),
          t'.nodes 0 ≤ M → Shows n' (toStored t'.toNode) → out'.length ≤ len →
          walk file len fuel n' out' = .ok (fits len out' t'.entries) :=
        fun h' hh t' n' out' ht' hn' hout' =>
          walk_spec hfile fuel h' t' n' out' ht' hn' (by omega) hout'
      have hspot := walkLoop_spec hfile hsub 9
        ⟨h, .top (h + 1), t.toNode.label, [], t.toNode.first, t.toNode.rest⟩ n out rfl hM hn hout
        rfl
      exact hspot

end

/-! ## The whole index -/

/-- **The invariant of the index file.** It holds a tree in shape with increasing keys; every other
slot is free, but for one. -/
structure WellFormed (file : IndexFile) {h : Nat} (t : IdTree (h + 1)) (free : List Int) : Prop where
  holds : Holds (t.root 0) file.size file (t.nodes 0) free 0
  rooted : t.Rooted (NODE_ELEMENTS / 2)
  increasing : Increasing t.entries

section
variable {file : IndexFile} {h : Nat} {t : IdTree (h + 1)} {free : List Int}

/-- The position in front of the first child of the root. -/
def rootSpot (t : IdTree (h + 1)) : IdSpot (h + 1) :=
  ⟨h, .top (h + 1), t.toNode.label, [], t.toNode.first, t.toNode.rest⟩

theorem WellFormed.two_pow_le (hw : WellFormed file t free) :
    100 * 2 ^ (h + 1) ≤ file.size := by
  have hpow : 2 ^ (h + 1) ≤ Multiset.card (t.nodes 0) + 1 := hw.rooted.two_pow_le 0 (by decide)
  have hcard := hw.holds.card_le
  have hcast : ((2 ^ (h + 1) : Nat) : Int) ≤ Multiset.card (t.nodes 0) + 1 := by exact_mod_cast hpow
  push_cast at hcast
  omega

/-- There is fuel for every path. -/
theorem WellFormed.fuel_le (hw : WellFormed file t free) : 10 * h + 10 ≤ file.fuel := by
  have hpow : h + 1 < 2 ^ (h + 1) := Nat.lt_two_pow_self
  have hcast : ((h + 1 : Nat) : Int) ≤ 2 ^ (h + 1) := by exact_mod_cast hpow.le
  have hsize := hw.two_pow_le
  rw [IndexFile.fuel]
  push_cast at hcast
  omega

/-- The root is loaded. -/
theorem WellFormed.load (hw : WellFormed file t free) : ∃ n, Node.new.load file file.idRoot = .ok n ∧
    AtSpot n (rootSpot t) := by
  obtain ⟨n, hn, hshow, hstack⟩ := hw.holds.load_root (le_refl _) Node.new
  rw [hw.holds.idRoot]
  exact ⟨n, hn, hshow, hstack⟩

/-- The search from the root. -/
theorem WellFormed.find (hw : WellFormed file t free) {n : Node} (hn : AtSpot n (rootSpot t))
    (k : Int) : ∃ n', ∃ s : IdSpot (h + 1), findNodeWithKey file k file.fuel n 0 =
      .ok (n', s.left.length) ∧ s.tree = t ∧ AtSpot n' s ∧ (FoundAt k s ∨ BelongsAt k s) := by
  refine findNodeWithKey_spec hw.holds file.fuel (rootSpot t) n (le_refl _) hw.increasing hn ?_ ?_
    hw.fuel_le
  · intro e he
    cases he
  · intro e he
    cases he

/-- A key that belongs at a position is not in the tree. -/
theorem BelongsAt.absent {H : Nat} {s : IdSpot H} {k : Int} (hs : BelongsAt k s) :
    ∀ e ∈ s.tree.entries, e.1 ≠ k := by
  obtain ⟨hzero, hbefore, hafter⟩ := hs
  rw [s.entries_tree]
  obtain ⟨h', c, p, l, u, r⟩ := s
  obtain rfl : h' = 0 := hzero
  intro e he
  rcases List.mem_append.1 he with hmem | hmem
  · exact ne_of_lt (hbefore e hmem)
  · exact ne_of_gt (hafter e hmem)

/-- **Looking up an id.** -/
theorem WellFormed.getRecordOffset (hw : WellFormed file t free) (k : Int) :
    ∃ v, TreeIndex.getRecordOffset file k = .ok v ∧
      ((k, v) ∈ t.entries ∨ v = 0 ∧ ∀ e ∈ t.entries, e.1 ≠ k) := by
  obtain ⟨n, hload, hn⟩ := hw.load
  obtain ⟨n', s, hfind, rfl, hn', hor⟩ := hw.find hn k
  have htriplet := hn'.1.spot_triplet (hw.holds.spot_length (le_refl _))
  have hget : TreeIndex.getRecordOffset file k =
      if n'.key s.left.length = k then .ok (n'.value s.left.length) else .ok 0 := by
    rw [TreeIndex.getRecordOffset, hload]
    show getKeyValue file n k = _
    rw [getKeyValue, hfind]
    rfl
  rw [hget, s.entries_tree]
  rcases hor with ⟨v, c, r, hr⟩ | ⟨hzero, hbefore, hafter⟩
  · -- the key is found
    rw [hr] at htriplet
    have hkey : n'.key s.left.length = k := congrArg Triplet.key htriplet
    have hvalue : n'.value s.left.length = v := congrArg Triplet.value htriplet
    refine ⟨v, by rw [if_pos hkey, hvalue], Or.inl ?_⟩
    rw [s.after_cons hr]
    exact List.mem_append_right _ (List.mem_append_right _ (List.mem_cons_self ..))
  · have hnone := BelongsAt.absent ⟨hzero, hbefore, hafter⟩
    rw [s.entries_tree] at hnone
    refine ⟨0, ?_, Or.inr ⟨rfl, hnone⟩⟩
    cases hr : s.right with
    | nil =>
      -- what is behind the keys is zero, which the key may be as well
      rw [hr] at htriplet
      have hvalue : n'.value s.left.length = 0 := congrArg Triplet.value htriplet
      rw [hvalue]
      exact ite_self _
    | cons x r =>
      obtain ⟨e, y⟩ := x
      rw [hr] at htriplet
      have hkey : n'.key s.left.length = e.1 := congrArg Triplet.key htriplet
      rw [hkey, if_neg]
      apply hnone
      rw [s.after_cons hr]
      exact List.mem_append_right _ (List.mem_append_right _ (List.mem_cons_self ..))

/-- **Enumerating the ids.** -/
theorem WellFormed.getRecordIds (hw : WellFormed file t free) {len : Nat}
    (hlen : len = t.entries.length) :
    TreeIndex.getRecordIds file len = .ok (t.entries.map Prod.fst) := by
  obtain ⟨n, hload, hn⟩ := hw.load
  have hfuel := hw.fuel_le
  rw [TreeIndex.getRecordIds, hload]
  show walk file len file.fuel n [] = _
  rw [walk_spec hw.holds file.fuel h t n [] (le_refl _) hn.1 (by omega) (Nat.zero_le _), fits,
    List.nil_append, hlen, List.take_of_length_le (le_of_eq (List.length_map ..))]

end

end FroggyKVM.TreeIndex
