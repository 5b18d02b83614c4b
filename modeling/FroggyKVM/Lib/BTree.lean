/-
# FroggyKVM.Lib.BTree — B-trees of labelled nodes, and trees with a hole.

A node has a label (where it is stored), a first child, and entries each followed by a child.  All
leaves of a `Subtree P E h` are at depth `h` by its type; the children of a leaf are trees of height 0.
`nodes` are the nodes with their children replaced by labels, which is what a memory holds of a
tree; `entries` is what the tree is about.  A `Ctx` is a tree with a hole, from the hole upwards:
loops that walk up from a node along a stack of parents are inductions over it.
-/
import Mathlib

namespace FroggyKVM.BTree

universe u

variable {P E α β : Type u}

/-! ## Nodes -/

/-- A node with children in `α`. -/
structure Node (P E α : Type u) where
  label : P
  first : α
  rest : List (E × α)

namespace Node

/-- The same node with its children replaced. -/
def map (f : α → β) (n : Node P E α) : Node P E β :=
  ⟨n.label, f n.first, n.rest.map fun x => (x.1, f x.2)⟩

/-- Every child has the property. -/
def Kids (Q : α → Prop) (n : Node P E α) : Prop := Q n.first ∧ ∀ x ∈ n.rest, Q x.2

/-- The sum over the children. -/
def sum {M : Type*} [AddCommMonoid M] (f : α → M) (n : Node P E α) : M :=
  f n.first + (n.rest.map fun x => f x.2).sum

/-- Entries each followed by what is in their child. -/
def right (es : α → List E) (r : List (E × α)) : List E := r.flatMap fun x => x.1 :: es x.2

/-- Entries in order. -/
def flat (es : α → List E) (n : Node P E α) : List E := es n.first ++ right es n.rest

/-! ## A node around one of its children

The children left of it are listed from the nearest one on, each with the entry behind it. -/

/-- The first child, with the list `l` left of the child `t`. -/
def leftmost : List (α × E) → α → α
  | [], t => t
  | (c, _) :: l, _ => leftmost l c

/-- The entries up to `t`, each with the child behind it. -/
def before : List (α × E) → α → List (E × α)
  | [], _ => []
  | (c, e) :: l, t => before l c ++ [(e, t)]

/-- The node with `l` left of `t` and `r` right of it. -/
def fill (label : P) (l : List (α × E)) (t : α) (r : List (E × α)) : Node P E α :=
  ⟨label, leftmost l t, before l t ++ r⟩

/-- What is in the children left of `t`, and the entries between. -/
def left (es : α → List E) : List (α × E) → List E
  | [] => []
  | (c, e) :: l => left es l ++ (es c ++ [e])

variable {p : P} {l : List (α × E)} {t c : α} {e : E} {r : List (E × α)}

theorem right_cons (es : α → List E) (x : E × α) :
    right es (x :: r) = x.1 :: (es x.2 ++ right es r) := rfl

/-- The next child to the left. -/
theorem fill_cons : fill p ((c, e) :: l) t r = fill p l c ((e, t) :: r) := by
  simp only [fill, leftmost, before, List.append_assoc, List.singleton_append]

@[simp] theorem length_before : (before l t).length = l.length := by
  induction l generalizing t with
  | nil => rfl
  | cons x l ih =>
    rw [before, List.length_append, ih]
    rfl

@[simp] theorem length_rest_fill : (fill p l t r).rest.length = l.length + r.length := by
  rw [fill, List.length_append, length_before]

theorem map_fill (f : α → β) : (fill p l t r).map f =
    fill p (l.map fun x => (f x.1, x.2)) (f t) (r.map fun x => (x.1, f x.2)) := by
  induction l generalizing t r with
  | nil => rfl
  | cons x l ih =>
    obtain ⟨c, e⟩ := x
    rw [fill_cons, ih, List.map_cons, List.map_cons, fill_cons]

theorem kids_fill {Q : α → Prop} :
    (fill p l t r).Kids Q ↔ (∀ x ∈ l, Q x.1) ∧ Q t ∧ ∀ x ∈ r, Q x.2 := by
  induction l generalizing t r with
  | nil => exact ⟨fun h => ⟨fun x hx => absurd hx List.not_mem_nil, h⟩, fun h => h.2⟩
  | cons x l ih =>
    obtain ⟨c, e⟩ := x
    rw [fill_cons, ih]
    simp only [List.forall_mem_cons]
    exact ⟨fun ⟨hl, hc, ht, hr⟩ => ⟨⟨hc, hl⟩, ht, hr⟩, fun ⟨⟨hc, hl⟩, ht, hr⟩ => ⟨hl, hc, ht, hr⟩⟩

/-- The entries of the node itself. -/
theorem forall_rest_fill {Q : E → Prop} :
    (∀ x ∈ (fill p l t r).rest, Q x.1) ↔ (∀ x ∈ l, Q x.2) ∧ ∀ x ∈ r, Q x.1 := by
  induction l generalizing t r with
  | nil => exact ⟨fun h => ⟨fun x hx => absurd hx List.not_mem_nil, h⟩, fun h => h.2⟩
  | cons x l ih =>
    obtain ⟨c, e⟩ := x
    rw [fill_cons, ih]
    simp only [List.forall_mem_cons]
    exact ⟨fun ⟨hl, he, hr⟩ => ⟨⟨he, hl⟩, hr⟩, fun ⟨⟨he, hl⟩, hr⟩ => ⟨hl, he, hr⟩⟩

theorem sum_fill {M : Type*} [AddCommMonoid M] (f : α → M) : (fill p l t r).sum f =
    (l.map fun x => f x.1).sum + (f t + (r.map fun x => f x.2).sum) := by
  induction l generalizing t r with
  | nil => exact (zero_add _).symm
  | cons x l ih =>
    obtain ⟨c, e⟩ := x
    rw [fill_cons, ih, List.map_cons, List.map_cons, List.sum_cons, List.sum_cons]
    abel

theorem flat_fill (es : α → List E) :
    (fill p l t r).flat es = left es l ++ (es t ++ right es r) := by
  induction l generalizing t r with
  | nil => rfl
  | cons x l ih =>
    obtain ⟨c, e⟩ := x
    rw [fill_cons, ih, left, right, right, List.flatMap_cons]
    simp only [List.append_assoc, List.cons_append, List.nil_append]

/-- The entries of the node itself are among those of the tree, in the same order. -/
theorem rest_sublist_flat (es : α → List E) (n : Node P E α) :
    (n.rest.map Prod.fst).Sublist (n.flat es) := by
  apply List.Sublist.trans _ (List.sublist_append_right ..)
  induction n.rest with
  | nil => exact List.Sublist.slnil
  | cons x r ih => exact (ih.trans (List.sublist_append_right ..)).cons_cons x.1

theorem mem_left (es : α → List E) {x : α × E} (hx : x ∈ l) : x.2 ∈ left es l := by
  induction l with
  | nil => cases hx
  | cons y l ih =>
    rcases List.mem_cons.1 hx with rfl | hx
    · exact List.mem_append_right _ (List.mem_append_right _ (List.mem_singleton_self _))
    · exact List.mem_append_left _ (ih hx)

theorem mem_right (es : α → List E) {x : E × α} (hx : x ∈ r) : x.1 ∈ right es r :=
  List.mem_flatMap.2 ⟨x, hx, List.mem_cons_self ..⟩

/-! ## A node cut in two at an entry -/

variable {f : α} {a b : List (E × α)} {x : E × α}

theorem sum_append {M : Type*} [AddCommMonoid M] (g : α → M) (q : P) :
    sum g ⟨p, f, a ++ x :: b⟩ = sum g ⟨p, f, a⟩ + sum g ⟨q, x.2, b⟩ := by
  simp only [sum, List.map_append, List.sum_append, List.map_cons, List.sum_cons]
  exact (add_assoc ..).symm

theorem flat_append (es : α → List E) (q : P) :
    flat es ⟨p, f, a ++ x :: b⟩ = flat es ⟨p, f, a⟩ ++ x.1 :: flat es ⟨q, x.2, b⟩ := by
  simp only [flat, right, List.flatMap_append, List.flatMap_cons, List.append_assoc,
    List.cons_append]

theorem kids_append {Q : α → Prop} (q : P) :
    Kids Q ⟨p, f, a ++ x :: b⟩ ↔ Kids Q ⟨p, f, a⟩ ∧ Kids Q ⟨q, x.2, b⟩ := by
  simp only [Kids, List.forall_mem_append, List.forall_mem_cons, and_assoc]

end Node

/-! ## Trees -/

/-- Trees of height `h`. -/
def Subtree (P E : Type u) : Nat → Type u
  | 0 => PUnit
  | h + 1 => Node P E (Subtree P E h)

namespace Subtree
variable {h : Nat}

/-- The tree with the root `n`. -/
def node (n : Node P E (Subtree P E h)) : Subtree P E (h + 1) := n

/-- The root node. -/
def toNode (t : Subtree P E (h + 1)) : Node P E (Subtree P E h) := t

@[simp] theorem toNode_node (n : Node P E (Subtree P E h)) : toNode (node n) = n := rfl

@[simp] theorem node_toNode (t : Subtree P E (h + 1)) : node (toNode t) = t := rfl

/-- The label of the root; `nil` for the children of a leaf. -/
def root (nil : P) : {h : Nat} → Subtree P E h → P
  | 0, _ => nil
  | _ + 1, t => t.toNode.label

/-- The entries, in order. -/
def entries : {h : Nat} → Subtree P E h → List E
  | 0, _ => []
  | _ + 1, t => t.toNode.flat entries

/-- The nodes, with labels for children. -/
def nodes (nil : P) : {h : Nat} → Subtree P E h → Multiset (Node P E P)
  | 0, _ => 0
  | _ + 1, t => t.toNode.map (root nil) ::ₘ t.toNode.sum (nodes nil)

/-- Every node has between `m` and `2 * m` entries. -/
def Filled (m : Nat) : {h : Nat} → Subtree P E h → Prop
  | 0, _ => True
  | _ + 1, t => m ≤ t.toNode.rest.length ∧ t.toNode.rest.length ≤ 2 * m ∧ t.toNode.Kids (Filled m)

/-- Every node but the root has between `m` and `2 * m` entries; the root has at most that many, and
one or more when it is no leaf. -/
def Rooted (m : Nat) : {h : Nat} → Subtree P E h → Prop
  | 0, _ => False
  | h + 1, t => t.toNode.rest.length ≤ 2 * m ∧ (0 < h → 0 < t.toNode.rest.length) ∧
      t.toNode.Kids (Filled m)

/-- A bound on the height, for nodes with two children or more. -/
theorem Filled.two_pow_le (nil : P) {m : Nat} (hm : 0 < m) :
    ∀ {h : Nat} {t : Subtree P E h}, t.Filled m → 2 ^ h ≤ Multiset.card (t.nodes nil) + 1
  | 0, _, _ => le_refl _
  | h + 1, t, ⟨hlow, _, hfirst, hrest⟩ => by
    have hone := Filled.two_pow_le nil hm hfirst
    obtain ⟨x, r, hr⟩ := List.exists_cons_of_length_pos (hm.trans_le hlow)
    have htwo := Filled.two_pow_le nil hm (hrest x (hr ▸ List.mem_cons_self ..))
    simp only [nodes, Node.sum, hr, Multiset.card_cons, Multiset.card_add, List.map_cons,
      List.sum_cons]
    omega

theorem Rooted.two_pow_le (nil : P) {m : Nat} (hm : 0 < m) {t : Subtree P E h} (ht : t.Rooted m) :
    2 ^ h ≤ Multiset.card (t.nodes nil) + 1 := by
  match h, t, ht with
  | 1, t, _ =>
    simp only [nodes, Multiset.card_cons]
    omega
  | h + 2, t, ⟨_, hpos, hfirst, hrest⟩ =>
    have hone := hfirst.two_pow_le nil hm
    obtain ⟨x, r, hr⟩ := List.exists_cons_of_length_pos (hpos (Nat.succ_pos h))
    have htwo := (hrest x (hr ▸ List.mem_cons_self ..)).two_pow_le nil hm
    rw [nodes, Node.sum, hr, List.map_cons, List.sum_cons, Multiset.card_cons, Multiset.card_add,
      Multiset.card_add, Nat.pow_succ]
    omega

variable (n : Node P E (Subtree P E h))

@[simp] theorem root_node (nil : P) : (node n).root nil = n.label := rfl

theorem entries_node : (node n).entries = n.flat entries := rfl

theorem nodes_node (nil : P) : (node n).nodes nil = n.map (root nil) ::ₘ n.sum (nodes nil) := rfl

theorem filled_node {m : Nat} : (node n).Filled m ↔
    m ≤ n.rest.length ∧ n.rest.length ≤ 2 * m ∧ n.Kids (Filled m) := Iff.rfl

theorem rooted_node {m : Nat} : (node n).Rooted m ↔
    n.rest.length ≤ 2 * m ∧ (0 < h → 0 < n.rest.length) ∧ n.Kids (Filled m) := Iff.rfl

end Subtree

/-! ## Trees with a hole -/

/-- A tree of height `H` with a hole for a tree of height `h`: the node around the hole, and the
rest of the tree around that node. -/
inductive Ctx (P E : Type u) : Nat → Nat → Type u
  | top (h : Nat) : Ctx P E h h
  | down {h H : Nat} (label : P) (left : List (Subtree P E h × E)) (right : List (E × Subtree P E h))
      (up : Ctx P E (h + 1) H) : Ctx P E h H

namespace Ctx

/-- The tree with the hole filled. -/
def plug {H : Nat} : {h : Nat} → Ctx P E h H → Subtree P E h → Subtree P E H
  | _, top _, t => t
  | _, down p l r up, t => plug up (.node (.fill p l t r))

/-- The entries left of the hole. -/
def before {H : Nat} : {h : Nat} → Ctx P E h H → List E
  | _, top _ => []
  | _, down _ l _ up => before up ++ Node.left Subtree.entries l

/-- The entries right of the hole. -/
def after {H : Nat} : {h : Nat} → Ctx P E h H → List E
  | _, top _ => []
  | _, down _ _ r up => Node.right Subtree.entries r ++ after up

/-- The nodes around the hole, with `q` for the label of the tree in it. -/
def others (nil : P) {H : Nat} : {h : Nat} → Ctx P E h H → P → Multiset (Node P E P)
  | _, top _, _ => 0
  | _, down p l r up, q =>
    .fill p (l.map fun x => (x.1.root nil, x.2)) q (r.map fun x => (x.1, x.2.root nil)) ::ₘ
      ((l.map fun x => x.1.nodes nil).sum + (r.map fun x => x.2.nodes nil).sum + others nil up p)

/-- The labels of the nodes above the hole, the nearest first. -/
def path {H : Nat} : {h : Nat} → Ctx P E h H → List P
  | _, top _ => []
  | _, down p _ _ up => p :: path up

/-- The label of the root, with `q` for that of the tree in the hole. -/
def rootOf {H : Nat} : {h : Nat} → Ctx P E h H → P → P
  | _, top _, q => q
  | _, down p _ _ up, _ => rootOf up p

def isTop {H : Nat} : {h : Nat} → Ctx P E h H → Bool
  | _, top _ => true
  | _, down .. => false

/-- The nodes around the hole have the right numbers of entries. -/
def Fits (m : Nat) {H : Nat} : {h : Nat} → Ctx P E h H → Prop
  | _, top _ => True
  | _, down _ l r up => (∀ x ∈ l, x.1.Filled m) ∧ (∀ x ∈ r, x.2.Filled m) ∧
      l.length + r.length ≤ 2 * m ∧ (if isTop up then 1 else m) ≤ l.length + r.length ∧ Fits m up

variable {h H : Nat}

theorem entries_plug (c : Ctx P E h H) (t : Subtree P E h) :
    (c.plug t).entries = c.before ++ (t.entries ++ c.after) := by
  induction c with
  | top h => simp only [plug, before, after, List.nil_append, List.append_nil]
  | down p l r up ih =>
    rw [plug, ih, before, after, Subtree.entries_node, Node.flat_fill]
    simp only [List.append_assoc]

theorem nodes_plug (nil : P) (c : Ctx P E h H) (t : Subtree P E h) :
    (c.plug t).nodes nil = t.nodes nil + c.others nil (t.root nil) := by
  induction c with
  | top h => exact (add_zero _).symm
  | down p l r up ih =>
    rw [plug, ih, others, Subtree.nodes_node, Node.map_fill, Node.sum_fill, Subtree.root_node, Node.fill]
    simp only [← Multiset.singleton_add]
    abel

theorem root_plug (nil : P) (c : Ctx P E h H) (t : Subtree P E h) :
    (c.plug t).root nil = c.rootOf (t.root nil) := by
  induction c with
  | top h => rfl
  | down p l r up ih => rw [plug, ih, rootOf, Subtree.root_node, Node.fill]

/-- There is one node above the hole for each level. -/
theorem length_path (c : Ctx P E h H) : c.path.length + h = H := by
  induction c with
  | top h => exact Nat.zero_add h
  | down p l r up ih =>
    rw [path, List.length_cons, Nat.add_right_comm]
    exact ih

theorem path_of_isTop {c : Ctx P E h H} (htop : c.isTop = true) : c.path = [] := by
  cases c with
  | top h => rfl
  | down p l r up => cases htop

/-- **The shape of a tree with its hole filled.** -/
theorem rooted_plug {m : Nat} (c : Ctx P E h H) (t : Subtree P E h) (hh : 0 < h) :
    (c.plug t).Rooted m ↔ c.Fits m ∧ if c.isTop then t.Rooted m else t.Filled m := by
  induction c with
  | top h => simp only [plug, Fits, isTop, if_true, true_and]
  | down p l r up ih =>
    rw [plug, ih _ (Nat.succ_pos _), Fits, isTop, if_neg Bool.false_ne_true]
    cases htop : up.isTop with
    | true =>
      rw [if_pos rfl, if_pos rfl, Subtree.rooted_node, Node.kids_fill, Node.length_rest_fill]
      constructor
      · rintro ⟨hup, hle, hpos, hl, ht, hr⟩
        exact ⟨⟨hl, hr, hle, hpos hh, hup⟩, ht⟩
      · rintro ⟨⟨hl, hr, hle, hpos, hup⟩, ht⟩
        exact ⟨hup, hle, fun _ => hpos, hl, ht, hr⟩
    | false =>
      rw [if_neg Bool.false_ne_true, if_neg Bool.false_ne_true, Subtree.filled_node, Node.kids_fill,
        Node.length_rest_fill]
      constructor
      · rintro ⟨hup, hge, hle, hl, ht, hr⟩
        exact ⟨⟨hl, hr, hle, hge, hup⟩, ht⟩
      · rintro ⟨⟨hl, hr, hle, hge, hup⟩, ht⟩
        exact ⟨hup, hge, hle, hl, ht, hr⟩

/-- A tree with a hole in the hole of another one. -/
def comp {H : Nat} : {h k : Nat} → Ctx P E h k → Ctx P E k H → Ctx P E h H
  | _, _, top _, c => c
  | _, _, down p l r up, c => down p l r (comp up c)

section
variable {k : Nat} (d : Ctx P E h k) (c : Ctx P E k H)

theorem plug_comp (t : Subtree P E h) : (d.comp c).plug t = c.plug (d.plug t) := by
  induction d with
  | top h => rfl
  | down p l r up ih => exact ih c _

theorem path_comp : (d.comp c).path = d.path ++ c.path := by
  induction d with
  | top h => rfl
  | down p l r up ih => exact congrArg (p :: ·) (ih c)

theorem before_comp : (d.comp c).before = c.before ++ d.before := by
  induction d with
  | top h => exact (List.append_nil _).symm
  | down p l r up ih => rw [comp, before, ih, before, List.append_assoc]

theorem after_comp : (d.comp c).after = d.after ++ c.after := by
  induction d with
  | top h => rfl
  | down p l r up ih => rw [comp, after, ih, after, List.append_assoc]

end

/-- The nodes of a tree and around it, from the node above it on. -/
theorem nodes_add_others (nil : P) {p q : P} {l : List (Subtree P E h × E)} {t : Subtree P E h}
    {r : List (E × Subtree P E h)} {up : Ctx P E (h + 1) H} :
    t.nodes nil + (down p l r up).others nil q =
      .fill p (l.map fun x => (x.1.root nil, x.2)) q (r.map fun x => (x.1, x.2.root nil)) ::ₘ
        (Node.sum (Subtree.nodes nil) (.fill p l t r) + up.others nil p) := by
  rw [others, Node.sum_fill]
  simp only [← Multiset.singleton_add]
  abel

/-- The children around the hole are outside of it. -/
theorem left_le_others (nil : P) {p : P} {l : List (Subtree P E h × E)} {r : List (E × Subtree P E h)}
    {up : Ctx P E (h + 1) H} {x : Subtree P E h × E} (hx : x ∈ l) (q : P) :
    x.1.nodes nil ≤ (down p l r up).others nil q := by
  have hmem := List.le_sum_of_mem
    (List.mem_map_of_mem (f := fun x : Subtree P E h × E => x.1.nodes nil) hx)
  rw [others]
  exact hmem.trans (((Multiset.le_add_right ..).trans (Multiset.le_add_right ..)).trans
    (Multiset.le_cons_self ..))

theorem right_le_others (nil : P) {p : P} {l : List (Subtree P E h × E)} {r : List (E × Subtree P E h)}
    {up : Ctx P E (h + 1) H} {x : E × Subtree P E h} (hx : x ∈ r) (q : P) :
    x.2.nodes nil ≤ (down p l r up).others nil q := by
  have hmem := List.le_sum_of_mem
    (List.mem_map_of_mem (f := fun x : E × Subtree P E h => x.2.nodes nil) hx)
  rw [others]
  exact hmem.trans (((Multiset.le_add_left ..).trans (Multiset.le_add_right ..)).trans
    (Multiset.le_cons_self ..))

end Ctx

/-! ## Positions -/

/-- A position in a tree of height `H`: a node of it, and a child of that node. -/
structure Spot (P E : Type u) (H : Nat) where
  h : Nat
  ctx : Ctx P E (h + 1) H
  label : P
  left : List (Subtree P E h × E)
  child : Subtree P E h
  right : List (E × Subtree P E h)

namespace Spot
variable {H : Nat} (s : Spot P E H)

/-- The node. -/
def node : Node P E (Subtree P E s.h) := .fill s.label s.left s.child s.right

/-- The whole tree. -/
def tree : Subtree P E H := s.ctx.plug (.node s.node)

/-- The entries left of the child. -/
def before : List E := s.ctx.before ++ Node.left Subtree.entries s.left

/-- The entries right of the child. -/
def after : List E := Node.right Subtree.entries s.right ++ s.ctx.after

/-- The next position to the right, where `e` and `c` are next. -/
abbrev next (e : E) (c : Subtree P E s.h) (r : List (E × Subtree P E s.h)) : Spot P E H :=
  { s with left := (s.child, e) :: s.left, child := c, right := r }

/-- Another entry in the place of the next one. -/
abbrev replace (e : E) (c : Subtree P E s.h) (r : List (E × Subtree P E s.h)) : Spot P E H :=
  { s with right := (e, c) :: r }

theorem node_next {e : E} {c : Subtree P E s.h} {r : List (E × Subtree P E s.h)}
    (hr : s.right = (e, c) :: r) : (s.next e c r).node = s.node := by
  show Node.fill s.label ((s.child, e) :: s.left) c r = .fill s.label s.left s.child s.right
  rw [hr]
  exact Node.fill_cons

theorem tree_next {e : E} {c : Subtree P E s.h} {r : List (E × Subtree P E s.h)}
    (hr : s.right = (e, c) :: r) : (s.next e c r).tree = s.tree := by
  rw [tree, s.node_next hr, tree]

theorem before_next {e : E} {c : Subtree P E s.h} {r : List (E × Subtree P E s.h)} :
    (s.next e c r).before = s.before ++ s.child.entries ++ [e] := by
  rw [before, before, next, Node.left]
  simp only [List.append_assoc]

theorem after_cons {e : E} {c : Subtree P E s.h} {r : List (E × Subtree P E s.h)}
    (hr : s.right = (e, c) :: r) : s.after = e :: (c.entries ++ (s.next e c r).after) := by
  rw [after, hr, Node.right, List.flatMap_cons, List.cons_append, List.cons_append,
    List.append_assoc]
  rfl

theorem entries_tree : s.tree.entries = s.before ++ (s.child.entries ++ s.after) := by
  rw [tree, Ctx.entries_plug, Subtree.entries_node, node, Node.flat_fill, before, after]
  simp only [List.append_assoc]

/-- The nodes below are nodes of the tree. -/
theorem nodes_node_le (nil : P) : (Subtree.node s.node).nodes nil ≤ s.tree.nodes nil := by
  rw [tree, Ctx.nodes_plug]
  exact Multiset.le_add_right ..

theorem stored_mem (nil : P) : s.node.map (Subtree.root nil) ∈ s.tree.nodes nil :=
  Multiset.mem_of_le (s.nodes_node_le nil) (Multiset.mem_cons_self ..)

theorem nodes_tree (nil : P) : s.tree.nodes nil = s.node.map (Subtree.root nil) ::ₘ
    (s.node.sum (Subtree.nodes nil) + s.ctx.others nil s.label) := by
  rw [tree, Ctx.nodes_plug, Subtree.nodes_node, Multiset.cons_add]
  rfl

/-- The shape of a tree, at a position. -/
theorem rooted_tree {m : Nat} : s.tree.Rooted m ↔ s.ctx.Fits m ∧ s.node.Kids (Subtree.Filled m) ∧
    s.left.length + s.right.length ≤ 2 * m ∧
    (s.ctx.isTop = false → m ≤ s.left.length + s.right.length) ∧
    (s.ctx.isTop = true → 0 < s.h → 0 < s.left.length + s.right.length) := by
  have hlen : s.node.rest.length = s.left.length + s.right.length := Node.length_rest_fill
  rw [tree, Ctx.rooted_plug _ _ (Nat.succ_pos s.h)]
  cases s.ctx.isTop with
  | true =>
    rw [if_pos rfl, Subtree.rooted_node, hlen]
    exact ⟨fun ⟨hfits, hle, hpos, hkids⟩ => ⟨hfits, hkids, hle, Bool.noConfusion, fun _ => hpos⟩,
      fun ⟨hfits, hkids, hle, _, hpos⟩ => ⟨hfits, hle, hpos rfl, hkids⟩⟩
  | false =>
    rw [if_neg Bool.false_ne_true, Subtree.filled_node, hlen]
    exact ⟨fun ⟨hfits, hge, hle, hkids⟩ => ⟨hfits, hkids, hle, fun _ => hge, Bool.noConfusion⟩,
      fun ⟨hfits, hkids, hle, hge, _⟩ => ⟨hfits, hge rfl, hle, hkids⟩⟩

/-- Replacing an entry changes one node, not the shape. -/
theorem nodes_replace (nil : P) {e e₀ : E} {c : Subtree P E s.h} {r : List (E × Subtree P E s.h)}
    (hr : s.right = (e₀, c) :: r) :
    (s.replace e c r).tree.nodes nil = (s.replace e c r).node.map (Subtree.root nil) ::ₘ
      (s.node.sum (Subtree.nodes nil) + s.ctx.others nil s.label) := by
  rw [nodes_tree, node, Node.sum_fill, node, Node.sum_fill, hr]
  rfl

theorem rooted_replace {m : Nat} {e e₀ : E} {c : Subtree P E s.h} {r : List (E × Subtree P E s.h)}
    (hr : s.right = (e₀, c) :: r) : (s.replace e c r).tree.Rooted m ↔ s.tree.Rooted m := by
  rw [rooted_tree, rooted_tree, node, node, Node.kids_fill, Node.kids_fill, hr]
  simp only [List.forall_mem_cons, List.length_cons]

theorem root_replace (nil : P) {e : E} {c : Subtree P E s.h} {r : List (E × Subtree P E s.h)} :
    (s.replace e c r).tree.root nil = s.tree.root nil := by
  rw [tree, Ctx.root_plug, tree, Ctx.root_plug]
  rfl

theorem nodes_child_le (nil : P) : s.child.nodes nil ≤ s.tree.nodes nil := by
  apply le_trans _ (s.nodes_node_le nil)
  rw [Subtree.nodes_node, node, Node.sum_fill]
  exact ((Multiset.le_add_right ..).trans (Multiset.le_add_left ..)).trans
    (Multiset.le_cons_self ..)

end Spot

end FroggyKVM.BTree
