/-
# FroggyKVM.Lib.Segment — sorting a segment of an array by exchanges.

Indices are integers, since the right end of an empty segment at the start is `-1`.  An exchange of
two cells of a segment permutes the array and leaves the cells outside alone; `Rearranged` is any
number of them.  **Two sorted segments join** when a pivot separates what is before the second from
what is behind the first.
-/
import Mathlib

namespace FroggyKVM.Segment

variable {α : Type*}

/-- The cell at an index, if there is one. -/
def cell (a : List α) (i : Int) : Option α := if i < 0 then none else a[i.toNat]?

theorem cell_eq_some {a : List α} {i : Int} {x : α} :
    cell a i = some x ↔ 0 ≤ i ∧ a[i.toNat]? = some x := by
  unfold cell
  by_cases hi : i < 0
  · rw [if_pos hi]
    exact ⟨nofun, fun h => absurd h.1 (by omega)⟩
  · rw [if_neg hi]
    exact ⟨fun h => ⟨by omega, h⟩, fun h => h.2⟩

theorem lt_of_cell {a : List α} {i : Int} {x : α} (h : cell a i = some x) :
    0 ≤ i ∧ i.toNat < a.length :=
  ⟨(cell_eq_some.1 h).1, (List.getElem?_eq_some_iff.1 (cell_eq_some.1 h).2).1⟩

theorem mem_of_cell {a : List α} {i : Int} {x : α} (h : cell a i = some x) : x ∈ a :=
  List.mem_of_getElem? (cell_eq_some.1 h).2

theorem exists_cell {a : List α} {i : Int} (h0 : 0 ≤ i) (h : i < a.length) :
    ∃ x, cell a i = some x := by
  have hlt : i.toNat < a.length := by omega
  exact ⟨a[i.toNat], cell_eq_some.2 ⟨h0, List.getElem?_eq_getElem hlt⟩⟩

/-! ## Exchanges -/

/-- The cells `i` and `j`, which hold `x` and `y`, change places. -/
def exchange (a : List α) (i j : Int) (x y : α) : List α := (a.set i.toNat y).set j.toNat x

theorem cell_exchange {a : List α} {i j : Int} {x y : α} (hi : cell a i = some x)
    (hj : cell a j = some y) (k : Int) :
    cell (exchange a i j x y) k =
      if k = j then some x else if k = i then some y else cell a k := by
  obtain ⟨hi0, hilt⟩ := lt_of_cell hi
  obtain ⟨hj0, hjlt⟩ := lt_of_cell hj
  unfold cell exchange
  by_cases hk : k < 0
  · rw [if_pos hk, if_neg (by omega), if_neg (by omega), if_pos hk]
  · rw [if_neg hk, List.getElem?_set, List.getElem?_set, List.length_set]
    by_cases hkj : k = j
    · rw [if_pos hkj, if_pos (by lia), if_pos hjlt]
    · rw [if_neg hkj, if_neg (by omega)]
      by_cases hki : k = i
      · rw [if_pos hki, if_pos (by omega), if_pos hilt]
      · rw [if_neg hki, if_neg (by omega), if_neg hk]

theorem exchange_perm {a : List α} {i j : Int} {x y : α} (hi : cell a i = some x)
    (hj : cell a j = some y) : (exchange a i j x y).Perm a := by
  obtain ⟨hilt, hx⟩ := List.getElem?_eq_some_iff.1 (cell_eq_some.1 hi).2
  obtain ⟨hjlt, hy⟩ := List.getElem?_eq_some_iff.1 (cell_eq_some.1 hj).2
  have hperm := List.set_set_perm hilt hjlt
  rw [hx, hy] at hperm
  exact hperm

/-- `b` comes from `a` by exchanges between `lo` and `hi`. -/
inductive Rearranged (lo hi : Int) (a : List α) : List α → Prop
  | refl : Rearranged lo hi a a
  | exchange {b : List α} {i j : Int} {x y : α} :
    Rearranged lo hi a b → lo ≤ i → i ≤ hi → lo ≤ j → j ≤ hi →
    cell b i = some x → cell b j = some y → Rearranged lo hi a (exchange b i j x y)

namespace Rearranged

variable {lo hi : Int} {a b c : List α}

theorem trans (hab : Rearranged lo hi a b) (hbc : Rearranged lo hi b c) :
    Rearranged lo hi a c := by
  induction hbc with
  | refl => exact hab
  | exchange _ hi₁ hi₂ hj₁ hj₂ hx hy ih => exact ih.exchange hi₁ hi₂ hj₁ hj₂ hx hy

theorem mono {lo' hi' : Int} (h : Rearranged lo hi a b) (hlo : lo' ≤ lo) (hhi : hi ≤ hi') :
    Rearranged lo' hi' a b := by
  induction h with
  | refl => exact .refl
  | exchange _ hi₁ hi₂ hj₁ hj₂ hx hy ih =>
    exact ih.exchange (by omega) (by omega) (by omega) (by omega) hx hy

theorem perm (h : Rearranged lo hi a b) : b.Perm a := by
  induction h with
  | refl => exact .refl _
  | exchange _ _ _ _ _ hx hy ih => exact (exchange_perm hx hy).trans ih

theorem length_eq (h : Rearranged lo hi a b) : b.length = a.length := h.perm.length_eq

/-- Nothing changes outside the segment. -/
theorem cell_outside (h : Rearranged lo hi a b) {k : Int} (hk : k < lo ∨ hi < k) :
    cell b k = cell a k := by
  induction h with
  | refl => rfl
  | exchange _ hi₁ hi₂ hj₁ hj₂ hx hy ih =>
    rw [cell_exchange hx hy, if_neg (by omega), if_neg (by omega), ih]

/-- What the segment holds afterwards it held before. -/
theorem exists_cell (h : Rearranged lo hi a b) {k : Int} {z : α} (hk : lo ≤ k ∧ k ≤ hi)
    (hz : cell b k = some z) : ∃ k', (lo ≤ k' ∧ k' ≤ hi) ∧ cell a k' = some z := by
  induction h generalizing k with
  | refl => exact ⟨k, hk, hz⟩
  | exchange _ hi₁ hi₂ hj₁ hj₂ hx hy ih =>
    rw [cell_exchange hx hy] at hz
    split at hz
    · exact ih ⟨hi₁, hi₂⟩ (hx.trans hz)
    · split at hz
      · exact ih ⟨hj₁, hj₂⟩ (hy.trans hz)
      · exact ih hk hz

end Rearranged

/-! ## What holds of every cell of a segment, and of every two -/

def AllOn (lo hi : Int) (P : α → Prop) (a : List α) : Prop :=
  ∀ i x, lo ≤ i → i ≤ hi → cell a i = some x → P x

def SortedOn (lo hi : Int) (le : α → α → Prop) (a : List α) : Prop :=
  ∀ i j x y, lo ≤ i → i < j → j ≤ hi → cell a i = some x → cell a j = some y → le x y

variable {lo hi l h : Int} {a b c : List α} {P : α → Prop} {le : α → α → Prop}

theorem AllOn.empty (hlt : hi < lo) : AllOn lo hi P a := fun i x h₁ h₂ _ => by omega

theorem AllOn.succ (ha : AllOn lo (hi - 1) P a) (hP : ∀ x, cell a hi = some x → P x) :
    AllOn lo hi P a := by
  intro i x h₁ h₂ hx
  rcases Int.le_iff_lt_or_eq.1 h₂ with hlt | rfl
  · exact ha i x h₁ (by omega) hx
  · exact hP x hx

theorem AllOn.pred (ha : AllOn (lo + 1) hi P a) (hP : ∀ x, cell a lo = some x → P x) :
    AllOn lo hi P a := by
  intro i x h₁ h₂ hx
  rcases Int.le_iff_lt_or_eq.1 h₁ with hlt | rfl
  · exact ha i x (by omega) h₂ hx
  · exact hP x hx

theorem AllOn.append {m : Int} (h₁ : AllOn lo m P a) (h₂ : AllOn (m + 1) hi P a) :
    AllOn lo hi P a := by
  intro i x hlo hhi hx
  by_cases him : i ≤ m
  · exact h₁ i x hlo him hx
  · exact h₂ i x (by omega) hhi hx

/-- Rearranging inside the segment, or apart from it, keeps what holds of every cell. -/
theorem AllOn.rearranged (ha : AllOn l h P a) (hab : Rearranged lo hi a b)
    (hapart : (l ≤ lo ∧ hi ≤ h) ∨ h < lo ∨ hi < l) : AllOn l h P b := by
  intro i x h₁ h₂ hx
  by_cases hin : lo ≤ i ∧ i ≤ hi
  · obtain ⟨k, hk, hxk⟩ := hab.exists_cell hin hx
    exact ha k x (by omega) (by omega) hxk
  · rw [hab.cell_outside (by omega)] at hx
    exact ha i x h₁ h₂ hx

/-- The left cell of an exchange takes the value of the right one. -/
theorem AllOn.exchange_left {i j : Int} {x y : α} (ha : AllOn lo (i - 1) P a) (hij : i ≤ j)
    (hi : cell a i = some x) (hj : cell a j = some y) (hy : P y) :
    AllOn lo i P (exchange a i j x y) := by
  intro k z h₁ h₂ hz
  rw [cell_exchange hi hj] at hz
  split at hz
  · -- only where `i` and `j` are the same cell
    rename_i hkj
    obtain rfl : i = j := by omega
    obtain rfl : x = y := Option.some.inj (hi.symm.trans hj)
    exact Option.some.inj hz ▸ hy
  · split at hz
    · exact Option.some.inj hz ▸ hy
    · exact ha k z h₁ (by omega) hz

/-- The right cell of an exchange takes the value of the left one. -/
theorem AllOn.exchange_right {i j : Int} {x y : α} (ha : AllOn (j + 1) hi P a) (hij : i ≤ j)
    (hi' : cell a i = some x) (hj : cell a j = some y) (hx : P x) :
    AllOn j hi P (exchange a i j x y) := by
  intro k z h₁ h₂ hz
  rw [cell_exchange hi' hj] at hz
  split at hz
  · exact Option.some.inj hz ▸ hx
  · rw [if_neg (by omega)] at hz
    exact ha k z (by omega) h₂ hz

theorem SortedOn.of_le (hle : hi ≤ lo) : SortedOn lo hi le a :=
  fun i j x y h₁ h₂ h₃ _ _ => by omega

theorem SortedOn.rearranged (ha : SortedOn l h le a) (hab : Rearranged lo hi a b)
    (hapart : h < lo ∨ hi < l) : SortedOn l h le b := by
  intro i j x y h₁ h₂ h₃ hx hy
  rw [hab.cell_outside (by omega)] at hx hy
  exact ha i j x y h₁ h₂ h₃ hx hy

/-- **Two sorted segments join.** -/
theorem SortedOn.join {below above : α → Prop} {left right : Int}
    (hleft : SortedOn lo right le a) (hright : SortedOn left hi le a)
    (hbelow : AllOn lo (left - 1) below a) (habove : AllOn (right + 1) hi above a)
    (hle : ∀ x y, below x → above y → le x y) : SortedOn lo hi le a := by
  intro i j x y h₁ h₂ h₃ hx hy
  by_cases hj : j ≤ right
  · exact hleft i j x y h₁ h₂ hj hx hy
  by_cases hi : left ≤ i
  · exact hright i j x y hi h₂ h₃ hx hy
  exact hle x y (hbelow i x h₁ (by omega) hx) (habove j y (by omega) h₃ hy)

theorem SortedOn.pairwise (ha : SortedOn 0 (a.length - 1) le a) : a.Pairwise le := by
  rw [List.pairwise_iff_getElem]
  intro i j hi hj hij
  refine ha i j _ _ (by omega) (by omega) (by omega) ?_ ?_
  · exact cell_eq_some.2 ⟨by omega, List.getElem?_eq_getElem hi⟩
  · exact cell_eq_some.2 ⟨by omega, List.getElem?_eq_getElem hj⟩

end FroggyKVM.Segment
