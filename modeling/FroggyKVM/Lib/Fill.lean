/-
# FroggyKVM.Lib.Fill — texts written into a block, one cell after the other.

A loop that stores item after item at a growing index fills the cells from the first index on; what
it leaves there can be read back as a slice.
-/
import FroggyKVM.Lib.Buffer

namespace FroggyKVM.Buffer

variable {α : Type}

/-- The block with a text in the cells from `i` on. -/
def fill (b : Buffer α) (i : Nat) (text : List α) : Buffer α :=
  { b with data := fun k => if i ≤ k then text[k - i]?.getD (b.data k) else b.data k }

/-- `buffer[j++] = ..`, for the items of a list. -/
def putAll : List α → Nat → Buffer α → Except MemFault (Nat × Buffer α)
  | [], j, b => .ok (j, b)
  | x :: xs, j, b => do
    let b ← b.set j x
    putAll xs (j + 1) b

@[simp] theorem fill_length (b : Buffer α) (i : Nat) (text : List α) :
    (b.fill i text).length = b.length := rfl

@[simp] theorem fill_nil (b : Buffer α) (i : Nat) : b.fill i [] = b := by
  unfold fill
  congr 1
  funext k
  rw [List.getElem?_nil, Option.getD_none, ite_self]

/-- A text behind a text. -/
theorem fill_fill (b : Buffer α) (i : Nat) (xs ys : List α) :
    (b.fill i xs).fill (i + xs.length) ys = b.fill i (xs ++ ys) := by
  unfold fill
  congr 1
  funext k
  dsimp only
  by_cases hi : i ≤ k
  · by_cases hxs : k - i < xs.length
    · rw [if_neg (by omega), if_pos hi, if_pos hi, List.getElem?_append_left hxs]
    · have hnone : xs[k - i]? = none := List.getElem?_eq_none (by omega)
      rw [if_pos (by omega), if_pos hi, if_pos hi, List.getElem?_append_right (by omega), hnone,
        Option.getD_none, Nat.sub_sub]
  · rw [if_neg (by omega), if_neg hi, if_neg hi]

/-- A text in front of a text. -/
theorem fill_before (b : Buffer α) (i : Nat) (xs ys : List α) :
    (b.fill (i + xs.length) ys).fill i xs = b.fill i (xs ++ ys) := by
  unfold fill
  congr 1
  funext k
  dsimp only
  by_cases hi : i ≤ k
  · by_cases hxs : k - i < xs.length
    · rw [if_pos hi, if_pos hi, List.getElem?_append_left hxs, List.getElem?_eq_getElem hxs,
        Option.getD_some, Option.getD_some]
    · have hnone : xs[k - i]? = none := List.getElem?_eq_none (by omega)
      rw [if_pos hi, if_pos hi, if_pos (by omega), List.getElem?_append_right (by omega), hnone,
        Option.getD_none, Nat.sub_sub]
  · rw [if_neg hi, if_neg hi, if_neg (by omega)]

theorem set_eq_fill {b : Buffer α} {i : Nat} (h : i < b.length) (x : α) :
    b.set i x = .ok (b.fill i [x]) := by
  rw [set_ok h]
  unfold fill
  congr 2
  funext k
  by_cases hk : k = i
  · subst hk
    rw [if_pos rfl, if_pos (Nat.le_refl k), Nat.sub_self]
    rfl
  · rw [if_neg hk]
    split
    · rw [List.getElem?_eq_none (by rw [List.length_singleton]; omega)]
      rfl
    · rfl

/-- **The loop fills the cells from its index on.** -/
theorem putAll_ok {xs : List α} {j : Nat} {b : Buffer α} (h : j + xs.length ≤ b.length) :
    putAll xs j b = .ok (j + xs.length, b.fill j xs) := by
  induction xs generalizing j b with
  | nil => rw [putAll, fill_nil, List.length_nil, Nat.add_zero]
  | cons x xs ih =>
    rw [List.length_cons] at h
    have hrest := @ih (j + 1) (b.fill j [x]) (by rw [fill_length]; omega)
    have hfill := b.fill_fill j [x] xs
    rw [List.length_singleton] at hfill
    rw [putAll, set_eq_fill (by omega), ok_bind, hrest, hfill, List.length_cons,
      Nat.add_right_comm, Nat.add_assoc]
    rfl

theorem fill_data {b : Buffer α} {i k : Nat} {text : List α} (hk : k < text.length) :
    (b.fill i text).data (i + k) = text[k] := by
  show (if i ≤ i + k then text[i + k - i]?.getD (b.data (i + k)) else b.data (i + k)) = text[k]
  rw [if_pos (Nat.le_add_right i k), Nat.add_sub_cancel_left, List.getElem?_eq_getElem hk,
    Option.getD_some]

/-- Reading the text back. -/
theorem slice_fill {b : Buffer α} {i : Nat} {text : List α} (h : i + text.length ≤ b.length) :
    (b.fill i text).slice i text.length = .ok text := by
  rw [slice_ok (show i + text.length ≤ (b.fill i text).length from h)]
  congr 1
  apply List.ext_getElem
  · rw [List.length_ofFn]
  · intro k hk hk'
    rw [List.getElem_ofFn, fill_data hk']

end FroggyKVM.Buffer
