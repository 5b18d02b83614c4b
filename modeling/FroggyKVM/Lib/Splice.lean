/-
# FroggyKVM.Lib.Splice — writing a run of bytes into a list at an offset.

`splice xs i ys` is what writing `ys` at position `i` of a file with content `xs` leaves: the old
content with the bytes from `i` on replaced, grown at the end if need be.
-/
import Mathlib

namespace FroggyKVM

variable {α : Type*}

def splice (xs : List α) (i : Nat) (ys : List α) : List α :=
  xs.take i ++ ys ++ xs.drop (i + ys.length)

/-- Writing at the end of a prefix. -/
theorem splice_append {pre : List α} {i : Nat} (hpre : pre.length = i) (xs ys : List α) :
    splice (pre ++ xs) i ys = pre ++ (ys ++ xs.drop ys.length) := by
  subst hpre
  simp [splice, List.drop_append]

/-- Two consecutive writes are one. -/
theorem splice_splice (xs ys zs : List α) {i : Nat} (hi : i ≤ xs.length) :
    splice (splice xs i ys) (i + ys.length) zs = splice xs i (ys ++ zs) := by
  obtain ⟨pre, post, rfl, hpre⟩ : ∃ pre post, xs = pre ++ post ∧ pre.length = i :=
    ⟨xs.take i, xs.drop i, (List.take_append_drop i xs).symm, by rw [List.length_take]; omega⟩
  rw [splice_append hpre, ← List.append_assoc, splice_append (by simp [hpre]), splice_append hpre]
  simp [List.drop_drop]

theorem length_splice {xs ys : List α} {i : Nat} (hi : i + ys.length ≤ xs.length) :
    (splice xs i ys).length = xs.length := by
  simp only [splice, List.length_append, List.length_take, List.length_drop]
  omega

/-- What is behind the bytes written stays. -/
theorem drop_splice {xs ys : List α} {i j : Nat} (hi : i ≤ xs.length) (hj : i + ys.length ≤ j) :
    (splice xs i ys).drop j = xs.drop j := by
  obtain ⟨k, rfl⟩ := Nat.exists_eq_add_of_le hj
  have hlen : (xs.take i ++ ys).length = i + ys.length := by
    rw [List.length_append, List.length_take, Nat.min_eq_left hi]
  rw [splice, ← hlen, List.drop_append, List.drop_of_length_le (Nat.le_add_right ..),
    Nat.add_sub_cancel_left, List.drop_drop, List.nil_append]

/-- What is written from inside a prefix on decides the prefix alone. -/
theorem splice_append_left (xs ys zs : List α) {i : Nat} (hi : i ≤ xs.length) :
    splice (xs ++ zs) i ys = splice xs i ys ++ zs.drop (i + ys.length - xs.length) := by
  rw [splice, splice, List.take_append_of_le_length hi, List.drop_append]
  simp only [List.append_assoc]

theorem length_splice_ge {xs : List α} {i : Nat} (hi : i ≤ xs.length) (ys : List α) :
    xs.length ≤ (splice xs i ys).length ∧ i + ys.length ≤ (splice xs i ys).length := by
  simp only [splice, List.length_append, List.length_take, List.length_drop]
  omega

theorem splice_nil (xs : List α) (i : Nat) : splice xs i [] = xs := by
  simp [splice]

end FroggyKVM
