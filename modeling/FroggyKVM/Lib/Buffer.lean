/-
# FroggyKVM.Lib.Buffer — memory blocks of a fixed length, and accesses that fault outside them.

A block is a length and a content; reads, writes and block moves check their range and fault when
an index lies outside.  The content past the length is never seen, so a write is a plain update of a
function.
-/
import Mathlib

namespace FroggyKVM

/-- An access outside a block, or the end of a loop's fuel. -/
inductive MemFault where
  | outOfRange
  | outOfFuel
  deriving DecidableEq, Repr

/-- A block of `length` cells. -/
structure Buffer (α : Type*) where
  length : Nat
  data : Nat → α

/-- A step that does not fault hands its value on. -/
@[simp] theorem ok_bind {ε α β : Type} (a : α) (f : α → Except ε β) :
    (Except.ok a >>= f) = f a := rfl

@[simp] theorem pure_eq_ok {ε α : Type} (a : α) : (pure a : Except ε α) = .ok a := rfl

namespace Buffer

variable {α : Type*}

/-- Read one cell. -/
def get (b : Buffer α) (i : Nat) : Except MemFault α :=
  if i < b.length then .ok (b.data i) else .error .outOfRange

/-- Write the cells from `i` on with the `n` values of `f`. -/
def write (b : Buffer α) (i n : Nat) (f : Nat → α) : Except MemFault (Buffer α) :=
  if i + n ≤ b.length then
    .ok { b with data := fun k => if i ≤ k ∧ k < i + n then f (k - i) else b.data k }
  else .error .outOfRange

/-- Write one cell. -/
def set (b : Buffer α) (i : Nat) (x : α) : Except MemFault (Buffer α) := b.write i 1 fun _ => x

/-- `memcpy`: the `n` cells of `src` from `j` on to the cells of `b` from `i` on. -/
def copy (b : Buffer α) (i : Nat) (src : Buffer α) (j n : Nat) : Except MemFault (Buffer α) :=
  if j + n ≤ src.length then b.write i n fun k => src.data (j + k) else .error .outOfRange

/-- The `n` cells from `i` on. -/
def slice (b : Buffer α) (i n : Nat) : Except MemFault (List α) :=
  if i + n ≤ b.length then .ok (List.ofFn fun k : Fin n => b.data (i + k)) else .error .outOfRange

theorem get_ok {b : Buffer α} {i : Nat} (h : i < b.length) : b.get i = .ok (b.data i) := if_pos h

theorem get_error {b : Buffer α} {i : Nat} (h : b.length ≤ i) : b.get i = .error .outOfRange :=
  if_neg (Nat.not_lt.2 h)

theorem write_ok {b : Buffer α} {i n : Nat} (h : i + n ≤ b.length) (f : Nat → α) :
    b.write i n f =
      .ok { b with data := fun k => if i ≤ k ∧ k < i + n then f (k - i) else b.data k } := if_pos h

theorem set_ok {b : Buffer α} {i : Nat} (h : i < b.length) (x : α) :
    b.set i x = .ok { b with data := fun k => if k = i then x else b.data k } := by
  rw [set, write_ok h]
  congr 2
  funext k
  by_cases hk : k = i
  · subst hk
    rw [if_pos (by omega), if_pos rfl]
  · rw [if_neg (by omega), if_neg hk]

theorem copy_ok {b src : Buffer α} {i j n : Nat} (h : i + n ≤ b.length) (hj : j + n ≤ src.length) :
    b.copy i src j n = .ok { b with
      data := fun k => if i ≤ k ∧ k < i + n then src.data (j + (k - i)) else b.data k } := by
  rw [copy, if_pos hj, write_ok h]

theorem slice_ok {b : Buffer α} {i n : Nat} (h : i + n ≤ b.length) :
    b.slice i n = .ok (List.ofFn fun k : Fin n => b.data (i + k)) := if_pos h

theorem length_of_slice {b : Buffer α} {i n : Nat} {xs : List α} (h : b.slice i n = .ok xs) :
    xs.length = n := by
  unfold slice at h
  split at h
  · obtain rfl := Except.ok.inj h
    exact List.length_ofFn
  · cases h

end Buffer

end FroggyKVM
