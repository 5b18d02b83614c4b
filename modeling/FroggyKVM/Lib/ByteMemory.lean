/-
# FroggyKVM.Lib.ByteMemory — a memory of bytes, and unsigned integers in it.

A memory is a byte for every address.  `get w m a` is the little-endian integer of `w` bytes at `a`,
`put w m a n` writes one; a read depends on its own bytes alone.
-/
import Mathlib

namespace FroggyKVM.ByteMemory

abbrev Memory := Nat → UInt8

/-- The low `w` bytes of a number, least significant first. -/
def leBytes : Nat → Nat → List UInt8
  | 0, _ => []
  | w + 1, n => UInt8.ofNat n :: leBytes w (n / 256)

def leValue : List UInt8 → Nat
  | [] => 0
  | b :: bs => b.toNat + 256 * leValue bs

def load (m : Memory) (a n : Nat) : List UInt8 := (List.range n).map fun i => m (a + i)

def store (m : Memory) (a : Nat) (bs : List UInt8) : Memory :=
  fun k => if a ≤ k ∧ k < a + bs.length then bs.getD (k - a) 0 else m k

def get (w : Nat) (m : Memory) (a : Nat) : Nat := leValue (load m a w)

def put (w : Nat) (m : Memory) (a n : Nat) : Memory := store m a (leBytes w n)

theorem length_leBytes (w n : Nat) : (leBytes w n).length = w := by
  induction w generalizing n with
  | zero => rfl
  | succ w ih => rw [leBytes, List.length_cons, ih]

theorem leValue_leBytes {w n : Nat} (h : n < 256 ^ w) : leValue (leBytes w n) = n := by
  induction w generalizing n with
  | zero =>
    rw [Nat.pow_zero] at h
    exact (Nat.lt_one_iff.1 h).symm
  | succ w ih =>
    rw [Nat.pow_succ] at h
    rw [leBytes, leValue, ih (by omega), UInt8.toNat_ofNat']
    omega

section Memory
variable {m m' : Memory} {a : Nat}

theorem store_apart {bs : List UInt8} {k : Nat} (h : k < a ∨ a + bs.length ≤ k) :
    store m a bs k = m k := if_neg (by omega)

theorem store_at {bs : List UInt8} {i : Nat} (h : i < bs.length) :
    store m a bs (a + i) = bs[i] := by
  rw [store, if_pos (by omega), Nat.add_sub_cancel_left, List.getD_eq_getElem _ _ h]

theorem load_store (bs : List UInt8) : load (store m a bs) a bs.length = bs := by
  refine List.ext_getElem (by rw [load, List.length_map, List.length_range]) fun i _ h => ?_
  simp only [load, List.getElem_map, List.getElem_range]
  exact store_at h

/-- A read depends on its own bytes. -/
theorem load_congr {n : Nat} (h : ∀ k, a ≤ k → k < a + n → m' k = m k) : load m' a n = load m a n := by
  refine List.map_congr_left fun i hi => ?_
  have := List.mem_range.1 hi
  exact h _ (by omega) (by omega)

variable {w : Nat}

theorem get_congr (h : ∀ k, a ≤ k → k < a + w → m' k = m k) : get w m' a = get w m a := by
  rw [get, load_congr h, get]

/-- What was written is read. -/
theorem get_put {n : Nat} (h : n < 256 ^ w) : get w (put w m a n) a = n := by
  have hload := load_store (m := m) (a := a) (leBytes w n)
  rw [length_leBytes] at hload
  rw [get, put, hload, leValue_leBytes h]

/-- A write changes its own bytes only. -/
theorem put_apart {n k : Nat} (h : k < a ∨ a + w ≤ k) : put w m a n k = m k :=
  store_apart (by rwa [length_leBytes])

theorem get_put_apart {v b n : Nat} (h : b + v ≤ a ∨ a + w ≤ b) :
    get v (put w m a n) b = get v m b :=
  get_congr fun k hk hlt => put_apart (by omega)

end Memory

end FroggyKVM.ByteMemory
