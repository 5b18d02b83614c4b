/-
# FroggyKVM.Lib.Ring — what a circular buffer holds.

A circular buffer is a list of slots, the slot of its first element, and the number of elements.
`ringContents` is the list of its elements; the three rules say what a store behind the last
element, a removal of the first, and a write to the slot just removed do to that list.
-/
import Mathlib

namespace FroggyKVM

variable {α : Type*}

/-- The slot `i` places behind slot `out`, of `n` slots. -/
def ringSlot (n out i : Nat) : Nat := if out + i < n then out + i else out + i - n

/-- The `count` elements from slot `out` on, going round. -/
def ringContents [Inhabited α] (slots : List α) (out count : Nat) : List α :=
  (List.range count).map fun i => slots.getD (ringSlot slots.length out i) default

theorem ringSlot_lt {n out i : Nat} (hout : out < n) (hi : i < n) : ringSlot n out i < n := by
  unfold ringSlot
  split <;> omega

theorem ringSlot_injective {n out i j : Nat} (hi : i < n) (hj : j < n)
    (h : ringSlot n out i = ringSlot n out j) : i = j := by
  unfold ringSlot at h
  split at h <;> split at h <;> omega

/-- Counting from the next slot. -/
theorem ringSlot_next {n out i : Nat} (hout : out < n) (hi : i + 1 ≤ n) :
    ringSlot n (ringSlot n out 1) i = ringSlot n out (i + 1) := by
  unfold ringSlot
  split_ifs <;> omega

/-- The slot behind. -/
theorem ringSlot_succ {n out i : Nat} (hout : out < n) (hi : i < n) :
    ringSlot n (ringSlot n out i) 1 = ringSlot n out (i + 1) := by
  unfold ringSlot
  split_ifs <;> omega

variable [Inhabited α] {slots : List α} {out count : Nat}

@[simp] theorem ringContents_length : (ringContents slots out count).length = count := by
  simp [ringContents]

/-- The first element, and the others from the next slot on. -/
theorem ringContents_succ (hout : out < slots.length) (hcount : count < slots.length) :
    ringContents slots out (count + 1) =
      slots.getD out default :: ringContents slots (ringSlot slots.length out 1) count := by
  unfold ringContents
  rw [List.range_succ_eq_map, List.map_cons, List.map_map]
  congr 1
  · simp [ringSlot, hout]
  · apply List.map_congr_left
    intro i hi
    have hi := List.mem_range.1 hi
    show slots.getD (ringSlot slots.length out (i + 1)) default = _
    rw [ringSlot_next hout (by omega)]

/-- A write to a slot that holds no element. -/
theorem ringContents_set_free {k : Nat} (hk : count ≤ k)
    (hlt : k < slots.length) (x : α) :
    ringContents (slots.set (ringSlot slots.length out k) x) out count =
      ringContents slots out count := by
  unfold ringContents
  apply List.map_congr_left
  intro i hi
  have hi := List.mem_range.1 hi
  have hne : ringSlot slots.length out k ≠ ringSlot slots.length out i := fun h => by
    have := ringSlot_injective hlt (by omega) h
    omega
  rw [List.length_set, List.getD_eq_getElem?_getD, List.getD_eq_getElem?_getD,
    List.getElem?_set_ne hne]

/-- A store behind the last element. -/
theorem ringContents_push (hout : out < slots.length) (hcount : count < slots.length) (x : α) :
    ringContents (slots.set (ringSlot slots.length out count) x) out (count + 1) =
      ringContents slots out count ++ [x] := by
  have hlast : (slots.set (ringSlot slots.length out count) x).getD
      (ringSlot slots.length out count) default = x := by
    rw [List.getD_eq_getElem?_getD, List.getElem?_set_self (ringSlot_lt hout hcount)]
    rfl
  have hsplit : ∀ s : List α, ringContents s out (count + 1) =
      ringContents s out count ++ [s.getD (ringSlot s.length out count) default] := by
    intro s
    simp [ringContents, List.range_succ]
  rw [hsplit, ringContents_set_free (Nat.le_refl _) hcount, List.length_set, hlast]

/-- A write to the slot just removed. -/
theorem ringContents_set_removed (hout : out < slots.length) (hcount : count < slots.length)
    (x : α) :
    ringContents (slots.set out x) (ringSlot slots.length out 1) count =
      ringContents slots (ringSlot slots.length out 1) count := by
  have hnext : ringSlot slots.length out 1 < slots.length := by
    unfold ringSlot
    split <;> omega
  have hslot : ringSlot slots.length (ringSlot slots.length out 1) (slots.length - 1) = out := by
    unfold ringSlot
    split <;> split <;> omega
  have hle : count ≤ slots.length - 1 := by omega
  have hlt : slots.length - 1 < slots.length := by omega
  have hset : ringContents (slots.set (ringSlot slots.length (ringSlot slots.length out 1)
      (slots.length - 1)) x) (ringSlot slots.length out 1) count =
      ringContents slots (ringSlot slots.length out 1) count := ringContents_set_free hle hlt x
  rw [hslot] at hset
  exact hset

end FroggyKVM
