/-
# FroggyKVM.Lib.BitMask — words as sets of bit numbers.

What the usual masks do to the bits of a word: the low bits, all but the low bits, one bit set and
one bit cleared.
-/
import Mathlib

namespace FroggyKVM

/-- `twoPow 32 n - 1` has the low `n` bits. -/
theorem getLsbD_mask {n : Nat} (hn : n < 32) (i : Nat) :
    (BitVec.twoPow 32 n - 1).getLsbD i = decide (i < n) := by
  have hpow : 2 ^ n < 2 ^ 32 := Nat.pow_lt_pow_right (by decide) hn
  have hpos : 1 ≤ 2 ^ n := Nat.one_le_two_pow
  have hval : (BitVec.twoPow 32 n - 1).toNat = 2 ^ n - 1 := by
    have hone : BitVec.toNat (1 : BitVec 32) = 1 := rfl
    rw [BitVec.toNat_sub, BitVec.toNat_twoPow, hone]
    omega
  rw [← BitVec.testBit_toNat, hval, Nat.testBit_two_pow_sub_one]

theorem and_mask_eq_zero {w : BitVec 32} {n : Nat} (hn : n < 32) :
    w &&& (BitVec.twoPow 32 n - 1) = 0 ↔ ∀ i < n, w.getLsbD i = false := by
  constructor
  · intro h i hi
    have hbit : (w &&& (BitVec.twoPow 32 n - 1)).getLsbD i = false := by
      rw [h]
      exact BitVec.getLsbD_zero
    rwa [BitVec.getLsbD_and, getLsbD_mask hn, decide_eq_true hi, Bool.and_true] at hbit
  · intro h
    apply BitVec.eq_of_getLsbD_eq
    intro i _
    rw [BitVec.getLsbD_and, getLsbD_mask hn]
    by_cases hi : i < n
    · simp [h i hi]
    · simp [hi]

theorem eq_zero_iff_getLsbD {w : BitVec 32} : w = 0 ↔ ∀ i < 32, w.getLsbD i = false := by
  constructor
  · rintro rfl i _
    exact BitVec.getLsbD_zero
  · intro h
    apply BitVec.eq_of_getLsbD_eq
    intro i hi
    rw [h i hi]
    exact BitVec.getLsbD_zero.symm

theorem and_not_mask_eq_zero {w : BitVec 32} {n : Nat} (hn : n < 32) :
    w &&& ~~~(BitVec.twoPow 32 n - 1) = 0 ↔ ∀ i < 32, n ≤ i → w.getLsbD i = false := by
  have hbit (i : Nat) (hi : i < 32) : (w &&& ~~~(BitVec.twoPow 32 n - 1)).getLsbD i =
      (w.getLsbD i && !decide (i < n)) := by
    rw [BitVec.getLsbD_and, BitVec.getLsbD_not, getLsbD_mask hn, decide_eq_true hi, Bool.true_and]
  rw [eq_zero_iff_getLsbD]
  constructor
  · intro h i hi hle
    have hzero := h i hi
    rwa [hbit i hi, decide_eq_false (Nat.not_lt.2 hle), Bool.not_false, Bool.and_true] at hzero
  · intro h i hi
    rw [hbit i hi]
    by_cases hlt : i < n
    · rw [decide_eq_true hlt, Bool.not_true, Bool.and_false]
    · rw [h i hi (Nat.not_lt.1 hlt), Bool.false_and]

theorem getLsbD_or_twoPow {w : BitVec 32} {p : Nat} (hp : p < 32) (i : Nat) :
    (w ||| BitVec.twoPow 32 p).getLsbD i = true ↔ i = p ∨ w.getLsbD i = true := by
  rw [BitVec.getLsbD_or, BitVec.getLsbD_twoPow, decide_eq_true hp, Bool.true_and, Bool.or_eq_true,
    decide_eq_true_eq, eq_comm (a := p), or_comm]

theorem getLsbD_and_not_twoPow {w : BitVec 32} {p : Nat} (hp : p < 32) {i : Nat} (hi : i < 32) :
    (w &&& ~~~BitVec.twoPow 32 p).getLsbD i = true ↔ i ≠ p ∧ w.getLsbD i = true := by
  rw [BitVec.getLsbD_and, BitVec.getLsbD_not, BitVec.getLsbD_twoPow, decide_eq_true hp,
    decide_eq_true hi, Bool.true_and, Bool.true_and, Bool.and_eq_true, Bool.not_eq_true',
    decide_eq_false_iff_not, eq_comm (a := p), and_comm]

end FroggyKVM
