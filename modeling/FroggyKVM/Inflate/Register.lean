/-
# FroggyKVM.Inflate.Register — the bits at hand.

`NEEDBITS` takes whole bytes, as few as are needed, or it reads outside the array (`needBits_eq`).
The register holds bits of a sequence from a position on (`In.Holds`): bytes taken come behind them,
and bits dumped are in front.
-/
import FroggyKVM.Inflate.TableLookup
import FroggyKVM.Lib.Deflate
import FroggyKVM.Lib.Returns

namespace FroggyKVM.Inflate

open Deflate

/-- The bytes that are needed for `j` bits when there are `size`. -/
def bytesFor (size j : Nat) : Nat := (j - size + 7) / 8

namespace In

/-- `n` bytes taken from an array without looking at its length. -/
def take (i : In) (data : Nat → UInt8) (n : Nat) : In :=
  { i with
    inOffset := i.inOffset + n
    inDataSize := i.inDataSize + 8 * n
    inData := i.inData + 2 ^ i.inDataSize * bitsAt (byteBits data) (8 * i.inOffset) (8 * n) }

theorem take_zero (i : In) (data : Nat → UInt8) : i.take data 0 = i := by
  unfold take
  simp [bitsAt]

theorem take_add (i : In) (data : Nat → UInt8) (m n : Nat) :
    (i.take data m).take data n = i.take data (m + n) := by
  unfold take
  dsimp only
  have hsplit := bitsAt_add (byteBits data) (8 * i.inOffset) (8 * m) (8 * n)
  rw [Nat.mul_add 8 m n, Nat.mul_add 8 i.inOffset m, hsplit, Nat.pow_add, Nat.mul_add, Nat.mul_assoc,
    Nat.add_assoc i.inOffset, Nat.add_assoc i.inDataSize, Nat.add_assoc i.inData]

/-- The register holds no more bits than it says. -/
def Small (i : In) : Prop := i.inData < 2 ^ i.inDataSize

theorem Small.take {i : In} (h : i.Small) (data : Nat → UInt8) (n : Nat) : (i.take data n).Small := by
  unfold Small In.take at *
  dsimp only
  have hbits := bitsAt_lt (byteBits data) (8 * i.inOffset) (8 * n)
  have hmul := Nat.mul_le_mul_left (2 ^ i.inDataSize) (Nat.succ_le_of_lt hbits)
  rw [Nat.mul_succ, ← Nat.pow_add] at hmul
  omega

/-- A round of `NEEDBITS`. -/
theorem round_eq {i : In} (hsmall : i.Small) (hroom : i.inDataSize ≤ 24) (data : Nat → UInt8) :
    { i with
      inData := i.inData ||| u32 ((data i.inOffset).toNat <<< i.inDataSize)
      inDataSize := i.inDataSize + 8
      inOffset := i.inOffset + 1 } = i.take data 1 := by
  have hbyte : (data i.inOffset).toNat < 2 ^ 8 := UInt8.toNat_lt _
  have hfits : (data i.inOffset).toNat <<< i.inDataSize < 4294967296 := by
    rw [Nat.shiftLeft_eq]
    have hpow : 2 ^ i.inDataSize ≤ 2 ^ 24 := Nat.pow_le_pow_right (by decide) hroom
    have hmul := Nat.mul_le_mul (Nat.le_of_lt_succ hbyte) hpow
    exact Nat.lt_of_le_of_lt hmul (by decide)
  have hor : i.inData ||| (data i.inOffset).toNat <<< i.inDataSize =
      i.inData + 2 ^ i.inDataSize * (data i.inOffset).toNat := by
    rw [Nat.or_comm, ← Nat.shiftLeft_add_eq_or_of_lt hsmall, Nat.shiftLeft_eq, Nat.mul_comm,
      Nat.add_comm]
  unfold take
  rw [u32_eq hfits, hor, Nat.mul_one, bitsAt_byteBits]

theorem needLoop_eq {b : Buffer UInt8} {j : Nat} (hj : j ≤ 32) {fuel : Nat} {i : In}
    (hsmall : i.Small) (hround : i.inDataSize < j → i.inDataSize + 8 * bytesFor i.inDataSize j ≤ 32)
    (hfuel : j - i.inDataSize < fuel) :
    needLoop b j fuel i =
      if i.inDataSize < j ∧ b.length < i.inOffset + bytesFor i.inDataSize j then .error .outOfRange
      else .ok (i.take b.data (bytesFor i.inDataSize j)) := by
  induction fuel generalizing i with
  | zero => omega
  | succ fuel ih =>
    unfold needLoop
    by_cases hmore : i.inDataSize < j
    · have hround := hround hmore
      unfold bytesFor at hround
      rw [if_pos hmore]
      by_cases hin : i.inOffset < b.length
      · have hnext : bytesFor i.inDataSize j = 1 + bytesFor (i.inDataSize + 8) j := by
          unfold bytesFor
          omega
        have hrest := @ih (i.take b.data 1) (hsmall.take b.data 1)
          (by unfold In.take bytesFor; dsimp only; omega) (by unfold In.take; dsimp only; omega)
        rw [Buffer.get_ok hin, ok_bind, round_eq hsmall (by omega) b.data, hrest, hnext,
          ← take_add]
        have hsize : (i.take b.data 1).inDataSize = i.inDataSize + 8 := rfl
        have hoffset : (i.take b.data 1).inOffset = i.inOffset + 1 := rfl
        rw [hsize, hoffset, ← Nat.add_assoc]
        by_cases hlast : i.inDataSize + 8 < j
        · simp only [hlast, hmore, true_and]
        · have hnone : bytesFor (i.inDataSize + 8) j = 0 := by
            unfold bytesFor
            omega
          rw [if_neg fun h => hlast h.1, if_neg (by rw [hnone]; omega)]
      · rw [Buffer.get_error (by omega), if_pos ⟨hmore, by unfold bytesFor; omega⟩]
        rfl
    · have hnone : bytesFor i.inDataSize j = 0 := by
        unfold bytesFor
        omega
      rw [if_neg hmore, if_neg fun h => hmore h.1, hnone, take_zero]

/-- **`NEEDBITS`** takes the bytes it needs, or one of them is outside the array. -/
theorem needBits_eq {b : Buffer UInt8} {j : Nat} {i : In} (hsmall : i.Small)
    (hj : j ≤ 25 ∨ j = 32 ∧ i.inDataSize % 8 = 0) :
    i.needBits b j =
      if i.inDataSize < j ∧ b.length < i.inOffset + bytesFor i.inDataSize j then .error .outOfRange
      else .ok (i.take b.data (bytesFor i.inDataSize j)) := by
  apply needLoop_eq (by omega) hsmall
  · intro hlt
    unfold bytesFor
    omega
  · omega

/-- Enough bytes are left. -/
theorem needBits_ok {b : Buffer UInt8} {j : Nat} {i : In} (hsmall : i.Small)
    (hj : j ≤ 25 ∨ j = 32 ∧ i.inDataSize % 8 = 0)
    (hroom : i.inOffset + bytesFor i.inDataSize j ≤ b.length) :
    i.needBits b j = .ok (i.take b.data (bytesFor i.inDataSize j)) := by
  rw [needBits_eq hsmall hj, if_neg (by omega)]

/-- What `NEEDBITS` returns with. -/
theorem needBits_returns {b : Buffer UInt8} {j : Nat} {i : In} (hsmall : i.Small)
    (hj : j ≤ 25 ∨ j = 32 ∧ i.inDataSize % 8 = 0) :
    Returns (i.needBits b j) fun i' => i' = i.take b.data (bytesFor i.inDataSize j) ∧
      (i.inDataSize < j → i'.inOffset ≤ b.length) := by
  rw [needBits_eq hsmall hj]
  split
  · exact Returns.error
  · case isFalse hin =>
    refine Returns.ok ⟨rfl, fun hlt => ?_⟩
    show i.inOffset + bytesFor i.inDataSize j ≤ b.length
    omega

/-! ## The sequence of bits -/

/-- The register holds the bits of a sequence from `p` on. -/
def Holds (i : In) (bit : Nat → Bool) (p : Nat) : Prop := i.inData = bitsAt bit p i.inDataSize

variable {i : In} {bit : Nat → Bool} {p : Nat}

theorem Holds.small (h : i.Holds bit p) : i.Small := by
  unfold Small
  rw [h]
  exact bitsAt_lt _ _ _

theorem Holds.take (h : i.Holds bit p) {data : Nat → UInt8} {n : Nat}
    (hbits : bitsAt (byteBits data) (8 * i.inOffset) (8 * n) =
      bitsAt bit (p + i.inDataSize) (8 * n)) : (i.take data n).Holds bit p := by
  unfold Holds In.take at *
  dsimp only
  rw [bitsAt_add, ← h, hbits]

theorem Holds.dumpBits (h : i.Holds bit p) {j : Nat} (hj : j ≤ i.inDataSize) :
    (i.dumpBits j).Holds bit (p + j) := by
  unfold Holds In.dumpBits at *
  dsimp only
  rw [h, Nat.shiftRight_eq_div_pow, bitsAt_div bit p hj]

theorem Small.dumpBits (h : i.Small) {j : Nat} (hj : j ≤ i.inDataSize) : (i.dumpBits j).Small := by
  unfold Small In.dumpBits at *
  dsimp only
  rw [Nat.shiftRight_eq_div_pow]
  apply Nat.div_lt_of_lt_mul
  rw [← Nat.pow_add, Nat.add_sub_cancel' hj]
  exact h

/-- **A table decodes the symbol that the bits at hand begin with.** -/
theorem Holds.getEntry {lens : List Nat} {table : Buffer Nat} (hfits : Canonical.Fits 15 lens)
    (hd : Decodes lens table) (h : i.Holds bit p) (hsize : 15 ≤ i.inDataSize) :
    (∀ s, Symbol bit lens p s →
      i.getEntry table = .ok (some (s, i.dumpBits (Canonical.len lens s)))) ∧
      ((∀ s, ¬ Symbol bit lens p s) → i.getEntry table = .ok none) := by
  have hstarts : ∀ s, StartsWith lens s i.inData ↔ Symbol bit lens p s := by
    intro s
    rw [startsWith_iff hfits, symbol_iff_spells bit hfits hsize, ← h]
  refine ⟨fun s hs => In.getEntry_of_startsWith hfits hd ((hstarts s).2 hs), fun hnone => ?_⟩
  exact (In.getEntry_of_none hfits hd fun s hs => hnone s ((hstarts s).1 hs)).2

end In

end FroggyKVM.Inflate
