/-
# FroggyKVM.Lib.MachineInt — signed machine integers as residues, and their big-endian bytes.

A 32-bit signed integer is an `Int`; the result of an operation that may overflow is `i32` of the
exact result.  `intBytes` and `getInt` are the big-endian encoding of a 32-bit integer and the
reading of one at an offset of a byte list.
-/
import Mathlib

namespace FroggyKVM

/-- Conversion to a signed 32-bit integer. -/
def i32 (x : Int) : Int := Int.bmod x 4294967296

/-- Conversion to a signed 16-bit integer. -/
def i16 (x : Int) : Int := Int.bmod x 65536

/-- Conversion to a signed 64-bit integer. -/
def i64 (x : Int) : Int := Int.bmod x 18446744073709551616

theorem i64_of_range {x : Int} (h : -9223372036854775808 ≤ x ∧ x < 9223372036854775808) :
    i64 x = x := by
  unfold i64
  exact Int.bmod_eq_of_le (by omega) (by omega)

/-- The upper half of the unsigned integers is negative. -/
theorem i64_of_upper {x : Int} (h : 9223372036854775808 ≤ x ∧ x < 18446744073709551616) :
    i64 x = x - 18446744073709551616 := by
  unfold i64 Int.bmod
  simp only
  split <;> omega

theorem i32_of_range {x : Int} (h : -2147483648 ≤ x ∧ x < 2147483648) : i32 x = x := by
  unfold i32
  exact Int.bmod_eq_of_le (by omega) (by omega)

theorem i32_range (x : Int) : -2147483648 ≤ i32 x ∧ i32 x < 2147483648 := by
  unfold i32
  exact ⟨Int.le_bmod (by omega), Int.bmod_lt (by omega)⟩

/-- Wrapping makes nothing larger. -/
theorem i32_le {x : Int} (h : 0 ≤ x) : i32 x ≤ x := by
  unfold i32 Int.bmod
  simp only
  split <;> omega

/-- A 32-bit sum that is not negative is exact. -/
theorem i32_of_nonneg {x : Int} (h₀ : 0 ≤ x) (h : x < 4294967296) (hx : 0 ≤ i32 x) : i32 x = x := by
  unfold i32 Int.bmod at hx ⊢
  simp only at hx ⊢
  split at hx
  · rw [if_pos (by assumption)]
    omega
  · omega

/-- The upper half of the unsigned integers is negative. -/
theorem i32_of_upper {x : Int} (h : 2147483648 ≤ x ∧ x < 4294967296) : i32 x = x - 4294967296 := by
  unfold i32 Int.bmod
  simp only
  split <;> omega

theorem i32_i32 (x : Int) : i32 (i32 x) = i32 x := by
  unfold i32
  exact Int.bmod_bmod

/-- A summand may be wrapped before the sum is. -/
theorem i32_i32_add (x y : Int) : i32 (i32 x + y) = i32 (x + y) := by
  unfold i32
  exact Int.bmod_add_bmod

/-- A shift leaves a wrapped value alone exactly when it wraps to nothing. -/
theorem i32_add_eq_iff (x y : Int) : i32 (x + y) = i32 x ↔ i32 y = 0 := by
  unfold i32
  have hsub : x + y - x = y := by ring
  rw [Int.bmod_eq_bmod_iff_bmod_sub_eq_zero, hsub]

/-! ## Big-endian bytes -/

/-- The low byte of `x`. -/
def lowByte (x : Int) : UInt8 := UInt8.ofNat (x % 256).toNat

theorem lowByte_toNat (x : Int) : ((lowByte x).toNat : Int) = x % 256 := by
  have h : (x % 256).toNat < 256 := by omega
  rw [lowByte, UInt8.toNat_ofNat_of_lt' h]
  omega

/-- The four bytes of a 32-bit integer, most significant first. -/
def intBytes (x : Int) : List UInt8 :=
  [lowByte (x / 16777216), lowByte (x / 65536), lowByte (x / 256), lowByte x]

/-- Only the residue is written. -/
theorem intBytes_i32 (x : Int) : intBytes (i32 x) = intBytes x := by
  obtain ⟨q, hq⟩ : ∃ q, i32 x = x + 4294967296 * q := by
    unfold i32 Int.bmod
    simp only
    split
    · exact ⟨-(x / 4294967296), by omega⟩
    · exact ⟨-(x / 4294967296) - 1, by omega⟩
  have hlow : ∀ {y z : Int}, y % 256 = z % 256 → lowByte y = lowByte z := by
    intro y z h
    simp only [lowByte, h]
  simp only [intBytes, hq, List.cons.injEq, and_true]
  exact ⟨hlow (by omega), hlow (by omega), hlow (by omega), hlow (by omega)⟩

@[simp] theorem intBytes_length (x : Int) : (intBytes x).length = 4 := rfl

/-- The 32-bit integer in the four bytes from index `i` on. -/
def getInt (bytes : List UInt8) (i : Nat) : Int :=
  i32 ((bytes.getD i 0).toNat * 16777216 + (bytes.getD (i + 1) 0).toNat * 65536 +
    (bytes.getD (i + 2) 0).toNat * 256 + (bytes.getD (i + 3) 0).toNat)

theorem getInt_append_right (a b : List UInt8) (i : Nat) :
    getInt (a ++ b) (a.length + i) = getInt b i := by
  simp [getInt, List.getD_eq_getElem?_getD, List.getElem?_append_right, Nat.add_assoc]

/-- Reading back an integer written as bytes. -/
theorem getInt_intBytes (x : Int) (rest : List UInt8) :
    getInt (intBytes x ++ rest) 0 = i32 x := by
  have h₀ := lowByte_toNat (x / 16777216)
  have h₁ := lowByte_toNat (x / 65536)
  have h₂ := lowByte_toNat (x / 256)
  have h₃ := lowByte_toNat x
  simp only [getInt, intBytes, List.cons_append, List.nil_append, List.getD_cons_zero,
    List.getD_cons_succ, Nat.zero_add, h₀, h₁, h₂, h₃]
  have hmod : x / 16777216 % 256 * 16777216 + x / 65536 % 256 * 65536 + x / 256 % 256 * 256 +
      x % 256 = x % 4294967296 := by lia
  rw [hmod]
  unfold i32
  exact Int.emod_bmod ..

/-- Reading the integer at the end of a prefix of known length. -/
theorem getInt_at {pre : List UInt8} {i : Nat} (hpre : pre.length = i) (x : Int)
    (rest : List UInt8) : getInt (pre ++ (intBytes x ++ rest)) i = i32 x := by
  have h := getInt_append_right pre (intBytes x ++ rest) 0
  rw [Nat.add_zero, hpre] at h
  rw [h, getInt_intBytes]

end FroggyKVM
