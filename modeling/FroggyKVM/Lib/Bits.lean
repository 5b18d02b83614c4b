/-
# FroggyKVM.Lib.Bits — numbers read from a sequence of bits, in both bit orders.

A bit sequence is a function `Nat → Bool`.  `bitsAt` reads `n` bits from a position on as a number
with the first bit least significant, `msbBitsAt` with the first bit most significant, and
`reverseBits` turns the one number into the other.
-/
import Mathlib

namespace FroggyKVM

variable (bit : Nat → Bool)

/-- The `n` bits from `p` on, first bit least significant. -/
def bitsAt (p : Nat) : Nat → Nat
  | 0 => 0
  | n + 1 => bitsAt p n + 2 ^ n * (bit (p + n)).toNat

/-- The `n` bits from `p` on, first bit most significant. -/
def msbBitsAt (p : Nat) : Nat → Nat
  | 0 => 0
  | n + 1 => 2 * msbBitsAt p n + (bit (p + n)).toNat

/-- The low `n` bits of `x` in the opposite order. -/
def reverseBits : Nat → Nat → Nat
  | 0, _ => 0
  | n + 1, x => 2 ^ n * (x % 2) + reverseBits n (x / 2)

/-! ## First bit least significant -/

theorem bitsAt_lt (p n : Nat) : bitsAt bit p n < 2 ^ n := by
  induction n with
  | zero => simp [bitsAt]
  | succ n ih =>
    have hb : (bit (p + n)).toNat ≤ 1 := Bool.toNat_le _
    have hmul : 2 ^ n * (bit (p + n)).toNat ≤ 2 ^ n * 1 := Nat.mul_le_mul_left _ hb
    rw [bitsAt, Nat.pow_succ]
    omega

theorem bitsAt_add (p m n : Nat) :
    bitsAt bit p (m + n) = bitsAt bit p m + 2 ^ m * bitsAt bit (p + m) n := by
  induction n with
  | zero => simp [bitsAt]
  | succ n ih =>
    rw [← Nat.add_assoc, bitsAt, ih, bitsAt, Nat.add_assoc p m n]
    ring

theorem bitsAt_mod {m n : Nat} (p : Nat) (h : m ≤ n) : bitsAt bit p n % 2 ^ m = bitsAt bit p m := by
  obtain ⟨k, rfl⟩ := Nat.exists_eq_add_of_le h
  rw [bitsAt_add, Nat.add_mul_mod_self_left, Nat.mod_eq_of_lt (bitsAt_lt bit p m)]

theorem bitsAt_div {m n : Nat} (p : Nat) (h : m ≤ n) :
    bitsAt bit p n / 2 ^ m = bitsAt bit (p + m) (n - m) := by
  obtain ⟨k, rfl⟩ := Nat.exists_eq_add_of_le h
  rw [bitsAt_add, Nat.add_mul_div_left _ _ (Nat.two_pow_pos m),
    Nat.div_eq_of_lt (bitsAt_lt bit p m), Nat.zero_add, Nat.add_sub_cancel_left]

theorem bitsAt_congr {bit bit' : Nat → Bool} {p p' n : Nat}
    (h : ∀ k, k < n → bit (p + k) = bit' (p' + k)) : bitsAt bit p n = bitsAt bit' p' n := by
  induction n with
  | zero => rfl
  | succ n ih =>
    rw [bitsAt, bitsAt, ih fun k hk => h k (Nat.lt_succ_of_lt hk), h n (Nat.lt_succ_self n)]

/-- The low bits of a number. -/
theorem bitsAt_testBit (x n : Nat) : bitsAt x.testBit 0 n = x % 2 ^ n := by
  induction n with
  | zero =>
    rw [Nat.pow_zero, Nat.mod_one]
    rfl
  | succ n ih => rw [bitsAt, ih, Nat.zero_add, Nat.toNat_testBit, ← Nat.mod_pow_succ]

/-! ## Bytes -/

/-- The bits of a sequence of bytes, each with its first bit least significant. -/
def byteBits (byte : Nat → UInt8) (p : Nat) : Bool := (byte (p / 8)).toNat.testBit (p % 8)

theorem bitsAt_byteBits (byte : Nat → UInt8) (k : Nat) :
    bitsAt (byteBits byte) (8 * k) 8 = (byte k).toNat := by
  have hbits : bitsAt (byteBits byte) (8 * k) 8 = bitsAt (byte k).toNat.testBit 0 8 := by
    apply bitsAt_congr
    intro j hj
    unfold byteBits
    have hdiv : (8 * k + j) / 8 = k := by omega
    have hmod : (8 * k + j) % 8 = 0 + j := by omega
    rw [hdiv, hmod]
  rw [hbits, bitsAt_testBit, Nat.mod_eq_of_lt (byte k).toNat_lt]

/-! ## First bit most significant -/

theorem msbBitsAt_lt (p n : Nat) : msbBitsAt bit p n < 2 ^ n := by
  induction n with
  | zero => simp [msbBitsAt]
  | succ n ih =>
    have hb : (bit (p + n)).toNat ≤ 1 := Bool.toNat_le _
    rw [msbBitsAt, Nat.pow_succ]
    omega

/-! ## Reversal -/

@[simp] theorem reverseBits_zero_right (n : Nat) : reverseBits n 0 = 0 := by
  induction n with
  | zero => rfl
  | succ n ih => simp [reverseBits, ih]

theorem reverseBits_lt (n x : Nat) : reverseBits n x < 2 ^ n := by
  induction n generalizing x with
  | zero => simp [reverseBits]
  | succ n ih =>
    have h := ih (x / 2)
    have hx : x % 2 ≤ 1 := by omega
    have hmul : 2 ^ n * (x % 2) ≤ 2 ^ n * 1 := Nat.mul_le_mul_left _ hx
    rw [reverseBits, Nat.pow_succ]
    omega

/-- The low and the high part change places. -/
theorem reverseBits_add (m n x : Nat) :
    reverseBits (m + n) x = 2 ^ n * reverseBits m x + reverseBits n (x / 2 ^ m) := by
  induction m generalizing x with
  | zero => simp [reverseBits]
  | succ m ih =>
    rw [Nat.succ_add, reverseBits, ih, reverseBits, Nat.div_div_eq_div_mul, ← Nat.pow_succ']
    ring

theorem reverseBits_mod (n x : Nat) : reverseBits n (x % 2 ^ n) = reverseBits n x := by
  induction n generalizing x with
  | zero => rfl
  | succ n ih =>
    have h₂ : x % 2 ^ (n + 1) % 2 = x % 2 := Nat.mod_mod_of_dvd x ⟨2 ^ n, Nat.pow_succ' ..⟩
    have hdiv : x % 2 ^ (n + 1) / 2 = x / 2 % 2 ^ n := by
      rw [Nat.pow_succ', Nat.mod_mul_right_div_self]
    rw [reverseBits, reverseBits, h₂, hdiv, ih]

/-- Zeros appended at the low end disappear at the high end. -/
theorem reverseBits_mul_two_pow (m k x : Nat) :
    reverseBits (k + m) (x * 2 ^ k) = reverseBits m x := by
  have hlow : reverseBits k (x * 2 ^ k) = 0 := by
    rw [← reverseBits_mod, Nat.mul_mod_left, reverseBits_zero_right]
  rw [reverseBits_add, hlow, Nat.mul_zero, Nat.zero_add,
    Nat.mul_div_cancel _ (Nat.two_pow_pos k)]

theorem reverseBits_msbBitsAt (p n : Nat) : reverseBits n (msbBitsAt bit p n) = bitsAt bit p n := by
  induction n with
  | zero => rfl
  | succ n ih =>
    have hb : (bit (p + n)).toNat ≤ 1 := Bool.toNat_le _
    have hmod : (2 * msbBitsAt bit p n + (bit (p + n)).toNat) % 2 = (bit (p + n)).toNat := by omega
    have hdiv : (2 * msbBitsAt bit p n + (bit (p + n)).toNat) / 2 = msbBitsAt bit p n := by omega
    rw [msbBitsAt, reverseBits, hmod, hdiv, ih, bitsAt]
    omega

theorem reverseBits_succ' (n x : Nat) :
    reverseBits (n + 1) x = 2 * reverseBits n x + x / 2 ^ n % 2 := by
  rw [reverseBits_add]
  simp [reverseBits]

/-- Reversing twice. -/
theorem reverseBits_reverseBits (n x : Nat) : reverseBits n (reverseBits n x) = x % 2 ^ n := by
  induction n generalizing x with
  | zero => simp [reverseBits, Nat.mod_one]
  | succ n ih =>
    have hlt := reverseBits_lt n (x / 2)
    have hlow : reverseBits n (reverseBits (n + 1) x) = x / 2 % 2 ^ n := by
      rw [← reverseBits_mod, reverseBits, Nat.mul_add_mod, Nat.mod_eq_of_lt hlt, ih]
    have hhigh : reverseBits (n + 1) x / 2 ^ n = x % 2 := by
      rw [reverseBits, Nat.mul_add_div (Nat.two_pow_pos n), Nat.div_eq_of_lt hlt, Nat.add_zero]
    rw [reverseBits_succ', hlow, hhigh, Nat.pow_succ', Nat.mod_mul]
    omega

theorem reverseBits_of_lt {n x : Nat} (h : x < 2 ^ n) : reverseBits n (reverseBits n x) = x := by
  rw [reverseBits_reverseBits, Nat.mod_eq_of_lt h]

end FroggyKVM
