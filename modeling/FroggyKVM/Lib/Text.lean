/-
# FroggyKVM.Lib.Text — byte strings: decimal numbers, hexadecimal digits, separators.

The strings are lists of bytes.  A number or a string of hexadecimal digits can be read back from a
longer text when the byte behind it is none of its own, which is what `append_sep_inj` is for.
-/
import Mathlib

namespace FroggyKVM

/-- The bytes of an ASCII text. -/
def ascii (s : String) : List UInt8 := s.toList.map fun c => UInt8.ofNat c.toNat

/-- What a C function reads of a buffer: the bytes before the first zero. -/
def cString (s : List UInt8) : List UInt8 := s.takeWhile (· ≠ 0)

/-- **Splitting at a separator**: the parts before the first one agree, and so do the rests. -/
theorem append_sep_inj {α : Type*} {c : α} {a a' b b' : List α} (ha : c ∉ a) (ha' : c ∉ a')
    (h : a ++ c :: b = a' ++ c :: b') : a = a' ∧ b = b' := by
  induction a generalizing a' with
  | nil =>
    cases a' with
    | nil => exact ⟨rfl, (List.cons.inj h).2⟩
    | cons x a' =>
      obtain rfl : c = x := (List.cons.inj h).1
      exact absurd (List.mem_cons_self ..) ha'
  | cons x a ih =>
    cases a' with
    | nil =>
      obtain rfl : x = c := (List.cons.inj h).1
      exact absurd (List.mem_cons_self ..) ha
    | cons y a' =>
      obtain ⟨rfl, htail⟩ : x = y ∧ a ++ c :: b = a' ++ c :: b' := List.cons.inj h
      obtain ⟨rfl, rfl⟩ := ih (fun hc => ha (List.mem_cons_of_mem _ hc))
        (fun hc => ha' (List.mem_cons_of_mem _ hc)) htail
      exact ⟨rfl, rfl⟩

/-! ## Decimal numbers -/

/-- `%u`. -/
def unsigned (n : Nat) : List UInt8 :=
  if n = 0 then [48] else (Nat.digits 10 n).reverse.map fun k => UInt8.ofNat (48 + k)

/-- `%d`. -/
def decimal (x : Int) : List UInt8 := if x < 0 then 45 :: unsigned x.natAbs else unsigned x.natAbs

theorem digit_toNat {n k : Nat} (h : k ∈ Nat.digits 10 n) :
    (UInt8.ofNat (48 + k)).toNat = 48 + k := by
  have hk := Nat.digits_lt_base (by decide) h
  exact UInt8.toNat_ofNat_of_lt' (by simp only [UInt8.size]; omega)

theorem unsigned_range {n : Nat} {c : UInt8} (h : c ∈ unsigned n) : 48 ≤ c.toNat ∧ c.toNat < 58 := by
  unfold unsigned at h
  split at h
  · obtain rfl := List.mem_singleton.1 h
    decide
  · obtain ⟨k, hk, rfl⟩ := List.mem_map.1 h
    rw [List.mem_reverse] at hk
    have hlt := Nat.digits_lt_base (by decide) hk
    rw [digit_toNat hk]
    omega

/-- The number that digits denote. -/
def digitsValue (bs : List UInt8) : Nat := Nat.ofDigits 10 (bs.reverse.map fun b => b.toNat - 48)

theorem digitsValue_unsigned (n : Nat) : digitsValue (unsigned n) = n := by
  unfold unsigned digitsValue
  split
  · subst n
    rfl
  · have hdigits : (Nat.digits 10 n).map (fun k => (UInt8.ofNat (48 + k)).toNat - 48) =
        Nat.digits 10 n := by
      conv_rhs => rw [← List.map_id (Nat.digits 10 n)]
      refine List.map_congr_left fun k hk => ?_
      rw [digit_toNat hk]
      exact Nat.add_sub_cancel_left ..
    rw [← List.map_reverse, List.reverse_reverse, List.map_map]
    exact (congrArg (Nat.ofDigits 10) hdigits).trans (Nat.ofDigits_digits 10 n)

theorem decimal_range {x : Int} {c : UInt8} (h : c ∈ decimal x) :
    c = 45 ∨ 48 ≤ c.toNat ∧ c.toNat < 58 := by
  unfold decimal at h
  split at h
  · rcases List.mem_cons.1 h with rfl | h
    · exact .inl rfl
    · exact .inr (unsigned_range h)
  · exact .inr (unsigned_range h)

theorem decimal_injective : Function.Injective decimal := by
  have hsign : ∀ n m : Nat, 45 :: unsigned n ≠ unsigned m := by
    intro n m h
    have hmem : (45 : UInt8) ∈ unsigned m := h ▸ List.mem_cons_self ..
    exact absurd (unsigned_range hmem).1 (by decide)
  have habs : ∀ {n m : Nat}, unsigned n = unsigned m → n = m := fun {n m} h => by
    rw [← digitsValue_unsigned n, h, digitsValue_unsigned]
  intro x y h
  unfold decimal at h
  split at h
  · split at h
    · have := habs (List.cons.inj h).2
      omega
    · exact absurd h (hsign _ _)
  · split at h
    · exact absurd h.symm (hsign _ _)
    · have := habs h
      omega

/-! ## Hexadecimal digits -/

def hexDigit (n : Nat) : UInt8 := if n < 10 then UInt8.ofNat (48 + n) else UInt8.ofNat (87 + n)

/-- `%02x`. -/
def hexByte (b : UInt8) : List UInt8 := [hexDigit (b.toNat / 16), hexDigit (b.toNat % 16)]

def hexVal (c : UInt8) : Option Nat :=
  if 48 ≤ c.toNat ∧ c.toNat < 58 then some (c.toNat - 48)
  else if 97 ≤ c.toNat ∧ c.toNat < 103 then some (c.toNat - 87)
  else if 65 ≤ c.toNat ∧ c.toNat < 71 then some (c.toNat - 55)
  else none

theorem hexVal_hexDigit {n : Nat} (h : n < 16) : hexVal (hexDigit n) = some n := by
  revert h
  revert n
  decide

theorem hexDigit_range {n : Nat} (h : n < 16) :
    48 ≤ (hexDigit n).toNat ∧ (hexDigit n).toNat < 58 ∨
      97 ≤ (hexDigit n).toNat ∧ (hexDigit n).toNat < 103 := by
  revert h
  revert n
  decide

theorem hexByte_range {b c : UInt8} (h : c ∈ hexByte b) :
    48 ≤ c.toNat ∧ c.toNat < 58 ∨ 97 ≤ c.toNat ∧ c.toNat < 103 := by
  have hb := b.toNat_lt
  rcases List.mem_cons.1 h with rfl | h
  · exact hexDigit_range (by omega)
  · obtain rfl := List.mem_singleton.1 h
    exact hexDigit_range (by omega)

end FroggyKVM
