/-
# FroggyKVM.Pcsl.WellFormed — which UTF-8 the decoder takes, and the round trip.

A complete sequence is a lead byte with its continuation bytes, for any number that has room in
them.  The decoder takes the complete sequences and refuses everything else, so it goes wrong exactly
on the sequences that are complete and not the shortest form of a code point.  The encoder writes
shortest forms only, **and what it writes decodes to what it was given**.
-/
import FroggyKVM.Pcsl.Utf

namespace FroggyKVM.Pcsl

open Transcode Codewords

/-! ## Masks -/

theorem mask_80 {b : Nat} (h : b < 256) : b &&& 0x80 = 0 ↔ b < 128 := by
  revert h
  revert b
  decide +kernel

theorem mask_e0 {b : Nat} (h : b < 256) : b &&& 0xe0 = 0xc0 ↔ 192 ≤ b ∧ b < 224 := by
  revert h
  revert b
  decide +kernel

theorem mask_f0 {b : Nat} (h : b < 256) : b &&& 0xf0 = 0xe0 ↔ 224 ≤ b ∧ b < 240 := by
  revert h
  revert b
  decide +kernel

theorem mask_f8 {b : Nat} (h : b < 256) : b &&& 0xf8 = 0xf0 ↔ 240 ≤ b ∧ b < 248 := by
  revert h
  revert b
  decide +kernel

theorem mask_c0 {b : Nat} (h : b < 256) : b &&& 0xc0 = 0x80 ↔ 128 ≤ b ∧ b < 192 := by
  revert h
  revert b
  decide +kernel

/-- Bits below the `k`th beside those from it on. -/
theorem mul_or {a b : Nat} (k : Nat) (h : b < 2 ^ k) : a * 2 ^ k ||| b = a * 2 ^ k + b := by
  rw [Nat.mul_comm, ← Nat.two_pow_add_eq_or_of_lt h]

/-- The number in a lead byte and a continuation byte. -/
theorem value_two (a b : Nat) : (a &&& 0x1f) <<< 6 ||| b &&& 0x3f = a % 32 * 64 + b % 64 := by
  rw [show a &&& 0x1f = a % 32 from Nat.and_two_pow_sub_one_eq_mod a 5,
    show b &&& 0x3f = b % 64 from Nat.and_two_pow_sub_one_eq_mod b 6, Nat.shiftLeft_eq,
    mul_or 6 (by omega)]
  rfl

theorem value_three (a b c : Nat) :
    (a &&& 0x0f) <<< 12 ||| (b &&& 0x3f) <<< 6 ||| c &&& 0x3f =
      a % 16 * 4096 + b % 64 * 64 + c % 64 := by
  have hb : b % 64 < 64 := Nat.mod_lt _ (by decide)
  have hsum : a % 16 * 2 ^ 12 + b % 64 * 2 ^ 6 = (a % 16 * 64 + b % 64) * 2 ^ 6 := by ring
  rw [show a &&& 0x0f = a % 16 from Nat.and_two_pow_sub_one_eq_mod a 4,
    show b &&& 0x3f = b % 64 from Nat.and_two_pow_sub_one_eq_mod b 6,
    show c &&& 0x3f = c % 64 from Nat.and_two_pow_sub_one_eq_mod c 6, Nat.shiftLeft_eq,
    Nat.shiftLeft_eq, mul_or 12 (by omega), hsum, mul_or 6 (by omega)]
  ring

theorem value_four (a b c d : Nat) :
    (0x07 &&& a) <<< 18 ||| (0x3f &&& b) <<< 12 ||| (0x3f &&& c) <<< 6 ||| 0x3f &&& d =
      a % 8 * 262144 + b % 64 * 4096 + c % 64 * 64 + d % 64 := by
  have hb : b % 64 < 64 := Nat.mod_lt _ (by decide)
  have hc : c % 64 < 64 := Nat.mod_lt _ (by decide)
  have hsum : a % 8 * 2 ^ 18 + b % 64 * 2 ^ 12 = (a % 8 * 64 + b % 64) * 2 ^ 12 := by ring
  have hsum' : (a % 8 * 64 + b % 64) * 2 ^ 12 + c % 64 * 2 ^ 6 =
      (a % 8 * 4096 + b % 64 * 64 + c % 64) * 2 ^ 6 := by ring
  rw [Nat.and_comm 0x07, Nat.and_comm 0x3f b, Nat.and_comm 0x3f c, Nat.and_comm 0x3f d,
    show a &&& 0x07 = a % 8 from Nat.and_two_pow_sub_one_eq_mod a 3,
    show b &&& 0x3f = b % 64 from Nat.and_two_pow_sub_one_eq_mod b 6,
    show c &&& 0x3f = c % 64 from Nat.and_two_pow_sub_one_eq_mod c 6,
    show d &&& 0x3f = d % 64 from Nat.and_two_pow_sub_one_eq_mod d 6, Nat.shiftLeft_eq,
    Nat.shiftLeft_eq, Nat.shiftLeft_eq, mul_or 18 (by omega), hsum, mul_or 12 (by omega), hsum',
    mul_or 6 (by omega)]
  ring

/-! ## Complete sequences -/

/-- A complete sequence, by the number of its bytes and the number in them. -/
inductive Sequence where
  | one (v : Nat) (h : v < 0x80)
  | two (v : Nat) (h : v < 0x800)
  | three (v : Nat) (h : v < 0x10000)
  | four (v : Nat) (h : v < 0x200000)

namespace Sequence

def bytes : Sequence → List UInt8
  | one v _ => [jbyte v]
  | two v _ => [jbyte (v / 64 + 0xc0), jbyte (v % 64 + 0x80)]
  | three v _ => [jbyte (v / 4096 + 0xe0), jbyte (v / 64 % 64 + 0x80), jbyte (v % 64 + 0x80)]
  | four v _ => [jbyte (v / 262144 + 0xf0), jbyte (v / 4096 % 64 + 0x80),
      jbyte (v / 64 % 64 + 0x80), jbyte (v % 64 + 0x80)]

/-- What the decoder makes of a sequence. -/
def units : Sequence → List UInt16
  | one v _ => [jchar v]
  | two v _ => [jchar v]
  | three v _ => [jchar v]
  | four v _ => [jchar (((v : Int) - 0x10000).tdiv 0x400 + 0xd800),
      jchar (((v : Int) - 0x10000).tmod 0x400 + 0xdc00)]

/-- The shortest form of a code point that is no surrogate. -/
def Proper : Sequence → Prop
  | one _ _ => True
  | two v _ => 0x80 ≤ v
  | three v _ => 0x800 ≤ v ∧ ¬ (0xd800 ≤ v ∧ v ≤ 0xdfff)
  | four v _ => 0x10000 ≤ v ∧ v ≤ 0x10ffff

theorem bytes_ne_nil (q : Sequence) : q.bytes ≠ [] := by
  cases q with
  | one | two | three | four => exact List.cons_ne_nil _ _

end Sequence

theorem toNat_jbyte {x : Nat} (h : x < 256) : (jbyte x).toNat = x :=
  UInt8.toNat_ofNat_of_lt' h

@[simp] theorem next_cons {α : Type} (a : α) (str : List α) : next (a :: str) = .ok (a, str) := rfl

/-! ## The decoder takes complete sequences -/

theorem utf8Round_one {b₁ : UInt8} (h₁ : b₁.toNat < 128) (rest : List UInt8) :
    utf8Round (b₁ :: rest) = .ok ⟨rest, [jchar b₁.toNat], false⟩ := by
  simp only [utf8Round, next_cons, ok_bind, if_pos ((mask_80 b₁.toNat_lt).2 h₁)]
  rfl

theorem utf8Round_two {b₁ b₂ : UInt8} (h₁ : 192 ≤ b₁.toNat ∧ b₁.toNat < 224) (rest : List UInt8) :
    utf8Round (b₁ :: b₂ :: rest) =
      if 128 ≤ b₂.toNat ∧ b₂.toNat < 192 then
        .ok ⟨rest, [jchar (b₁.toNat % 32 * 64 + b₂.toNat % 64 : Nat)], false⟩
      else .ok (illegal (b₂ :: rest)) := by
  have hlow : ¬ b₁.toNat &&& 0x80 = 0 := by
    rw [mask_80 b₁.toNat_lt]
    omega
  simp only [utf8Round, next_cons, ok_bind, if_neg hlow, if_pos ((mask_e0 b₁.toNat_lt).2 h₁),
    List.length_cons, value_two, ne_eq, mask_c0 b₂.toNat_lt]
  rw [if_neg (by omega)]
  by_cases h₂ : 128 ≤ b₂.toNat ∧ b₂.toNat < 192
  · rw [if_neg (not_not.2 h₂), if_pos h₂]
    rfl
  · rw [if_pos h₂, if_neg h₂]
    rfl

theorem utf8Round_three {b₁ b₂ b₃ : UInt8} (h₁ : 224 ≤ b₁.toNat ∧ b₁.toNat < 240)
    (rest : List UInt8) :
    utf8Round (b₁ :: b₂ :: b₃ :: rest) =
      if 128 ≤ b₂.toNat ∧ b₂.toNat < 192 then
        if 128 ≤ b₃.toNat ∧ b₃.toNat < 192 then
          .ok ⟨rest, [jchar (b₁.toNat % 16 * 4096 + b₂.toNat % 64 * 64 + b₃.toNat % 64 : Nat)],
            false⟩
        else .ok (illegal (b₃ :: rest))
      else .ok (illegal (b₂ :: b₃ :: rest)) := by
  have hlow : ¬ b₁.toNat &&& 0x80 = 0 := by
    rw [mask_80 b₁.toNat_lt]
    omega
  have hmid : ¬ b₁.toNat &&& 0xe0 = 0xc0 := by
    rw [mask_e0 b₁.toNat_lt]
    omega
  simp only [utf8Round, next_cons, ok_bind, if_neg hlow, if_neg hmid,
    if_pos ((mask_f0 b₁.toNat_lt).2 h₁), List.length_cons, value_three, ne_eq,
    mask_c0 b₂.toNat_lt, mask_c0 b₃.toNat_lt]
  rw [if_neg (by omega)]
  by_cases h₂ : 128 ≤ b₂.toNat ∧ b₂.toNat < 192
  · rw [if_neg (not_not.2 h₂), if_pos h₂]
    by_cases h₃ : 128 ≤ b₃.toNat ∧ b₃.toNat < 192
    · rw [if_neg (not_not.2 h₃), if_pos h₃]
      rfl
    · rw [if_pos h₃, if_neg h₃]
      rfl
  · rw [if_pos h₂, if_neg h₂]
    rfl

theorem utf8Round_four {b₁ b₂ b₃ b₄ : UInt8} (h₁ : 240 ≤ b₁.toNat ∧ b₁.toNat < 248)
    (rest : List UInt8) :
    utf8Round (b₁ :: b₂ :: b₃ :: b₄ :: rest) =
      if 128 ≤ b₂.toNat ∧ b₂.toNat < 192 then
        if 128 ≤ b₃.toNat ∧ b₃.toNat < 192 then
          if 128 ≤ b₄.toNat ∧ b₄.toNat < 192 then
            let v : Int := (b₁.toNat % 8 * 262144 + b₂.toNat % 64 * 4096 + b₃.toNat % 64 * 64 +
              b₄.toNat % 64 : Nat)
            .ok ⟨rest, [jchar ((v - 0x10000).tdiv 0x400 + 0xd800),
              jchar ((v - 0x10000).tmod 0x400 + 0xdc00)], false⟩
          else .ok (illegal (b₄ :: rest))
        else .ok (illegal (b₃ :: b₄ :: rest))
      else .ok (illegal (b₂ :: b₃ :: b₄ :: rest)) := by
  have hlow : ¬ b₁.toNat &&& 0x80 = 0 := by
    rw [mask_80 b₁.toNat_lt]
    omega
  have hmid : ¬ b₁.toNat &&& 0xe0 = 0xc0 := by
    rw [mask_e0 b₁.toNat_lt]
    omega
  have hhigh : ¬ b₁.toNat &&& 0xf0 = 0xe0 := by
    rw [mask_f0 b₁.toNat_lt]
    omega
  simp only [utf8Round, next_cons, ok_bind, if_neg hlow, if_neg hmid, if_neg hhigh,
    if_pos ((mask_f8 b₁.toNat_lt).2 h₁), List.length_cons, value_four, ne_eq,
    mask_c0 b₂.toNat_lt, mask_c0 b₃.toNat_lt, mask_c0 b₄.toNat_lt]
  rw [if_neg (by omega)]
  by_cases h₂ : 128 ≤ b₂.toNat ∧ b₂.toNat < 192
  · rw [if_neg (not_not.2 h₂), if_pos h₂]
    by_cases h₃ : 128 ≤ b₃.toNat ∧ b₃.toNat < 192
    · rw [if_neg (not_not.2 h₃), if_pos h₃]
      by_cases h₄ : 128 ≤ b₄.toNat ∧ b₄.toNat < 192
      · rw [if_neg (not_not.2 h₄), if_pos h₄]
        rfl
      · rw [if_pos h₄, if_neg h₄]
        rfl
    · rw [if_pos h₃, if_neg h₃]
      rfl
  · rw [if_pos h₂, if_neg h₂]
    rfl

/-- **A complete sequence in front of anything.** -/
theorem utf8Round_bytes (q : Sequence) (rest : List UInt8) :
    utf8Round (q.bytes ++ rest) = .ok ⟨rest, q.units, false⟩ := by
  cases q with
  | one v h =>
    have h₁ := toNat_jbyte (show v < 256 by omega)
    have hround := utf8Round_one (show (jbyte v).toNat < 128 by omega) rest
    rw [h₁] at hround
    exact hround
  | two v h =>
    have h₁ := toNat_jbyte (show v / 64 + 0xc0 < 256 by omega)
    have h₂ := toNat_jbyte (show v % 64 + 0x80 < 256 by omega)
    have hround := @utf8Round_two (jbyte (v / 64 + 0xc0)) (jbyte (v % 64 + 0x80))
      (by rw [h₁]; lia) rest
    rw [h₁, h₂, if_pos (by lia), show (v / 64 + 0xc0) % 32 * 64 + (v % 64 + 0x80) % 64 = v by
      omega] at hround
    exact hround
  | three v h =>
    have h₁ := toNat_jbyte (show v / 4096 + 0xe0 < 256 by omega)
    have h₂ := toNat_jbyte (show v / 64 % 64 + 0x80 < 256 by lia)
    have h₃ := toNat_jbyte (show v % 64 + 0x80 < 256 by omega)
    have hround := @utf8Round_three (jbyte (v / 4096 + 0xe0)) (jbyte (v / 64 % 64 + 0x80))
      (jbyte (v % 64 + 0x80)) (by rw [h₁]; omega) rest
    rw [h₁, h₂, h₃, if_pos (by lia), if_pos (by lia),
      show (v / 4096 + 0xe0) % 16 * 4096 + (v / 64 % 64 + 0x80) % 64 * 64 +
        (v % 64 + 0x80) % 64 = v by lia] at hround
    exact hround
  | four v h =>
    have h₁ := toNat_jbyte (show v / 262144 + 0xf0 < 256 by omega)
    have h₂ := toNat_jbyte (show v / 4096 % 64 + 0x80 < 256 by omega)
    have h₃ := toNat_jbyte (show v / 64 % 64 + 0x80 < 256 by omega)
    have h₄ := toNat_jbyte (show v % 64 + 0x80 < 256 by lia)
    have hround := @utf8Round_four (jbyte (v / 262144 + 0xf0)) (jbyte (v / 4096 % 64 + 0x80))
      (jbyte (v / 64 % 64 + 0x80)) (jbyte (v % 64 + 0x80)) (by rw [h₁]; lia) rest
    rw [h₁, h₂, h₃, h₄, if_pos (by lia), if_pos (by lia), if_pos (by lia),
      show (v / 262144 + 0xf0) % 8 * 262144 + (v / 4096 % 64 + 0x80) % 64 * 4096 +
        (v / 64 % 64 + 0x80) % 64 * 64 + (v % 64 + 0x80) % 64 = v by lia] at hround
    exact hround

/-! ## The decoder refuses everything else -/

theorem jbyte_eq {b : UInt8} {x : Nat} (h : x = b.toNat) : jbyte x = b := by
  rw [jbyte, h]
  exact UInt8.ofNat_toNat

theorem skipFollowing_ok {n : Nat} {str : List UInt8} (h : n ≤ str.length) :
    ∃ str', skipFollowing n str = .ok str' ∧ str'.length ≤ str.length := by
  induction n generalizing str with
  | zero => exact ⟨str, rfl, Nat.le_refl _⟩
  | succ n ih =>
    obtain ⟨b, tail, rfl⟩ := List.exists_cons_of_length_pos (Nat.zero_lt_of_lt h)
    rw [skipFollowing, next_cons, ok_bind]
    dsimp only
    split
    · obtain ⟨str', hskip, hle⟩ := @ih tail (Nat.le_of_succ_le_succ h)
      exact ⟨str', hskip, Nat.le_succ_of_le hle⟩
    · exact ⟨_, rfl, Nat.le_refl _⟩

/-- A round of the decoder: it reads nothing past the end, and it takes a complete sequence or
reports an illegal one. -/
def Decoded (str : List UInt8) (r : Round UInt8 UInt16) : Prop :=
  r.rest.length < str.length ∧
    (r.bad = true ∨ ∃ q : Sequence, str = q.bytes ++ r.rest ∧ r.output = q.units ∧ r.bad = false)

theorem decoded_illegal {str str' : List UInt8} (h : str'.length < str.length) :
    Decoded str (illegal str') := ⟨h, .inl rfl⟩

theorem decoded_sequence (q : Sequence) (rest : List UInt8) :
    Decoded (q.bytes ++ rest) ⟨rest, q.units, false⟩ := by
  refine ⟨?_, .inr ⟨q, rfl, rfl, rfl⟩⟩
  rw [List.length_append]
  exact Nat.lt_add_of_pos_left (List.length_pos_iff.2 q.bytes_ne_nil)

/-- **Every round of the decoder.** -/
theorem utf8Round_decoded {str : List UInt8} (hne : str ≠ []) :
    ∃ r, utf8Round str = .ok r ∧ Decoded str r := by
  -- a complete sequence at the front settles a case
  have hseq : ∀ (q : Sequence) (rest : List UInt8), str = q.bytes ++ rest →
      ∃ r, utf8Round str = .ok r ∧ Decoded str r := by
    rintro q rest rfl
    exact ⟨_, utf8Round_bytes q rest, decoded_sequence q rest⟩
  obtain ⟨b₁, tail, rfl⟩ := List.exists_cons_of_ne_nil hne
  have hb₁ := b₁.toNat_lt
  by_cases hone : b₁.toNat < 128
  · exact hseq (.one b₁.toNat hone) tail (by rw [Sequence.bytes, jbyte_eq rfl]; rfl)
  have hlow : ¬ b₁.toNat &&& 0x80 = 0 := by
    rw [mask_80 b₁.toNat_lt]
    exact hone
  by_cases htwo : 192 ≤ b₁.toNat ∧ b₁.toNat < 224
  · cases tail with
    | nil =>
      refine ⟨illegal [], ?_, decoded_illegal (Nat.lt_succ_self _)⟩
      simp only [utf8Round, next_cons, ok_bind, if_neg hlow, if_pos ((mask_e0 b₁.toNat_lt).2 htwo)]
      rfl
    | cons b₂ rest =>
      by_cases h₂ : 128 ≤ b₂.toNat ∧ b₂.toNat < 192
      · apply hseq (.two (b₁.toNat % 32 * 64 + b₂.toNat % 64) (by omega)) rest
        rw [Sequence.bytes, @jbyte_eq b₁ _ (by lia), @jbyte_eq b₂ _ (by lia)]
        rfl
      · exact ⟨_, (utf8Round_two htwo rest).trans (if_neg h₂), decoded_illegal (Nat.lt_succ_self _)⟩
  have hmid : ¬ b₁.toNat &&& 0xe0 = 0xc0 := by
    rw [mask_e0 b₁.toNat_lt]
    exact htwo
  by_cases hthree : 224 ≤ b₁.toNat ∧ b₁.toNat < 240
  · match tail with
    | [] | [_] =>
      refine ⟨_, ?_, decoded_illegal (Nat.lt_succ_self _)⟩
      simp only [utf8Round, next_cons, ok_bind, if_neg hlow, if_neg hmid,
        if_pos ((mask_f0 b₁.toNat_lt).2 hthree)]
      rfl
    | b₂ :: b₃ :: rest =>
      have hround := @utf8Round_three b₁ b₂ b₃ hthree rest
      by_cases h₂ : 128 ≤ b₂.toNat ∧ b₂.toNat < 192
      · rw [if_pos h₂] at hround
        by_cases h₃ : 128 ≤ b₃.toNat ∧ b₃.toNat < 192
        · apply hseq (.three (b₁.toNat % 16 * 4096 + b₂.toNat % 64 * 64 + b₃.toNat % 64)
            (by omega)) rest
          rw [Sequence.bytes, @jbyte_eq b₁ _ (by omega), @jbyte_eq b₂ _ (by omega),
            @jbyte_eq b₃ _ (by lia)]
          rfl
        · refine ⟨_, hround.trans (if_neg h₃), decoded_illegal ?_⟩
          simp only [List.length_cons]
          lia
      · exact ⟨_, hround.trans (if_neg h₂), decoded_illegal (Nat.lt_succ_self _)⟩
  have hhigh : ¬ b₁.toNat &&& 0xf0 = 0xe0 := by
    rw [mask_f0 b₁.toNat_lt]
    exact hthree
  by_cases hfour : 240 ≤ b₁.toNat ∧ b₁.toNat < 248
  · match tail with
    | [] | [_] | [_, _] =>
      refine ⟨_, ?_, decoded_illegal (Nat.lt_succ_self _)⟩
      simp only [utf8Round, next_cons, ok_bind, if_neg hlow, if_neg hmid, if_neg hhigh,
        if_pos ((mask_f8 b₁.toNat_lt).2 hfour)]
      rfl
    | b₂ :: b₃ :: b₄ :: rest =>
      have hround := @utf8Round_four b₁ b₂ b₃ b₄ hfour rest
      by_cases h₂ : 128 ≤ b₂.toNat ∧ b₂.toNat < 192
      · rw [if_pos h₂] at hround
        by_cases h₃ : 128 ≤ b₃.toNat ∧ b₃.toNat < 192
        · rw [if_pos h₃] at hround
          by_cases h₄ : 128 ≤ b₄.toNat ∧ b₄.toNat < 192
          · apply hseq (.four (b₁.toNat % 8 * 262144 + b₂.toNat % 64 * 4096 +
              b₃.toNat % 64 * 64 + b₄.toNat % 64) (by omega)) rest
            rw [Sequence.bytes, @jbyte_eq b₁ _ (by omega), @jbyte_eq b₂ _ (by omega),
              @jbyte_eq b₃ _ (by omega), @jbyte_eq b₄ _ (by omega)]
            rfl
          · refine ⟨_, hround.trans (if_neg h₄), decoded_illegal ?_⟩
            simp only [List.length_cons]
            omega
        · refine ⟨_, hround.trans (if_neg h₃), decoded_illegal ?_⟩
          simp only [List.length_cons]
          omega
      · exact ⟨_, hround.trans (if_neg h₂), decoded_illegal (Nat.lt_succ_self _)⟩
  have hlead : ¬ b₁.toNat &&& 0xf8 = 0xf0 := by
    rw [mask_f8 b₁.toNat_lt]
    exact hfour
  obtain ⟨str', hskip, hle⟩ := skipFollowing_ok (Nat.min_le_right 2 tail.length)
  refine ⟨illegal str', ?_, decoded_illegal (Nat.lt_succ_of_le hle)⟩
  simp only [utf8Round, next_cons, ok_bind, if_neg hlow, if_neg hmid, if_neg hhigh, if_neg hlead,
    hskip]
  rfl

/-! ## Sequences of characters -/

/-- The units of a code point. -/
def utf16Char (c : Char) : List UInt16 :=
  if c.toNat < 0x10000 then [jchar c.toNat]
  else [jchar ((c.toNat - 0x10000) / 0x400 + 0xd800 : Nat),
    jchar ((c.toNat - 0x10000) % 0x400 + 0xdc00 : Nat)]

/-- Well-formed UTF-8 and valid UTF-16: the encodings of texts. -/
def WellFormedUtf8 (s : List UInt8) : Prop := ∃ cs : List Char, s = cs.flatMap String.utf8EncodeChar

def ValidUtf16 (s : List UInt16) : Prop := ∃ cs : List Char, s = cs.flatMap utf16Char

theorem toNat_char (c : Char) : c.toNat < 0xd800 ∨ 0xdfff < c.toNat ∧ c.toNat < 0x110000 := c.valid

namespace Sequence

/-- The shortest sequence of a code point. -/
def ofChar (c : Char) : Sequence :=
  if h : c.toNat < 0x80 then one c.toNat h
  else if h : c.toNat < 0x800 then two c.toNat h
  else if h : c.toNat < 0x10000 then three c.toNat h
  else four c.toNat (by have := toNat_char c; omega)

theorem bytes_ofChar (c : Char) : (ofChar c).bytes = String.utf8EncodeChar c := by
  have hc := toNat_char c
  have hval : c.val.toNat = c.toNat := rfl
  unfold ofChar String.utf8EncodeChar
  simp only [hval]
  split
  case isTrue h => rw [if_pos (by omega), bytes, jbyte]
  case isFalse h =>
    rw [if_neg (by omega)]
    split
    case isTrue h' =>
      rw [if_pos (by omega), bytes, jbyte, jbyte, Nat.mod_eq_of_lt (show c.toNat / 64 < 32 by omega)]
    case isFalse h' =>
      rw [if_neg (by omega)]
      split
      case isTrue h'' =>
        rw [if_pos (by omega), bytes, jbyte, jbyte, jbyte,
          Nat.mod_eq_of_lt (show c.toNat / 4096 < 16 by omega)]
      case isFalse h'' =>
        rw [if_neg (by omega), bytes, jbyte, jbyte, jbyte, jbyte,
          Nat.mod_eq_of_lt (show c.toNat / 262144 < 8 by omega)]

theorem units_ofChar (c : Char) : (ofChar c).units = utf16Char c := by
  unfold ofChar utf16Char
  split
  case isTrue h => rw [if_pos (by omega), units]
  case isFalse h =>
    split
    case isTrue h' => rw [if_pos (by omega), units]
    case isFalse h' =>
      split
      case isTrue h'' => rw [units]
      case isFalse h'' =>
        have hsub : (c.toNat : Int) - 0x10000 = ((c.toNat - 0x10000 : Nat) : Int) := by omega
        rw [units, hsub]
        rfl

theorem proper_ofChar (c : Char) : (ofChar c).Proper := by
  have hc := toNat_char c
  unfold ofChar
  split
  case isTrue h => trivial
  case isFalse h =>
    split
    case isTrue h' => exact Nat.not_lt.1 h
    case isFalse h' =>
      split
      case isTrue h'' => exact ⟨Nat.not_lt.1 h', by omega⟩
      case isFalse h'' => exact ⟨Nat.not_lt.1 h'', by omega⟩

/-- **The proper sequences are the shortest ones of the code points.** -/
theorem exists_ofChar {q : Sequence} (hq : q.Proper) : ∃ c, q = ofChar c := by
  have hofNat : ∀ {v : Nat}, (v < 0xd800 ∨ 0xdfff < v ∧ v < 0x110000) →
      ∃ c : Char, c.toNat = v := by
    intro v hv
    exact ⟨Char.ofNatAux v hv, rfl⟩
  cases q with
  | one v h =>
    obtain ⟨c, rfl⟩ := @hofNat v (by omega)
    exact ⟨c, (dif_pos h).symm⟩
  | two v h =>
    obtain ⟨c, rfl⟩ := @hofNat v (by omega)
    have hlow : ¬ c.toNat < 0x80 := Nat.not_lt.2 hq
    refine ⟨c, ?_⟩
    rw [ofChar, dif_neg hlow, dif_pos h]
  | three v h =>
    obtain ⟨hlow, hsurrogate⟩ := hq
    obtain ⟨c, rfl⟩ := @hofNat v (by omega)
    refine ⟨c, ?_⟩
    rw [ofChar, dif_neg (by omega), dif_neg (by omega), dif_pos h]
  | four v h =>
    obtain ⟨hlow, hhigh⟩ := hq
    obtain ⟨c, rfl⟩ := @hofNat v (by omega)
    refine ⟨c, ?_⟩
    rw [ofChar, dif_neg (by omega), dif_neg (by omega), dif_neg (by omega)]

/-- The bytes of a sequence tell its size and its number. -/
theorem bytes_injective : Function.Injective bytes := by
  have hbyte : ∀ {x y : Nat}, x < 256 → y < 256 → jbyte x = jbyte y → x = y := by
    intro x y hx hy heq
    rw [← toNat_jbyte hx, heq, toNat_jbyte hy]
  intro q q' heq
  have hlen := congrArg List.length heq
  cases q with
  | one v h =>
    cases q' with
    | one v' h' =>
      obtain rfl := hbyte (by omega) (by omega) (List.cons.inj heq).1
      rfl
    | two | three | four => exact absurd hlen (by simp [bytes])
  | two v h =>
    cases q' with
    | two v' h' =>
      simp only [bytes, List.cons.injEq] at heq
      obtain ⟨h₁, h₂, -⟩ := heq
      have e₁ := hbyte (by lia) (by lia) h₁
      have e₂ := hbyte (by omega) (by omega) h₂
      obtain rfl : v = v' := by omega
      rfl
    | one | three | four => exact absurd hlen (by simp [bytes])
  | three v h =>
    cases q' with
    | three v' h' =>
      simp only [bytes, List.cons.injEq] at heq
      obtain ⟨h₁, h₂, h₃, -⟩ := heq
      have e₁ := hbyte (by omega) (by omega) h₁
      have e₂ := hbyte (by omega) (by omega) h₂
      have e₃ := hbyte (by lia) (by lia) h₃
      obtain rfl : v = v' := by lia
      rfl
    | one | two | four => exact absurd hlen (by simp [bytes])
  | four v h =>
    cases q' with
    | four v' h' =>
      simp only [bytes, List.cons.injEq] at heq
      obtain ⟨h₁, h₂, h₃, h₄, -⟩ := heq
      have e₁ := hbyte (by omega) (by omega) h₁
      have e₂ := hbyte (by omega) (by omega) h₂
      have e₃ := hbyte (by omega) (by omega) h₃
      have e₄ := hbyte (by omega) (by omega) h₄
      obtain rfl : v = v' := by lia
      rfl
    | one | two | three => exact absurd hlen (by simp [bytes])

theorem prefixFree_bytes : PrefixFree bytes := by
  refine ⟨bytes_ne_nil, ?_⟩
  rintro q q' ⟨rest, hrest⟩
  -- one round takes the first sequence and leaves the rest, or takes the second and leaves nothing
  have hround := utf8Round_bytes q rest
  have hround' := utf8Round_bytes q' []
  rw [List.append_nil, ← hrest, hround] at hround'
  obtain rfl : rest = [] := congrArg Round.rest (Except.ok.inj hround')
  rw [List.append_nil] at hrest
  exact bytes_injective hrest

end Sequence

/-! ## The encoder writes shortest forms -/

theorem toNat_jchar {x : Nat} (h : x < 65536) : (jchar x).toNat = x := by
  have hmod : ((x : Int) % 65536).toNat = x := by omega
  rw [jchar, hmod]
  exact UInt16.toNat_ofNat_of_lt' h

/-- The low `k` bits of a number, behind a mark. -/
theorem mark_or (a x k : Nat) : a * 2 ^ k ||| x &&& (2 ^ k - 1) = x % 2 ^ k + a * 2 ^ k := by
  rw [Nat.and_two_pow_sub_one_eq_mod, mul_or k (Nat.mod_lt _ (Nat.two_pow_pos k)), Nat.add_comm]

theorem continuation (x : Nat) : 0x80 ||| x &&& 0x3f = x % 0x40 + 0x80 := mark_or 2 x 6

theorem lead_two (x : Nat) : 0xc0 ||| x &&& 0x1f = x % 0x20 + 0xc0 := mark_or 6 x 5

theorem lead_three (x : Nat) : 0xe0 ||| x &&& 0x0f = x % 0x10 + 0xe0 := mark_or 14 x 4

theorem lead_four (x : Nat) : 0xf0 ||| x &&& 0x07 = x % 0x08 + 0xf0 := mark_or 30 x 3

theorem utf16Char_ne_nil (c : Char) : utf16Char c ≠ [] := by
  unfold utf16Char
  split
  · exact List.cons_ne_nil _ _
  · exact List.cons_ne_nil _ _

/-- A pair of surrogates in front of anything. -/
theorem utf16Round_pair {hi lo : UInt16} (hhi : 0xd800 ≤ hi.toNat ∧ hi.toNat ≤ 0xdbff)
    (hlo : 0xdc00 ≤ lo.toNat ∧ lo.toNat ≤ 0xdfff) {v : Nat}
    (hv : (hi.toNat - 0xd800) * 0x400 + (lo.toNat - 0xdc00) + 0x10000 = v) (rest : List UInt16) :
    utf16Round (hi :: lo :: rest) = .ok ⟨rest, [jbyte (v / 262144 % 0x08 + 0xf0),
      jbyte (v / 4096 % 0x40 + 0x80), jbyte (v / 64 % 0x40 + 0x80), jbyte (v % 0x40 + 0x80)],
      false⟩ := by
  simp only [utf16Round, next_cons, ok_bind, hv, lead_four, continuation, Nat.shiftRight_eq_div_pow,
    Nat.reducePow, List.length_cons]
  rw [if_neg (by omega), if_neg (by omega), if_pos hhi, if_neg (by omega), if_neg (by omega)]
  rfl

/-- **A character in front of anything.** -/
theorem utf16Round_char (c : Char) (rest : List UInt16) :
    utf16Round (utf16Char c ++ rest) = .ok ⟨rest, String.utf8EncodeChar c, false⟩ := by
  have hc := toNat_char c
  have hval : c.val.toNat = c.toNat := rfl
  unfold utf16Char String.utf8EncodeChar
  simp only [hval]
  split
  case isTrue h =>
    rw [List.singleton_append]
    simp only [utf16Round, next_cons, ok_bind, toNat_jchar h, lead_two, lead_three, continuation,
      Nat.shiftRight_eq_div_pow, Nat.reducePow]
    by_cases h₁ : c.toNat < 0x80
    · rw [if_pos h₁, if_pos (show c.toNat ≤ 0x7f by omega)]
      rfl
    · rw [if_neg h₁, if_neg (show ¬ c.toNat ≤ 0x7f by omega)]
      by_cases h₂ : c.toNat < 0x800
      · rw [if_pos h₂, if_pos (show c.toNat ≤ 0x7ff by omega)]
        rfl
      · rw [if_neg h₂, if_neg (show ¬ c.toNat ≤ 0x7ff by omega), if_neg (by omega),
          if_neg (by omega), if_pos (show c.toNat ≤ 0xffff by omega)]
        rfl
  case isFalse h =>
    have hhi := toNat_jchar (show (c.toNat - 0x10000) / 0x400 + 0xd800 < 65536 by omega)
    have hlo := toNat_jchar (show (c.toNat - 0x10000) % 0x400 + 0xdc00 < 65536 by omega)
    have hpair := utf16Round_pair (by rw [hhi]; omega) (by rw [hlo]; omega)
      (show _ = c.toNat by rw [hhi, hlo]; omega) rest
    rw [if_neg (by omega), if_neg (by omega), if_neg (by omega)]
    exact hpair

/-! ## The round trip -/

/-- **A text goes to UTF-8 and comes back.**  Both conversions count everything they give; a buffer
that holds it gets it, and for a smaller one they report that it is too small. -/
theorem utf16_utf8_round_trip (cs : List Char) :
    ∃ bytes : List UInt8,
      (∀ buffer, Gives (pcslUtf16ConvertToUtf8 (some (cs.flatMap utf16Char)) buffer) buffer .ok
        bytes) ∧
      ∀ buffer, Gives (pcslUtf8ConvertToUtf16 (some bytes) buffer) buffer .ok
        (cs.flatMap utf16Char) := by
  refine ⟨cs.flatMap String.utf8EncodeChar, fun buffer => ?_, fun buffer => ?_⟩
  · obtain ⟨rs, hrs, hout, hbad⟩ := rounds_of_pieces utf16Char_ne_nil utf16Round_char cs
    have hgives := gives_of_rounds hrs buffer
    rw [hbad, hout] at hgives
    exact hgives
  · have hbytes : cs.flatMap String.utf8EncodeChar =
        (cs.map Sequence.ofChar).flatMap Sequence.bytes := by
      rw [List.flatMap_map]
      exact List.flatMap_congr fun c _ => (Sequence.bytes_ofChar c).symm
    have hunits : (cs.map Sequence.ofChar).flatMap Sequence.units = cs.flatMap utf16Char := by
      rw [List.flatMap_map]
      exact List.flatMap_congr fun c _ => Sequence.units_ofChar c
    obtain ⟨rs, hrs, hout, hbad⟩ :=
      rounds_of_pieces Sequence.bytes_ne_nil utf8Round_bytes (cs.map Sequence.ofChar)
    have hgives := gives_of_rounds hrs buffer
    rw [hbad, hout, hunits, ← hbytes] at hgives
    exact hgives

/-! ## What the decoder takes -/

/-- **The decoder takes the concatenations of complete sequences**, and no other strings. -/
theorem utf8_decoded (s : List UInt8) (buffer : Option (Buffer UInt16)) :
    (∃ qs : List Sequence, s = qs.flatMap Sequence.bytes ∧
      Gives (pcslUtf8ConvertToUtf16 (some s) buffer) buffer .ok (qs.flatMap Sequence.units)) ∨
    (¬ ∃ qs : List Sequence, s = qs.flatMap Sequence.bytes) ∧
      ∃ out, Gives (pcslUtf8ConvertToUtf16 (some s) buffer) buffer .eilseq out := by
  have hround : ∀ str, str ≠ [] → ∃ r, utf8Round str = .ok r ∧ r.rest.length < str.length := by
    intro str hne
    obtain ⟨r, hr, hlt, -⟩ := utf8Round_decoded hne
    exact ⟨r, hr, hlt⟩
  obtain ⟨rs, hrs⟩ := exists_rounds hround s
  have hgives := gives_of_rounds hrs buffer
  cases hbad : rs.any Round.bad with
  | false =>
    left
    rw [hbad] at hgives
    obtain ⟨qs, hs, hout⟩ := @pieces_of_rounds _ _ _ _ _ Sequence Sequence.bytes Sequence.units
      (by
        intro str r hne hr hgood
        obtain ⟨r', hr', -, hdecoded⟩ := utf8Round_decoded hne
        rw [hr] at hr'
        cases hr'
        rcases hdecoded with hbad' | ⟨q, hstr, hunits, -⟩
        · rw [hgood] at hbad'
          cases hbad'
        · exact ⟨q, hstr, hunits⟩) hrs hbad
    rw [hout] at hgives
    exact ⟨qs, hs, hgives⟩
  | true =>
    right
    rw [hbad] at hgives
    refine ⟨?_, _, hgives⟩
    rintro ⟨qs, rfl⟩
    obtain ⟨rs', hrs', -, hgood⟩ := rounds_of_pieces Sequence.bytes_ne_nil utf8Round_bytes qs
    rw [hrs.unique hrs', hgood] at hbad
    cases hbad

theorem wellFormed_iff {s : List UInt8} :
    WellFormedUtf8 s ↔ ∃ qs : List Sequence, s = qs.flatMap Sequence.bytes ∧ ∀ q ∈ qs, q.Proper := by
  constructor
  · rintro ⟨cs, rfl⟩
    refine ⟨cs.map Sequence.ofChar, ?_, ?_⟩
    · rw [List.flatMap_map]
      exact List.flatMap_congr fun c _ => (Sequence.bytes_ofChar c).symm
    · intro q hq
      obtain ⟨c, -, rfl⟩ := List.mem_map.1 hq
      exact Sequence.proper_ofChar c
  · rintro ⟨qs, rfl, hproper⟩
    induction qs with
    | nil => exact ⟨[], rfl⟩
    | cons q qs ih =>
      obtain ⟨c, rfl⟩ := Sequence.exists_ofChar (hproper q List.mem_cons_self)
      obtain ⟨cs, hcs⟩ := ih fun q hq => hproper q (List.mem_cons_of_mem _ hq)
      refine ⟨c :: cs, ?_⟩
      rw [List.flatMap_cons, List.flatMap_cons, hcs, Sequence.bytes_ofChar]

theorem validUtf16_units {qs : List Sequence} (hproper : ∀ q ∈ qs, q.Proper) :
    ValidUtf16 (qs.flatMap Sequence.units) := by
  induction qs with
  | nil => exact ⟨[], rfl⟩
  | cons q qs ih =>
    obtain ⟨c, rfl⟩ := Sequence.exists_ofChar (hproper q List.mem_cons_self)
    obtain ⟨cs, hcs⟩ := ih fun q hq => hproper q (List.mem_cons_of_mem _ hq)
    refine ⟨c :: cs, ?_⟩
    rw [List.flatMap_cons, List.flatMap_cons, hcs, Sequence.units_ofChar]

/-- What the decoder is to do with a string: it reads nothing outside, says that all is well exactly
when the string is well-formed, unless the buffer is too small, and gives valid UTF-16 then. -/
def TakesWellFormed (s : List UInt8) : Prop :=
  ∀ buffer : Option (Buffer UInt16), ∃ r, pcslUtf8ConvertToUtf16 (some s) buffer = .ok r ∧
    (r.status ≠ .bufferOverflow → (r.status = .ok ↔ WellFormedUtf8 s)) ∧
    (r.status = .ok → ∀ b', r.buffer = some b' →
      ∃ n units, r.convertedLength = some n ∧ b'.slice 0 n = .ok units ∧ ValidUtf16 units)

/-- What it takes although it is no code point, or not in its shortest form. -/
theorem TakesWellFormed.proper {s : List UInt8} (h : TakesWellFormed s) {qs : List Sequence}
    (hs : s = qs.flatMap Sequence.bytes) : ∀ q ∈ qs, q.Proper := by
  obtain ⟨r, hrun, hstatus, -⟩ := h none
  rcases utf8_decoded s none with ⟨_, -, hgives⟩ | ⟨hnone, -⟩
  · obtain ⟨r', hrun', -, -, hok, -⟩ := hgives.runs
    rw [hrun] at hrun'
    cases hrun'
    have hr : r.status = .ok := hok nofun
    obtain ⟨qs', hqs', hproper⟩ := wellFormed_iff.1 ((hstatus (by rw [hr]; decide)).1 hr)
    obtain rfl : qs = qs' := Sequence.prefixFree_bytes.flatMap_injective (hs.symm.trans hqs')
    exact hproper
  · exact absurd ⟨qs, hs⟩ hnone

/-- **The decoder is right unless a string is made of complete sequences and one of them is no
shortest form of a code point.** -/
theorem takesWellFormed_iff (s : List UInt8) :
    TakesWellFormed s ↔
      ∀ qs : List Sequence, s = qs.flatMap Sequence.bytes → ∀ q ∈ qs, q.Proper := by
  refine ⟨fun h qs hs => h.proper hs, fun h buffer => ?_⟩
  rcases utf8_decoded s buffer with ⟨qs, hs, hgives⟩ | ⟨hnone, out, hgives⟩
  · obtain ⟨r, hrun, hlength, hsmall, hok, hstored, hnull⟩ := hgives.runs
    refine ⟨r, hrun, fun hover => ⟨fun _ => wellFormed_iff.2 ⟨qs, hs, h qs hs⟩, fun _ => ?_⟩, ?_⟩
    · apply hok
      intro b hb
      by_contra hlt
      exact hover (hsmall b hb (by omega))
    · intro hr b' hb'
      cases buffer with
      | none =>
        rw [hnull rfl] at hb'
        cases hb'
      | some b =>
        have hle : (qs.flatMap Sequence.units).length ≤ b.length := by
          by_contra hlt
          rw [hsmall b rfl (by omega)] at hr
          cases hr
        obtain ⟨b'', hb'', hslice⟩ := hstored b rfl hle
        rw [hb''] at hb'
        cases hb'
        exact ⟨_, _, hlength, hslice, validUtf16_units (h qs hs)⟩
  · obtain ⟨r, hrun, -, hsmall, hbad, -⟩ := hgives.runs
    have hnotok : r.status ≠ .ok := by
      intro hr
      by_cases hover : ∀ b, buffer = some b → out.length ≤ b.length
      · rw [hbad hover] at hr
        cases hr
      · push Not at hover
        obtain ⟨b, hb, hlt⟩ := hover
        rw [hsmall b hb hlt] at hr
        cases hr
    refine ⟨r, hrun, fun _ => ⟨fun hr => absurd hr hnotok, ?_⟩, fun hr => absurd hr hnotok⟩
    intro hwell
    obtain ⟨qs, hs, -⟩ := wellFormed_iff.1 hwell
    exact absurd ⟨qs, hs⟩ hnone

/-- The surrogate U+D800, encoded as if it were a code point. -/
theorem not_takesWellFormed_surrogate : ¬ TakesWellFormed [0xED, 0xA0, 0x80] := by
  intro h
  have hproper := @TakesWellFormed.proper _ h [.three 0xD800 (by decide)] (by decide)
    (.three 0xD800 (by decide)) List.mem_cons_self
  exact hproper.2 ⟨by decide, by decide⟩

end FroggyKVM.Pcsl
