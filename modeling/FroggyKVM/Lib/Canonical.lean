/-
# FroggyKVM.Lib.Canonical — canonical prefix codes.

A canonical code is given by the lengths of its codewords: words of one length are consecutive
numbers in the order of the symbols, and the first word of a length follows the last word of the
shorter lengths.  Left-aligned to `M` bits, a codeword is an interval; the intervals are disjoint
whatever the lengths are, and they stay below `2 ^ M` when the lengths are not over-subscribed.
-/
import FroggyKVM.Lib.Bits

namespace FroggyKVM.Canonical

variable (M : Nat) (lens : List Nat)

/-- The length of a symbol's codeword; 0 for a symbol without one. -/
def len (s : Nat) : Nat := lens.getD s 0

/-- The first codeword of each length. -/
def nextCode : Nat → Nat
  | 0 => 0
  | l + 1 => 2 * (nextCode l + if l = 0 then 0 else lens.count l)

/-- The codeword of a symbol. -/
def code (s : Nat) : Nat := nextCode lens (len lens s) + (lens.take s).count (len lens s)

/-- Lengths up to `M` whose codewords all fit. -/
structure Fits : Prop where
  le : ∀ l ∈ lens, l ≤ M
  fits : nextCode lens M + lens.count M ≤ 2 ^ M

/-- The low bits of `x` spell the codeword of `s`, first bit least significant. -/
def Spells (s x : Nat) : Prop :=
  len lens s ≠ 0 ∧ x % 2 ^ len lens s = reverseBits (len lens s) (code lens s)

/-! ## Codewords as intervals -/

/-- The first codeword of each length, left-aligned. -/
def first : Nat → Nat
  | 0 => 0
  | l + 1 => first l + if l = 0 then 0 else lens.count l * 2 ^ (M - l)

/-- The lower end of a symbol's interval. -/
def lower (s : Nat) : Nat := code lens s * 2 ^ (M - len lens s)

variable {M lens}

theorem first_eq {l : Nat} (hl : l ≤ M) : first M lens l = nextCode lens l * 2 ^ (M - l) := by
  induction l with
  | zero => simp [first, nextCode]
  | succ l ih =>
    have hpow : 2 ^ (M - l) = 2 * 2 ^ (M - (l + 1)) := by
      rw [← Nat.pow_succ']
      congr 1
      omega
    rw [first, nextCode, ih (by omega), hpow]
    split <;> ring

theorem first_succ {l : Nat} (hl : l ≠ 0) :
    first M lens (l + 1) = first M lens l + lens.count l * 2 ^ (M - l) := by
  rw [first, if_neg hl]

theorem first_mono {k l : Nat} (h : k ≤ l) : first M lens k ≤ first M lens l := by
  induction l with
  | zero =>
    obtain rfl : k = 0 := by omega
    exact Nat.le_refl _
  | succ l ih =>
    by_cases hk : k = l + 1
    · rw [hk]
    · have := ih (by omega)
      rw [first]
      omega

theorem Fits.first_le (h : Fits M lens) (hM : M ≠ 0) {l : Nat} (hl : l ≤ M + 1) :
    first M lens l ≤ 2 ^ M := by
  have htop : first M lens (M + 1) = nextCode lens M + lens.count M := by
    rw [first_succ hM, first_eq (Nat.le_refl M), Nat.sub_self, Nat.pow_zero, Nat.mul_one,
      Nat.mul_one]
  calc first M lens l ≤ first M lens (M + 1) := first_mono hl
    _ ≤ 2 ^ M := htop ▸ h.fits

theorem len_mem {s : Nat} (h : len lens s ≠ 0) : len lens s ∈ lens ∧ s < lens.length := by
  by_cases hs : s < lens.length
  · rw [len, List.getD_eq_getElem _ _ hs]
    exact ⟨List.getElem_mem hs, hs⟩
  · exact absurd (List.getD_eq_default _ _ (Nat.not_lt.1 hs)) h

theorem Fits.len_le (h : Fits M lens) (s : Nat) : len lens s ≤ M := by
  by_cases h0 : len lens s = 0
  · omega
  · exact h.le _ (len_mem h0).1

/-- The symbols before `s` of the same length, and `s` itself. -/
theorem rank_lt {s t : Nat} (hs : len lens s ≠ 0) (hst : s < t) (hlen : len lens s = len lens t) :
    (lens.take s).count (len lens s) < (lens.take t).count (len lens t) := by
  have hlt := (len_mem hs).2
  have hget : lens[s] = len lens s := (List.getD_eq_getElem _ _ hlt).symm
  have hsucc : (lens.take (s + 1)).count (len lens s) = (lens.take s).count (len lens s) + 1 := by
    rw [List.take_add_one, List.count_append, List.getElem?_eq_getElem hlt, hget]
    simp
  have hle : (lens.take (s + 1)).count (len lens s) ≤ (lens.take t).count (len lens s) :=
    List.Sublist.count_le _ (List.take_sublist_take_left (by omega))
  rw [← hlen]
  omega

theorem rank_lt_count {s : Nat} (hs : len lens s ≠ 0) :
    (lens.take s).count (len lens s) < lens.count (len lens s) := by
  obtain ⟨-, hlt⟩ := len_mem hs
  have hget : lens[s] = len lens s := (List.getD_eq_getElem _ _ hlt).symm
  have hsplit : lens = lens.take s ++ lens[s] :: lens.drop (s + 1) := by
    rw [← List.drop_eq_getElem_cons hlt, List.take_append_drop]
  have hcount := congrArg (List.count (len lens s)) hsplit
  rw [List.count_append, hget, List.count_cons_self] at hcount
  omega

theorem lower_eq (h : Fits M lens) (s : Nat) :
    lower M lens s = first M lens (len lens s) +
      (lens.take s).count (len lens s) * 2 ^ (M - len lens s) := by
  rw [lower, code, Nat.add_mul, first_eq (h.len_le s)]

/-- An interval ends before the next longer codewords start. -/
theorem upper_le (h : Fits M lens) {s : Nat} (hs : len lens s ≠ 0) :
    lower M lens s + 2 ^ (M - len lens s) ≤ first M lens (len lens s + 1) := by
  have hrank := rank_lt_count hs
  have hmul := Nat.mul_le_mul_right (2 ^ (M - len lens s)) (Nat.succ_le_of_lt hrank)
  rw [Nat.succ_mul] at hmul
  rw [lower_eq h, first_succ hs]
  omega

/-- **The intervals of two symbols are disjoint.** -/
theorem disjoint (h : Fits M lens) {s t : Nat} (hs : len lens s ≠ 0) (ht : len lens t ≠ 0)
    (hne : s ≠ t) :
    lower M lens s + 2 ^ (M - len lens s) ≤ lower M lens t ∨
      lower M lens t + 2 ^ (M - len lens t) ≤ lower M lens s := by
  have hsame : ∀ {a b : Nat}, len lens a ≠ 0 → a < b → len lens a = len lens b →
      lower M lens a + 2 ^ (M - len lens a) ≤ lower M lens b := by
    intro a b ha hab hlen
    have hrank := rank_lt ha hab hlen
    have hmul := Nat.mul_le_mul_right (2 ^ (M - len lens a)) (Nat.succ_le_of_lt hrank)
    rw [Nat.succ_mul, ← hlen] at hmul
    rw [lower_eq h, lower_eq h, ← hlen]
    omega
  have hless : ∀ {a b : Nat}, len lens a ≠ 0 → len lens a < len lens b →
      lower M lens a + 2 ^ (M - len lens a) ≤ lower M lens b := by
    intro a b ha hlen
    calc lower M lens a + 2 ^ (M - len lens a) ≤ first M lens (len lens a + 1) := upper_le h ha
      _ ≤ first M lens (len lens b) := first_mono hlen
      _ ≤ lower M lens b := by rw [lower_eq h]; omega
  rcases Nat.lt_trichotomy (len lens s) (len lens t) with hlt | heq | hgt
  · exact .inl (hless hs hlt)
  · rcases Nat.lt_or_gt_of_ne hne with hlt | hgt
    · exact .inl (hsame hs hlt heq)
    · exact .inr (hsame ht hgt heq.symm)
  · exact .inr (hless ht hgt)

theorem upper_le_two_pow (h : Fits M lens) {s : Nat} (hs : len lens s ≠ 0) :
    lower M lens s + 2 ^ (M - len lens s) ≤ 2 ^ M := by
  have hle := h.len_le s
  exact (upper_le h hs).trans (h.first_le (by omega) (by omega))

theorem code_lt (h : Fits M lens) {s : Nat} (hs : len lens s ≠ 0) :
    code lens s < 2 ^ len lens s := by
  have hle := h.len_le s
  have hup := upper_le_two_pow h hs
  have hpow : 2 ^ M = 2 ^ len lens s * 2 ^ (M - len lens s) := by
    rw [← Nat.pow_add, Nat.add_sub_of_le hle]
  rw [lower, hpow, ← Nat.succ_mul] at hup
  exact Nat.le_of_mul_le_mul_right hup (Nat.two_pow_pos _)

/-! ## Spelling -/

/-- Read with the first bit most significant, what spells a codeword lies in its interval. -/
theorem Spells.interval (h : Fits M lens) {s x : Nat} (hx : Spells lens s x) :
    lower M lens s ≤ reverseBits M x ∧ reverseBits M x < lower M lens s + 2 ^ (M - len lens s) := by
  obtain ⟨hs, hx⟩ := hx
  obtain ⟨k, hk⟩ := Nat.exists_eq_add_of_le (h.len_le s)
  have hcode : reverseBits (len lens s) x = code lens s := by
    rw [← reverseBits_mod, hx, reverseBits_of_lt (code_lt h hs)]
  have hlt := reverseBits_lt k (x / 2 ^ len lens s)
  have hsub : M - len lens s = k := by omega
  have hrev : reverseBits M x = lower M lens s + reverseBits k (x / 2 ^ len lens s) := by
    conv_lhs => rw [hk]
    rw [reverseBits_add, hcode, lower, hsub, Nat.mul_comm]
  rw [hrev, hsub]
  omega

/-- **At most one codeword is spelt.** -/
theorem Spells.unique (h : Fits M lens) {s t x : Nat} (hs : Spells lens s x)
    (ht : Spells lens t x) : s = t := by
  by_contra hne
  have hsx := hs.interval h
  have htx := ht.interval h
  rcases disjoint h hs.1 ht.1 hne with hd | hd <;> omega

/-! ## Decoding -/

instance (s x : Nat) : Decidable (Spells lens s x) := inferInstanceAs (Decidable (_ ∧ _))

variable (lens) in
/-- The symbol below `n` whose codeword the low bits of `x` spell. -/
def decodeBelow (n x : Nat) : Option Nat := (List.range n).find? fun s => Spells lens s x

variable (lens) in
/-- The symbol whose codeword the low bits of `x` spell. -/
def decode (x : Nat) : Option Nat := decodeBelow lens lens.length x

theorem decodeBelow_spells {n s x : Nat} (h : decodeBelow lens n x = some s) :
    s < n ∧ Spells lens s x :=
  ⟨List.mem_range.1 (List.mem_of_find?_eq_some h), by simpa using List.find?_some h⟩

theorem decodeBelow_eq_none {n x : Nat} :
    decodeBelow lens n x = none ↔ ∀ s, s < n → ¬ Spells lens s x := by
  simp [decodeBelow]

/-- One more symbol. -/
theorem decodeBelow_succ (h : Fits M lens) (n x : Nat) :
    decodeBelow lens (n + 1) x = if Spells lens n x then some n else decodeBelow lens n x := by
  have hsplit : decodeBelow lens (n + 1) x =
      (decodeBelow lens n x).or (if Spells lens n x then some n else none) := by
    simp [decodeBelow, List.range_succ, List.find?_append]
  rw [hsplit]
  split
  case isTrue hn =>
    have hnone : decodeBelow lens n x = none := by
      rw [decodeBelow_eq_none]
      intro s hs hsx
      have heq := hsx.unique h hn
      omega
    rw [hnone]
    rfl
  case isFalse hn => exact Option.or_none

theorem decode_eq_some (h : Fits M lens) {s x : Nat} :
    decode lens x = some s ↔ Spells lens s x := by
  constructor
  · exact fun hd => (decodeBelow_spells hd).2
  · intro hs
    cases hd : decode lens x with
    | none => exact absurd hs (decodeBelow_eq_none.1 hd s (len_mem hs.1).2)
    | some t => rw [(decodeBelow_spells hd).2.unique h hs]

/-! ## The Kraft sum -/

variable (M lens) in
/-- The Kraft sum of the lengths, in units of `2 ^ -M`. -/
def kraft : Nat := (lens.map fun l => if l = 0 then 0 else 2 ^ (M - l)).sum

/-- One more symbol, among the shorter lengths. -/
theorem first_cons (l n : Nat) :
    first M (l :: lens) n = first M lens n + if l ≠ 0 ∧ l < n then 2 ^ (M - l) else 0 := by
  induction n with
  | zero => simp [first]
  | succ n ih =>
    rw [first, first, ih, List.count_cons]
    by_cases hn : n = 0
    · have hnot : ¬ (l ≠ 0 ∧ l < n + 1) := by omega
      have hnot' : ¬ (l ≠ 0 ∧ l < n) := by omega
      rw [if_pos hn, if_pos hn, if_neg hnot, if_neg hnot']
    · rw [if_neg hn, if_neg hn]
      by_cases hl : l = n
      · subst hl
        have hnot : ¬ (l ≠ 0 ∧ l < l) := by omega
        have hin : l ≠ 0 ∧ l < l + 1 := ⟨hn, Nat.lt_succ_self l⟩
        rw [if_neg hnot, if_pos hin, if_pos (beq_self_eq_true l)]
        ring
      · have hiff : (l ≠ 0 ∧ l < n + 1) ↔ (l ≠ 0 ∧ l < n) := by omega
        have hbeq : ¬ (l == n) = true := by simpa using hl
        simp only [if_neg hbeq, hiff, Nat.add_zero, Nat.add_right_comm]

/-- The codewords end where the Kraft sum says. -/
theorem first_eq_kraft (hle : ∀ l ∈ lens, l ≤ M) : first M lens (M + 1) = kraft M lens := by
  induction lens with
  | nil =>
    have hnil : ∀ n, first M [] n = 0 := by
      intro n
      induction n with
      | zero => rfl
      | succ n ih => simp [first, ih]
    exact hnil _
  | cons l lens ih =>
    have hl : l ≤ M := hle l List.mem_cons_self
    rw [first_cons, ih fun k hk => hle k (List.mem_cons_of_mem _ hk), kraft, kraft, List.map_cons,
      List.sum_cons, Nat.add_comm]
    by_cases h0 : l = 0
    · rw [if_neg (by omega), if_pos h0]
    · rw [if_pos (by omega), if_neg h0]

/-- **Lengths fit when their Kraft sum is at most 1.** -/
theorem fits_of_kraft (hM : M ≠ 0) (hle : ∀ l ∈ lens, l ≤ M) (hkraft : kraft M lens ≤ 2 ^ M) :
    Fits M lens := by
  refine ⟨hle, ?_⟩
  rw [← first_eq_kraft hle, first, if_neg hM, first_eq (Nat.le_refl M), Nat.sub_self,
    Nat.pow_zero, Nat.mul_one, Nat.mul_one] at hkraft
  exact hkraft

end FroggyKVM.Canonical
