/-
# FroggyKVM.Inflate.TableSizes — the sizes that `make_code_table` computes.

The loop over the code lengths finds the first codeword of each length, and with the heuristic the
number of first-level bits that makes the table smallest.  **For lengths that fit, the two levels
have room for the whole code, and the table is so small that 15 bits address it**, with and without
the heuristic.
-/
import FroggyKVM.Inflate.Tables
import FroggyKVM.Lib.Canonical

namespace FroggyKVM.Inflate

open Canonical

/-! ## Reversal -/

theorem lookup_reverse5 {i : Nat} (h : i < 32) : lookup reverse5 i = .ok (reverseBits 5 i) := by
  have hall : ∀ i < 32, reverse5[i]? = some (reverseBits 5 i) := by decide
  unfold lookup
  rw [hall i h]

theorem reverse15bits_ok {code : Nat} (h : code < 2 ^ 15) :
    reverse15bits code = .ok (reverseBits 15 code) := by
  have hlow : code &&& 0x1F = code % 2 ^ 5 := Nat.and_two_pow_sub_one_eq_mod code 5
  have hmiddle : (code >>> 5) &&& 0x1F = code / 2 ^ 5 % 2 ^ 5 := by
    rw [Nat.shiftRight_eq_div_pow]
    exact Nat.and_two_pow_sub_one_eq_mod _ 5
  have hhigh : code >>> 10 = code / 2 ^ 10 := Nat.shiftRight_eq_div_pow code 10
  have hlt : code / 2 ^ 10 < 32 := by omega
  have hrev : reverseBits 15 code = 2 ^ 10 * reverseBits 5 code +
      (2 ^ 5 * reverseBits 5 (code / 2 ^ 5) + reverseBits 5 (code / 2 ^ 10)) := by
    rw [show (15 : Nat) = 5 + 10 from rfl, reverseBits_add, show (10 : Nat) = 5 + 5 from rfl,
      reverseBits_add 5 5, Nat.div_div_eq_div_mul, ← Nat.pow_add]
  have hor : ∀ a b c : Nat, b < 2 ^ 5 → c < 2 ^ 5 →
      a <<< 10 ||| b <<< 5 ||| c = 2 ^ 10 * a + (2 ^ 5 * b + c) := by
    intro a b c hb hc
    have hshift : a <<< 10 = (a <<< 5) <<< 5 := by rw [← Nat.shiftLeft_add]
    rw [hshift, ← Nat.shiftLeft_or_distrib, ← Nat.shiftLeft_add_eq_or_of_lt hb,
      ← Nat.shiftLeft_add_eq_or_of_lt hc]
    simp only [Nat.shiftLeft_eq]
    omega
  unfold reverse15bits
  rw [hlow, hmiddle, hhigh, lookup_reverse5 (i := code % 2 ^ 5) (Nat.mod_lt _ (by decide)),
    lookup_reverse5 (i := code / 2 ^ 5 % 2 ^ 5) (Nat.mod_lt _ (by decide)), lookup_reverse5 hlt,
    reverseBits_mod, reverseBits_mod, hrev,
    ← hor _ _ _ (reverseBits_lt 5 (code / 2 ^ 5)) (reverseBits_lt 5 (code / 2 ^ 10))]
  rfl

/-! ## Strides -/

/-- A loop with a stride writes the positions behind its start that the stride divides. -/
theorem fillEntries_ok (base bound huff : Nat) {stride : Nat} (hstride : 0 < stride)
    {fuel j : Nat} {table : Buffer Nat} (hfuel : bound - j < fuel) (hroom : base + bound ≤ table.length) :
    ∃ table', fillEntries base bound stride huff fuel j table = .ok table' ∧
      table'.length = table.length ∧
      ∀ k, table'.data k =
        if base + j ≤ k ∧ k < base + bound ∧ stride ∣ k - (base + j) then huff
        else table.data k := by
  induction fuel generalizing j table with
  | zero => lia
  | succ fuel ih =>
    unfold fillEntries
    split
    case isTrue hj =>
      rw [Buffer.set_ok (by omega)]
      obtain ⟨table', hfill, hlength, hdata⟩ := @ih (j + stride)
        { table with data := fun k => if k = base + j then huff else table.data k }
        (by lia) hroom
      refine ⟨table', hfill, hlength, fun k => ?_⟩
      rw [hdata]
      by_cases hk : k = base + j
      · subst hk
        rw [if_neg (by omega), if_pos ⟨Nat.le_refl _, by omega, by simp⟩]
        exact if_pos rfl
      · have hiff : (base + (j + stride) ≤ k ∧ k < base + bound ∧
            stride ∣ k - (base + (j + stride))) ↔
            base + j ≤ k ∧ k < base + bound ∧ stride ∣ k - (base + j) := by
          constructor
          · rintro ⟨h₁, h₂, h₃⟩
            refine ⟨by omega, h₂, ?_⟩
            rw [show k - (base + j) = k - (base + (j + stride)) + stride by lia]
            exact Nat.dvd_add_self_right.2 h₃
          · rintro ⟨h₁, h₂, h₃⟩
            have hle : stride ≤ k - (base + j) := Nat.le_of_dvd (by omega) h₃
            refine ⟨by omega, h₂, ?_⟩
            rw [show k - (base + (j + stride)) = k - (base + j) - stride by omega]
            exact Nat.dvd_sub h₃ (Nat.dvd_refl _)
        simp only [hiff, if_neg hk]
    case isFalse hj =>
      refine ⟨table, rfl, rfl, fun k => ?_⟩
      rw [if_neg]
      rintro ⟨h₁, h₂, -⟩
      omega

/-- From the first position on, these are the positions with one remainder. -/
theorem stride_iff (base : Nat) {bound stride j i : Nat} (hj : j < stride) (hi : i < bound) :
    (base + j ≤ base + i ∧ base + i < base + bound ∧ stride ∣ base + i - (base + j)) ↔
      i % stride = j := by
  have hsub : base + i - (base + j) = i - j := by omega
  rw [hsub]
  constructor
  · rintro ⟨h₁, -, h₃⟩
    obtain ⟨c, hc⟩ := h₃
    rw [show i = j + stride * c by omega, Nat.add_mul_mod_self_left, Nat.mod_eq_of_lt hj]
  · intro hmod
    have hle : j ≤ i := hmod ▸ Nat.mod_le i stride
    refine ⟨by omega, by omega, ?_⟩
    rw [← hmod]
    exact Nat.dvd_sub_mod i

/-! ## The survey -/

variable {lens : List Nat}

/-- The counts of all lengths. -/
theorem bitLengthCount_ok {lens : List Nat} (h : ∀ l ∈ lens, l ≤ 15) (count : Nat → Nat) :
    bitLengthCount lens count = .ok fun l => count l + lens.count l := by
  induction lens generalizing count with
  | nil => rfl
  | cons bits lens ih =>
    have hbits : bits ≤ MAX_BITS := h bits List.mem_cons_self
    rw [bitLengthCount, if_pos hbits, ih (fun l hl => h l (List.mem_cons_of_mem bits hl))]
    congr 1
    funext l
    by_cases hl : l = bits
    · subst hl
      rw [Function.update_self, List.count_cons_self]
      omega
    · rw [Function.update_of_ne hl, List.count_cons_of_ne (Ne.symm hl)]

theorem sub32_eq {x y : Nat} (h : y ≤ x) (hx : x < 4294967296) : sub32 x y = x - y := by
  unfold sub32 u32
  omega

theorem u32_eq {x : Nat} (hx : x < 4294967296) : u32 x = x := Nat.mod_eq_of_lt hx

/-- The greatest length in use up to `n`. -/
theorem findMaxCodeLen_spec (count : Nat → Nat) (n : Nat) :
    findMaxCodeLen count n ≤ n ∧
      (∀ l, findMaxCodeLen count n < l → l ≤ n → count l = 0) ∧
      (findMaxCodeLen count n ≠ 0 → count (findMaxCodeLen count n) ≠ 0) := by
  induction n with
  | zero => exact ⟨Nat.le_refl 0, fun l h₁ h₂ => absurd h₁ (by omega), fun h => absurd rfl h⟩
  | succ n ih =>
    obtain ⟨hle, hzero, hne⟩ := ih
    unfold findMaxCodeLen
    split
    case isTrue h => exact ⟨Nat.le_refl _, fun l h₁ h₂ => absurd h₁ (by omega), fun _ => h⟩
    case isFalse h =>
      refine ⟨by omega, fun l h₁ h₂ => ?_, hne⟩
      by_cases hl : l = n + 1
      · rw [hl]
        exact Decidable.not_not.1 h
      · exact hzero l h₁ (by omega)

/-- The size of the two levels with `bits` bits in the first, for a longest code of `max` bits. -/
def sizeWith (lens : List Nat) (max bits : Nat) : Nat :=
  (2 ^ 15 - first 15 lens (bits + 1)) / 2 ^ (15 - bits) * 2 ^ (max - bits) + 2 ^ bits

/-- What the survey knows of the lengths up to `n`. -/
structure Surveyed (lens : List Nat) (n : Nat) (s : Survey) : Prop where
  codes : ∀ l, 1 ≤ l → l ≤ n → s.codes l = first 15 lens l
  code : s.code = first 15 lens (n + 1)

theorem Surveyed.addLength (h : Fits 15 lens) {n : Nat} {s : Survey} (hs : Surveyed lens n s)
    (hn : n < 15) : Surveyed lens (n + 1) (s.addLength (lens.count ·) (n + 1)) := by
  constructor
  case codes =>
    intro l h₁ h₂
    by_cases hl : l = n + 1
    · subst hl
      exact (Function.update_self ..).trans hs.code
    · exact (Function.update_of_ne hl _ _).trans (hs.codes l h₁ (by omega))
  case code =>
    have hle : first 15 lens (n + 2) ≤ 2 ^ 15 := h.first_le (by decide) (by omega)
    rw [first_succ (by omega)] at hle
    show (if lens.count (n + 1) ≠ 0 then u32 (s.code + lens.count (n + 1) <<< (15 - (n + 1)))
      else s.code) = _
    rw [first_succ (by omega), hs.code, Nat.shiftLeft_eq]
    split
    case isTrue hc => exact u32_eq (by omega)
    case isFalse hc =>
      have hzero : lens.count (n + 1) = 0 := Decidable.not_not.1 hc
      rw [hzero, Nat.zero_mul]
      rfl

theorem Surveyed.tableSize_eq (h : Fits 15 lens) {n : Nat} {s : Survey} (hs : Surveyed lens n s)
    (hn : n ≤ s.maxCodeLen) (hmax : s.maxCodeLen ≤ 15) :
    s.tableSize n = sizeWith lens s.maxCodeLen n := by
  have hle : first 15 lens (n + 1) ≤ 2 ^ 15 := h.first_le (by decide) (by omega)
  have hdiv : (2 ^ 15 - first 15 lens (n + 1)) / 2 ^ (15 - n) * 2 ^ (s.maxCodeLen - n) ≤ 2 ^ 15 := by
    calc (2 ^ 15 - first 15 lens (n + 1)) / 2 ^ (15 - n) * 2 ^ (s.maxCodeLen - n)
        ≤ (2 ^ 15 - first 15 lens (n + 1)) / 2 ^ (15 - n) * 2 ^ (15 - n) :=
          Nat.mul_le_mul_left _ (Nat.pow_le_pow_right (by decide) (by omega))
      _ ≤ 2 ^ 15 - first 15 lens (n + 1) := Nat.div_mul_le_self _ _
      _ ≤ 2 ^ 15 := Nat.sub_le _ _
  have hpow : 2 ^ n ≤ 2 ^ 15 := Nat.pow_le_pow_right (by decide) (by omega)
  unfold Survey.tableSize sizeWith MAX_BITS
  simp only [hs.code, Nat.shiftLeft_eq, Nat.shiftRight_eq_div_pow, Nat.one_mul]
  rw [sub32_eq hle (by decide), u32_eq (Nat.lt_of_le_of_lt hdiv (by decide)), u32_eq (by omega)]

/-- The loop of the heuristic: the size found is the least one so far. -/
theorem minimize_spec (h : Fits 15 lens) {max : Nat} (hmax : max ≤ 15) (n : Nat) (hn : n ≤ max) :
    ∃ s, (List.range' 1 n).foldl (Survey.minimize (lens.count ·)) { maxCodeLen := max } = s ∧
      s.maxCodeLen = max ∧ Surveyed lens n s ∧
      (n = 0 → s.optQuickBits = 0) ∧
      (n ≠ 0 → 1 ≤ s.optQuickBits ∧ s.optQuickBits ≤ n ∧
        s.optTableSize = sizeWith lens max s.optQuickBits ∧
        ∀ b, 1 ≤ b → b ≤ n → sizeWith lens max s.optQuickBits ≤ sizeWith lens max b) := by
  induction n with
  | zero =>
    refine ⟨_, rfl, rfl, ⟨fun l h₁ h₂ => absurd h₁ (by omega), rfl⟩, fun _ => rfl, ?_⟩
    exact fun hne => absurd rfl hne
  | succ n ih =>
    obtain ⟨s, hs, hmaxLen, hsurvey, hzero, hpos⟩ := ih (by omega)
    have hadd := hsurvey.addLength h (by omega)
    have hsize : (s.addLength (lens.count ·) (n + 1)).tableSize (n + 1) =
        sizeWith lens max (n + 1) := by
      have hlen : (s.addLength (lens.count ·) (n + 1)).maxCodeLen = max := hmaxLen
      rw [hadd.tableSize_eq h (by omega) (by omega), hlen]
    rw [List.range'_concat, List.foldl_concat, hs]
    refine ⟨_, rfl, ?_⟩
    rw [Nat.mul_comm, Nat.mul_one, Nat.add_comm 1 n]
    have hopt : (s.addLength (lens.count ·) (n + 1)).optQuickBits = s.optQuickBits := rfl
    have hoptSize : (s.addLength (lens.count ·) (n + 1)).optTableSize = s.optTableSize := rfl
    simp only [Survey.minimize, hsize, hopt, hoptSize]
    split
    case isTrue hless =>
      refine ⟨hmaxLen, ⟨hadd.codes, hadd.code⟩, fun hc => absurd hc (by omega), fun _ => ?_⟩
      refine ⟨by simp, by simp, rfl, fun b h₁ h₂ => ?_⟩
      by_cases hb : b = n + 1
      · rw [hb]
      · obtain ⟨hone, -, heq, hleast⟩ := hpos (by omega)
        have hlt := hless.resolve_left (by omega)
        have hle := hleast b h₁ (by omega)
        show sizeWith lens max (n + 1) ≤ sizeWith lens max b
        omega
    case isFalse hless =>
      rw [not_or] at hless
      have hn0 : n ≠ 0 := fun hc => hless.1 (hzero hc)
      obtain ⟨hone, hle, heq, hleast⟩ := hpos hn0
      refine ⟨hmaxLen, hadd, fun hc => absurd hc (by omega), fun _ => ?_⟩
      refine ⟨hone, by rw [hopt]; omega, heq, fun b h₁ h₂ => ?_⟩
      rw [hopt]
      by_cases hb : b = n + 1
      · rw [hb]
        omega
      · exact hleast b h₁ (by omega)

/-- The loop without the heuristic. -/
theorem plain_spec (h : Fits 15 lens) (n : Nat) (hn : n ≤ 15) :
    ∃ s, (List.range' 1 n).foldl (Survey.plain (lens.count ·)) {} = s ∧
      Surveyed lens n s ∧ s.maxCodeLen = findMaxCodeLen (lens.count ·) n := by
  induction n with
  | zero => exact ⟨_, rfl, ⟨fun l h₁ h₂ => absurd h₁ (by omega), rfl⟩, rfl⟩
  | succ n ih =>
    obtain ⟨s, hs, hsurvey, hmaxLen⟩ := ih (by omega)
    have hadd := hsurvey.addLength h (by omega)
    rw [List.range'_concat, List.foldl_concat, hs]
    refine ⟨_, rfl, ?_⟩
    rw [Nat.mul_comm, Nat.mul_one, Nat.add_comm 1 n]
    unfold Survey.plain findMaxCodeLen
    dsimp only
    split
    case isTrue hc => exact ⟨⟨hadd.codes, hadd.code⟩, rfl⟩
    case isFalse hc => exact ⟨hadd, hmaxLen⟩

/-! ## The layout -/

/-- The lengths from `b + 1` to `b + k`, one more. -/
theorem countP_between (lens : List Nat) (b k : Nat) :
    lens.countP (fun l => b < l ∧ l ≤ b + (k + 1)) =
      lens.countP (fun l => b < l ∧ l ≤ b + k) + lens.count (b + k + 1) := by
  induction lens with
  | nil => rfl
  | cons l lens ih =>
    rw [List.countP_cons, List.countP_cons, List.count_cons, ih]
    have hbeq : (l == b + k + 1) = decide (l = b + k + 1) := rfl
    rw [hbeq]
    simp only [decide_eq_true_eq]
    split_ifs <;> omega

/-- The codes longer than `b` bits take at most half an entry of `b` bits each. -/
theorem first_tail_le (lens : List Nat) {b : Nat} (hb : b ≤ 14) :
    first 15 lens 16 ≤ first 15 lens (b + 1) + lens.length * 2 ^ (14 - b) := by
  have hpart : ∀ k, b + k ≤ 15 → first 15 lens (b + 1 + k) ≤ first 15 lens (b + 1) +
      lens.countP (fun l => b < l ∧ l ≤ b + k) * 2 ^ (14 - b) := by
    intro k hk
    induction k with
    | zero => exact Nat.le_add_right _ _
    | succ k ih =>
      have hpow : 2 ^ (15 - (b + 1 + k)) ≤ 2 ^ (14 - b) :=
        Nat.pow_le_pow_right (by decide) (by omega)
      have hmul := Nat.mul_le_mul_left (lens.count (b + k + 1)) hpow
      have hstep : first 15 lens (b + 1 + k + 1) =
          first 15 lens (b + 1 + k) + lens.count (b + 1 + k) * 2 ^ (15 - (b + 1 + k)) :=
        first_succ (by omega)
      rw [countP_between, Nat.add_mul, ← Nat.add_assoc, hstep,
        show b + 1 + k = b + k + 1 by omega]
      have := ih (by omega)
      rw [show b + 1 + k = b + k + 1 by omega] at this hmul
      omega
  have hall := hpart (15 - b) (by omega)
  rw [show b + 1 + (15 - b) = 16 by omega] at hall
  have hcount := Nat.mul_le_mul_right (2 ^ (14 - b))
    (List.countP_le_length (p := fun l => decide (b < l ∧ l ≤ b + (15 - b))) (l := lens))
  omega

/-- The sizes that fit a table to the lengths. -/
structure Layout.Suits (y : Layout) (lens : List Nat) : Prop where
  quick_le : y.maxQuickBits ≤ y.maxCodeLen
  max_le : y.maxCodeLen ≤ 15
  main : y.mainTableLength = 2 ^ y.maxQuickBits
  long : y.maxQuickBits < y.maxCodeLen →
    y.numLongTables = (2 ^ 15 - first 15 lens (y.maxQuickBits + 1)) / 2 ^ (15 - y.maxQuickBits) ∧
      y.longTableLength = 2 ^ (y.maxCodeLen - y.maxQuickBits)
  short : y.maxQuickBits = y.maxCodeLen → y.numLongTables = 0
  len_le : ∀ s, len lens s ≤ y.maxCodeLen
  small : 2 ^ y.maxQuickBits * 2 ^ (15 - y.maxCodeLen) +
      (first 15 lens 16 - first 15 lens (y.maxQuickBits + 1)) ≤ 9728 * 2 ^ (15 - y.maxCodeLen)

/-- The codes up to `b` bits fill whole entries of `b` bits. -/
theorem dvd_first (lens : List Nat) {b : Nat} (hb : b ≤ 15) :
    2 ^ (15 - b) ∣ first 15 lens (b + 1) := by
  induction b with
  | zero => simp [first]
  | succ b ih =>
    rw [first_succ (by omega)]
    have hpow : 2 ^ (15 - (b + 1)) ∣ 2 ^ (15 - b) := Nat.pow_dvd_pow 2 (by omega)
    exact Nat.dvd_add (Nat.dvd_trans hpow (ih (by omega))) (Nat.dvd_mul_left _ _)

theorem first_eq_of_unused {b n : Nat} (hb : b ≤ n) (h : ∀ l, b < l → l ≤ n → lens.count l = 0) :
    first 15 lens (n + 1) = first 15 lens (b + 1) := by
  induction n with
  | zero =>
    obtain rfl : b = 0 := by omega
    rfl
  | succ n ih =>
    by_cases heq : b = n + 1
    · rw [heq]
    · rw [first_succ (by omega), h (n + 1) (by omega) (Nat.le_refl _), Nat.zero_mul, Nat.add_zero]
      exact ih (by omega) fun l h₁ h₂ => h l h₁ (by omega)

theorem sizeWith_mul (h : Fits 15 lens) {max b : Nat} (hb : b ≤ max) (hmax : max ≤ 15) :
    sizeWith lens max b * 2 ^ (15 - max) =
      2 ^ 15 - first 15 lens (b + 1) + 2 ^ b * 2 ^ (15 - max) := by
  have hle : first 15 lens (b + 1) ≤ 2 ^ 15 := h.first_le (by decide) (by omega)
  have hdvd : 2 ^ (15 - b) ∣ 2 ^ 15 - first 15 lens (b + 1) :=
    Nat.dvd_sub (Nat.pow_dvd_pow 2 (by omega)) (dvd_first lens (by omega))
  have hpow : 2 ^ (max - b) * 2 ^ (15 - max) = 2 ^ (15 - b) := by
    rw [← Nat.pow_add]
    congr 1
    omega
  rw [sizeWith, Nat.add_mul, Nat.mul_assoc, hpow, Nat.div_mul_cancel hdvd]

variable {maxQuickBits : Nat}

/-- The size with as many bits as the table is meant to have, or with all. -/
theorem small_of_min (hquick : maxQuickBits ≤ 14)
    (hsmall : lens.length * 2 ^ (14 - maxQuickBits) + 2 ^ maxQuickBits ≤ 9728) {max : Nat}
    (hflat : first 15 lens 16 = first 15 lens (max + 1)) :
    2 ^ min maxQuickBits max * 2 ^ (15 - max) +
      (first 15 lens 16 - first 15 lens (min maxQuickBits max + 1)) ≤ 9728 * 2 ^ (15 - max) := by
  have hpos : 1 ≤ 2 ^ (15 - max) := Nat.one_le_two_pow
  rcases Nat.le_total maxQuickBits max with hle | hle
  · rw [Nat.min_eq_left hle]
    have htail := first_tail_le lens hquick
    calc 2 ^ maxQuickBits * 2 ^ (15 - max) +
          (first 15 lens 16 - first 15 lens (maxQuickBits + 1))
        ≤ 2 ^ maxQuickBits * 2 ^ (15 - max) +
          lens.length * 2 ^ (14 - maxQuickBits) * 2 ^ (15 - max) := by
          have := Nat.le_mul_of_pos_right (lens.length * 2 ^ (14 - maxQuickBits)) hpos
          omega
      _ = (lens.length * 2 ^ (14 - maxQuickBits) + 2 ^ maxQuickBits) * 2 ^ (15 - max) := by ring
      _ ≤ 9728 * 2 ^ (15 - max) := Nat.mul_le_mul_right _ hsmall
  · rw [Nat.min_eq_right hle, hflat, Nat.sub_self, Nat.add_zero]
    have hpow : 2 ^ max ≤ 2 ^ maxQuickBits := Nat.pow_le_pow_right (by decide) hle
    exact Nat.mul_le_mul_right _ (by omega)

/-- What is the same with and without the heuristic: the layout for a number of bits in the first
level that is as good as the one the table is meant to have. -/
theorem layout_suits (h : Fits 15 lens) {s : Survey} {q : Nat}
    (hmax : s.maxCodeLen = findMaxCodeLen (lens.count ·) 15)
    (hcodes : ∀ l, 1 ≤ l → l ≤ s.maxCodeLen → s.codes l = first 15 lens l)
    (hsmall : 2 ^ min q s.maxCodeLen * 2 ^ (15 - s.maxCodeLen) +
      (first 15 lens 16 - first 15 lens (min q s.maxCodeLen + 1)) ≤
        9728 * 2 ^ (15 - s.maxCodeLen)) :
    (s.layout q).Suits lens ∧ (s.layout q).maxCodeLen = s.maxCodeLen := by
  obtain ⟨hle, hzero, -⟩ := findMaxCodeLen_spec (lens.count ·) 15
  rw [← hmax] at hle hzero
  have hlen : ∀ t, len lens t ≤ s.maxCodeLen := by
    intro t
    by_contra hgt
    have hne : len lens t ≠ 0 := by omega
    have hmem := (len_mem hne).1
    exact (List.count_pos_iff.2 hmem).ne' (hzero _ (by omega) (h.len_le t))
  unfold Survey.layout
  split
  case isTrue hshort =>
    rw [Nat.min_eq_right hshort] at hsmall
    exact ⟨⟨Nat.le_refl _, hle, Nat.one_shiftLeft _, fun hc => absurd hc (Nat.lt_irrefl _),
      fun _ => rfl, hlen, hsmall⟩, rfl⟩
  case isFalse hlong =>
    rw [Nat.min_eq_left (by omega)] at hsmall
    have hfirst : first 15 lens (q + 1) ≤ 2 ^ 15 := h.first_le (by decide) (by omega)
    refine ⟨⟨?_, hle, Nat.one_shiftLeft _, fun _ => ⟨?_, Nat.one_shiftLeft _⟩, ?_, hlen, hsmall⟩,
      rfl⟩
    · show q ≤ s.maxCodeLen
      omega
    · show sub32 (1 <<< 15) (s.codes (q + 1)) >>> (15 - q) = _
      rw [hcodes (q + 1) (by omega) (by omega), Nat.one_shiftLeft, sub32_eq hfirst (by decide),
        Nat.shiftRight_eq_div_pow]
    · intro hc
      have heq : q = s.maxCodeLen := hc
      omega

/-- **The survey of lengths that fit.** -/
theorem survey_suits (h : Fits 15 lens) (hquick : 1 ≤ maxQuickBits ∧ maxQuickBits ≤ 14)
    (hsmall : lens.length * 2 ^ (14 - maxQuickBits) + 2 ^ maxQuickBits ≤ 9728)
    (heuristic : Bool) :
    ∃ s, survey heuristic (lens.count ·) = s ∧
      (s.layout (if heuristic then s.optQuickBits else maxQuickBits)).Suits lens ∧
      ∀ l, 1 ≤ l → l ≤ (s.layout (if heuristic then s.optQuickBits else maxQuickBits)).maxCodeLen →
        s.codes l = first 15 lens l := by
  obtain ⟨hle, hzero, -⟩ := findMaxCodeLen_spec (lens.count ·) 15
  have hflat := first_eq_of_unused hle hzero
  have hmin := small_of_min hquick.2 hsmall hflat
  cases heuristic with
  | false =>
    obtain ⟨s, hs, hsurvey, hmax⟩ := plain_spec h 15 (Nat.le_refl 15)
    have hcodes : ∀ l, 1 ≤ l → l ≤ s.maxCodeLen → s.codes l = first 15 lens l :=
      fun l h₁ h₂ => hsurvey.codes l h₁ (by omega)
    rw [← hmax] at hmin
    obtain ⟨hsuits, heq⟩ := layout_suits h hmax hcodes hmin
    exact ⟨s, hs, hsuits, fun l h₁ h₂ => hcodes l h₁ (heq ▸ h₂)⟩
  | true =>
    obtain ⟨s, hs, hmax, hsurvey, hopt₀, hopt⟩ := minimize_spec h hle _ (Nat.le_refl _)
    rw [← hmax] at hsurvey hmin hle hflat hopt₀ hopt
    have hsmall' : 2 ^ min s.optQuickBits s.maxCodeLen * 2 ^ (15 - s.maxCodeLen) +
        (first 15 lens 16 - first 15 lens (min s.optQuickBits s.maxCodeLen + 1)) ≤
          9728 * 2 ^ (15 - s.maxCodeLen) := by
      by_cases h0 : s.maxCodeLen = 0
      · rw [h0] at hmin ⊢
        rwa [Nat.min_zero] at hmin ⊢
      · obtain ⟨h₁, h₂, -, hleast⟩ := hopt h0
        have hb := hleast (min maxQuickBits s.maxCodeLen) (by omega) (by omega)
        have hmul := Nat.mul_le_mul_right (2 ^ (15 - s.maxCodeLen)) hb
        rw [sizeWith_mul h h₂ hle, sizeWith_mul h (by omega) hle] at hmul
        have htop : first 15 lens 16 ≤ 2 ^ 15 := h.first_le (by decide) (by omega)
        have hmono : first 15 lens (min maxQuickBits s.maxCodeLen + 1) ≤ first 15 lens 16 :=
          first_mono (by omega)
        have hmono' : first 15 lens (s.optQuickBits + 1) ≤ first 15 lens 16 :=
          first_mono (by omega)
        rw [Nat.min_eq_left h₂]
        omega
    obtain ⟨hsuits, heq⟩ := layout_suits h hmax hsurvey.codes hsmall'
    exact ⟨s, hs, hsuits, fun l h₁ h₂ => hsurvey.codes l h₁ (heq ▸ h₂)⟩

end FroggyKVM.Inflate
