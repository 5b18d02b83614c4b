/-
# FroggyKVM.Pcsl.Escape — file names that any file system can hold (`utf.c`).

Small letters and digits stand for themselves, a capital letter follows a `#`, and any other unit is
a `%` with its four hexadecimal digits.  No code is a prefix of another one, not even when capital
letters count as small ones, so **two strings never share a file name**.
-/
import FroggyKVM.Lib.Fill
import FroggyKVM.Lib.Codewords

namespace FroggyKVM.Pcsl

open Codewords

/-! ## `pcsl_utf16_to_escaped_ascii` -/

def isSmall (c : UInt16) : Bool := 97 ≤ c ∧ c ≤ 122
def isDigit (c : UInt16) : Bool := 48 ≤ c ∧ c ≤ 57
def isCapital (c : UInt16) : Bool := 65 ≤ c ∧ c ≤ 90

/-- `NUMS`. -/
def NUMS (k : UInt16) : UInt16 := if k < 10 then 48 + k else 87 + k

/-- What the body of the loop writes for one unit. -/
def escapeChar (c : UInt16) : List UInt16 :=
  if isSmall c || isDigit c then [c]
  else if isCapital c then [35, c]
  else [37, NUMS (c >>> 12 &&& 0xF), NUMS (c >>> 8 &&& 0xF), NUMS (c >>> 4 &&& 0xF), NUMS (c &&& 0xF)]

/-- The loop over the units. -/
def escapeLoop : List UInt16 → Nat → Buffer UInt16 → Except MemFault (Nat × Buffer UInt16)
  | [], j, pBuffer => .ok (j, pBuffer)
  | c :: str, j, pBuffer => do
    let (j, pBuffer) ← Buffer.putAll (escapeChar c) j pBuffer
    escapeLoop str j pBuffer

/-- `pcsl_utf16_to_escaped_ascii`: how many units it wrote, and the buffer. -/
def pcslUtf16ToEscapedAscii (strData : List UInt16) (pBuffer : Buffer UInt16) (offset : Nat) :
    Except MemFault (Nat × Buffer UInt16) := do
  let (j, pBuffer) ← escapeLoop strData offset pBuffer
  return (j - offset, pBuffer)

/-! ## What is written -/

/-- The text for a string. -/
def escape (s : List UInt16) : List UInt16 := s.flatMap escapeChar

theorem length_escapeChar (c : UInt16) : (escapeChar c).length ≤ 5 := by
  unfold escapeChar
  split
  · exact Nat.le_add_left 1 4
  · split
    · exact Nat.le_add_left 2 3
    · exact Nat.le_refl 5

theorem length_escape (s : List UInt16) : (escape s).length ≤ 5 * s.length := by
  induction s with
  | nil => exact Nat.le_refl 0
  | cons c s ih =>
    have hc := length_escapeChar c
    rw [escape, List.flatMap_cons, List.length_append, List.length_cons]
    have hs : (s.flatMap escapeChar).length ≤ 5 * s.length := ih
    omega

theorem escapeLoop_ok {s : List UInt16} {j : Nat} {b : Buffer UInt16}
    (h : j + (escape s).length ≤ b.length) :
    escapeLoop s j b = .ok (j + (escape s).length, b.fill j (escape s)) := by
  induction s generalizing j b with
  | nil =>
    rw [escapeLoop, escape, List.flatMap_nil, Buffer.fill_nil]
    rfl
  | cons c s ih =>
    have hcons : escape (c :: s) = escapeChar c ++ escape s := rfl
    rw [hcons, List.length_append] at h ⊢
    have hrest := @ih (j + (escapeChar c).length) (b.fill j (escapeChar c))
      (by rw [Buffer.fill_length]; omega)
    rw [escapeLoop, Buffer.putAll_ok (by omega), ok_bind]
    dsimp only
    rw [hrest, Buffer.fill_fill, Nat.add_assoc]

/-- **The text is written behind the offset**, when there is room for five units for each of the
string. -/
theorem pcslUtf16ToEscapedAscii_ok {s : List UInt16} {b : Buffer UInt16} {offset : Nat}
    (h : offset + 5 * s.length ≤ b.length) :
    ∃ b', pcslUtf16ToEscapedAscii s b offset = .ok ((escape s).length, b') ∧
      b'.slice offset (escape s).length = .ok (escape s) := by
  have hlen := length_escape s
  refine ⟨b.fill offset (escape s), ?_, Buffer.slice_fill (by omega)⟩
  rw [pcslUtf16ToEscapedAscii, escapeLoop_ok (by omega), ok_bind]
  dsimp only
  rw [Nat.add_sub_cancel_left]
  rfl

/-! ## Telling texts apart -/

/-- Capital letters as small ones. -/
def foldCase (c : UInt16) : UInt16 := if isCapital c then c + 32 else c

/-- The four bits of a unit from bit `k` on. -/
def nibble (c : UInt16) (k : Nat) : Nat := c.toNat / 2 ^ k % 16

/-- The value of a hexadecimal digit. -/
def digitValue (c : UInt16) : Nat := if c < 58 then c.toNat - 48 else c.toNat - 87

theorem nibble_lt (c : UInt16) (k : Nat) : nibble c k < 16 := Nat.mod_lt _ (by decide)

theorem shift_and {c s : UInt16} (hs : s < 16) :
    c >>> s &&& 0xF = UInt16.ofNat (nibble c s.toNat) := by
  have hs' : s.toNat < 16 := hs
  have hlt := nibble_lt c s.toNat
  have hmod := Nat.and_two_pow_sub_one_eq_mod (c.toNat / 2 ^ s.toNat) 4
  apply UInt16.toNat_inj.1
  rw [UInt16.toNat_and, UInt16.toNat_shiftRight, Nat.mod_eq_of_lt hs', Nat.shiftRight_eq_div_pow,
    UInt16.toNat_ofNat_of_lt' (Nat.lt_trans hlt (by decide))]
  exact hmod

/-- The digits of a unit. -/
theorem escapeChar_other {c : UInt16} (h : ¬ (isSmall c || isDigit c) = true)
    (h' : ¬ isCapital c = true) :
    escapeChar c = 37 :: [12, 8, 4, 0].map fun k => NUMS (UInt16.ofNat (nibble c k)) := by
  have hzero : c &&& 0xF = UInt16.ofNat (nibble c 0) := by
    have hshift := @shift_and c 0 (by decide)
    rwa [UInt16.shiftRight_zero] at hshift
  rw [escapeChar, if_neg h, if_neg h', shift_and (by decide), shift_and (by decide),
    shift_and (by decide), hzero]
  rfl

theorem digitValue_NUMS {k : Nat} (hk : k < 16) : digitValue (NUMS (UInt16.ofNat k)) = k := by
  revert hk
  revert k
  decide

theorem foldCase_NUMS {k : Nat} (hk : k < 16) :
    foldCase (NUMS (UInt16.ofNat k)) = NUMS (UInt16.ofNat k) := by
  revert hk
  revert k
  decide

/-- A unit from its digits. -/
theorem nibbles_eq (c : UInt16) :
    UInt16.ofNat (nibble c 12 * 4096 + nibble c 8 * 256 + nibble c 4 * 16 + nibble c 0) = c := by
  have hc := c.toNat_lt
  apply UInt16.toNat_inj.1
  unfold nibble
  rw [UInt16.toNat_ofNat_of_lt' (by simp only [UInt16.size]; lia)]
  lia

/-- Reads the first unit back; `capital` gives the letter behind a `#`. -/
def readFirst (capital : UInt16 → UInt16) : List UInt16 → UInt16
  | 35 :: c :: _ => capital c
  | 37 :: a :: b :: c :: d :: _ =>
    UInt16.ofNat (digitValue a * 4096 + digitValue b * 256 + digitValue c * 16 + digitValue d)
  | c :: _ => c
  | [] => 0

theorem readFirst_plain {capital : UInt16 → UInt16} {c : UInt16} (h : c ≠ 35) (h' : c ≠ 37)
    (rest : List UInt16) : readFirst capital (c :: rest) = c := by
  unfold readFirst
  split
  case h_1 heq => exact absurd (List.cons.inj heq).1 h
  case h_2 heq => exact absurd (List.cons.inj heq).1 h'
  case h_3 heq => exact (List.cons.inj heq).1.symm
  case h_4 heq => cases heq

theorem plain_ne {c : UInt16} (h : (isSmall c || isDigit c) = true) : c ≠ 35 ∧ c ≠ 37 := by
  constructor
  all_goals
    rintro rfl
    revert h
    decide

theorem foldCase_plain {c : UInt16} (h : (isSmall c || isDigit c) = true) :
    foldCase c = c := by
  simp only [isSmall, isDigit, Bool.or_eq_true, decide_eq_true_eq, UInt16.le_iff_toNat_le,
    UInt16.toNat_ofNat, Nat.reduceMod, Nat.reducePow] at h
  apply if_neg
  simp only [isCapital, decide_eq_true_eq, UInt16.le_iff_toNat_le, UInt16.toNat_ofNat,
    Nat.reduceMod, Nat.reducePow]
  omega

theorem readFirst_other (capital : UInt16 → UInt16) (c : UInt16) (rest : List UInt16) :
    readFirst capital ((37 :: [12, 8, 4, 0].map fun k => NUMS (UInt16.ofNat (nibble c k))) ++ rest) =
      c := by
  show UInt16.ofNat (digitValue (NUMS _) * 4096 + digitValue (NUMS _) * 256 +
    digitValue (NUMS _) * 16 + digitValue (NUMS _)) = c
  rw [digitValue_NUMS (nibble_lt c 12), digitValue_NUMS (nibble_lt c 8),
    digitValue_NUMS (nibble_lt c 4), digitValue_NUMS (nibble_lt c 0), nibbles_eq]

theorem escapeChar_ne_nil (c : UInt16) : escapeChar c ≠ [] := by
  unfold escapeChar
  split
  · exact List.cons_ne_nil _ _
  · split
    · exact List.cons_ne_nil _ _
    · exact List.cons_ne_nil _ _

theorem prefixFree_escapeChar : PrefixFree escapeChar := by
  apply @PrefixFree.of_read _ _ escapeChar (readFirst id) _ escapeChar_ne_nil
  intro c rest
  by_cases hplain : (isSmall c || isDigit c) = true
  · rw [escapeChar, if_pos hplain]
    exact readFirst_plain (plain_ne hplain).1 (plain_ne hplain).2 rest
  · by_cases hcapital : isCapital c = true
    · rw [escapeChar, if_neg hplain, if_pos hcapital]
      rfl
    · rw [escapeChar_other hplain hcapital]
      exact readFirst_other id c rest

/-- **Folding the case of the texts loses nothing.** -/
theorem prefixFree_foldCase : PrefixFree fun c => (escapeChar c).map foldCase := by
  apply @PrefixFree.of_read _ _ _ (readFirst fun c => c - 32)
  · intro c rest
    by_cases hplain : (isSmall c || isDigit c) = true
    · rw [escapeChar, if_pos hplain, List.map_singleton, foldCase_plain hplain]
      exact readFirst_plain (plain_ne hplain).1 (plain_ne hplain).2 rest
    · by_cases hcapital : isCapital c = true
      · rw [escapeChar, if_neg hplain, if_pos hcapital]
        show foldCase c - 32 = c
        rw [foldCase, if_pos hcapital]
        exact UInt16.add_sub_cancel c 32
      · have hfold : (escapeChar c).map foldCase = escapeChar c := by
          rw [escapeChar_other hplain hcapital]
          show foldCase 37 :: [foldCase _, foldCase _, foldCase _, foldCase _] = _
          rw [foldCase_NUMS (nibble_lt c 12), foldCase_NUMS (nibble_lt c 8),
            foldCase_NUMS (nibble_lt c 4), foldCase_NUMS (nibble_lt c 0)]
          rfl
        rw [hfold, escapeChar_other hplain hcapital]
        exact readFirst_other _ c rest
  · intro c hnil
    exact escapeChar_ne_nil c (List.map_eq_nil_iff.1 hnil)

/-! ## The texts -/

def isHex (c : UInt16) : Bool := isDigit c || 97 ≤ c && c ≤ 102

/-- The pieces that a text is made of. -/
inductive Piece : List UInt16 → Prop where
  | plain {c : UInt16} (h : (isSmall c || isDigit c) = true) : Piece [c]
  | capital {c : UInt16} (h : isCapital c = true) : Piece [35, c]
  | other {a b c d : UInt16} (ha : isHex a = true) (hb : isHex b = true) (hc : isHex c = true)
      (hd : isHex d = true) : Piece [37, a, b, c, d]

theorem isHex_NUMS {k : Nat} (hk : k < 16) : isHex (NUMS (UInt16.ofNat k)) = true := by
  revert hk
  revert k
  decide

theorem piece_escapeChar (c : UInt16) : Piece (escapeChar c) := by
  by_cases hplain : (isSmall c || isDigit c) = true
  · rw [escapeChar, if_pos hplain]
    exact .plain hplain
  · by_cases hcapital : isCapital c = true
    · rw [escapeChar, if_neg hplain, if_pos hcapital]
      exact .capital hcapital
    · rw [escapeChar_other hplain hcapital]
      apply Piece.other
      all_goals exact isHex_NUMS (nibble_lt c _)

/-- **File names are as different as the strings.**  For two different strings, and buffers with the
room that is asked for, the texts that are written differ, also when the case of letters does not
count; each is made of small letters, digits, `#` with a capital letter and `%` with four
hexadecimal digits, and has at most five units for one of its string. -/
theorem escaped_ascii_injective {s t : List UInt16} {b c : Buffer UInt16} {i j : Nat}
    (hb : i + 5 * s.length ≤ b.length) (hc : j + 5 * t.length ≤ c.length) (hne : s ≠ t) :
    ∃ n b' text m c' text',
      pcslUtf16ToEscapedAscii s b i = .ok (n, b') ∧ b'.slice i n = .ok text ∧
      pcslUtf16ToEscapedAscii t c j = .ok (m, c') ∧ c'.slice j m = .ok text' ∧
      text ≠ text' ∧ text.map foldCase ≠ text'.map foldCase ∧
      (∃ pieces, text = List.flatten pieces ∧ ∀ p ∈ pieces, Piece p) ∧ n ≤ 5 * s.length := by
  obtain ⟨b', hrun, htext⟩ := pcslUtf16ToEscapedAscii_ok hb
  obtain ⟨c', hrun', htext'⟩ := pcslUtf16ToEscapedAscii_ok hc
  refine ⟨_, b', _, _, c', _, hrun, htext, hrun', htext', ?_, ?_, ?_, length_escape s⟩
  · intro heq
    exact hne (prefixFree_escapeChar.flatMap_injective heq)
  · intro heq
    apply hne
    apply prefixFree_foldCase.flatMap_injective
    show s.flatMap (fun c => (escapeChar c).map foldCase) =
      t.flatMap fun c => (escapeChar c).map foldCase
    rw [← List.map_flatMap, ← List.map_flatMap]
    exact heq
  · refine ⟨s.map escapeChar, List.flatMap_def, fun p hp => ?_⟩
    obtain ⟨c, -, rfl⟩ := List.mem_map.1 hp
    exact piece_escapeChar c

/-- `A` and `a` in buffers of five units. -/
theorem escaped_ascii_injective_a :
    ∃ n b' text m c' text',
      pcslUtf16ToEscapedAscii [65] ⟨5, fun _ => 0⟩ 0 = .ok (n, b') ∧ b'.slice 0 n = .ok text ∧
      pcslUtf16ToEscapedAscii [97] ⟨5, fun _ => 0⟩ 0 = .ok (m, c') ∧ c'.slice 0 m = .ok text' ∧
      text ≠ text' ∧ text.map foldCase ≠ text'.map foldCase := by
  obtain ⟨n, b', text, m, c', text', h₁, h₂, h₃, h₄, h₅, h₆, -⟩ :=
    @escaped_ascii_injective [65] [97] ⟨5, fun _ => 0⟩ ⟨5, fun _ => 0⟩ 0 0 (by decide) (by decide)
      (by decide)
  exact ⟨n, b', text, m, c', text', h₁, h₂, h₃, h₄, h₅, h₆⟩

end FroggyKVM.Pcsl
