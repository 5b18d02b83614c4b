/-
# FroggyKVM.Pcsl.Numbers — which texts are parsed as numbers.

A number is an optional sign and decimal digits.  Parsing accumulates up to the absolute value of
the least 64-bit integer, and the one value that wraps around is left to the sign; **a text of a sign
alone, or one that is no UTF-16, is taken for 0.**
-/
import FroggyKVM.Pcsl.Decimal

namespace FroggyKVM.Pcsl

/-! ## Texts of numbers -/

def IsDigits (ds : List UInt16) : Prop := ∀ c ∈ ds, 48 ≤ c.toNat ∧ c.toNat ≤ 57

/-- The number read so far, and the digits behind it. -/
def total (r : Nat) (ds : List UInt16) : Nat := ds.foldl (fun r c => r * 10 + (c.toNat - 48)) r

/-- The text without its sign. -/
def digitPart : List UInt16 → List UInt16
  | [] => []
  | c :: text => if c.toNat = 45 ∨ c.toNat = 43 then text else c :: text

/-- The text is an optional sign and one or more digits, which denote `v`. -/
structure Denotes (text : List UInt16) (v : Int) : Prop where
  ne_nil : digitPart text ≠ []
  digits : IsDigits (digitPart text)
  value : v = if text.head? = some 45 then -(total 0 (digitPart text) : Int)
    else total 0 (digitPart text)

/-- The 64-bit integers. -/
def InRange (v : Int) : Prop := -9223372036854775808 ≤ v ∧ v < 9223372036854775808

instance (v : Int) : Decidable (InRange v) := inferInstanceAs (Decidable (_ ∧ _))

theorem le_total (r : Nat) (ds : List UInt16) : r ≤ total r ds := by
  induction ds generalizing r with
  | nil => exact Nat.le_refl r
  | cons c ds ih =>
    have hle := ih (r * 10 + (c.toNat - 48))
    unfold total at hle ⊢
    rw [List.foldl_cons]
    omega

theorem total_cons (r : Nat) (c : UInt16) (ds : List UInt16) :
    total r (c :: ds) = total (r * 10 + (c.toNat - 48)) ds := by
  unfold total
  rw [List.foldl_cons]

theorem total_concat (r : Nat) (ds : List UInt16) (c : UInt16) :
    total r (ds ++ [c]) = total r ds * 10 + (c.toNat - 48) := by
  unfold total
  rw [List.foldl_append]
  rfl

/-! ## The loop over the digits -/

theorem unitAt_append (pre : List UInt16) (c : UInt16) (post : List UInt16) :
    unitAt (pre ++ c :: post) pre.length = .ok c := by
  unfold unitAt
  rw [List.getElem?_append_right (Nat.le_refl _), Nat.sub_self]
  rfl

/-- **Digits**: the loop computes their number, or the least integer in place of its absolute value,
or reports an overflow. -/
theorem parseDigits_digits {pre ds post : List UInt16} (hds : IsDigits ds) {r : Nat}
    (hr : r < 9223372036854775808) :
    parseDigits (pre ++ ds ++ post) ds.length pre.length r =
      .ok (if total r ds < 9223372036854775808 then .ok (total r ds)
        else if total r ds = 9223372036854775808 then .ok MIN_LONG else .error .overflow) := by
  induction ds generalizing pre r with
  | nil =>
    have htotal : total r [] = r := rfl
    rw [htotal, if_pos hr]
    rfl
  | cons c ds ih =>
    have hc := hds c List.mem_cons_self
    have hds' : IsDigits ds := fun d hd => hds d (List.mem_cons_of_mem c hd)
    have hle := le_total (r * 10 + (c.toNat - 48)) ds
    have hsrc : pre ++ c :: ds ++ post = pre ++ [c] ++ ds ++ post := by simp
    have hunit : unitAt (pre ++ [c] ++ ds ++ post) pre.length = .ok c := by
      rw [List.append_assoc, List.append_assoc]
      exact unitAt_append pre c (ds ++ post)
    have hrest := @ih (pre ++ [c]) hds' (r * 10 + (c.toNat - 48))
    rw [List.length_append, List.length_singleton] at hrest
    rw [hsrc, total_cons, List.length_cons, parseDigits]
    by_cases hbig : (r : Int) > MAXINT_DIV_10
    · unfold MAXINT_DIV_10 at hbig
      rw [if_pos (.inl hbig), if_neg (by omega), if_neg (by omega)]
    · have hsum : (r : Int) * RADIX + (c.toNat - 48) = ((r * 10 + (c.toNat - 48) : Nat) : Int) := by
        unfold RADIX
        omega
      have hnext : i64 ((r : Int) * RADIX + (c.toNat - 48)) =
          if r * 10 + (c.toNat - 48) < 9223372036854775808 then
            ((r * 10 + (c.toNat - 48) : Nat) : Int)
          else ((r * 10 + (c.toNat - 48) : Nat) : Int) - 18446744073709551616 := by
        unfold MAXINT_DIV_10 at hbig
        rw [hsum]
        split
        · exact i64_of_range (by omega)
        · exact i64_of_upper (by omega)
      unfold MAXINT_DIV_10 at hbig
      rw [if_neg (by unfold MAXINT_DIV_10; omega), hunit, ok_bind, if_pos hc]
      dsimp only
      rw [hnext]
      by_cases hlt : r * 10 + (c.toNat - 48) < 9223372036854775808
      · rw [if_pos hlt, if_neg (by omega)]
        exact hrest hlt
      · rw [if_neg hlt]
        by_cases hmin : r * 10 + (c.toNat - 48) = 9223372036854775808
        · -- the absolute value of the least integer: nothing may follow
          have hwrap : ((r * 10 + (c.toNat - 48) : Nat) : Int) - 18446744073709551616 =
              MIN_LONG := by
            unfold MIN_LONG
            omega
          rw [hwrap, if_neg (fun h => h.2 rfl)]
          cases ds with
          | nil =>
            have htotal : total (r * 10 + (c.toNat - 48)) [] = r * 10 + (c.toNat - 48) := rfl
            rw [htotal, if_neg hlt, if_pos hmin]
            rfl
          | cons d ds =>
            have hmore := le_total ((r * 10 + (c.toNat - 48)) * 10 + (d.toNat - 48)) ds
            rw [total_cons, if_neg (by omega), if_neg (by omega), List.length_cons, parseDigits,
              if_pos (.inr (by decide))]
        · rw [if_pos (by unfold MIN_LONG; omega), if_neg (by omega), if_neg (by omega)]
          rfl

/-- The loop stays inside, and what it returns early is no success. -/
theorem parseDigits_ok {src : List UInt16} {k i : Nat} {r : Int} (h : i + k ≤ src.length) :
    ∃ x, parseDigits src k i r = .ok x ∧ (∀ status, x = .error status → status ≠ .ok) ∧
      ∀ v, x = .ok v → ∀ j c, i ≤ j → j < i + k → src[j]? = some c →
        48 ≤ c.toNat ∧ c.toNat ≤ 57 := by
  induction k generalizing i r with
  | zero =>
    refine ⟨.ok r, rfl, nofun, fun v _ j c hij hj => ?_⟩
    omega
  | succ k ih =>
    rw [parseDigits]
    split
    · refine ⟨.error .overflow, rfl, ?_, nofun⟩
      rintro _ ⟨⟩
      decide
    · have hunit : unitAt src i = .ok src[i] := by
        unfold unitAt
        rw [List.getElem?_eq_getElem (by omega)]
      rw [hunit, ok_bind]
      dsimp only
      split
      case isTrue hdigit =>
        split
        · refine ⟨.error .overflow, rfl, ?_, nofun⟩
          rintro _ ⟨⟩
          decide
        · obtain ⟨x, hx, herr, hok⟩ := @ih (i + 1) (i64 (r * RADIX + (src[i].toNat - 48))) (by omega)
          refine ⟨x, hx, herr, fun v hv j c hij hj hc => ?_⟩
          by_cases heq : i = j
          · subst heq
            rw [List.getElem?_eq_getElem (by omega)] at hc
            cases hc
            exact hdigit
          · exact hok v hv j c (by omega) (by omega) hc
      case isFalse hother =>
        refine ⟨.error .einval, rfl, ?_, nofun⟩
        rintro _ ⟨⟩
        decide

/-! ## The length of a text -/

/-- Every high surrogate is followed by a low one. -/
def highsPaired : List UInt16 → Bool
  | [] => true
  | c :: text =>
    if isHigh c then
      match text with
      | [] => false
      | low :: text => isLow low && highsPaired text
    else highsPaired text

/-- The number of abstract characters, a high surrogate and the unit behind it being one. -/
def charCount : List UInt16 → Nat
  | [] => 0
  | c :: text =>
    if isHigh c then
      match text with
      | [] => 1
      | _ :: text => charCount text + 1
    else charCount text + 1

variable {c : UInt16}

theorem utf16StringLength_other (h : ¬ isHigh c = true) (text : List UInt16) (n : Int) :
    utf16StringLength (c :: text) n = utf16StringLength text (n + 1) := by
  cases text with
  | nil | cons => simp [utf16StringLength, h]

theorem highsPaired_other (h : ¬ isHigh c = true) (text : List UInt16) :
    highsPaired (c :: text) = highsPaired text := by
  cases text with
  | nil | cons => simp [highsPaired, h]

theorem charCount_other (h : ¬ isHigh c = true) (text : List UInt16) :
    charCount (c :: text) = charCount text + 1 := by
  cases text with
  | nil | cons => simp [charCount, h]

theorem charCount_high (h : isHigh c = true) (text : List UInt16) :
    0 < charCount (c :: text) := by
  cases text with
  | nil | cons => simp [charCount, h]

theorem utf16StringLength_text (text : List UInt16) (n : Int) :
    utf16StringLength (text ++ [0]) n = if highsPaired text then n + charCount text + 1 else -1 := by
  fun_induction highsPaired text generalizing n with
  | case1 =>
    simp only [List.nil_append, utf16StringLength, charCount, if_pos]
    rw [if_neg (by decide)]
    omega
  | case2 c hhigh => simp [utf16StringLength, hhigh, isLow]
  | case3 c hhigh low text ih =>
    rw [List.cons_append, List.cons_append, utf16StringLength, if_pos hhigh, charCount,
      if_pos hhigh]
    cases hlow : isLow low with
    | false => rfl
    | true =>
      rw [ih, Bool.true_and, Bool.not_true, if_neg Bool.false_ne_true]
      push_cast
      split
      · omega
      · rfl
  | case4 c text hlow ih =>
    rw [List.cons_append, utf16StringLength_other hlow, ih, charCount_other hlow]
    push_cast
    split
    · omega
    · rfl

theorem charCount_le (text : List UInt16) : charCount text ≤ text.length := by
  fun_induction charCount text with
  | case1 => exact Nat.le_refl 0
  | case2 => exact Nat.le_refl 1
  | case3 c hhigh low text ih =>
    simp only [List.length_cons]
    omega
  | case4 c text hlow ih =>
    rw [List.length_cons]
    omega

/-- A pair makes the count smaller, but not before the count has got to it. -/
theorem charCount_spec (text : List UInt16) :
    charCount text = text.length ∨
      ∃ j c, j < charCount text ∧ text[j]? = some c ∧ isHigh c = true := by
  cases text with
  | nil => exact .inl rfl
  | cons c text =>
    by_cases hhigh : isHigh c = true
    · exact .inr ⟨0, c, charCount_high hhigh text, rfl, hhigh⟩
    · rw [charCount_other hhigh]
      rcases charCount_spec text with hlen | ⟨j, d, hj, hd, hhigh'⟩
      · left
        rw [hlen, List.length_cons]
      · exact .inr ⟨j + 1, d, Nat.succ_lt_succ hj, hd, hhigh'⟩

theorem pcslStringLength_ofText (text : List UInt16) :
    pcslStringLength (.ofText text) = if highsPaired text then (charCount text : Int) else -2 := by
  show utf16StringLength ((text ++ [0]).take (text.length + 1)) 0 - 1 = _
  rw [List.take_of_length_le (by rw [List.length_append, List.length_singleton]),
    utf16StringLength_text]
  split
  · omega
  · rfl

/-- Without high surrogates every unit is a character. -/
theorem paired_of_no_high {text : List UInt16} (h : ∀ c ∈ text, isHigh c = false) :
    highsPaired text = true ∧ charCount text = text.length := by
  induction text with
  | nil => exact ⟨rfl, rfl⟩
  | cons c text ih =>
    obtain ⟨hpaired, hcount⟩ := ih fun d hd => h d (List.mem_cons_of_mem c hd)
    have hc : ¬ isHigh c = true := by
      rw [h c List.mem_cons_self]
      exact Bool.false_ne_true
    rw [highsPaired_other hc, charCount_other hc, hcount, List.length_cons]
    exact ⟨hpaired, rfl⟩

theorem not_high_of_digit {c : UInt16} (h : c.toNat ≤ 57) : isHigh c = false := by
  rw [isHigh, decide_eq_false_iff_not]
  omega

/-! ## Parsing a text -/

/-- The index of the first digit. -/
def signLength (c : UInt16) : Nat := if c.toNat = 45 ∨ c.toNat = 43 then 1 else 0

/-- What is made of the number that the loop computed. -/
def finish (isNegative : Prop) [Decidable isNegative] (value : Int) : Except Status Int → Status × Int
  | .error status => (status, value)
  | .ok retVal =>
    if isNegative then (.ok, i64 (-retVal))
    else if retVal = MIN_LONG then (.overflow, value)
    else (.ok, retVal)

/-- A text that is not empty: the loop runs over the characters behind the sign. -/
theorem convertToJlong_cons (c : UInt16) (text : List UInt16) (value : Int)
    {x : Except Status Int} (hparse : parseDigits (c :: text ++ [0])
      (pcslStringLength (.ofText (c :: text)) - signLength c).toNat (signLength c) 0 = .ok x)
    (hlength : pcslStringLength (.ofText (c :: text)) ≠ 0) :
    convertToJlong (.ofText (c :: text)) value = .ok (finish (c.toNat = 45) value x) := by
  show (if pcslStringLength (.ofText (c :: text)) = 0 then _ else do
    let c ← unitAt (c :: text ++ [0]) 0
    _) = _
  rw [if_neg hlength, show unitAt (c :: text ++ [0]) 0 = .ok c from rfl, ok_bind]
  show (parseDigits (c :: text ++ [0])
    (pcslStringLength (.ofText (c :: text)) - signLength c).toNat (signLength c) 0 >>= _) = _
  rw [hparse, ok_bind]
  cases x with
  | error status => rfl
  | ok retVal =>
    unfold finish
    dsimp only
    split
    · rfl
    · split
      · rfl
      · rfl

theorem head_iff (c : UInt16) (text : List UInt16) :
    (c :: text).head? = some 45 ↔ c.toNat = 45 := by
  rw [List.head?_cons, Option.some.injEq]
  constructor
  · rintro rfl
    rfl
  · intro h
    exact UInt16.toNat_inj.1 h

theorem le_of_digitPart {c : UInt16} {text : List UInt16} (hds : IsDigits (digitPart (c :: text))) :
    ∀ d ∈ c :: text, d.toNat ≤ 57 := by
  intro d hd
  by_cases hsign : c.toNat = 45 ∨ c.toNat = 43
  · rw [show digitPart (c :: text) = text from if_pos hsign] at hds
    rcases List.mem_cons.1 hd with rfl | hd
    · omega
    · exact (hds d hd).2
  · rw [show digitPart (c :: text) = c :: text from if_neg hsign] at hds
    exact (hds d hd).2

/-- A text of an optional sign and digits. -/
theorem convertToJlong_digits {text : List UInt16} (hne : digitPart text ≠ [])
    (hds : IsDigits (digitPart text)) (value : Int) :
    convertToJlong (.ofText text) value = .ok (
      if text.head? = some 45 then
        if total 0 (digitPart text) ≤ 9223372036854775808 then
          (.ok, -(total 0 (digitPart text) : Int))
        else (.overflow, value)
      else if total 0 (digitPart text) < 9223372036854775808 then
        (.ok, (total 0 (digitPart text) : Int))
      else (.overflow, value)) := by
  cases text with
  | nil => exact absurd rfl hne
  | cons c text =>
    have hplain : ∀ d ∈ c :: text, isHigh d = false := by
      intro d hd
      exact not_high_of_digit (le_of_digitPart hds d hd)
    obtain ⟨hpaired, hcount⟩ := paired_of_no_high hplain
    have hlength : pcslStringLength (.ofText (c :: text)) = ((c :: text).length : Int) := by
      rw [pcslStringLength_ofText, if_pos hpaired, hcount]
    have hparse : parseDigits (c :: text ++ [0])
        (pcslStringLength (.ofText (c :: text)) - signLength c).toNat (signLength c) 0 =
        .ok (if total 0 (digitPart (c :: text)) < 9223372036854775808 then
            .ok (total 0 (digitPart (c :: text)) : Int)
          else if total 0 (digitPart (c :: text)) = 9223372036854775808 then .ok MIN_LONG
          else .error .overflow) := by
      rw [hlength]
      by_cases hsign : c.toNat = 45 ∨ c.toNat = 43
      · have hpart : digitPart (c :: text) = text := if_pos hsign
        rw [hpart] at hds ⊢
        rw [signLength, if_pos hsign, List.length_cons,
          show ((text.length + 1 : Nat) - (1 : Nat) : Int).toNat = text.length by lia]
        exact @parseDigits_digits [c] text [0] hds 0 (by decide)
      · have hpart : digitPart (c :: text) = c :: text := if_neg hsign
        rw [hpart] at hds ⊢
        rw [signLength, if_neg hsign,
          show (((c :: text).length : Nat) - (0 : Nat) : Int).toNat = (c :: text).length by omega]
        exact @parseDigits_digits [] (c :: text) [0] hds 0 (by decide)
    rw [convertToJlong_cons c text value hparse (by rw [hlength, List.length_cons]; omega)]
    generalize total 0 (digitPart (c :: text)) = v
    simp only [head_iff]
    congr 1
    by_cases hneg : c.toNat = 45
    · rw [if_pos hneg]
      by_cases hlt : v < 9223372036854775808
      · rw [if_pos hlt, if_pos (by omega), finish, if_pos hneg, i64_of_range (by omega)]
      · rw [if_neg hlt]
        by_cases hmin : v = 9223372036854775808
        · subst hmin
          rw [if_pos rfl, if_pos (Nat.le_refl _), finish, if_pos hneg]
          rfl
        · rw [if_neg hmin, if_neg (by lia)]
          rfl
    · rw [if_neg hneg]
      by_cases hlt : v < 9223372036854775808
      · rw [if_pos hlt, if_pos hlt, finish, if_neg hneg, if_neg (by unfold MIN_LONG; omega)]
      · rw [if_neg hlt, if_neg hlt]
        by_cases hmin : v = 9223372036854775808
        · rw [if_pos hmin, finish, if_neg hneg, if_pos rfl]
        · rw [if_neg hmin]
          rfl

/-- A text that is UTF-16 and no number: something between the sign and the end is no digit. -/
theorem convertToJlong_other {c : UInt16} {text : List UInt16}
    (hpaired : highsPaired (c :: text) = true) (hds : ¬ IsDigits (digitPart (c :: text)))
    (value : Int) :
    ∃ status, convertToJlong (.ofText (c :: text)) value = .ok (status, value) ∧ status ≠ .ok := by
  have hlength : pcslStringLength (.ofText (c :: text)) = (charCount (c :: text) : Int) := by
    rw [pcslStringLength_ofText, if_pos hpaired]
  have hle := charCount_le (c :: text)
  have hsl : signLength c ≤ 1 := by
    unfold signLength
    split
    · exact Nat.le_refl 1
    · exact Nat.zero_le 1
  have hpos : 0 < charCount (c :: text) := by
    by_cases hhigh : isHigh c = true
    · exact charCount_high hhigh text
    · rw [charCount_other hhigh]
      exact Nat.succ_pos _
  obtain ⟨x, hx, herr, hok⟩ := @parseDigits_ok (c :: text ++ [0])
    (charCount (c :: text) - signLength c) (signLength c) 0 (by
      rw [List.length_append, List.length_singleton]
      omega)
  -- a unit that the loop gets to and that is no digit
  have hbad : ∃ j d, signLength c ≤ j ∧ j < charCount (c :: text) ∧
      (c :: text ++ [0])[j]? = some d ∧ ¬ (48 ≤ d.toNat ∧ d.toNat ≤ 57) := by
    rcases charCount_spec (c :: text) with hcount | ⟨j, d, hj, hd, hhigh⟩
    · obtain ⟨d, hd, hno⟩ : ∃ d ∈ digitPart (c :: text), ¬ (48 ≤ d.toNat ∧ d.toNat ≤ 57) := by
        unfold IsDigits at hds
        push Not at hds
        obtain ⟨d, hd, hno⟩ := hds
        exact ⟨d, hd, fun h => absurd (hno h.1) (by omega)⟩
      obtain ⟨j, hj⟩ := List.mem_iff_getElem?.1 hd
      have hjlt := (List.getElem?_eq_some_iff.1 hj).1
      by_cases hsign : c.toNat = 45 ∨ c.toNat = 43
      · rw [digitPart, if_pos hsign] at hj hjlt
        refine ⟨j + 1, d, ?_, ?_, ?_, hno⟩
        · rw [signLength, if_pos hsign]
          omega
        · rw [hcount, List.length_cons]
          omega
        · rw [List.cons_append, List.getElem?_cons_succ, List.getElem?_append_left hjlt]
          exact hj
      · rw [digitPart, if_neg hsign] at hj hjlt
        refine ⟨j, d, ?_, ?_, ?_, hno⟩
        · rw [signLength, if_neg hsign]
          exact Nat.zero_le j
        · rw [hcount]
          exact hjlt
        · rw [List.getElem?_append_left hjlt]
          exact hj
    · have hdhigh : 0xd800 ≤ d.toNat ∧ d.toNat ≤ 0xdbff := of_decide_eq_true hhigh
      refine ⟨j, d, ?_, hj, ?_, by omega⟩
      · cases j with
        | zero =>
          cases hd
          rw [signLength, if_neg (by omega)]
        | succ j => omega
      · rw [List.getElem?_append_left (by omega)]
        exact hd
  obtain ⟨j, d, hj, hjlt, hd, hno⟩ := hbad
  have hparse : parseDigits (c :: text ++ [0])
      (pcslStringLength (.ofText (c :: text)) - signLength c).toNat (signLength c) 0 = .ok x := by
    rw [hlength, ← hx]
    congr 1
    omega
  have hrun := convertToJlong_cons c text value hparse (by rw [hlength]; omega)
  cases x with
  | error status => exact ⟨status, hrun, herr status rfl⟩
  | ok v => exact absurd (hok v rfl j d hj (by omega) hd) hno

/-- A text of a sign alone. -/
theorem convertToJlong_sign {c : UInt16} (hsign : c.toNat = 45 ∨ c.toNat = 43) (value : Int) :
    convertToJlong (.ofText [c]) value = .ok (.ok, 0) := by
  have hlength : pcslStringLength (.ofText [c]) = 1 := by
    obtain ⟨hpaired, hcount⟩ := @paired_of_no_high [c] (by
      intro d hd
      obtain rfl := List.mem_singleton.1 hd
      exact not_high_of_digit (by omega))
    rw [pcslStringLength_ofText, if_pos hpaired, hcount]
    rfl
  have hrun := @convertToJlong_cons c [] value (.ok 0) (by
    rw [hlength, signLength, if_pos hsign]
    rfl) (by rw [hlength]; decide)
  rw [hrun]
  unfold finish
  dsimp only
  split
  · rfl
  · rw [if_neg (by decide)]

/-- A text that is no UTF-16. -/
theorem convertToJlong_unpaired {text : List UInt16} (hpaired : ¬ highsPaired text = true)
    (value : Int) : convertToJlong (.ofText text) value = .ok (.ok, 0) := by
  cases text with
  | nil => exact absurd rfl hpaired
  | cons c text =>
    have hlength : pcslStringLength (.ofText (c :: text)) = -2 := by
      rw [pcslStringLength_ofText, if_neg hpaired]
    have hrun := @convertToJlong_cons c text value (.ok 0) (by
      rw [hlength, show ((-2 : Int) - (signLength c : Nat)).toNat = 0 by omega]
      rfl) (by rw [hlength]; decide)
    rw [hrun]
    unfold finish
    dsimp only
    split
    · rfl
    · rw [if_neg (by decide)]

/-! ## The grammar -/

/-- Any string: the null string, or one with a text. -/
def PcslString.ofText? : Option (List UInt16) → PcslString
  | none => PCSL_STRING_NULL
  | some text => .ofText text

/-- The text is there and denotes the 64-bit integer `v`. -/
def IsNumber (text : Option (List UInt16)) (v : Int) : Prop :=
  ∃ t, text = some t ∧ Denotes t v ∧ InRange v

/-- Parsing succeeds for the texts of 64-bit integers only, with the integer they denote, and leaves
`*value` alone otherwise. -/
def ParsesExactly (text : Option (List UInt16)) : Prop :=
  ∀ value, ∃ status value', convertToJlong (.ofText? text) value = .ok (status, value') ∧
    (status = .ok ↔ ∃ v, IsNumber text v) ∧ (∀ v, IsNumber text v → value' = v) ∧
      ((¬ ∃ v, IsNumber text v) → value' = value)

/-- No number, no success, nothing written. -/
theorem parsesExactly_of_failure {text : Option (List UInt16)} (hno : ∀ v, ¬ IsNumber text v)
    (hrun : ∀ value, ∃ status, convertToJlong (.ofText? text) value = .ok (status, value) ∧
      status ≠ .ok) : ParsesExactly text := by
  intro value
  obtain ⟨status, hst, hne⟩ := hrun value
  refine ⟨status, value, hst, ⟨fun h => absurd h hne, ?_⟩, fun v hv => absurd hv (hno v),
    fun _ => rfl⟩
  rintro ⟨v, hv⟩
  exact absurd hv (hno v)

theorem parsesExactly_digits {text : List UInt16} (hne : digitPart text ≠ [])
    (hds : IsDigits (digitPart text)) : ParsesExactly (some text) := by
  intro value
  have hrun := convertToJlong_digits hne hds value
  obtain ⟨v, hv⟩ : ∃ v : Int, v = if text.head? = some 45 then
      -(total 0 (digitPart text) : Int) else total 0 (digitPart text) := ⟨_, rfl⟩
  have hdenotes : ∀ w, IsNumber (some text) w ↔ w = v ∧ InRange v := by
    intro w
    constructor
    · rintro ⟨t, ht, hw, hrange⟩
      obtain rfl := Option.some.inj ht
      obtain rfl : w = v := hw.value.trans hv.symm
      exact ⟨rfl, hrange⟩
    · rintro ⟨rfl, hrange⟩
      exact ⟨text, rfl, ⟨hne, hds, hv⟩, hrange⟩
  -- the text denotes a number, and it is in range exactly when the loop and the sign accept it
  have hresult : convertToJlong (.ofText text) value =
      .ok (if InRange v then (.ok, v) else (.overflow, value)) := by
    rw [hrun]
    generalize total 0 (digitPart text) = n at hv ⊢
    by_cases hneg : text.head? = some 45
    · rw [if_pos hneg] at hv ⊢
      subst hv
      by_cases hle : n ≤ 9223372036854775808
      · rw [if_pos hle, if_pos (by unfold InRange; omega)]
      · rw [if_neg hle, if_neg (by unfold InRange; omega)]
    · rw [if_neg hneg] at hv ⊢
      subst hv
      by_cases hlt : n < 9223372036854775808
      · rw [if_pos hlt, if_pos (by unfold InRange; omega)]
      · rw [if_neg hlt, if_neg (by unfold InRange; omega)]
  by_cases hrange : InRange v
  · rw [if_pos hrange] at hresult
    refine ⟨.ok, v, hresult, ⟨fun _ => ⟨v, (hdenotes v).2 ⟨rfl, hrange⟩⟩, fun _ => rfl⟩, ?_, ?_⟩
    · intro w hw
      exact ((hdenotes w).1 hw).1.symm
    · intro hno
      exact absurd ⟨v, (hdenotes v).2 ⟨rfl, hrange⟩⟩ hno
  · rw [if_neg hrange] at hresult
    refine ⟨.overflow, value, hresult, ⟨nofun, ?_⟩, ?_, fun _ => rfl⟩
    · rintro ⟨w, hw⟩
      exact absurd ((hdenotes w).1 hw).2 hrange
    · intro w hw
      exact absurd ((hdenotes w).1 hw).2 hrange

theorem parsesExactly_null : ParsesExactly none := by
  apply parsesExactly_of_failure
  · rintro v ⟨t, ht, -⟩
    cases ht
  · intro value
    exact ⟨.einval, rfl, nofun⟩

/-- UTF-16 that is no sign alone. -/
theorem parsesExactly_text {text : List UInt16} (hpaired : highsPaired text = true)
    (hplus : text ≠ [43]) (hminus : text ≠ [45]) : ParsesExactly (some text) := by
  by_cases hds : digitPart text ≠ [] ∧ IsDigits (digitPart text)
  · exact parsesExactly_digits hds.1 hds.2
  · have hno : ∀ v, ¬ IsNumber (some text) v := by
      rintro v ⟨t, ht, hv, -⟩
      obtain rfl := Option.some.inj ht
      exact hds ⟨hv.ne_nil, hv.digits⟩
    apply parsesExactly_of_failure hno
    intro value
    cases text with
    | nil => exact ⟨.einval, rfl, nofun⟩
    | cons c text =>
      refine convertToJlong_other hpaired (fun hd => hds ⟨?_, hd⟩) value
      -- nothing behind the sign: the text is the sign
      intro hnil
      by_cases hsign : c.toNat = 45 ∨ c.toNat = 43
      · rw [digitPart, if_pos hsign] at hnil
        subst hnil
        rcases hsign with hsign | hsign
        · exact hminus (congrArg (· :: []) (UInt16.toNat_inj.1 hsign))
        · exact hplus (congrArg (· :: []) (UInt16.toNat_inj.1 hsign))
      · rw [digitPart, if_neg hsign] at hnil
        cases hnil

/-- Success with no number. -/
theorem not_parsesExactly {text : List UInt16}
    (hrun : ∀ value, convertToJlong (.ofText text) value = .ok (.ok, 0))
    (hno : ∀ v, ¬ Denotes text v) : ¬ ParsesExactly (some text) := by
  intro h
  obtain ⟨status, value', hres, hiff, -⟩ := h 0
  have heq : (Status.ok, (0 : Int)) = (status, value') := Except.ok.inj ((hrun 0).symm.trans hres)
  obtain ⟨v, t, ht, hv, -⟩ := hiff.1 (Prod.mk.inj heq).1.symm
  obtain rfl := Option.some.inj ht
  exact hno v hv

theorem not_parsesExactly_sign {c : UInt16} (hsign : c.toNat = 45 ∨ c.toNat = 43) :
    ¬ ParsesExactly (some [c]) := by
  apply not_parsesExactly (convertToJlong_sign hsign)
  intro v hv
  exact hv.ne_nil (if_pos hsign)

theorem not_parsesExactly_unpaired {text : List UInt16} (hpaired : ¬ highsPaired text = true) :
    ¬ ParsesExactly (some text) := by
  apply not_parsesExactly (convertToJlong_unpaired hpaired)
  intro v hv
  apply hpaired
  have hplain := hv.digits
  cases text with
  | nil => rfl
  | cons c text =>
    refine (paired_of_no_high fun d hd => not_high_of_digit ?_).1
    exact le_of_digitPart hplain d hd

end FroggyKVM.Pcsl
