/-
# FroggyKVM.Pcsl.RoundTrip — numbers printed and parsed again.

The digits are stored from the end of the buffer, so that each store extends the text to the left.
The zero behind it and at most 19 digits fit; **the sign of a negative number of 19 digits goes to
the cell in front of the buffer**, except for the least one, whose text is a constant.
-/
import FroggyKVM.Pcsl.Numbers

namespace FroggyKVM.Pcsl

/-- ASCII bytes as UTF-16 units. -/
def asUnits (bs : List UInt8) : List UInt16 := bs.map UInt8.toUInt16

/-! ## Decimal digits -/

theorem unsigned_small {n : Nat} (h : n < 10) : unsigned n = [UInt8.ofNat (48 + n)] := by
  unfold unsigned
  split
  case isTrue h0 =>
    subst h0
    rfl
  case isFalse h0 =>
    rw [Nat.digits_of_lt 10 n h0 h]
    rfl

theorem unsigned_step {n : Nat} (h : 10 ≤ n) :
    unsigned n = unsigned (n / 10) ++ [UInt8.ofNat (48 + n % 10)] := by
  unfold unsigned
  rw [if_neg (by omega), if_neg (by omega), Nat.digits_def' (by decide) (by omega),
    List.reverse_cons, List.map_append]
  rfl

theorem asUnits_step {n : Nat} (h : 10 ≤ n) : asUnits (unsigned n) =
    asUnits (unsigned (n / 10)) ++ [(UInt8.ofNat (48 + n % 10)).toUInt16] := by
  rw [unsigned_step h]
  exact List.map_append

theorem unsigned_length_le {n k : Nat} (h : n < 10 ^ (k + 1)) : (unsigned n).length ≤ k + 1 := by
  unfold unsigned
  split
  · exact Nat.succ_le_succ (Nat.zero_le k)
  · rw [List.length_map, List.length_reverse]
    exact (Nat.digits_length_le_iff (by decide) n).2 h

theorem lt_unsigned_length {n k : Nat} (h : 10 ^ k ≤ n) : k < (unsigned n).length := by
  unfold unsigned
  have hpos : 0 < n := Nat.lt_of_lt_of_le (Nat.pow_pos (by decide)) h
  rw [if_neg (by omega), List.length_map, List.length_reverse]
  exact (Nat.lt_digits_length_iff (by decide) n).2 h

theorem asUnits_range {n : Nat} : IsDigits (asUnits (unsigned n)) := by
  intro c hc
  obtain ⟨b, hb, rfl⟩ := List.mem_map.1 hc
  have hrange := unsigned_range hb
  rw [UInt8.toNat_toUInt16]
  omega

theorem unit_digit {k : Nat} (h : k < 10) : (UInt8.ofNat (48 + k)).toUInt16.toNat = 48 + k := by
  rw [UInt8.toNat_toUInt16, UInt8.toNat_ofNat_of_lt' (by simp only [UInt8.size]; omega)]

/-- The digits of a number denote it. -/
theorem total_unsigned (n : Nat) : total 0 (asUnits (unsigned n)) = n := by
  induction n using Nat.strongRecOn with
  | ind n ih =>
    by_cases hlt : n < 10
    · rw [unsigned_small hlt]
      show 0 * 10 + ((UInt8.ofNat (48 + n)).toUInt16.toNat - 48) = n
      rw [unit_digit hlt]
      omega
    · have hmod : n % 10 < 10 := Nat.mod_lt n (by decide)
      have hrest := ih (n / 10) (by omega)
      rw [asUnits_step (by omega), total_concat, hrest, unit_digit hmod]
      omega

/-! ## Printing -/

theorem putAt_ok {b : Buffer UInt16} {i : Nat} (h : i < b.length) (x : UInt16) :
    putAt b i x = .ok (b.fill i [x]) := by
  unfold putAt
  rw [if_pos (by omega), Int.toNat_natCast]
  exact Buffer.set_eq_fill h x

theorem digit_eq {k : Nat} (h : k < 10) : DIGIT k = (UInt8.ofNat (48 + k)).toUInt16 := by
  revert h
  revert k
  decide

/-- **The loop stores the digits in front of each other.** -/
theorem putDigits_ok {fuel i n : Nat} {buf : Buffer UInt16} (hfuel : (unsigned n).length ≤ fuel)
    (hfits : i + (unsigned n).length ≤ buf.length) :
    putDigits fuel ((i + (unsigned n).length : Nat) - 1 : Int) n buf =
      .ok (i, buf.fill i (asUnits (unsigned n))) := by
  induction fuel generalizing n buf with
  | zero =>
    by_cases hlt : n < 10
    · rw [unsigned_small hlt] at hfuel
      exact absurd hfuel (Nat.not_succ_le_zero 0)
    · rw [unsigned_step (by omega), List.length_append, List.length_singleton] at hfuel
      omega
  | succ fuel ih =>
    unfold putDigits RADIX
    by_cases hlt : n < 10
    · rw [unsigned_small hlt, List.length_singleton] at hfits ⊢
      rw [if_neg (by omega), show ((i + 1 : Nat) - 1 : Int) = i by omega,
        putAt_ok (by omega), digit_eq hlt]
      rfl
    · have hstep := unsigned_step (show 10 ≤ n by omega)
      have hlength : (unsigned n).length = (unsigned (n / 10)).length + 1 := by
        rw [hstep, List.length_append, List.length_singleton]
      have hmod : n % 10 < 10 := Nat.mod_lt n (by decide)
      have hpos : ((i + (unsigned n).length : Nat) - 1 : Int) =
          ((i + (unsigned (n / 10)).length : Nat) : Int) := by omega
      have htmod : (n : Int).tmod 10 = ((n % 10 : Nat) : Int) := (Int.ofNat_tmod n 10).symm
      have htdiv : (n : Int).tdiv 10 = ((n / 10 : Nat) : Int) := (Int.ofNat_tdiv n 10).symm
      have hrest := @ih (n / 10)
        (buf.fill (i + (unsigned (n / 10)).length) [(UInt8.ofNat (48 + n % 10)).toUInt16])
        (by omega) (by rw [Buffer.fill_length]; omega)
      have hbefore := buf.fill_before i (asUnits (unsigned (n / 10)))
        [(UInt8.ofNat (48 + n % 10)).toUInt16]
      rw [asUnits, List.length_map, ← asUnits, ← asUnits_step (by omega)] at hbefore
      rw [if_pos (by omega), hpos, htmod, htdiv, putAt_ok (by omega), digit_eq hmod, ok_bind,
        hrest, hbefore]

/-- The string with the decimal representation. -/
def decimalString (v : Int) : PcslString := .ofText (asUnits (decimal v))

/-- The zero and the digits in front of it. -/
theorem putDigits_zero {n : Nat} (raw : Nat → UInt16) (h : (unsigned n).length ≤ 19) :
    (do
      let buf ← putAt { length := TEXT_BUF_FOR_LONG_SIZE, data := raw }
        ((TEXT_BUF_FOR_LONG_SIZE : Int) - 1) 0
      putDigits TEXT_BUF_FOR_LONG_SIZE ((TEXT_BUF_FOR_LONG_SIZE : Int) - 1 - 1) n buf) =
      .ok (((19 - (unsigned n).length : Nat) : Int),
        ({ length := TEXT_BUF_FOR_LONG_SIZE, data := raw } : Buffer UInt16).fill
          (19 - (unsigned n).length) (asUnits (unsigned n) ++ [0])) := by
  obtain ⟨i, hi⟩ : ∃ i, i + (unsigned n).length = 19 := ⟨19 - (unsigned n).length, by omega⟩
  have hsub : 19 - (unsigned n).length = i := by omega
  have hzero := @putAt_ok { length := TEXT_BUF_FOR_LONG_SIZE, data := raw } 19 (Nat.lt_succ_self 19) 0
  have hdigits := @putDigits_ok TEXT_BUF_FOR_LONG_SIZE i n
    (({ length := TEXT_BUF_FOR_LONG_SIZE, data := raw } : Buffer UInt16).fill 19 [0])
    (Nat.le_succ_of_le h) (by rw [hi]; exact Nat.le_succ 19)
  have hbefore := ({ length := TEXT_BUF_FOR_LONG_SIZE, data := raw } : Buffer UInt16).fill_before i
    (asUnits (unsigned n)) [0]
  rw [asUnits, List.length_map, hi, ← asUnits] at hbefore
  rw [hi, hbefore] at hdigits
  rw [hsub, ← hdigits]
  show (putAt _ ((19 : Nat) : Int) 0 >>= _) = _
  rw [hzero, ok_bind]
  rfl

/-- Copying what has been stored. -/
theorem copy_text (allocated : Bool) (raw : Nat → UInt16) (str : PcslString) {i : Nat}
    {text : List UInt16} (h : i + text.length = 19) :
    (if allocated then do
        let data ← (({ length := TEXT_BUF_FOR_LONG_SIZE, data := raw } : Buffer UInt16).fill i
          (text ++ [0])).slice (i : Int).toNat (TEXT_BUF_FOR_LONG_SIZE - (i : Int).toNat)
        return (.ok, ⟨some data, TEXT_BUF_FOR_LONG_SIZE - (i : Int).toNat⟩)
      else return (.enomem, str) : Except MemFault (Status × PcslString)) =
      .ok (if allocated then (.ok, .ofText text) else (.enomem, str)) := by
  have hlength : TEXT_BUF_FOR_LONG_SIZE - (i : Int).toNat = (text ++ [0]).length := by
    rw [List.length_append, List.length_singleton, Int.toNat_natCast]
    unfold TEXT_BUF_FOR_LONG_SIZE
    omega
  have hslice := @Buffer.slice_fill _ { length := TEXT_BUF_FOR_LONG_SIZE, data := raw } i
    (text ++ [0]) (by
      rw [List.length_append, List.length_singleton, ← Nat.add_assoc, h]
      exact Nat.le_refl 20)
  rw [hlength, Int.toNat_natCast, hslice, ok_bind]
  cases allocated with
  | false => rfl
  | true =>
    rw [List.length_append]
    rfl

/-- A number whose digits and sign fit in front of the zero. -/
theorem convertFromJlong_ok {v : Int} (hmin : v ≠ MIN_LONG)
    (hfits : (decimal v).length < TEXT_BUF_FOR_LONG_SIZE) (allocated : Bool) (raw : Nat → UInt16)
    (str : PcslString) :
    convertFromJlong allocated raw v str =
      .ok (if allocated then (.ok, decimalString v) else (.enomem, str)) := by
  have habs : (if v < 0 then -v else v) = (v.natAbs : Int) := by
    split
    · omega
    · omega
  unfold TEXT_BUF_FOR_LONG_SIZE at hfits
  unfold convertFromJlong
  dsimp only
  rw [if_neg (fun h => hmin h.2), habs, ← bind_assoc]
  by_cases hneg : v < 0
  · have htext : decimal v = 45 :: unsigned v.natAbs := if_pos hneg
    rw [htext, List.length_cons] at hfits
    obtain ⟨i, hi⟩ : ∃ i, i + 1 = 19 - (unsigned v.natAbs).length :=
      ⟨19 - (unsigned v.natAbs).length - 1, by lia⟩
    have hsign := ({ length := TEXT_BUF_FOR_LONG_SIZE, data := raw } : Buffer UInt16).fill_before i
      [45] (asUnits (unsigned v.natAbs) ++ [0])
    have hput := @putAt_ok (({ length := TEXT_BUF_FOR_LONG_SIZE, data := raw } : Buffer UInt16).fill
      (i + 1) (asUnits (unsigned v.natAbs) ++ [0])) i (by
        rw [Buffer.fill_length]
        show i < 20
        omega) 45
    rw [List.length_singleton] at hsign
    rw [putDigits_zero raw (by omega), ok_bind, ← hi, if_pos hneg,
      show ((i + 1 : Nat) : Int) - 1 = (i : Int) by omega]
    dsimp only
    rw [hput, ok_bind, hsign]
    have hcopy := @copy_text allocated raw str i (asUnits (decimal v)) (by
      rw [asUnits, List.length_map, htext, List.length_cons]
      omega)
    rw [htext] at hcopy
    rw [decimalString, htext]
    exact hcopy
  · have htext : decimal v = unsigned v.natAbs := if_neg hneg
    rw [htext] at hfits
    rw [putDigits_zero raw (by omega), ok_bind, if_neg hneg, decimalString, htext]
    exact @copy_text allocated raw str _ (asUnits (unsigned v.natAbs)) (by
      rw [asUnits, List.length_map]
      omega)

/-- A negative number of 19 digits: the sign does not fit. -/
theorem convertFromJlong_long {v : Int} (hmin : v ≠ MIN_LONG) (hneg : v < 0)
    (hlong : (unsigned v.natAbs).length = 19) (allocated : Bool) (raw : Nat → UInt16)
    (str : PcslString) : convertFromJlong allocated raw v str = .error .outOfRange := by
  have habs : (if v < 0 then -v else v) = (v.natAbs : Int) := by
    rw [if_pos hneg]
    omega
  unfold convertFromJlong
  dsimp only
  rw [if_neg (fun h => hmin h.2), habs, ← bind_assoc, putDigits_zero raw (Nat.le_of_eq hlong),
    ok_bind, if_pos hneg, hlong]
  rfl

/-- The least number has a constant for its text. -/
theorem convertFromJlong_min (allocated : Bool) (raw : Nat → UInt16) (str : PcslString) :
    convertFromJlong allocated raw MIN_LONG str = .ok (.ok, decimalString MIN_LONG) := by
  have htext : decimalString MIN_LONG = PCSL_STRING_MIN_JLONG := by decide +kernel
  unfold convertFromJlong
  dsimp only
  rw [if_pos ⟨by decide, rfl⟩, htext]

/-! ## Parsing what has been printed -/

theorem digitPart_unsigned (n : Nat) :
    digitPart (asUnits (unsigned n)) = asUnits (unsigned n) ∧
      (asUnits (unsigned n)).head? ≠ some 45 := by
  have hrange := @asUnits_range n
  cases hunits : asUnits (unsigned n) with
  | nil => exact ⟨rfl, nofun⟩
  | cons c text =>
    have hc := hrange c (by rw [hunits]; exact List.mem_cons_self)
    constructor
    · rw [digitPart, if_neg (by omega)]
    · rw [ne_eq, head_iff]
      omega

theorem asUnits_ne_nil (n : Nat) : asUnits (unsigned n) ≠ [] := by
  intro h
  have hlength := congrArg List.length h
  rw [asUnits, List.length_map] at hlength
  unfold unsigned at hlength
  split at hlength
  · cases hlength
  case isFalse h0 =>
    rw [List.length_map, List.length_reverse] at hlength
    exact h0 (Nat.digits_eq_nil_iff_eq_zero.1 (List.length_eq_zero_iff.1 hlength))

/-- **Every 64-bit integer is parsed back from its decimal representation.** -/
theorem convertToJlong_decimal {v : Int} (h : InRange v) (value : Int) :
    convertToJlong (decimalString v) value = .ok (.ok, v) := by
  obtain ⟨hlow, hhigh⟩ := h
  unfold decimalString
  by_cases hneg : v < 0
  · have htext : asUnits (decimal v) = 45 :: asUnits (unsigned v.natAbs) := by
      rw [decimal, if_pos hneg]
      rfl
    have hpart : digitPart (45 :: asUnits (unsigned v.natAbs)) = asUnits (unsigned v.natAbs) := by
      rw [digitPart, if_pos (.inl rfl)]
    rw [htext, convertToJlong_digits (by rw [hpart]; exact asUnits_ne_nil _)
        (by rw [hpart]; exact asUnits_range),
      hpart, total_unsigned, if_pos (List.head?_cons ..), if_pos (by omega)]
    congr 2
    omega
  · obtain ⟨hpart, hhead⟩ := digitPart_unsigned v.natAbs
    have htext : asUnits (decimal v) = asUnits (unsigned v.natAbs) := by
      rw [decimal, if_neg hneg]
    rw [htext, convertToJlong_digits (by rw [hpart]; exact asUnits_ne_nil _)
        (by rw [hpart]; exact asUnits_range),
      hpart, total_unsigned, if_neg hhead, if_pos (by omega)]
    congr 2
    omega

/-! ## The round trip -/

/-- `v` is printed inside the buffer as its decimal representation, and parsed back from it. -/
def RoundTrips (v : Int) : Prop :=
  ∀ allocated raw str value,
    convertFromJlong allocated raw v str =
      .ok (if allocated = true ∨ v = MIN_LONG then (.ok, decimalString v) else (.enomem, str)) ∧
    convertToJlong (decimalString v) value = .ok (.ok, v)

/-- The same for the variants for 32-bit integers. -/
def RoundTripsInt (v : Int) : Prop :=
  ∀ allocated raw str value,
    convertFromJint allocated raw v str =
      .ok (if allocated = true then (.ok, decimalString v) else (.enomem, str)) ∧
    convertToJint (decimalString v) value = .ok (.ok, v)

/-- `v` makes the round trip, and also through the variants for 32-bit integers when it is one. -/
structure DecimalRoundTrip (v : Int) : Prop where
  long : RoundTrips v
  int : -2147483648 ≤ v → v < 2147483648 → RoundTripsInt v

theorem decimal_length_lt {v : Int} (h : InRange v) (hlong : -1000000000000000000 < v) :
    (decimal v).length < TEXT_BUF_FOR_LONG_SIZE := by
  obtain ⟨-, hhigh⟩ := h
  unfold decimal TEXT_BUF_FOR_LONG_SIZE
  split
  · have hle := @unsigned_length_le v.natAbs 17 (by omega)
    rw [List.length_cons]
    omega
  · have hle := @unsigned_length_le v.natAbs 18 (by omega)
    omega

theorem roundTrips_of_fits {v : Int} (h : InRange v) (hlong : -1000000000000000000 < v) :
    RoundTrips v := by
  intro allocated raw str value
  have hmin : v ≠ MIN_LONG := by
    unfold MIN_LONG
    omega
  refine ⟨?_, convertToJlong_decimal h value⟩
  rw [convertFromJlong_ok hmin (decimal_length_lt h hlong) allocated raw str]
  simp only [hmin, or_false]

theorem roundTripsInt {v : Int} (hlow : -2147483648 ≤ v) (hhigh : v < 2147483648) :
    RoundTripsInt v := by
  intro allocated raw str value
  have hrange : InRange v := by
    unfold InRange
    omega
  constructor
  · exact convertFromJlong_ok (by unfold MIN_LONG; omega) (decimal_length_lt hrange (by omega))
      allocated raw str
  · unfold convertToJint
    rw [convertToJlong_decimal hrange, ok_bind]
    dsimp only
    rw [if_pos rfl, i32_of_range (by omega), if_pos rfl]
    rfl

/-- The sign of a number of 19 digits is written outside. -/
theorem not_roundTrips_long {v : Int} (hmin : MIN_LONG < v) (hlong : v ≤ -1000000000000000000) :
    ¬ RoundTrips v := by
  intro h
  unfold MIN_LONG at hmin
  have hlength : (unsigned v.natAbs).length = 19 := by
    have hle := @unsigned_length_le v.natAbs 18 (by omega)
    have hlt := @lt_unsigned_length v.natAbs 18 (by omega)
    omega
  have hfail := convertFromJlong_long (by unfold MIN_LONG; omega) (by omega) hlength true
    (fun _ => 0) PCSL_STRING_NULL
  have hok := (h true (fun _ => 0) PCSL_STRING_NULL 0).1
  rw [hfail] at hok
  cases hok

/-- `-9223372036854775807` is written outside the buffer. -/
theorem not_decimalRoundTrip_min : ¬ DecimalRoundTrip (-9223372036854775807) := fun h =>
  not_roundTrips_long (by decide) (by decide) h.long

/-- **Which 64-bit integers make the round trip**: all but those that have 19 digits and a sign,
the least one excepted. -/
theorem decimalRoundTrip_iff {v : Int} (h : InRange v) :
    DecimalRoundTrip v ↔ ¬ (MIN_LONG < v ∧ v ≤ -1000000000000000000) := by
  constructor
  · rintro hrt ⟨hmin, hlong⟩
    exact not_roundTrips_long hmin hlong hrt.long
  · intro hno
    refine ⟨?_, fun hlow hhigh => roundTripsInt hlow hhigh⟩
    by_cases hmin : v = MIN_LONG
    · subst hmin
      intro allocated raw str value
      refine ⟨?_, convertToJlong_decimal h value⟩
      rw [convertFromJlong_min, if_pos (.inr rfl)]
    · have hlow := h.1
      unfold MIN_LONG at hmin hno
      exact roundTrips_of_fits h (by omega)

theorem decimalRoundTrip_iff_max :
    InRange 9223372036854775807 ∧ (DecimalRoundTrip 9223372036854775807 ↔
      ¬ (MIN_LONG < 9223372036854775807 ∧ (9223372036854775807 : Int) ≤ -1000000000000000000)) :=
  ⟨by decide, decimalRoundTrip_iff (by decide)⟩

end FroggyKVM.Pcsl
