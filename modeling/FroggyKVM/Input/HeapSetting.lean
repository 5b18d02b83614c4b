/-
# FroggyKVM.Input.HeapSetting — the heap size in a keymap file (`platform_gb300/input.c`).

`parse_keymap_file` reads a number and the character behind it with `sscanf`, multiplies by the unit
in a `long` of 32 bits and takes the product if it lies between 2 and 56 megabytes.  A number of at
most 64 without a unit counts megabytes.  **A setting whose product is a `long` is taken for exactly
that product**, and the last one in range decides.
-/
import FroggyKVM.Lib.MachineInt
import FroggyKVM.Lib.Text
import FroggyKVM.Zip.ReadEntry

namespace FroggyKVM.Input

open Zip (sameIgnoringCase)

/-! ## Reading the file -/

/-- `isspace`. -/
def isSpace (c : UInt8) : Bool := c == 32 || (9 ≤ c && c ≤ 13)

/-- `isdigit`. -/
def isDigit (c : UInt8) : Bool := 48 ≤ c && c ≤ 57

/-- `trim_str`. -/
def trimStr (s : List UInt8) : List UInt8 := (s.dropWhile isSpace).rdropWhile isSpace

/-- What `fgets(line, 256, fp)` reads in turn, with the beginning of a line already read. -/
def fgetsLines : (line file : List UInt8) → List (List UInt8)
  | line, [] => if line = [] then [] else [line]
  | line, c :: file =>
    if c = 10 ∨ line.length + 1 = 255 then (line ++ [c]) :: fgetsLines [] file
    else fgetsLines (line ++ [c]) file

/-- `key_name` of a line that sets the heap size; all other lines leave it alone. -/
def heapSetting (line : List UInt8) : Option (List UInt8) :=
  let p := (cString line).dropWhile isSpace
  -- a comment or an empty line
  if p = [] ∨ p.head? = some 35 ∨ p.head? = some 59 then none
  else
    match p.dropWhile (· ≠ 61) with
    | [] => none
    | _ :: value =>
      let btnName := trimStr (p.takeWhile (· ≠ 61))
      if sameIgnoringCase btnName (ascii "heap") || sameIgnoringCase btnName (ascii "heap_size") then
        some (trimStr value)
      else none

/-! ## Reading the size -/

/-- A number as a `long`; one that is too large becomes the largest, as `strtol` does it. -/
def toLong (x : Int) : Int := max (-2147483648) (min 2147483647 x)

/-- The digits of `%ld`, behind the sign. -/
def scanDigits (sign : Int) (s : List UInt8) : Option (Int × List UInt8) :=
  let digits := s.takeWhile isDigit
  if digits = [] then none
  else some (toLong (sign * digitsValue digits), s.dropWhile isDigit)

/-- `%ld`: the value and what is behind it. -/
def scanLong (s : List UInt8) : Option (Int × List UInt8) :=
  match s.dropWhile isSpace with
  | 45 :: s => scanDigits (-1) s
  | 43 :: s => scanDigits 1 s
  | s => scanDigits 1 s

def isMega (unit : UInt8) : Bool := unit == 77 || unit == 109

def isKilo (unit : UInt8) : Bool := unit == 75 || unit == 107

def inRange (val : Int) : Prop := 2 * 1024 * 1024 ≤ val ∧ val ≤ 56 * 1024 * 1024

instance (val : Int) : Decidable (inRange val) := inferInstanceAs (Decidable (_ ∧ _))

/-- `g_custom_heap_size` after a heap setting. -/
def setHeapSize (customHeapSize : Int) (keyName : List UInt8) : Int :=
  match scanLong keyName with
  | none => customHeapSize
  | some (val, rest) =>
    -- `%c` leaves the unit at zero where the text ends
    let unit := rest.headD 0
    let val :=
      if isMega unit then i32 (val * (1024 * 1024))
      else if isKilo unit then i32 (val * 1024)
      else if val ≤ 64 then i32 (val * (1024 * 1024))
      else val
    if inRange val then val else customHeapSize

/-- The heap settings of a file. -/
def heapSettings (file : List UInt8) : List (List UInt8) := (fgetsLines [] file).filterMap heapSetting

/-- `g_custom_heap_size` after `parse_keymap_file`. -/
def parseKeymapFile (customHeapSize : Int) (file : List UInt8) : Int :=
  (heapSettings file).foldl setHeapSize customHeapSize

/-! ## What a setting means -/

/-- A decimal number, with a text behind it that does not go on with a digit. -/
inductive Number : List UInt8 → Int → List UInt8 → Prop
  | bare {digits rest : List UInt8} : digits ≠ [] → (∀ c ∈ digits, isDigit c = true) →
      (∀ c ∈ rest.head?, isDigit c = false) → Number (digits ++ rest) (digitsValue digits) rest
  | plus {digits rest : List UInt8} : digits ≠ [] → (∀ c ∈ digits, isDigit c = true) →
      (∀ c ∈ rest.head?, isDigit c = false) →
      Number (43 :: (digits ++ rest)) (digitsValue digits) rest
  | minus {digits rest : List UInt8} : digits ≠ [] → (∀ c ∈ digits, isDigit c = true) →
      (∀ c ∈ rest.head?, isDigit c = false) →
      Number (45 :: (digits ++ rest)) (-digitsValue digits) rest
  | space {c : UInt8} {text rest : List UInt8} {n : Int} : isSpace c = true → Number text n rest →
      Number (c :: text) n rest

/-- The unit that is written behind a number. -/
def writtenUnit (rest : List UInt8) : Int :=
  if isMega (rest.headD 0) then 1024 * 1024 else if isKilo (rest.headD 0) then 1024 else 1

/-- The unit of a number: a small one without a unit counts megabytes. -/
def unitOf (n : Int) (rest : List UInt8) : Int :=
  if isMega (rest.headD 0) = false ∧ isKilo (rest.headD 0) = false ∧ n ≤ 64 then 1024 * 1024
  else writtenUnit rest

/-- The size that a setting means, if it is one in range. -/
def Means (text : List UInt8) (size : Int) : Prop :=
  ∃ n rest, Number text n rest ∧ size = n * unitOf n rest ∧ inRange size

/-- The number times its unit is a `long`. -/
def IsLong (text : List UInt8) : Prop :=
  ∀ n rest, Number text n rest → -2147483648 ≤ n * unitOf n rest ∧ n * unitOf n rest < 2147483648

/-! ## The scan -/

section Scan
variable {digits rest text : List UInt8} {n : Int}

theorem isSpace_of_isDigit {c : UInt8} (h : isDigit c = true) : isSpace c = false := by
  simp only [isDigit, Bool.and_eq_true, decide_eq_true_eq, UInt8.le_iff_toNat_le] at h
  simp only [isSpace, Bool.or_eq_false_iff, beq_eq_false_iff_ne, Bool.and_eq_false_iff,
    decide_eq_false_iff_not, UInt8.le_iff_toNat_le, ne_eq, ← UInt8.toNat_inj]
  simp only [UInt8.reduceToNat] at *
  omega

/-- Digits, and a text that does not go on with one. -/
theorem span_digits (hdigits : ∀ c ∈ digits, isDigit c = true)
    (hrest : ∀ c ∈ rest.head?, isDigit c = false) :
    (digits ++ rest).takeWhile isDigit = digits ∧ (digits ++ rest).dropWhile isDigit = rest := by
  have hstop : rest.takeWhile isDigit = [] ∧ rest.dropWhile isDigit = rest := by
    cases rest with
    | nil => exact ⟨rfl, rfl⟩
    | cons c rest =>
      have hc : isDigit c = false := hrest c rfl
      exact ⟨List.takeWhile_cons_of_neg (by simp [hc]), List.dropWhile_cons_of_neg (by simp [hc])⟩
  constructor
  · rw [List.takeWhile_append_of_pos hdigits, hstop.1, List.append_nil]
  · rw [List.dropWhile_append_of_pos hdigits, hstop.2]

theorem scanDigits_eq (sign : Int) (hne : digits ≠ []) (hdigits : ∀ c ∈ digits, isDigit c = true)
    (hrest : ∀ c ∈ rest.head?, isDigit c = false) :
    scanDigits sign (digits ++ rest) = some (toLong (sign * digitsValue digits), rest) := by
  obtain ⟨htake, hdrop⟩ := span_digits hdigits hrest
  simp only [scanDigits, htake, hdrop, if_neg hne]

/-- **`%ld` reads a number and stops behind it.** -/
theorem scanLong_of_number (h : Number text n rest) : scanLong text = some (toLong n, rest) := by
  induction h with
  | @bare digits rest hne hdigits hrest =>
    cases digits with
    | nil => exact absurd rfl hne
    | cons d digits =>
      have hd : isDigit d = true := hdigits d (List.mem_cons_self ..)
      have hskip : (d :: digits ++ rest).dropWhile isSpace = d :: digits ++ rest :=
        List.dropWhile_cons_of_neg (by simp [isSpace_of_isDigit hd])
      have hscan := scanDigits_eq 1 hne hdigits hrest
      rw [Int.one_mul] at hscan
      unfold scanLong
      rw [hskip, ← hscan]
      split
      · next h =>
        obtain rfl : d = 45 := (List.cons.inj h).1
        exact absurd hd (by decide)
      · next h =>
        obtain rfl : d = 43 := (List.cons.inj h).1
        exact absurd hd (by decide)
      · rfl
  | plus hne hdigits hrest =>
    have hscan := scanDigits_eq 1 hne hdigits hrest
    rw [Int.one_mul] at hscan
    exact hscan
  | minus hne hdigits hrest =>
    have hscan := scanDigits_eq (-1) hne hdigits hrest
    rw [Int.neg_mul, Int.one_mul] at hscan
    exact hscan
  | space hc _ ih =>
    unfold scanLong at ih ⊢
    rwa [List.dropWhile_cons_of_pos hc]

theorem number_of_scanDigits {s : List UInt8} (hne : s.takeWhile isDigit ≠ []) :
    ∃ digits rest, s = digits ++ rest ∧ digits ≠ [] ∧ (∀ c ∈ digits, isDigit c = true) ∧
      ∀ c ∈ rest.head?, isDigit c = false := by
  refine ⟨s.takeWhile isDigit, s.dropWhile isDigit, List.takeWhile_append_dropWhile.symm, hne,
    fun c hc => List.mem_takeWhile_imp hc, fun c hc => ?_⟩
  simpa using List.head?_dropWhile_not isDigit s |> fun h => by
    rw [Option.mem_def] at hc
    rw [hc] at h
    exact h

/-- A text without a number is not read. -/
theorem scanLong_eq_none (h : ¬ ∃ n rest, Number text n rest) : scanLong text = none := by
  have hspaces : ∀ {spaces s : List UInt8} {n : Int} {rest : List UInt8},
      (∀ c ∈ spaces, isSpace c = true) → Number s n rest → Number (spaces ++ s) n rest := by
    intro spaces s n rest hspaces hs
    induction spaces with
    | nil => exact hs
    | cons c spaces ih =>
      exact .space (hspaces c (List.mem_cons_self ..))
        (ih fun c hc => hspaces c (List.mem_cons_of_mem _ hc))
  have hskipped : ∀ n rest, ¬ Number (text.dropWhile isSpace) n rest := by
    intro n rest hs
    have htext : Number (text.takeWhile isSpace ++ text.dropWhile isSpace) n rest :=
      hspaces (fun c hc => List.mem_takeWhile_imp hc) hs
    rw [List.takeWhile_append_dropWhile] at htext
    exact h ⟨n, rest, htext⟩
  have hnone : ∀ {sign : Int} {s : List UInt8}, s.takeWhile isDigit = [] → scanDigits sign s = none :=
    fun hs => if_pos hs
  unfold scanLong
  split
  · next s hs =>
    apply hnone
    by_contra hne
    obtain ⟨digits, rest, rfl, hd⟩ := number_of_scanDigits hne
    rw [hs] at hskipped
    exact hskipped _ _ (.minus hd.1 hd.2.1 hd.2.2)
  · next s hs =>
    apply hnone
    by_contra hne
    obtain ⟨digits, rest, rfl, hd⟩ := number_of_scanDigits hne
    rw [hs] at hskipped
    exact hskipped _ _ (.plus hd.1 hd.2.1 hd.2.2)
  · apply hnone
    by_contra hne
    obtain ⟨digits, rest, hs, hd⟩ := number_of_scanDigits hne
    rw [hs] at hskipped
    exact hskipped _ _ (.bare hd.1 hd.2.1 hd.2.2)

end Scan

/-! ## Exactness -/

theorem toLong_of_range {x : Int} (h : -2147483648 ≤ x ∧ x < 2147483648) : toLong x = x := by
  unfold toLong
  omega

/-- The product in the code is the number times its unit. -/
theorem setHeapSize_of_number (customHeapSize : Int) {n : Int} {text rest : List UInt8}
    (h : Number text n rest)
    (hlong : -2147483648 ≤ n * unitOf n rest ∧ n * unitOf n rest < 2147483648) :
    setHeapSize customHeapSize text =
      if inRange (n * unitOf n rest) then n * unitOf n rest else customHeapSize := by
  -- the number itself is a `long` too, so that it is read as it is
  have hn : toLong n = n := by
    apply toLong_of_range
    unfold unitOf writtenUnit at hlong
    split_ifs at hlong <;> omega
  unfold setHeapSize
  simp only [scanLong_of_number h, hn]
  unfold unitOf writtenUnit at hlong ⊢
  by_cases hmega : isMega (rest.headD 0) = true
  · simp only [hmega, Bool.true_eq_false, false_and, if_false, if_true] at hlong ⊢
    rw [i32_of_range hlong]
  · rw [Bool.not_eq_true] at hmega
    by_cases hkilo : isKilo (rest.headD 0) = true
    · simp only [hmega, hkilo, Bool.true_eq_false, Bool.false_eq_true, false_and, and_false, if_false,
        if_true] at hlong ⊢
      rw [i32_of_range hlong]
    · rw [Bool.not_eq_true] at hkilo
      by_cases hsmall : n ≤ 64
      · simp only [hmega, hkilo, hsmall, Bool.false_eq_true, and_self, if_false, if_true] at hlong ⊢
        rw [i32_of_range hlong]
      · simp only [hmega, hkilo, hsmall, Bool.false_eq_true, and_false, if_false] at hlong ⊢
        rw [Int.mul_one]

/-- **One setting**: a text that means a size in range sets it, and any other leaves the size alone. -/
theorem setHeapSize_means (customHeapSize : Int) {text : List UInt8} (hlong : IsLong text) :
    Means text (setHeapSize customHeapSize text) ∨
      setHeapSize customHeapSize text = customHeapSize ∧ ∀ size, ¬ Means text size := by
  by_cases hnumber : ∃ n rest, Number text n rest
  · obtain ⟨n, rest, h⟩ := hnumber
    have hset := setHeapSize_of_number customHeapSize h (hlong n rest h)
    by_cases hrange : inRange (n * unitOf n rest)
    · rw [if_pos hrange] at hset
      exact .inl ⟨n, rest, h, hset, hset ▸ hrange⟩
    · rw [if_neg hrange] at hset
      refine .inr ⟨hset, ?_⟩
      rintro size ⟨n', rest', h', rfl, hrange'⟩
      -- a number in range is a `long`, and so is the other one
      have heq := setHeapSize_of_number 0 h (hlong n rest h)
      have heq' := setHeapSize_of_number 0 h' (hlong n' rest' h')
      rw [if_neg hrange] at heq
      rw [if_pos hrange', heq] at heq'
      unfold inRange at hrange'
      omega
  · refine .inr ⟨?_, fun size ⟨n, rest, h, _⟩ => hnumber ⟨n, rest, h⟩⟩
    rw [setHeapSize, scanLong_eq_none hnumber]

/-- **The last setting that means a size in range decides**, in every keymap file in which each
number times its unit is a `long`; without one the size stays as it was. -/
theorem parseKeymapFile_last {customHeapSize : Int} {file : List UInt8}
    (hlong : ∀ text ∈ heapSettings file, IsLong text) :
    (∃ before text after, heapSettings file = before ++ text :: after ∧
      Means text (parseKeymapFile customHeapSize file) ∧ ∀ t ∈ after, ∀ size, ¬ Means t size) ∨
    parseKeymapFile customHeapSize file = customHeapSize ∧
      ∀ text ∈ heapSettings file, ∀ size, ¬ Means text size := by
  unfold parseKeymapFile
  generalize heapSettings file = settings at hlong ⊢
  induction settings using List.reverseRecOn with
  | nil => exact .inr ⟨rfl, fun _ h => absurd h List.not_mem_nil⟩
  | append_singleton settings text ih =>
    have htext : IsLong text := hlong text (List.mem_append_right _ (List.mem_singleton_self text))
    rw [List.foldl_append, List.foldl_cons, List.foldl_nil]
    rcases setHeapSize_means (settings.foldl setHeapSize customHeapSize) htext with hmeans | ⟨hsame, hnone⟩
    · exact .inl ⟨settings, text, [], rfl, hmeans, fun _ h => absurd h List.not_mem_nil⟩
    · rw [hsame]
      rcases ih fun t ht => hlong t (List.mem_append_left _ ht) with
        ⟨before, t, after, hsplit, hmeans, hafter⟩ | ⟨hsize, hall⟩
      · refine .inl ⟨before, t, after ++ [text], ?_, hmeans, ?_⟩
        · rw [hsplit, List.append_assoc, List.cons_append]
        · intro u hu
          rcases List.mem_append.1 hu with hu | hu
          · exact hafter u hu
          · rw [List.mem_singleton.1 hu]
            exact hnone
      · refine .inr ⟨hsize, fun t ht => ?_⟩
        rcases List.mem_append.1 ht with ht | ht
        · exact hall t ht
        · rw [List.mem_singleton.1 ht]
          exact hnone

/-- A file with one setting of four megabytes, and a comment. -/
theorem parseKeymapFile_last_four : (∃ before text after,
      heapSettings (ascii "# heap\nHEAP = 4M\n") = before ++ text :: after ∧
      Means text (parseKeymapFile 0 (ascii "# heap\nHEAP = 4M\n")) ∧
      ∀ t ∈ after, ∀ size, ¬ Means t size) ∨
    parseKeymapFile 0 (ascii "# heap\nHEAP = 4M\n") = 0 ∧
      ∀ text ∈ heapSettings (ascii "# heap\nHEAP = 4M\n"), ∀ size, ¬ Means text size := by
  refine parseKeymapFile_last fun text htext n rest h => ?_
  have hsettings : heapSettings (ascii "# heap\nHEAP = 4M\n") = [ascii "4M"] := by decide +kernel
  rw [hsettings, List.mem_singleton] at htext
  subst htext
  have hscan := scanLong_of_number h
  have hfour : scanLong (ascii "4M") = some (4, ascii "M") := by decide +kernel
  obtain ⟨hn, rfl⟩ := Prod.mk.inj (Option.some.inj (hfour.symm.trans hscan))
  obtain rfl : n = 4 := by
    unfold toLong at hn
    omega
  decide +kernel

/-- `heap = 48` is accepted, and sets more than 48 bytes. -/
theorem heap_48_not_literal :
    ¬ ∀ (text rest : List UInt8) (n : Int), Number text n rest → setHeapSize 0 text ≠ 0 →
      setHeapSize 0 text = n * writtenUnit rest ∧ inRange (n * writtenUnit rest) := by
  intro h
  have hnumber : Number (ascii "48") 48 [] :=
    @Number.bare (ascii "48") [] (by decide +kernel) (by decide +kernel) (by decide +kernel)
  obtain ⟨hsize, -⟩ := h _ _ _ hnumber (by decide +kernel)
  exact absurd hsize (by decide +kernel)

end FroggyKVM.Input
