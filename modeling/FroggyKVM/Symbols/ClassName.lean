/-
# FroggyKVM.Symbols.ClassName — which names of classes the VM takes for valid.

`Symbol::is_valid_class_name` (`handles/Symbol.cpp`) first asks `is_class_identifier_quick`, for names
in ASCII, and then `skip_class_identifier` (`handles/Signature.cpp`), which reads UTF-8.  **The slow
way takes exactly the identifiers separated by `/`; the quick way also takes the empty name and names
with a `/` behind the last identifier.**

A position in a symbol is the list of the bytes from there on.
-/
import Mathlib

namespace FroggyKVM.Symbols

/-! ## Characters -/

/-- `letter_digit_table`: 2 for a digit, 1 for a letter, 0 for the others. -/
def letterDigitTable (c : Nat) : Nat :=
  if 48 ≤ c ∧ c ≤ 57 then 2
  else if 65 ≤ c ∧ c ≤ 90 ∨ 97 ≤ c ∧ c ≤ 122 ∨ c = 36 ∨ c = 95 then 1
  else 0

/-- `is_letter_or_digit`: everything that is not ASCII counts as a letter. -/
def isLetterOrDigit (ch : Nat) : Bool := 127 < ch || letterDigitTable ch != 0

def isLetter (ch : Nat) : Bool := 127 < ch || letterDigitTable ch == 1

/-- `UTF8Stream::get_next_jchar_slow`, for the lead byte `ch1` in front of `rest`. -/
def getNextJcharSlow (ch1 : UInt8) (rest : List UInt8) : Option (Nat × List UInt8) :=
  match ch1.toNat / 16, rest with
  | 12, ch2 :: rest | 13, ch2 :: rest =>
    if ch2.toNat / 64 = 2 then some ((ch1.toNat % 32) * 64 + ch2.toNat % 64, rest) else none
  | 14, ch2 :: ch3 :: rest =>
    if ch2.toNat / 64 = 2 then
      if ch3.toNat / 64 = 2 then
        some (((ch1.toNat % 16) * 64 + ch2.toNat % 64) * 64 + ch3.toNat % 64, rest)
      else some ((ch1.toNat % 16) * 64 + ch2.toNat % 64, ch3 :: rest)
    else none
  | _, _ => none

/-- `get_next_jchar_from_utf8`; `none` is `UTF8_ERROR`. -/
def getNextJchar : List UInt8 → Option (Nat × List UInt8)
  | [] => none
  | ch1 :: rest =>
    if ch1 = 0 then none
    else if 128 ≤ ch1.toNat then getNextJcharSlow ch1 rest
    else some (ch1.toNat, rest)

theorem getNextJchar_shorter {bs rest : List UInt8} {ch : Nat}
    (h : getNextJchar bs = some (ch, rest)) : rest.length < bs.length := by
  unfold getNextJchar getNextJcharSlow at h
  split at h
  · cases h
  · split_ifs at h
    · split at h <;> (try split_ifs at h) <;> (try cases h) <;> (simp only [List.length_cons]; omega)
    · cases h
      exact Nat.lt_succ_self _

/-- A byte that sends `skip_simple_identifier` to the slow path. -/
def suspicious (ch : UInt8) : Bool := 127 < ch.toNat || ch == 0

theorem getNextJchar_plain {ch : UInt8} (h : suspicious ch = false) (rest : List UInt8) :
    getNextJchar (ch :: rest) = some (ch.toNat, rest) := by
  simp only [suspicious, Bool.or_eq_false_iff, decide_eq_false_iff_not, beq_eq_false_iff_ne] at h
  rw [getNextJchar, if_neg h.2, if_neg (by omega)]

/-! ## Identifiers -/

/-- The loop of the slow path. -/
def slowTail (bs : List UInt8) : List UInt8 :=
  match _h : getNextJchar bs with
  | none => bs
  | some (ch, rest) => if isLetterOrDigit ch then slowTail rest else bs
termination_by bs.length
decreasing_by exact getNextJchar_shorter _h

/-- The slow path of `skip_simple_identifier`. -/
def slowPath (bs : List UInt8) : Option (List UInt8) :=
  match getNextJchar bs with
  | none => none
  | some (ch, rest) => if isLetter ch then some (slowTail rest) else none

/-- The second loop, over the bytes after the first letter of `bs`. -/
def fastTail (bs : List UInt8) : List UInt8 → Option (List UInt8)
  | [] => some []
  | ch :: rest =>
    if suspicious ch then slowPath bs
    else if letterDigitTable ch.toNat = 0 then some (ch :: rest)
    else fastTail bs rest

/-- `Signature::skip_simple_identifier`: where an identifier at `bs` ends.  Any suspicious byte from
the start of the symbol on leads to the slow path. -/
def skipSimpleIdentifier (signature bs : List UInt8) : Option (List UInt8) :=
  if (signature.take (signature.length - bs.length)).any suspicious then slowPath bs
  else
    match bs with
    | [] => none
    | ch :: rest =>
      if suspicious ch then slowPath bs
      else if letterDigitTable ch.toNat ≠ 1 then none
      else fastTail bs rest

theorem slowTail_none {bs : List UInt8} (h : getNextJchar bs = none) : slowTail bs = bs := by
  unfold slowTail
  split
  · rfl
  · rename_i h'
    cases h.symm.trans h'

theorem slowTail_some {bs rest : List UInt8} {ch : Nat} (h : getNextJchar bs = some (ch, rest)) :
    slowTail bs = if isLetterOrDigit ch then slowTail rest else bs := by
  rw [slowTail]
  split
  · rename_i h'
    cases h.symm.trans h'
  · rename_i h'
    cases h.symm.trans h'
    rfl

theorem slowTail_shorter (bs : List UInt8) : (slowTail bs).length ≤ bs.length := by
  induction bs using slowTail.induct with
  | case1 bs h => exact Nat.le_of_eq (congrArg List.length (slowTail_none h))
  | case2 bs ch rest h hch ih =>
    have := getNextJchar_shorter h
    rw [slowTail_some h, if_pos hch]
    omega
  | case3 bs ch rest h hch =>
    exact Nat.le_of_eq (congrArg List.length ((slowTail_some h).trans (if_neg hch)))

theorem fastTail_eq {bs rest : List UInt8} (h : slowPath bs = some (slowTail rest)) :
    fastTail bs rest = slowPath bs := by
  induction rest with
  | nil => rw [h, fastTail, slowTail_none rfl]
  | cons ch rest ih =>
    rw [fastTail]
    split_ifs with hs ht
    · rfl
    all_goals
      have hs : suspicious ch = false := by simpa using hs
      have hle : ch.toNat ≤ 127 := by
        simp only [suspicious, Bool.or_eq_false_iff, decide_eq_false_iff_not] at hs
        omega
      have hch := slowTail_some (getNextJchar_plain hs rest)
    · rw [h, hch, if_neg (by simp [isLetterOrDigit, ht]; omega)]
    · refine ih ?_
      rw [h, hch, if_pos (by simp [isLetterOrDigit, ht])]

/-- **The fast path only saves time.** -/
theorem skipSimpleIdentifier_eq (signature bs : List UInt8) :
    skipSimpleIdentifier signature bs = slowPath bs := by
  unfold skipSimpleIdentifier
  split_ifs with hany
  · rfl
  · cases bs with
    | nil => rfl
    | cons ch rest =>
      dsimp only
      split_ifs with hs ht
      · rfl
      all_goals
        have hs : suspicious ch = false := by simpa using hs
        have hle : ch.toNat ≤ 127 := by
          simp only [suspicious, Bool.or_eq_false_iff, decide_eq_false_iff_not] at hs
          omega
        have hslow : slowPath (ch :: rest) =
            if isLetter ch.toNat then some (slowTail rest) else none := by
          rw [slowPath, getNextJchar_plain hs]
      · rw [hslow, if_neg (by simp [isLetter, ht]; omega)]
      · refine fastTail_eq ?_
        rw [hslow, if_pos (by simp only [not_not] at ht; simp [isLetter, ht])]

/-! ## Names -/

theorem slowPath_shorter {bs rest : List UInt8} (h : slowPath bs = some rest) :
    rest.length < bs.length := by
  unfold slowPath at h
  split at h
  · cases h
  · rename_i ch r hch
    split_ifs at h
    cases h
    exact Nat.lt_of_le_of_lt (slowTail_shorter r) (getNextJchar_shorter hch)

/-- `Signature::skip_class_identifier`. -/
def skipClassIdentifier (signature bs : List UInt8) : Option (List UInt8) :=
  match _h : skipSimpleIdentifier signature bs with
  | none => none
  | some [] => some []
  | some (c :: rest) => if c ≠ 47 then some (c :: rest) else skipClassIdentifier signature rest
termination_by bs.length
decreasing_by
  rw [skipSimpleIdentifier_eq] at _h
  exact Nat.lt_trans (Nat.lt_succ_self _) (slowPath_shorter _h)

/-- `Signature::is_class_identifier_quick`; `first` says that the next byte starts an identifier. -/
def quickIdentifier (first : Bool) : List UInt8 → Bool
  | [] => true
  | ch :: rest =>
    if 127 < ch.toNat then false
    else if first then letterDigitTable ch.toNat == 1 && quickIdentifier false rest
    else if letterDigitTable ch.toNat ≠ 0 then quickIdentifier false rest
    else ch == 47 && quickIdentifier true rest

def isClassIdentifierQuick (signature : List UInt8) : Bool := quickIdentifier true signature

/-- `Symbol::is_valid_class_name`; `isTypeSymbol` tells whether the symbol with these bytes is a field
type already, of an array or of one byte. -/
def isValidClassName (isTypeSymbol : List UInt8 → Bool) (name : List UInt8) : Bool :=
  isClassIdentifierQuick name || isTypeSymbol name || skipClassIdentifier name name == some []

/-! ## What a class name is -/

/-- From `bs` on the symbol reads as the characters `cs`, up to `rest`. -/
inductive Reads : List UInt8 → List Nat → List UInt8 → Prop
  | nil (bs : List UInt8) : Reads bs [] bs
  | cons {bs bs' rest : List UInt8} {ch : Nat} {cs : List Nat} :
    getNextJchar bs = some (ch, bs') → Reads bs' cs rest → Reads bs (ch :: cs) rest

/-- A letter, then letters and digits. -/
inductive Identifier : List Nat → Prop
  | mk {ch : Nat} {ds : List Nat} : isLetter ch = true → (∀ d ∈ ds, isLetterOrDigit d = true) →
    Identifier (ch :: ds)

/-- The name of a class in a descriptor: identifiers separated by `/`. -/
inductive ClassName : List UInt8 → Prop
  | one {bs : List UInt8} {cs : List Nat} : Reads bs cs [] → Identifier cs → ClassName bs
  | more {bs rest : List UInt8} {cs : List Nat} : Reads bs cs (47 :: rest) → Identifier cs →
    ClassName rest → ClassName bs

/-- No letter or digit follows. -/
def Stops (bs : List UInt8) : Prop :=
  ∀ ch rest, getNextJchar bs = some (ch, rest) → isLetterOrDigit ch = false

theorem stops_nil : Stops [] := nofun

theorem stops_slash (rest : List UInt8) : Stops (47 :: rest) := by
  intro ch bs h
  rw [getNextJchar_plain (by decide)] at h
  cases h
  decide

theorem slowTail_reads (bs : List UInt8) : ∃ ds, Reads bs ds (slowTail bs) ∧
    (∀ d ∈ ds, isLetterOrDigit d = true) ∧ Stops (slowTail bs) := by
  induction bs using slowTail.induct with
  | case1 bs h =>
    rw [slowTail_none h]
    exact ⟨[], .nil bs, by simp, fun ch rest h' => by cases h.symm.trans h'⟩
  | case2 bs ch rest h hch ih =>
    obtain ⟨ds, hds, hall, hstop⟩ := ih
    rw [slowTail_some h, if_pos hch]
    exact ⟨ch :: ds, .cons h hds, by simpa using ⟨hch, hall⟩, hstop⟩
  | case3 bs ch rest h hch =>
    rw [slowTail_some h, if_neg hch]
    refine ⟨[], .nil bs, by simp, fun ch' rest' h' => ?_⟩
    cases h.symm.trans h'
    simpa using hch

theorem slowTail_eq {bs rest : List UInt8} {ds : List Nat} (h : Reads bs ds rest)
    (hall : ∀ d ∈ ds, isLetterOrDigit d = true) (hstop : Stops rest) : slowTail bs = rest := by
  induction h with
  | nil bs =>
    cases hn : getNextJchar bs with
    | none => exact slowTail_none hn
    | some p => rw [slowTail_some hn, if_neg (by simp [hstop _ _ hn])]
  | cons hn _ ih =>
    rw [slowTail_some hn, if_pos (hall _ (by simp))]
    exact ih (fun d hd => hall d (by simp [hd])) hstop

theorem slowPath_eq_some {bs rest : List UInt8} :
    slowPath bs = some rest ↔ ∃ cs, Reads bs cs rest ∧ Identifier cs ∧ Stops rest := by
  constructor
  · intro h
    unfold slowPath at h
    split at h
    · cases h
    · rename_i ch r hch
      split_ifs at h with hl
      cases h
      obtain ⟨ds, hds, hall, hstop⟩ := slowTail_reads r
      exact ⟨ch :: ds, .cons hch hds, .mk hl hall, hstop⟩
  · rintro ⟨_, hreads, ⟨hl, hall⟩, hstop⟩
    obtain - | ⟨hch, hds⟩ := hreads
    rw [slowPath, hch]
    dsimp only
    rw [if_pos hl, slowTail_eq hds hall hstop]

theorem skipClassIdentifier_eq (signature bs : List UInt8) : skipClassIdentifier signature bs =
    match slowPath bs with
    | some (c :: rest) => if c ≠ 47 then some (c :: rest) else skipClassIdentifier signature rest
    | end' => end' := by
  rw [skipClassIdentifier]
  split <;> rename_i h <;> rw [skipSimpleIdentifier_eq] at h <;> rw [h]

/-- **The slow way takes exactly the class names.** -/
theorem skipClassIdentifier_iff {signature bs : List UInt8} :
    skipClassIdentifier signature bs = some [] ↔ ClassName bs := by
  constructor
  · intro h
    induction bs using skipClassIdentifier.induct signature with
    | case1 bs hskip =>
      rw [skipSimpleIdentifier_eq] at hskip
      rw [skipClassIdentifier_eq, hskip] at h
      cases h
    | case2 bs hskip =>
      rw [skipSimpleIdentifier_eq] at hskip
      obtain ⟨cs, hcs, hid, _⟩ := slowPath_eq_some.mp hskip
      exact .one hcs hid
    | case3 bs c rest hskip hc =>
      rw [skipSimpleIdentifier_eq] at hskip
      rw [skipClassIdentifier_eq, hskip] at h
      dsimp only at h
      rw [if_pos hc] at h
      cases h
    | case4 bs c rest hskip hc ih =>
      rw [skipSimpleIdentifier_eq] at hskip
      rw [skipClassIdentifier_eq, hskip] at h
      dsimp only at h
      rw [if_neg hc] at h
      obtain rfl := not_not.mp hc
      obtain ⟨cs, hcs, hid, _⟩ := slowPath_eq_some.mp hskip
      exact .more hcs hid (ih h)
  · intro h
    induction h with
    | one hreads hid =>
      rw [skipClassIdentifier_eq, slowPath_eq_some.mpr ⟨_, hreads, hid, stops_nil⟩]
    | more hreads hid _ ih =>
      rw [skipClassIdentifier_eq, slowPath_eq_some.mpr ⟨_, hreads, hid, stops_slash _⟩]
      exact ih

/-! ## The quick way -/

/-- All bytes are ASCII. -/
def Ascii (name : List UInt8) : Prop := ∀ c ∈ name, c.toNat ≤ 127

theorem letterDigit_plain {c : UInt8} (hascii : c.toNat ≤ 127) (h : letterDigitTable c.toNat ≠ 0) :
    suspicious c = false := by
  have hne : c ≠ 0 := by
    rintro rfl
    exact h rfl
  simpa [suspicious, hne] using hascii

/-- In ASCII, the letters and digits at `bs` are bytes. -/
theorem Reads.ascii {bs rest : List UInt8} {cs : List Nat} (h : Reads bs cs rest) (hb : Ascii bs) :
    ∃ l, bs = l ++ rest ∧ cs = l.map UInt8.toNat := by
  induction h with
  | nil bs => exact ⟨[], rfl, rfl⟩
  | @cons bs bs' rest ch cs hn _ ih =>
    match bs, hn with
    | c :: bs, hn =>
      rw [getNextJchar] at hn
      have hc : ¬ 128 ≤ c.toNat := by
        have := hb c (by simp)
        omega
      rw [if_neg hc] at hn
      split_ifs at hn
      cases hn
      obtain ⟨l, hl, hcs⟩ := ih fun x hx => hb x (by simp [hx])
      exact ⟨c :: l, by rw [hl]; rfl, by rw [hcs]; rfl⟩

/-- A run of letters and digits takes the quick way to what is behind it. -/
theorem quickIdentifier_append {l rest : List UInt8} (hl : Ascii l)
    (hall : ∀ c ∈ l, letterDigitTable c.toNat ≠ 0) :
    quickIdentifier false (l ++ rest) = quickIdentifier false rest := by
  induction l with
  | nil => rfl
  | cons c l ih =>
    rw [List.cons_append, quickIdentifier, if_neg (by have := hl c (by simp); omega),
      if_neg (by simp), if_pos (hall c (by simp))]
    exact ih (fun x hx => hl x (by simp [hx])) fun x hx => hall x (by simp [hx])

/-- An identifier in ASCII takes the quick way. -/
theorem quickIdentifier_identifier {l rest : List UInt8} (hl : Ascii l)
    (hid : Identifier (l.map UInt8.toNat)) :
    quickIdentifier true (l ++ rest) = quickIdentifier false rest := by
  cases l with
  | nil => cases hid
  | cons c l =>
    obtain ⟨hletter, hall⟩ := hid
    have hc := hl c (by simp)
    have htable : ∀ x ∈ l, letterDigitTable x.toNat ≠ 0 := by
      intro x hx
      have h := hall x.toNat (List.mem_map_of_mem hx)
      have := hl x (by simp [hx])
      simpa [isLetterOrDigit, show ¬ 127 < x.toNat by omega] using h
    have hletter : letterDigitTable c.toNat = 1 := by
      simpa [isLetter, show ¬ 127 < c.toNat by omega] using hletter
    rw [List.cons_append, quickIdentifier, if_neg (by omega), if_pos rfl, hletter,
      quickIdentifier_append (fun x hx => hl x (by simp [hx])) htable]
    rfl

theorem quickIdentifier_slash (rest : List UInt8) :
    quickIdentifier false (47 :: rest) = quickIdentifier true rest := by
  simp [quickIdentifier, letterDigitTable]

theorem ClassName.quick {name : List UInt8} (h : ClassName name) (hascii : Ascii name) :
    quickIdentifier true name = true ∧ quickIdentifier true (name ++ [47]) = true := by
  induction h with
  | one hreads hid =>
    obtain ⟨l, rfl, rfl⟩ := hreads.ascii hascii
    have hl : Ascii l := fun c hc => hascii c (by simp [hc])
    rw [List.append_nil]
    exact ⟨by simpa [quickIdentifier] using @quickIdentifier_identifier l [] hl hid,
      by rw [quickIdentifier_identifier hl hid, quickIdentifier_slash]; rfl⟩
  | more hreads hid _ ih =>
    obtain ⟨l, rfl, rfl⟩ := hreads.ascii hascii
    have hl : Ascii l := fun c hc => hascii c (by simp [hc])
    obtain ⟨h, h'⟩ := ih fun c hc => hascii c (by simp [hc])
    rw [List.append_assoc, quickIdentifier_identifier hl hid, quickIdentifier_identifier hl hid,
      List.cons_append, quickIdentifier_slash, quickIdentifier_slash]
    exact ⟨h, h'⟩

theorem reads_letters {l : List UInt8} (hl : Ascii l)
    (hall : ∀ c ∈ l, letterDigitTable c.toNat ≠ 0) (rest : List UInt8) :
    Reads (l ++ rest) (l.map UInt8.toNat) rest := by
  induction l with
  | nil => exact .nil rest
  | cons c l ih =>
    exact .cons (getNextJchar_plain (letterDigit_plain (hl c (by simp)) (hall c (by simp))) _)
      (ih (fun x hx => hl x (by simp [hx])) fun x hx => hall x (by simp [hx]))

/-- What can stand behind an identifier that the quick way takes. -/
def QuickRest (rest : List UInt8) : Prop :=
  rest = [] ∨ ∃ rest', rest = 47 :: rest' ∧
    (rest' = [] ∨ ClassName rest' ∨ ∃ m, rest' = m ++ [47] ∧ ClassName m)

/-- An identifier and what can stand behind it. -/
theorem QuickRest.name {c : UInt8} {l rest : List UInt8} (hl : Ascii (c :: l))
    (hc : letterDigitTable c.toNat = 1) (hall : ∀ x ∈ l, letterDigitTable x.toNat ≠ 0)
    (h : QuickRest rest) :
    ClassName (c :: l ++ rest) ∨ ∃ m, c :: l ++ rest = m ++ [47] ∧ ClassName m := by
  have hid : Identifier ((c :: l).map UInt8.toNat) := by
    refine .mk (by simp [isLetter, hc]) fun d hd => ?_
    obtain ⟨x, hx, rfl⟩ := List.mem_map.mp hd
    simp [isLetterOrDigit, hall x hx]
  have hreads := reads_letters hl
    (fun x hx => by rcases List.mem_cons.mp hx with rfl | hx; exacts [by simp [hc], hall x hx])
  obtain rfl | ⟨rest', rfl, rfl | hrest | ⟨m, rfl, hm⟩⟩ := h
  · exact .inl (.one (hreads []) hid)
  · exact .inr ⟨c :: l, rfl, .one (by simpa using hreads []) hid⟩
  · exact .inl (.more (hreads _) hid hrest)
  · exact .inr ⟨c :: l ++ 47 :: m, by simp, .more (hreads _) hid hm⟩

/-- What the quick way takes, at the start of an identifier and within one. -/
theorem quickIdentifier_cases (name : List UInt8) :
    (quickIdentifier true name = true → Ascii name ∧
      (name = [] ∨ ClassName name ∨ ∃ m, name = m ++ [47] ∧ ClassName m)) ∧
    (quickIdentifier false name = true → Ascii name ∧ ∃ l rest, name = l ++ rest ∧
      (∀ c ∈ l, letterDigitTable c.toNat ≠ 0) ∧ QuickRest rest) := by
  induction name with
  | nil => exact ⟨fun _ => ⟨by simp [Ascii], .inl rfl⟩,
      fun _ => ⟨by simp [Ascii], [], [], rfl, by simp, .inl rfl⟩⟩
  | cons c name ih =>
    have hcons : ¬ 127 < c.toNat → Ascii name → Ascii (c :: name) := by
      intro hc hname x hx
      rcases List.mem_cons.mp hx with rfl | hx
      exacts [by omega, hname x hx]
    constructor
    · intro h
      simp only [quickIdentifier, if_true] at h
      split_ifs at h with hc
      rw [Bool.and_eq_true, beq_iff_eq] at h
      obtain ⟨hname, l, rest, rfl, hall, hrest⟩ := ih.2 h.2
      have hl : Ascii (c :: l) := by
        intro x hx
        exact hcons hc hname x (by simp at hx ⊢; tauto)
      exact ⟨hcons hc hname, .inr (hrest.name hl h.1 hall)⟩
    · intro h
      simp only [quickIdentifier, Bool.false_eq_true, if_false] at h
      split_ifs at h with hc ht
      · obtain ⟨hname, l, rest, rfl, hall, hrest⟩ := ih.2 h
        refine ⟨hcons hc hname, c :: l, rest, rfl, fun x hx => ?_, hrest⟩
        rcases List.mem_cons.mp hx with rfl | hx
        exacts [ht, hall x hx]
      · rw [Bool.and_eq_true, beq_iff_eq] at h
        obtain ⟨rfl, h⟩ := h
        obtain ⟨hname, hrest⟩ := ih.1 h
        exact ⟨hcons hc hname, [], _, rfl, by simp, .inr ⟨name, rfl, hrest⟩⟩

/-- A name that is taken for valid but is none: the empty name, an ASCII name with a `/` at its end, or
the bytes of an array type that is known already. -/
def FalseName (isTypeSymbol : List UInt8 → Bool) (name : List UInt8) : Prop :=
  ¬ ClassName name ∧ (name = [] ∨ (∃ m, name = m ++ [47] ∧ Ascii m ∧ ClassName m) ∨
    isTypeSymbol name = true)

/-- **Which names are taken for valid.** -/
theorem isValidClassName_iff {isTypeSymbol : List UInt8 → Bool} {name : List UInt8} :
    isValidClassName isTypeSymbol name = true ↔ ClassName name ∨ FalseName isTypeSymbol name := by
  rw [isValidClassName, Bool.or_eq_true, Bool.or_eq_true, beq_iff_eq, skipClassIdentifier_iff]
  constructor
  · rintro ((hquick | htype) | hname)
    · obtain ⟨hascii, rfl | hname | ⟨m, rfl, hm⟩⟩ := (quickIdentifier_cases name).1 hquick
      · by_cases hname : ClassName []
        exacts [.inl hname, .inr ⟨hname, .inl rfl⟩]
      · exact .inl hname
      · by_cases hname : ClassName (m ++ [47])
        exacts [.inl hname,
          .inr ⟨hname, .inr (.inl ⟨m, rfl, fun c hc => hascii c (by simp [hc]), hm⟩)⟩]
    · by_cases hname : ClassName name
      exacts [.inl hname, .inr ⟨hname, .inr (.inr htype)⟩]
    · exact .inl hname
  · rintro (hname | ⟨_, rfl | ⟨m, rfl, hascii, hm⟩ | htype⟩)
    · exact .inr hname
    · exact .inl (.inl rfl)
    · exact .inl (.inl (hm.quick hascii).2)
    · exact .inl (.inr htype)

end FroggyKVM.Symbols
