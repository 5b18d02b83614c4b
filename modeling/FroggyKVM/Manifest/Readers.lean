/-
# FroggyKVM.Manifest.Readers — three readers of a JAR manifest.

`gb300_get_manifest_property` and `parse_midlet1_from_buffer` (`platform_gb300/midlet_meta.c`) look at
one line at a time; `SuiteProperties.load` (`platform_gb300/vm_stubs.c`) puts continuation lines behind
the value they continue.  All three drop blanks in front of a value.  **They give the value of a
header exactly when it stands on one line, without a blank in front, and is among the first 256.**
-/
import FroggyKVM.Lib.Text
import FroggyKVM.Zip.ReadEntry

namespace FroggyKVM.Manifest

open Zip (toLower sameIgnoringCase)

/-! ## The readers -/

def isLineEnd (c : UInt8) : Bool := c == 13 || c == 10

def isBlank (c : UInt8) : Bool := c == 32 || c == 9

/-- The lines that the loops of all three readers go through: those that are not empty. -/
def linesOf (buf : List UInt8) : List (List UInt8) := (buf.splitOnP isLineEnd).filter (· ≠ [])

/-- `gb300_get_manifest_property` on the text of the manifest: at most 255 bytes of the first line
with the key. -/
def getManifestProperty (buf key : List UInt8) : Option (List UInt8) :=
  (linesOf buf).findSome? fun line =>
    if key.length + 1 < line.length ∧ sameIgnoringCase (line.take key.length) key ∧
        (line)[key.length]? = some 58 then
      some (cString (((line.drop (key.length + 1)).dropWhile isBlank).take 255))
    else none

/-- What is behind the first `c` of a string. -/
def strchr (s : List UInt8) (c : UInt8) : Option (List UInt8) :=
  match s.dropWhile (· ≠ c) with
  | [] => none
  | _ :: p => some p

/-- `parse_midlet1_line`: the third of the parts between commas. -/
def parseMidlet1Line (line : List UInt8) : Option (List UInt8) := do
  let p ← strchr (cString line) 58
  let p ← strchr p 44
  let p ← strchr p 44
  let isClass := fun c => c != 32 && c != 9 && c != 13 && c != 10 && c != (44 : UInt8)
  let mainClass := ((p.dropWhile isBlank).takeWhile isClass).take 255
  if 0 < mainClass.length then some mainClass else none

/-- `parse_midlet1_from_buffer`, with a buffer of 512 bytes for a line. -/
def parseMidlet1FromBuffer (buf : List UInt8) : Option (List UInt8) :=
  (linesOf buf).findSome? fun line =>
    if 9 ≤ line.length ∧ sameIgnoringCase (line.take 9) (ascii "MIDlet-1:") then
      parseMidlet1Line (line.take 511)
    else none

/-- A pair of strings in buffers of 128 and 512 bytes. -/
structure PropPair where
  key : List UInt8
  val : List UInt8
  deriving DecidableEq, Repr

/-- A continuation line, if it fits. -/
def appendVal (pair : PropPair) (piece : List UInt8) : PropPair :=
  if pair.val.length + piece.length < 511 then { pair with val := cString (pair.val ++ piece) }
  else pair

/-- A header line; others are skipped. -/
def headerLine (line : List UInt8) : Option PropPair :=
  if 58 ∈ line then
    some { key := cString ((line.takeWhile (· ≠ 58)).take 127)
           val := cString ((((line.dropWhile (· ≠ 58)).drop 1).dropWhile isBlank).take 511) }
  else none

/-- The body of the loop of `load`; the last pair comes first. -/
def loadLine (pairs : List PropPair) (line : List UInt8) : List PropPair :=
  if 256 ≤ pairs.length then pairs
  else
    match pairs with
    | [] => (headerLine line).toList
    | last :: before =>
      if line.head?.any isBlank then appendVal last (line.drop 1) :: before
      else (headerLine line).toList ++ last :: before

/-- `SuiteProperties.load`: the pairs in order. -/
def load (buf : List UInt8) : List PropPair := ((linesOf buf).foldl loadLine []).reverse

/-- `SuiteProperties.loadProperties`, which goes through the list from its end. -/
def loadProperties (list : List PropPair) : List UInt8 → Option (List UInt8) :=
  list.foldr (fun pair properties => Function.update properties pair.key (some pair.val))
    fun _ => none

/-! ## Manifests -/

inductive LineEnd
  | cr
  | lf
  | crlf

def LineEnd.bytes : LineEnd → List UInt8
  | .cr => [13]
  | .lf => [10]
  | .crlf => [13, 10]

/-- Letters, digits, hyphens and underscores. -/
def isNameChar (c : UInt8) : Bool :=
  (48 ≤ c && c ≤ 57) || (65 ≤ c && c ≤ 90) || (97 ≤ c && c ≤ 122) || c == 45 || c == 95

/-- Everything but zeros and line ends. -/
def isValueChar (c : UInt8) : Bool := c != 0 && c != 10 && c != 13

/-- A header: a name, a value on a first line and on continuation lines, of 72 bytes each. -/
structure Header where
  name : List UInt8
  first : List UInt8
  firstEnd : LineEnd
  rest : List (List UInt8 × LineEnd)
  name_ne : name ≠ []
  name_chars : ∀ c ∈ name, isNameChar c = true
  first_chars : ∀ c ∈ first, isValueChar c = true
  rest_chars : ∀ x ∈ rest, ∀ c ∈ x.1, isValueChar c = true
  first_line : name.length + 2 + first.length ≤ 72
  rest_lines : ∀ x ∈ rest, 1 + x.1.length ≤ 72

namespace Header

/-- The value that a header stands for. -/
def value (h : Header) : List UInt8 := h.first ++ (h.rest.map Prod.fst).flatten

def firstLine (h : Header) : List UInt8 := h.name ++ 58 :: 32 :: h.first

def bytes (h : Header) : List UInt8 :=
  h.firstLine ++ (h.firstEnd.bytes ++ h.rest.flatMap fun x => 32 :: (x.1 ++ x.2.bytes))

def lines (h : Header) : List (List UInt8) := h.firstLine :: h.rest.map fun x => 32 :: x.1

end Header

/-- Headers and the empty lines between sections. -/
inductive Item
  | header (h : Header)
  | blank (e : LineEnd)

def Item.bytes : Item → List UInt8
  | .header h => h.bytes
  | .blank e => e.bytes

def Item.lines : Item → List (List UInt8)
  | .header h => h.lines
  | .blank _ => []

/-- The text of a manifest. -/
def textOf (items : List Item) : List UInt8 := items.flatMap Item.bytes

/-- No header has the name. -/
def Lacks (items : List Item) (name : List UInt8) : Prop :=
  ∀ h, .header h ∈ items → sameIgnoringCase h.name name = false

def headersOf (items : List Item) : Nat :=
  (items.filter fun item => match item with | .header _ => true | .blank _ => false).length

/-- The main class in the value of `MIDlet-1`. -/
def mainClassOf (value : List UInt8) : Option (List UInt8) :=
  parseMidlet1Line (ascii "MIDlet-1: " ++ value)

/-- All readers give the value of the header. -/
def Agree (text : List UInt8) (h : Header) : Prop :=
  getManifestProperty text h.name = some h.value ∧
  loadProperties (load text) h.name = some h.value ∧
  (sameIgnoringCase h.name (ascii "MIDlet-1") = true →
    parseMidlet1FromBuffer text = mainClassOf h.value)

/-- The value stands on one line, without a blank in front. -/
def Header.OnOneLine (h : Header) : Prop :=
  (∀ c ∈ h.first.head?, isBlank c = false) ∧ ∀ x ∈ h.rest, x.1 = []

/-! ## Lines -/

/-- **Lines split at a line end**; everything about `linesOf` follows from this. -/
theorem linesOf_append_end {c : UInt8} (hc : isLineEnd c = true) (x y : List UInt8) :
    linesOf (x ++ c :: y) = linesOf x ++ linesOf y := by
  rw [linesOf, List.splitOnP_append_cons x y hc, List.filter_append]
  rfl

theorem linesOf_line {x : List UInt8} (hx : ∀ c ∈ x, isLineEnd c = false) (hne : x ≠ []) :
    linesOf x = [x] := by
  rw [linesOf, List.splitOnP_eq_singleton hx, List.filter_singleton, decide_eq_true hne]
  rfl

theorem linesOf_append_bytes (e : LineEnd) (x y : List UInt8) :
    linesOf (x ++ (e.bytes ++ y)) = linesOf x ++ linesOf y := by
  cases e with
  | cr => exact linesOf_append_end rfl x y
  | lf => exact linesOf_append_end rfl x y
  | crlf =>
    refine (linesOf_append_end (c := 13) rfl x (10 :: y)).trans ?_
    rw [← List.nil_append (10 :: y), linesOf_append_end (c := 10) rfl [] y]
    rfl

theorem isLineEnd_of_value {c : UInt8} (h : isValueChar c = true) : isLineEnd c = false := by
  simp only [isValueChar, isLineEnd, Bool.and_eq_true, bne_iff_ne, Bool.or_eq_false_iff,
    beq_eq_false_iff_ne] at h ⊢
  exact ⟨h.2, h.1.2⟩

/-- What a name character is not. -/
theorem nameChar_ne {c : UInt8} (h : isNameChar c = true) :
    isValueChar c = true ∧ toLower c ≠ 32 ∧ toLower c ≠ 58 ∧ c ≠ 58 := by
  simp only [isNameChar, isValueChar, toLower, Bool.or_eq_true, Bool.and_eq_true, decide_eq_true_eq,
    beq_iff_eq, bne_iff_ne, UInt8.le_iff_toNat_le, ne_eq, ← UInt8.toNat_inj] at *
  simp only [UInt8.reduceToNat] at *
  split
  · simp only [UInt8.toNat_add, UInt8.reduceToNat]
    omega
  · omega

theorem toLower_eq_colon {c : UInt8} (h : toLower c = 58) : c = 58 := by
  simp only [toLower, UInt8.le_iff_toNat_le, ← UInt8.toNat_inj] at *
  simp only [UInt8.reduceToNat] at *
  split at h
  · simp only [UInt8.toNat_add, UInt8.reduceToNat] at h
    omega
  · exact h

namespace Header
variable (h : Header)

theorem linesOf_bytes (y : List UInt8) : linesOf (h.bytes ++ y) = h.lines ++ linesOf y := by
  have hfirst : ∀ c ∈ h.firstLine, isLineEnd c = false := by
    intro c hc
    rcases List.mem_append.1 hc with hc | hc
    · exact isLineEnd_of_value (nameChar_ne (h.name_chars c hc)).1
    · rcases List.mem_cons.1 hc with rfl | hc
      · rfl
      · rcases List.mem_cons.1 hc with rfl | hc
        · rfl
        · exact isLineEnd_of_value (h.first_chars c hc)
  have hrest : ∀ rest : List (List UInt8 × LineEnd), (∀ x ∈ rest, ∀ c ∈ x.1, isValueChar c = true) →
      linesOf ((rest.flatMap fun x => 32 :: (x.1 ++ x.2.bytes)) ++ y) =
        (rest.map fun x => 32 :: x.1) ++ linesOf y := by
    intro rest
    induction rest with
    | nil => exact fun _ => rfl
    | cons x rest ih =>
      intro hchars
      rw [List.forall_mem_cons] at hchars
      have hline : linesOf (32 :: x.1) = [32 :: x.1] := linesOf_line (fun c hc => by
        rcases List.mem_cons.1 hc with rfl | hc
        · rfl
        · exact isLineEnd_of_value (hchars.1 c hc)) (List.cons_ne_nil _ _)
      rw [List.flatMap_cons, List.append_assoc, List.cons_append, List.append_assoc,
        ← List.cons_append, linesOf_append_bytes, hline, ih hchars.2, List.map_cons]
      rfl
  rw [bytes, List.append_assoc, List.append_assoc, linesOf_append_bytes,
    linesOf_line hfirst (fun heq => h.name_ne (List.append_eq_nil_iff.1 heq).1),
    hrest h.rest h.rest_chars]
  rfl

end Header

/-- **The lines of a manifest.** -/
theorem linesOf_textOf (items : List Item) : linesOf (textOf items) = items.flatMap Item.lines := by
  induction items with
  | nil => rfl
  | cons item items ih =>
    rw [textOf, List.flatMap_cons, List.flatMap_cons]
    cases item with
    | header h => exact (h.linesOf_bytes _).trans (congrArg _ ih)
    | blank e => exact (linesOf_append_bytes e [] _).trans (congrArg _ ih)

/-! ## Lines with a key -/

/-- The test that a line starts with a key and a colon. -/
def HasKey (line key : List UInt8) : Prop :=
  sameIgnoringCase (line.take key.length) key = true ∧ (line)[key.length]? = some 58

/-- A key that consists of name characters. -/
def IsName (key : List UInt8) : Prop := key ≠ [] ∧ ∀ c ∈ key, isNameChar c = true

theorem sameIgnoringCase_iff {a b : List UInt8} :
    sameIgnoringCase a b = true ↔ a.map toLower = b.map toLower := beq_iff_eq

theorem length_of_same {a b : List UInt8} (h : sameIgnoringCase a b = true) : a.length = b.length := by
  have := congrArg List.length (sameIgnoringCase_iff.1 h)
  rwa [List.length_map, List.length_map] at this

/-- A continuation line has no key. -/
theorem not_hasKey_continuation {key : List UInt8} (hkey : IsName key) (piece : List UInt8) :
    ¬ HasKey (32 :: piece) key := by
  rintro ⟨hsame, -⟩
  obtain ⟨c, key, rfl⟩ := List.exists_cons_of_ne_nil hkey.1
  rw [sameIgnoringCase_iff, List.length_cons, List.take_succ_cons, List.map_cons, List.map_cons] at hsame
  exact (nameChar_ne (hkey.2 c (List.mem_cons_self ..))).2.1 (List.cons.inj hsame).1.symm

/-- The first line of a header has the key that is its name. -/
theorem hasKey_firstLine {h : Header} {key : List UInt8} (hkey : IsName key) :
    HasKey h.firstLine key ↔ sameIgnoringCase h.name key = true := by
  constructor
  · rintro ⟨hsame, hcolon⟩
    rcases Nat.lt_trichotomy key.length h.name.length with hlt | heq | hgt
    · -- the colon would be in the name
      rw [Header.firstLine, List.getElem?_append_left hlt] at hcolon
      exact absurd rfl (nameChar_ne (h.name_chars 58 (List.mem_of_getElem? hcolon))).2.2.2
    · rwa [heq, Header.firstLine, List.take_left] at hsame
    · -- the key would have a colon
      have hlower := congrArg (·[h.name.length]?) (sameIgnoringCase_iff.1 hsame)
      rw [List.getElem?_map, List.getElem?_map, List.getElem?_take_of_lt hgt, Header.firstLine,
        List.getElem?_append_right (Nat.le_refl _), Nat.sub_self, List.getElem?_cons_zero,
        List.getElem?_eq_getElem hgt] at hlower
      have hc := Option.some.inj hlower
      exact absurd hc.symm (nameChar_ne (hkey.2 _ (List.getElem_mem hgt))).2.2.1
  · intro hsame
    have hlen := length_of_same hsame
    rw [HasKey, ← hlen, Header.firstLine, List.take_left, List.getElem?_append_right (Nat.le_refl _),
      Nat.sub_self]
    exact ⟨hsame, rfl⟩

theorem Header.isName (h : Header) : IsName h.name := ⟨h.name_ne, h.name_chars⟩

/-- Where no header has the name, no line has the key. -/
theorem Lacks.not_hasKey {items : List Item} {key : List UInt8} (h : Lacks items key)
    (hkey : IsName key) : ∀ line ∈ items.flatMap Item.lines, ¬ HasKey line key := by
  intro line hline
  obtain ⟨item, hitem, hin⟩ := List.mem_flatMap.1 hline
  cases item with
  | blank e => exact absurd hin List.not_mem_nil
  | header h' =>
    rcases List.mem_cons.1 hin with rfl | hin
    · rw [hasKey_firstLine hkey, h h' hitem]
      exact Bool.false_ne_true
    · obtain ⟨x, -, rfl⟩ := List.mem_map.1 hin
      exact not_hasKey_continuation hkey x.1

/-- A search among the lines of a manifest finds nothing but the header with the key. -/
theorem findSome?_lines {α : Type} {f : List UInt8 → Option α} {key : List UInt8} {pre post : List Item}
    {h : Header} (hkey : IsName key) (hf : ∀ line, ¬ HasKey line key → f line = none)
    (hpre : Lacks pre key) (hpost : Lacks post key) :
    (linesOf (textOf (pre ++ .header h :: post))).findSome? f = f h.firstLine := by
  have hnone : ∀ items, Lacks items key → (items.flatMap Item.lines).findSome? f = none :=
    fun items hlacks => List.findSome?_eq_none_iff.2 fun line hline =>
      hf line (hlacks.not_hasKey hkey line hline)
  have hrest : (h.rest.map fun x => 32 :: x.1).findSome? f = none := by
    refine List.findSome?_eq_none_iff.2 fun line hline => ?_
    obtain ⟨x, -, rfl⟩ := List.mem_map.1 hline
    exact hf _ (not_hasKey_continuation hkey x.1)
  rw [linesOf_textOf, List.flatMap_append, List.findSome?_append, hnone pre hpre, Option.none_or,
    List.flatMap_cons, List.findSome?_append, hnone post hpost, Option.or_none, Item.lines,
    Header.lines, List.findSome?_cons]
  cases f h.firstLine with
  | none => exact hrest
  | some x => rfl

/-! ## What each reader gives -/

theorem cString_of_values {s : List UInt8} (h : ∀ c ∈ s, isValueChar c = true) : cString s = s := by
  rw [cString, List.takeWhile_eq_self_iff]
  intro c hc
  have := h c hc
  simp only [isValueChar, Bool.and_eq_true, bne_iff_ne] at this
  exact decide_eq_true this.1.1

theorem values_dropWhile {s : List UInt8} (h : ∀ c ∈ s, isValueChar c = true) :
    ∀ c ∈ s.dropWhile isBlank, isValueChar c = true :=
  fun c hc => h c ((List.dropWhile_suffix isBlank).subset hc)

namespace Header
variable {h : Header}

theorem length_first_le : h.first.length ≤ 70 := by
  have := h.first_line
  omega

/-- The first line of a value, as the readers read it into a buffer. -/
theorem read_first {n : Nat} (hn : 70 ≤ n) :
    cString (((32 :: h.first).dropWhile isBlank).take n) = h.first.dropWhile isBlank := by
  have hlen := (List.dropWhile_sublist (l := h.first) isBlank).length_le
  have hfirst := length_first_le (h := h)
  rw [List.dropWhile_cons_of_pos rfl, List.take_of_length_le (by omega)]
  exact cString_of_values (values_dropWhile h.first_chars)

/-- **One line**, without the blanks in front, is what `gb300_get_manifest_property` gives. -/
theorem getManifestProperty_eq {pre post : List Item} (hpre : Lacks pre h.name)
    (hpost : Lacks post h.name) :
    getManifestProperty (textOf (pre ++ .header h :: post)) h.name =
      some (h.first.dropWhile isBlank) := by
  rw [getManifestProperty, findSome?_lines h.isName (fun line hno => if_neg fun hyes => hno hyes.2)
    hpre hpost]
  have hkey := (hasKey_firstLine h.isName).2 (beq_self_eq_true (h.name.map toLower))
  have hlength : h.firstLine.length = h.name.length + (h.first.length + 2) := by
    rw [firstLine, List.length_append, List.length_cons, List.length_cons]
  rw [if_pos ⟨by omega, hkey⟩]
  have hdrop : h.firstLine.drop (h.name.length + 1) = 32 :: h.first := by
    rw [firstLine, ← List.drop_drop, List.drop_left]
    rfl
  rw [hdrop, read_first (by omega)]

/-- `SuiteProperties.load` reads a header line. -/
theorem headerLine_firstLine :
    headerLine h.firstLine = some ⟨h.name, h.first.dropWhile isBlank⟩ := by
  have hname : ∀ c ∈ h.name, decide (c ≠ 58) = true := fun c hc =>
    decide_eq_true (nameChar_ne (h.name_chars c hc)).2.2.2
  have htake : h.firstLine.takeWhile (· ≠ 58) = h.name := by
    rw [firstLine, List.takeWhile_append_of_pos hname, List.takeWhile_cons_of_neg (by decide),
      List.append_nil]
  have hdrop : h.firstLine.dropWhile (· ≠ 58) = 58 :: 32 :: h.first := by
    rw [firstLine, List.dropWhile_append_of_pos hname, List.dropWhile_cons_of_neg (by decide)]
  have hlength := h.first_line
  rw [headerLine, if_pos (show 58 ∈ h.firstLine from List.mem_append_right _ (List.mem_cons_self ..)),
    htake, hdrop,
    List.take_of_length_le (by omega), cString_of_values fun c hc => (nameChar_ne (h.name_chars c hc)).1,
    List.drop_succ_cons, List.drop_zero, read_first (by omega)]

/-- A header line begins with no blank. -/
theorem head?_firstLine : h.firstLine.head?.any isBlank = false := by
  obtain ⟨c, name, hname⟩ := List.exists_cons_of_ne_nil h.name_ne
  have hc := (nameChar_ne (h.name_chars c (by rw [hname]; exact List.mem_cons_self ..)))
  rw [firstLine, hname, List.cons_append, List.head?_cons, Option.any_some]
  by_contra hblank
  rw [Bool.not_eq_false, isBlank, Bool.or_eq_true, beq_iff_eq, beq_iff_eq] at hblank
  rcases hblank with rfl | rfl
  · exact hc.2.1 rfl
  · exact absurd (h.name_chars 9 (by rw [hname]; exact List.mem_cons_self ..)) (by decide)

theorem OnOneLine.dropWhile_eq (hone : h.OnOneLine) : h.first.dropWhile isBlank = h.first := by
  cases hcases : h.first with
  | nil => rfl
  | cons c first =>
    exact List.dropWhile_cons_of_neg (by rw [hone.1 c (by rw [hcases]; rfl)]; exact Bool.false_ne_true)

/-- A header whose lines are read. -/
theorem foldl_lines (pairs : List PropPair) (hroom : pairs.length < 256) :
    ∃ val, (h.OnOneLine → val = h.first) ∧
      h.lines.foldl loadLine pairs = ⟨h.name, val⟩ :: pairs := by
  have hline : loadLine pairs h.firstLine = ⟨h.name, h.first.dropWhile isBlank⟩ :: pairs := by
    rw [loadLine.eq_def, if_neg (by omega)]
    cases pairs with
    | nil => rw [headerLine_firstLine]; rfl
    | cons last before =>
      dsimp only
      rw [head?_firstLine, if_neg Bool.false_ne_true, headerLine_firstLine]
      rfl
  -- continuation lines change the value, and leave it if they are empty
  have hrest : ∀ (rest : List (List UInt8 × LineEnd)) (val : List UInt8), ∃ val',
      ((∀ x ∈ rest, x.1 = []) → (∀ c ∈ val, isValueChar c = true) → val' = val) ∧
      (rest.map fun x => 32 :: x.1).foldl loadLine (⟨h.name, val⟩ :: pairs) =
        ⟨h.name, val'⟩ :: pairs := by
    intro rest
    induction rest with
    | nil => exact fun val => ⟨val, fun _ _ => rfl, rfl⟩
    | cons x rest ih =>
      intro val
      rw [List.map_cons, List.foldl_cons]
      by_cases hfull : 256 ≤ (⟨h.name, val⟩ :: pairs : List PropPair).length
      · obtain ⟨val', hval', hrun⟩ := ih val
        refine ⟨val', fun hempty => hval' (List.forall_mem_cons.1 hempty).2, ?_⟩
        rw [loadLine, if_pos hfull]
        exact hrun
      · have hstep : ∃ val₁, (x.1 = [] → (∀ c ∈ val, isValueChar c = true) → val₁ = val) ∧
            loadLine (⟨h.name, val⟩ :: pairs) (32 :: x.1) = ⟨h.name, val₁⟩ :: pairs := by
          rw [loadLine, if_neg hfull, List.head?_cons, Option.any_some,
            if_pos (show isBlank 32 = true from rfl), List.drop_succ_cons, List.drop_zero, appendVal]
          split
          · refine ⟨_, fun hempty hchars => ?_, rfl⟩
            rw [hempty, List.append_nil]
            exact cString_of_values hchars
          · exact ⟨val, fun _ _ => rfl, rfl⟩
        obtain ⟨val₁, hval₁, hrun₁⟩ := hstep
        obtain ⟨val', hval', hrun⟩ := ih val₁
        refine ⟨val', fun hempty hchars => ?_, by rw [hrun₁]; exact hrun⟩
        rw [List.forall_mem_cons] at hempty
        have heq := hval₁ hempty.1 hchars
        exact (hval' hempty.2 (by rw [heq]; exact hchars)).trans heq
  obtain ⟨val, hval, hrun⟩ := hrest h.rest (h.first.dropWhile isBlank)
  refine ⟨val, fun hone => ?_, by rw [lines, List.foldl_cons, hline]; exact hrun⟩
  exact (hval hone.2 (values_dropWhile h.first_chars)).trans hone.dropWhile_eq

end Header

/-- Behind 256 pairs nothing is read. -/
theorem foldl_full {pairs : List PropPair} (hfull : 256 ≤ pairs.length) (lines : List (List UInt8)) :
    lines.foldl loadLine pairs = pairs := by
  induction lines with
  | nil => rfl
  | cons line lines ih =>
    have hline : loadLine pairs line = pairs := by rw [loadLine.eq_def, if_pos hfull]
    rw [List.foldl_cons, hline, ih]

/-- The pairs of a part of a manifest: one for each header, up to 256. -/
theorem foldl_items (items : List Item) {pairs : List PropPair} (hroom : pairs.length ≤ 256) :
    ∃ new, (items.flatMap Item.lines).foldl loadLine pairs = new ++ pairs ∧
      (∀ p ∈ new, ∃ h, .header h ∈ items ∧ p.key = h.name) ∧
      (new ++ pairs).length = min 256 (headersOf items + pairs.length) := by
  induction items generalizing pairs with
  | nil =>
    refine ⟨[], rfl, nofun, ?_⟩
    rw [List.nil_append, headersOf, List.filter_nil, List.length_nil]
    omega
  | cons item items ih =>
    rw [List.flatMap_cons, List.foldl_append]
    cases item with
    | blank e =>
      obtain ⟨new, hrun, hkeys, hlength⟩ := ih hroom
      exact ⟨new, hrun, fun p hp => by
        obtain ⟨h, hh, hkey⟩ := hkeys p hp
        exact ⟨h, List.mem_cons_of_mem _ hh, hkey⟩, hlength⟩
    | header h =>
      have hcount : headersOf (.header h :: items) = headersOf items + 1 := rfl
      rcases Nat.lt_or_eq_of_le hroom with hlt | heq
      · obtain ⟨val, -, hstep⟩ := h.foldl_lines pairs hlt
        obtain ⟨new, hrun, hkeys, hlength⟩ := @ih (⟨h.name, val⟩ :: pairs) hlt
        refine ⟨new ++ [⟨h.name, val⟩], ?_, ?_, ?_⟩
        · rw [Item.lines, hstep, hrun, List.append_assoc]
          rfl
        · intro p hp
          rcases List.mem_append.1 hp with hp | hp
          · obtain ⟨h', hh', hkey⟩ := hkeys p hp
            exact ⟨h', List.mem_cons_of_mem _ hh', hkey⟩
          · rw [List.mem_singleton.1 hp]
            exact ⟨h, List.mem_cons_self .., rfl⟩
        · rw [List.append_assoc, List.singleton_append, hlength, List.length_cons, hcount]
          omega
      · have hfull : 256 ≤ pairs.length := by lia
        refine ⟨[], ?_, nofun, ?_⟩
        · rw [foldl_full hfull, foldl_full hfull]
          rfl
        · rw [List.nil_append]
          omega

theorem loadProperties_cons_self (p : PropPair) (ps : List PropPair) :
    loadProperties (p :: ps) p.key = some p.val := Function.update_self ..

/-- Pairs with other keys in front do not matter. -/
theorem loadProperties_append {ps : List PropPair} {key : List UInt8} (h : ∀ p ∈ ps, p.key ≠ key)
    (qs : List PropPair) : loadProperties (ps ++ qs) key = loadProperties qs key := by
  induction ps with
  | nil => rfl
  | cons p ps ih =>
    rw [List.forall_mem_cons] at h
    exact (Function.update_of_ne h.1.symm ..).trans (ih h.2)

/-- **What `SuiteProperties` gives**: nothing behind 256 headers, else the value with what was put
behind it. -/
theorem loadProperties_load {pre post : List Item} {h : Header} (hpre : Lacks pre h.name) :
    ∃ val, (h.OnOneLine → val = h.first) ∧
      loadProperties (load (textOf (pre ++ .header h :: post))) h.name =
        if headersOf pre < 256 then some val else none := by
  obtain ⟨old, hrun, hkeys, hlength⟩ := @foldl_items pre [] (by decide)
  have hold : ∀ p ∈ old.reverse, p.key ≠ h.name := by
    intro p hp heq
    obtain ⟨h', hh', hkey⟩ := hkeys p (List.mem_reverse.1 hp)
    have hno := hpre h' hh'
    rw [← hkey, heq] at hno
    exact Bool.noConfusion (hno.symm.trans (beq_self_eq_true _))
  rw [List.append_nil] at hrun hlength
  rw [load, linesOf_textOf, List.flatMap_append, List.foldl_append, hrun, List.flatMap_cons,
    List.foldl_append]
  by_cases hroom : headersOf pre < 256
  · obtain ⟨val, hval, hstep⟩ := h.foldl_lines old (by rw [hlength, List.length_nil]; omega)
    obtain ⟨new, hrun', -, -⟩ := @foldl_items post (⟨h.name, val⟩ :: old)
      (by rw [List.length_cons, hlength, List.length_nil]; omega)
    refine ⟨val, hval, ?_⟩
    rw [if_pos hroom, Item.lines, hstep, hrun', List.reverse_append, List.reverse_cons,
      List.append_assoc, loadProperties_append hold]
    exact loadProperties_cons_self ⟨h.name, val⟩ new.reverse
  · have hfull : 256 ≤ old.length := by
      rw [hlength, List.length_nil]
      omega
    refine ⟨h.first, fun _ => rfl, ?_⟩
    rw [if_neg hroom, foldl_full hfull, foldl_full hfull, ← List.append_nil old.reverse,
      loadProperties_append hold]
    rfl

/-- The class of a line depends on what is behind the first colon. -/
theorem parseMidlet1Line_eq {name rest : List UInt8} (hname : ∀ c ∈ name, isNameChar c = true) :
    parseMidlet1Line (name ++ 58 :: rest) = parseMidlet1Line (58 :: rest) := by
  have hstrchr : strchr (cString (name ++ 58 :: rest)) 58 = strchr (cString (58 :: rest)) 58 := by
    have hnonzero : ∀ c ∈ name, decide (c ≠ 0) = true := fun c hc => by
      have hvalue := (nameChar_ne (hname c hc)).1
      simp only [isValueChar, Bool.and_eq_true, bne_iff_ne] at hvalue
      exact decide_eq_true hvalue.1.1
    have hcolon : ∀ c ∈ name, decide (c ≠ 58) = true := fun c hc =>
      decide_eq_true (nameChar_ne (hname c hc)).2.2.2
    rw [cString, List.takeWhile_append_of_pos hnonzero, strchr, List.dropWhile_append_of_pos hcolon]
    rfl
  rw [parseMidlet1Line, hstrchr]
  rfl

/-- **What `parse_midlet1_from_buffer` gives**: the class in the first line of the value. -/
theorem parseMidlet1FromBuffer_eq {pre post : List Item} {h : Header} (hpre : Lacks pre h.name)
    (hpost : Lacks post h.name) (hname : sameIgnoringCase h.name (ascii "MIDlet-1") = true) :
    parseMidlet1FromBuffer (textOf (pre ++ .header h :: post)) = mainClassOf h.first := by
  have hkey : IsName (ascii "MIDlet-1") := ⟨List.cons_ne_nil _ _, List.all_eq_true.1 (by decide +kernel)⟩
  have hlacks : ∀ items, Lacks items h.name → Lacks items (ascii "MIDlet-1") := by
    intro items hlacks h' hh'
    by_contra hsame
    rw [Bool.not_eq_false] at hsame
    have hno := hlacks h' hh'
    rw [sameIgnoringCase, sameIgnoringCase_iff.1 hsame, ← sameIgnoringCase_iff.1 hname] at hno
    exact Bool.noConfusion (hno.symm.trans (beq_self_eq_true _))
  -- the nine bytes that are compared are the key and the colon
  have htest : ∀ line, 9 ≤ line.length ∧ sameIgnoringCase (line.take 9) (ascii "MIDlet-1:") = true →
      HasKey line (ascii "MIDlet-1") := by
    rintro line ⟨hlength, hsame⟩
    have hsplit : line.take 9 = line.take 8 ++ [(line)[8]] := List.take_succ_eq_append_getElem hlength
    rw [sameIgnoringCase_iff, hsplit, List.map_append] at hsame
    have hmap : (ascii "MIDlet-1:").map toLower =
        (ascii "MIDlet-1").map toLower ++ [58] := by decide
    rw [hmap] at hsame
    obtain ⟨hkeys, hcolon⟩ := List.append_inj' hsame rfl
    refine ⟨sameIgnoringCase_iff.2 hkeys, ?_⟩
    have h8 : (ascii "MIDlet-1").length = 8 := by decide
    rw [h8, List.getElem?_eq_getElem (by omega), toLower_eq_colon (List.cons.inj hcolon).1]
  rw [parseMidlet1FromBuffer, findSome?_lines hkey
    (fun line hno => if_neg fun hyes => hno (htest line hyes)) (hlacks pre hpre) (hlacks post hpost)]
  have hlength := length_of_same hname
  have h8 : (ascii "MIDlet-1").length = 8 := by decide
  have hfirst : h.firstLine.length = h.name.length + 2 + h.first.length := by
    rw [Header.firstLine, List.length_append, List.length_cons, List.length_cons]
    omega
  have hbound := h.first_line
  have htake : h.firstLine.take 9 = h.name ++ [58] := by
    rw [Header.firstLine, List.take_append, List.take_of_length_le (by omega), hlength, h8]
    rfl
  have hmap : (ascii "MIDlet-1:").map toLower = (ascii "MIDlet-1").map toLower ++ [58] := by decide
  rw [if_pos, List.take_of_length_le (by omega), Header.firstLine, parseMidlet1Line_eq h.name_chars]
  · exact (@parseMidlet1Line_eq _ (32 :: h.first) hkey.2).symm
  · refine ⟨by omega, ?_⟩
    rw [htake, sameIgnoringCase_iff, List.map_append, sameIgnoringCase_iff.1 hname, hmap]
    rfl

/-! ## Agreement -/

/-- **The readers agree on a header exactly when** its value stands on one line, without a blank in
front, and fewer than 256 headers come before it. -/
theorem agree_iff {pre post : List Item} {h : Header} (hpre : Lacks pre h.name)
    (hpost : Lacks post h.name) :
    Agree (textOf (pre ++ .header h :: post)) h ↔ h.OnOneLine ∧ headersOf pre < 256 := by
  obtain ⟨val, hval, hload⟩ := @loadProperties_load _ post _ hpre
  rw [Agree, Header.getManifestProperty_eq hpre hpost, hload]
  constructor
  · rintro ⟨hfirst, hproperties, -⟩
    have hlength := congrArg List.length (Option.some.inj hfirst)
    have hle := (List.dropWhile_sublist (l := h.first) isBlank).length_le
    rw [Header.value, List.length_append] at hlength
    have hrest : (h.rest.map Prod.fst).flatten = [] := List.eq_nil_of_length_eq_zero (by omega)
    have hsame : h.first.dropWhile isBlank = h.first :=
      (List.dropWhile_sublist isBlank).eq_of_length_le (by omega)
    refine ⟨⟨fun c hc => ?_, fun x hx => ?_⟩, ?_⟩
    · -- a blank in front would have been dropped
      by_contra hblank
      rw [Bool.not_eq_false] at hblank
      cases hcases : h.first with
      | nil =>
        rw [hcases] at hc
        exact absurd hc (Option.some_ne_none c).symm
      | cons d first =>
        rw [hcases] at hc hsame
        obtain rfl := Option.some.inj hc
        rw [List.dropWhile_cons_of_pos hblank] at hsame
        have := congrArg List.length hsame
        have := (List.dropWhile_sublist (l := first) isBlank).length_le
        rw [List.length_cons] at *
        omega
    · exact List.flatten_eq_nil_iff.1 hrest x.1 (List.mem_map_of_mem hx)
    · by_contra hmany
      rw [if_neg hmany] at hproperties
      exact Option.some_ne_none _ hproperties.symm
  · rintro ⟨hone, hroom⟩
    have hvalue : h.value = h.first := by
      have hrest : (h.rest.map Prod.fst).flatten = [] := by
        refine List.flatten_eq_nil_iff.2 fun piece hpiece => ?_
        obtain ⟨x, hx, rfl⟩ := List.mem_map.1 hpiece
        exact hone.2 x hx
      rw [Header.value, hrest, List.append_nil]
    have hfirst : h.first.dropWhile isBlank = h.first := hone.dropWhile_eq
    rw [hvalue, if_pos hroom, hval hone, hfirst]
    exact ⟨rfl, rfl, fun hname => parseMidlet1FromBuffer_eq hpre hpost hname⟩

/-! ## Two manifests -/

/-- `Manifest-Version: 1.0`. -/
def versionHeader : Header where
  name := ascii "Manifest-Version"
  first := ascii "1.0"
  firstEnd := .crlf
  rest := []
  name_ne := by decide
  name_chars := List.all_eq_true.1 (by decide +kernel)
  first_chars := List.all_eq_true.1 (by decide +kernel)
  rest_chars := nofun
  first_line := by decide
  rest_lines := nofun

/-- `MIDlet-1: Game, /i.png, Main`, with the class on the line of the header or on the next one. -/
def midletHeader (folded : Bool) : Header where
  name := ascii "MIDlet-1"
  first := if folded then ascii "Game, /i.png, " else ascii "Game, /i.png, Main"
  firstEnd := .crlf
  rest := if folded then [(ascii "Main", .crlf)] else []
  name_ne := by decide
  name_chars := List.all_eq_true.1 (by decide +kernel)
  first_chars := List.all_eq_true.1 (by cases folded <;> decide +kernel)
  rest_chars := by
    cases folded with
    | false => nofun
    | true =>
      intro x hx
      rw [List.mem_singleton.1 hx]
      exact List.all_eq_true.1 (by decide +kernel)
  first_line := by cases folded <;> decide
  rest_lines := by
    cases folded with
    | false => nofun
    | true =>
      intro x hx
      rw [List.mem_singleton.1 hx]
      decide +kernel

theorem lacks_version (folded : Bool) :
    Lacks [.header versionHeader] (midletHeader folded).name := by
  intro h hh
  obtain rfl := Item.header.inj (List.mem_singleton.1 hh)
  change sameIgnoringCase (ascii "Manifest-Version") (ascii "MIDlet-1") = false
  decide +kernel

theorem lacks_nil (name : List UInt8) : Lacks [] name := fun _ hh => absurd hh List.not_mem_nil

/-- On one line, the class is read. -/
theorem agree_plain :
    Agree (textOf [.header versionHeader, .header (midletHeader false)]) (midletHeader false) :=
  (@agree_iff [.header versionHeader] [] _ (lacks_version false) (lacks_nil _)).2
    ⟨⟨by decide +kernel, nofun⟩, by decide +kernel⟩

/-- **A continuation line is not read**, though it fits. -/
theorem not_agree_folded : ¬ ∀ (pre post : List Item) (h : Header), Lacks pre h.name →
    Lacks post h.name → h.value.length ≤ 255 → Agree (textOf (pre ++ .header h :: post)) h := by
  intro hall
  have hagree := hall [.header versionHeader] [] (midletHeader true) (lacks_version true)
    (lacks_nil _) (by decide)
  have hfirst := hagree.1
  rw [Header.getManifestProperty_eq (lacks_version true) (lacks_nil _)] at hfirst
  exact absurd (Option.some.inj hfirst) (by decide)

end FroggyKVM.Manifest
