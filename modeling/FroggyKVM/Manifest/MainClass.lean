/-
# FroggyKVM.Manifest.MainClass — the class a game is started with (`platform_gb300/midlet_meta.c`).

`gb300_get_main_class` takes the class that the descriptor beside an archive names, and the one that
the manifest inside names where there is none.  The name of the other file is built in a buffer of 512
bytes; a descriptor is read into one as well, a line or a part of a line at a time.
-/
import FroggyKVM.Manifest.Readers
import FroggyKVM.Puff.Streams

namespace FroggyKVM.Manifest

open Deflate (Inflates strict)
open Zip (sameIgnoringCase manifestName)

/-! ## The launcher -/

/-- `fgets` with room for `n` bytes: what is read, and what is left of the file. -/
def fgets : Nat → List UInt8 → List UInt8 × List UInt8
  | 0, text => ([], text)
  | _ + 1, [] => ([], [])
  | n + 1, c :: text =>
    if c = 10 then ([c], text)
    else
      let (line, rest) := fgets n text
      (c :: line, rest)

/-- The class in a line of a descriptor. -/
def jadLine (line : List UInt8) : Option (List UInt8) :=
  if sameIgnoringCase ((cString line).take 9) (ascii "MIDlet-1:") then parseMidlet1Line line else none

/-- The loop of `try_parse_jad`; a turn takes a byte at least. -/
def jadLoop : Nat → List UInt8 → Option (List UInt8)
  | 0, _ => none
  | fuel + 1, text =>
    let (line, rest) := fgets 511 text
    if line = [] then none else (jadLine line).or (jadLoop fuel rest)

/-- `try_parse_jad`, on the contents of the file. -/
def tryParseJad (text : List UInt8) : Option (List UInt8) := jadLoop text.length text

def hasSuffix (path suffix : List UInt8) : Bool :=
  decide (4 < path.length) && sameIgnoringCase (path.drop (path.length - 4)) suffix

/-- `jad_sibling` and `jar_sibling`. -/
def sibling (path suffix : List UInt8) : Except MemFault (List UInt8) :=
  if path.length < 512 then .ok (path.take (path.length - 4) ++ suffix) else .error .outOfRange

section

-- the reader of entries, and what `fopen` finds at a path
variable (read : List UInt8 → List UInt8 → Option (List UInt8))
  (files : List UInt8 → Option (List UInt8)) (path : List UInt8)

def tryParseJarManifest : Option (List UInt8) := do
  let file ← files path
  let buf ← read file manifestName
  parseMidlet1FromBuffer buf

/-- `gb300_get_main_class`. -/
def gb300GetMainClass : Except MemFault (Option (List UInt8)) :=
  if hasSuffix path (ascii ".jad") then
    match (files path).bind tryParseJad with
    | some cls => .ok (some cls)
    | none => (sibling path (ascii ".jar")).map (tryParseJarManifest read files)
  else if hasSuffix path (ascii ".jar") then
    (sibling path (ascii ".jad")).map fun jad =>
      ((files jad).bind tryParseJad).or (tryParseJarManifest read files path)
  else .ok none

end

/-! ## Descriptors -/

/-- A line that fits the buffer. -/
def IsLine (line : List UInt8) : Prop := ∃ text, line = text ++ [10] ∧ 10 ∉ text ∧ text.length < 511

theorem fgets_line {text : List UInt8} (htext : 10 ∉ text) {n : Nat} (hn : text.length < n)
    (rest : List UInt8) : fgets n (text ++ 10 :: rest) = (text ++ [10], rest) := by
  induction text generalizing n with
  | nil =>
    obtain ⟨n, rfl⟩ := Nat.exists_eq_succ_of_ne_zero hn.ne'
    rfl
  | cons c text ih =>
    obtain ⟨n, rfl⟩ := Nat.exists_eq_succ_of_ne_zero (Nat.zero_lt_of_lt hn).ne'
    rw [List.mem_cons, not_or] at htext
    rw [List.cons_append, fgets, if_neg (Ne.symm htext.1), ih htext.2 (Nat.lt_of_succ_lt_succ hn)]
    rfl

/-- **The first line with a class counts.** -/
theorem tryParseJad_eq {lines : List (List UInt8)} (hlines : ∀ line ∈ lines, IsLine line) :
    tryParseJad lines.flatten = lines.findSome? jadLine := by
  have hloop : ∀ {fuel : Nat}, lines.length ≤ fuel →
      jadLoop fuel lines.flatten = lines.findSome? jadLine := by
    induction lines with
    | nil =>
      intro fuel _
      cases fuel <;> rfl
    | cons line lines ih =>
      intro fuel hfuel
      rw [List.forall_mem_cons] at hlines
      obtain ⟨⟨text, rfl, htext, hlength⟩, hlines⟩ := hlines
      obtain ⟨fuel, rfl⟩ := Nat.exists_eq_succ_of_ne_zero (Nat.zero_lt_of_lt hfuel).ne'
      rw [List.flatten_cons, List.append_assoc, jadLoop, List.singleton_append,
        fgets_line htext hlength, List.findSome?_cons]
      dsimp only
      rw [if_neg (by simp), ih hlines (Nat.le_of_succ_le_succ hfuel)]
      cases jadLine (text ++ [10]) <;> rfl
  refine hloop ?_
  clear hloop
  induction lines with
  | nil => exact Nat.le_refl 0
  | cons line lines ih =>
    rw [List.forall_mem_cons] at hlines
    obtain ⟨⟨text, rfl, -, -⟩, hlines⟩ := hlines
    have := ih hlines
    simp only [List.flatten_cons, List.length_append, List.length_cons]
    omega

/-! ## Games -/

/-- A game: an archive with a manifest that can be read, and maybe a descriptor. -/
structure Game where
  archive : Zip.Archive (Inflates strict)
  before : List Item
  midlet : Header
  after : List Item
  descriptor : Option (List (List UInt8))
  endIsLast : archive.EndIsLast
  small : archive.file.length < 2147483648
  manifest : ∃ m, archive.accepted manifestName = some m ∧ m.HasReadableSize ∧
    m.contents = textOf (before ++ .header midlet :: after)
  name_midlet : sameIgnoringCase midlet.name (ascii "MIDlet-1") = true
  lacks_before : Lacks before midlet.name
  lacks_after : Lacks after midlet.name
  lines : ∀ lines, descriptor = some lines → ∀ line ∈ lines, IsLine line

namespace Game
variable (g : Game)

/-- The class that the game names. -/
def mainClass : Option (List UInt8) :=
  (g.descriptor.bind fun lines => lines.findSome? jadLine).or (mainClassOf g.midlet.first)

/-- The files of the game, with a path without the suffix. -/
structure At (files : List UInt8 → Option (List UInt8)) (base : List UInt8) : Prop where
  jar : files (base ++ ascii ".jar") = some g.archive.file
  jad : files (base ++ ascii ".jad") = g.descriptor.map List.flatten
  nonempty : 0 < base.length
  room : base.length + 4 < 512

end Game

section

variable {base suffix : List UInt8}

theorem hasSuffix_append (hbase : 0 < base.length) (hsuffix : suffix.length = 4)
    (suffix' : List UInt8) :
    hasSuffix (base ++ suffix) suffix' = sameIgnoringCase suffix suffix' := by
  rw [hasSuffix, List.length_append, hsuffix, Nat.add_sub_cancel, List.drop_left,
    decide_eq_true (by omega), Bool.true_and]

theorem sibling_append (hbase : base.length + 4 < 512) (hsuffix : suffix.length = 4)
    (suffix' : List UInt8) : sibling (base ++ suffix) suffix' = .ok (base ++ suffix') := by
  rw [sibling, List.length_append, hsuffix, if_pos hbase, Nat.add_sub_cancel, List.take_left]

end

/-! ## A small game -/

/-- A stored manifest with the header of the class. -/
def menuMember : Zip.Member (Inflates strict) where
  entry := {
    header := [0x50, 0x4b, 1, 2] ++ List.replicate 16 0 ++ [30, 0, 0, 0, 30, 0, 0, 0, 20, 0] ++
      List.replicate 16 0
    name := manifestName
    extra := []
    comment := []
    length_header := rfl
    sig := rfl
    cennam_header := by decide +kernel
    cenext_header := rfl
    cencom_header := rfl }
  localHeader := [0x50, 0x4b, 3, 4] ++ List.replicate 22 0 ++ [20, 0, 0, 0]
  localName := manifestName
  localExtra := []
  data := textOf [.header (midletHeader false)]
  contents := textOf [.header (midletHeader false)]
  length_localHeader := rfl
  sig := rfl
  name_localHeader := by decide +kernel
  extra_localHeader := rfl
  censiz_entry := by decide +kernel
  cenlen_entry := by decide +kernel
  method := .inl ⟨rfl, rfl⟩

def menuArchive : Zip.Archive (Inflates strict) where
  before := menuMember.bytes
  members := [menuMember]
  endRecord := [0x50, 0x4b, 5, 6, 0, 0, 0, 0, 1, 0, 1, 0, 66, 0, 0, 0, 80, 0, 0, 0, 0, 0]
  comment := []
  length_endRecord := rfl
  sig_endRecord := rfl
  entries_endRecord := rfl
  size_endRecord := by decide +kernel
  offset_endRecord := by decide +kernel
  comment_endRecord := rfl
  names_nodup := List.nodup_singleton _
  located m hm := by
    obtain rfl := List.mem_singleton.1 hm
    exact ⟨[], _, rfl, List.append_assoc ..⟩

def menuGame : Game where
  archive := menuArchive
  before := []
  midlet := midletHeader false
  after := []
  descriptor := none
  endIsLast i hi hle := absurd hle (by
    have hlength : (menuArchive.endRecord ++ menuArchive.comment).length = 22 := rfl
    omega)
  small := by decide +kernel
  manifest := ⟨menuMember, List.find?_cons_of_pos (by decide +kernel), .inl rfl, rfl⟩
  name_midlet := by decide +kernel
  lacks_before := lacks_nil _
  lacks_after := lacks_nil _
  lines _ h := absurd h.symm (Option.some_ne_none _)

end FroggyKVM.Manifest
