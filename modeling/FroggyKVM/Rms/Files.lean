/-
# FroggyKVM.Rms.Files — the files of record stores (`platform_gb300/rms_posix.c`).

The file of a store is named by its suite, its name and an extension.  `get_string_utf8` keeps the
ASCII units of the name and puts an underscore for every other one, and a C string ends at the first
zero; what is left is written in hexadecimal digits.  **Two stores share a file exactly when suite
and extension agree and the names agree after this folding.**
-/
import FroggyKVM.Lib.Text

namespace FroggyKVM.Rms

/-! ## Stores and their files -/

/-- What `openRecordStoreFile` is given; a name has 1 to 32 UTF-16 code units. -/
structure StoreKey where
  suiteId : Int
  name : List UInt16
  name_length : 1 ≤ name.length ∧ name.length ≤ 32
  extension : Int
  deriving DecidableEq

/-- `get_string_utf8`, into a buffer of `bufSize` bytes: the bytes before the terminating zero. -/
def getStringUtf8 (bufSize : Nat) (s : List UInt16) : List UInt8 :=
  ((s.take 255).take (bufSize - 1)).map fun c => if c < 128 then c.toUInt8 else 95

/-- The loop of `encode_hex`, which has written `oi` bytes. -/
def encodeHexLoop (outSize : Nat) : Nat → List UInt8 → List UInt8
  | _, [] => []
  | oi, b :: bs => if oi + 3 < outSize then hexByte b ++ encodeHexLoop outSize (oi + 2) bs else []

/-- `encode_hex`. -/
def encodeHex (outSize : Nat) (s : List UInt8) : List UInt8 := encodeHexLoop outSize 0 s

/-- `sscanf` with `"%02x"` on a string of two or more characters; blanks, signs and `0x` do not
occur in the names of store files. -/
def scanHex (a b : UInt8) : Option Nat :=
  match hexVal a, hexVal b with
  | some x, some y => some (16 * x + y)
  | some x, none => some x
  | none, _ => none

/-- The loop of `decode_hex`, which has written `oi` bytes. -/
def decodeHexLoop (outSize : Nat) : Nat → List UInt8 → Option (List UInt8)
  | _, [] => some []
  | _, [_] => none
  | oi, a :: b :: rest =>
    if oi + 1 < outSize then
      match scanHex a b with
      | none => none
      | some x => (decodeHexLoop outSize (oi + 1) rest).map (UInt8.ofNat x :: ·)
    else some []

/-- `decode_hex`. -/
def decodeHex (outSize : Nat) (s : List UInt8) : Option (List UInt8) :=
  if s.length % 2 ≠ 0 then none else decodeHexLoop outSize 0 s

/-- `snprintf` of the text `s`: the bytes before the terminating zero. -/
def snprintf (size : Nat) (s : List UInt8) : List UInt8 := s.take (size - 1)

/-- The bytes of a name that its file keeps. -/
def nameBytes (name : List UInt16) : List UInt8 := cString (getStringUtf8 256 name)

/-- `suite_%d_`. -/
def suitePrefix (suiteId : Int) : List UInt8 := ascii "suite_" ++ (decimal suiteId ++ ascii "_")

/-- `_%d.rms`. -/
def extensionSuffix (extension : Int) : List UInt8 :=
  ascii "_" ++ (decimal extension ++ ascii ".rms")

/-- `suite_%d_%s_%d.rms`. -/
def storeFileName (k : StoreKey) : List UInt8 :=
  suitePrefix k.suiteId ++ (encodeHex 512 (nameBytes k.name) ++ extensionSuffix k.extension)

/-- `%s/%s` in the directory `dir` of the record stores, into a buffer of 512 bytes. -/
def fullPath (dir name : List UInt8) : List UInt8 := snprintf 512 (dir ++ (ascii "/" ++ name))

/-- `build_store_path`, into a buffer of 512 bytes. -/
def buildStorePath (dir : List UInt8) (k : StoreKey) : List UInt8 := fullPath dir (storeFileName k)

/-- The path of the store fits into the buffer. -/
def PathFits (dir : List UInt8) (k : StoreKey) : Prop :=
  (dir ++ (ascii "/" ++ storeFileName k)).length < 512

instance (dir : List UInt8) (k : StoreKey) : Decidable (PathFits dir k) :=
  inferInstanceAs (Decidable (_ < _))

/-! ## The file system -/

/-- The contents of the regular files. -/
abbrev FileSystem := List UInt8 → Option (List UInt8)

namespace FileSystem

/-- `open` with `O_CREAT`. -/
def openFile (fs : FileSystem) (path : List UInt8) : FileSystem := fun p =>
  if p = path then some ((fs p).getD []) else fs p

/-- The contents of an open file are changed. -/
def writeFile (fs : FileSystem) (path data : List UInt8) : FileSystem := fun p =>
  if p = path then some data else fs p

def unlink (fs : FileSystem) (path : List UInt8) : FileSystem := fun p =>
  if p = path then none else fs p

end FileSystem

/-- Opening, writing and deleting store `k` leave the file of `k'` as it is. -/
def Unaffected (dir : List UInt8) (k k' : StoreKey) : Prop :=
  ∀ (fs : FileSystem) (data : List UInt8),
    fs.openFile (buildStorePath dir k) (buildStorePath dir k') = fs (buildStorePath dir k') ∧
    fs.writeFile (buildStorePath dir k) data (buildStorePath dir k') = fs (buildStorePath dir k') ∧
    fs.unlink (buildStorePath dir k) (buildStorePath dir k') = fs (buildStorePath dir k')

/-! ## The name in the path -/

/-- A name as its file keeps it: underscores for the units that are not ASCII, up to the first
zero. -/
def foldedName (name : List UInt16) : List UInt16 :=
  (name.map fun c => if c < 128 then c else 95).takeWhile (· ≠ 0)

theorem toUInt8_toUInt16 {c : UInt16} (h : c < 128) : c.toUInt8.toUInt16 = c := by
  apply UInt16.toNat_inj.1
  have hlt : c.toNat < 128 := UInt16.lt_iff_toNat_lt.1 h
  rw [UInt8.toNat_toUInt16, UInt16.toNat_toUInt8]
  omega

/-- What becomes of one unit, as a byte and as a unit. -/
theorem toUInt16_folded (c : UInt16) :
    (if c < 128 then c.toUInt8 else 95 : UInt8).toUInt16 = if c < 128 then c else 95 := by
  split
  · exact toUInt8_toUInt16 (by assumption)
  · rfl

theorem toUInt16_injective : Function.Injective UInt8.toUInt16 := by
  intro a b hab
  apply UInt8.toNat_inj.1
  rw [← UInt8.toNat_toUInt16, hab, UInt8.toNat_toUInt16]

/-- The bytes of a name and its folding are the same characters. -/
theorem map_nameBytes {name : List UInt16} (h : name.length ≤ 32) :
    (nameBytes name).map UInt8.toUInt16 = foldedName name := by
  have hall : (name.take 255).take (256 - 1) = name := by
    rw [List.take_take]
    exact List.take_of_length_le (by omega)
  -- a byte is zero where the unit of the folding is
  have hzero : ∀ c : UInt16, ((if c < 128 then c.toUInt8 else 95 : UInt8) ≠ 0) ↔
      (if c < 128 then c else 95) ≠ 0 := fun c => by
    rw [← toUInt16_folded c]
    exact (toUInt16_injective.ne_iff (y := 0)).symm
  rw [nameBytes, getStringUtf8, hall, cString, foldedName, List.takeWhile_map, List.takeWhile_map,
    List.map_map]
  have hp : ((fun b : UInt8 => decide (b ≠ 0)) ∘ fun c : UInt16 =>
      if c < 128 then c.toUInt8 else 95) = (fun b : UInt16 => decide (b ≠ 0)) ∘ fun c : UInt16 =>
      if c < 128 then c else 95 := funext fun c => decide_eq_decide.2 (hzero c)
  rw [hp]
  exact List.map_congr_left fun c _ => toUInt16_folded c

theorem nameBytes_inj {k k' : StoreKey} :
    nameBytes k.name = nameBytes k'.name ↔ foldedName k.name = foldedName k'.name := by
  rw [← map_nameBytes k.name_length.2, ← map_nameBytes k'.name_length.2]
  exact (List.map_inj_right toUInt16_injective).symm

theorem length_nameBytes_le (k : StoreKey) : (nameBytes k.name).length ≤ 32 := by
  have hle : (nameBytes k.name).length ≤ (getStringUtf8 256 k.name).length :=
    (List.takeWhile_sublist _).length_le
  have := k.name_length.2
  simp only [getStringUtf8, List.length_map, List.length_take] at hle
  omega

/-! ## Hexadecimal names -/

/-- In a large buffer nothing is cut off. -/
theorem encodeHexLoop_eq {outSize : Nat} : ∀ {oi : Nat} {s : List UInt8},
    oi + 2 * s.length + 1 < outSize → encodeHexLoop outSize oi s = s.flatMap hexByte
  | _, [], _ => rfl
  | oi, b :: bs, h => by
    rw [List.length_cons] at h
    rw [encodeHexLoop, if_pos (by lia), encodeHexLoop_eq (by lia), List.flatMap_cons]

/-- **Decoding inverts encoding.** -/
theorem decodeHexLoop_eq {outSize : Nat} : ∀ {oi : Nat} {s : List UInt8}, oi + s.length < outSize →
    decodeHexLoop outSize oi (s.flatMap hexByte) = some s
  | _, [], _ => rfl
  | oi, b :: bs, h => by
    rw [List.length_cons] at h
    have hb := b.toNat_lt
    have hscan : scanHex (hexDigit (b.toNat / 16)) (hexDigit (b.toNat % 16)) = some b.toNat := by
      rw [scanHex, hexVal_hexDigit (by omega), hexVal_hexDigit (by omega)]
      exact congrArg some (by omega)
    rw [List.flatMap_cons, hexByte, List.cons_append, List.cons_append, List.nil_append,
      decodeHexLoop, if_pos (by omega), hscan]
    dsimp only
    rw [decodeHexLoop_eq (by omega), Option.map_some, UInt8.ofNat_toNat]

theorem length_flatMap_hexByte (s : List UInt8) : (s.flatMap hexByte).length = 2 * s.length := by
  induction s with
  | nil => rfl
  | cons b bs ih =>
    rw [List.flatMap_cons, List.length_append, ih, List.length_cons]
    have : (hexByte b).length = 2 := rfl
    omega

theorem encodeHex_nameBytes (k : StoreKey) :
    encodeHex 512 (nameBytes k.name) = (nameBytes k.name).flatMap hexByte := by
  have := length_nameBytes_le k
  exact encodeHexLoop_eq (by omega)

theorem decodeHex_encodeHex (k : StoreKey) :
    decodeHex 256 (encodeHex 512 (nameBytes k.name)) = some (nameBytes k.name) := by
  have := length_nameBytes_le k
  rw [encodeHex_nameBytes, decodeHex, length_flatMap_hexByte, if_neg (by omega)]
  exact decodeHexLoop_eq (by omega)

/-! ## The parts of a file name -/

/-- The separator is in no number and no encoded name. -/
theorem sep_notMem_decimal (x : Int) : (95 : UInt8) ∉ decimal x := by
  intro h
  rcases decimal_range h with h | ⟨-, h⟩
  · exact absurd h (by decide)
  · exact absurd h (by decide)

theorem sep_notMem_encodeHex (k : StoreKey) : (95 : UInt8) ∉ encodeHex 512 (nameBytes k.name) := by
  intro h
  rw [encodeHex_nameBytes] at h
  obtain ⟨b, -, hb⟩ := List.mem_flatMap.1 h
  rcases hexByte_range hb with ⟨-, h⟩ | ⟨h, -⟩
  · exact absurd h (by decide)
  · exact absurd h (by decide)

/-- Two texts that begin with a suite's prefix. -/
theorem suitePrefix_append_inj {x y : Int} {s t : List UInt8}
    (h : suitePrefix x ++ s = suitePrefix y ++ t) : x = y ∧ s = t := by
  simp only [suitePrefix, List.append_assoc] at h
  obtain ⟨hnum, hrest⟩ := append_sep_inj (c := 95) (sep_notMem_decimal x) (sep_notMem_decimal y)
    (List.append_cancel_left h)
  exact ⟨decimal_injective hnum, hrest⟩

theorem extensionSuffix_injective : Function.Injective extensionSuffix := by
  intro x y h
  exact decimal_injective (List.append_cancel_right (List.append_cancel_left h))

/-- **A file name tells the suite, the folded name and the extension.** -/
theorem storeFileName_inj {k k' : StoreKey} : storeFileName k = storeFileName k' ↔
    k.suiteId = k'.suiteId ∧ k.extension = k'.extension ∧
      foldedName k.name = foldedName k'.name := by
  constructor
  · intro h
    obtain ⟨hsuite, hrest⟩ := suitePrefix_append_inj h
    obtain ⟨hname, hext⟩ := append_sep_inj (c := 95) (sep_notMem_encodeHex k)
      (sep_notMem_encodeHex k') hrest
    refine ⟨hsuite, extensionSuffix_injective (congrArg (List.cons 95) hext), ?_⟩
    have hdecoded := decodeHex_encodeHex k
    rw [hname, decodeHex_encodeHex] at hdecoded
    exact (nameBytes_inj.1 (Option.some.inj hdecoded)).symm
  · rintro ⟨hsuite, hext, hname⟩
    rw [storeFileName, storeFileName, hsuite, hext, nameBytes_inj.2 hname]

theorem fullPath_inj {dir n n' : List UInt8} (h : (dir ++ (ascii "/" ++ n)).length < 512)
    (h' : (dir ++ (ascii "/" ++ n')).length < 512) : fullPath dir n = fullPath dir n' ↔ n = n' := by
  rw [fullPath, fullPath, snprintf, snprintf, List.take_of_length_le (by omega),
    List.take_of_length_le (by omega)]
  simp

/-- **Distinct stores use distinct files** exactly when suite, extension or folded name differ. -/
theorem distinct_files_iff {dir : List UInt8} {k k' : StoreKey} (h : PathFits dir k)
    (h' : PathFits dir k') :
    (buildStorePath dir k ≠ buildStorePath dir k' ∧ Unaffected dir k k') ↔
      k.suiteId ≠ k'.suiteId ∨ k.extension ≠ k'.extension ∨
        foldedName k.name ≠ foldedName k'.name := by
  have hpath : buildStorePath dir k ≠ buildStorePath dir k' ↔ k.suiteId ≠ k'.suiteId ∨
      k.extension ≠ k'.extension ∨ foldedName k.name ≠ foldedName k'.name := by
    rw [Ne, buildStorePath, buildStorePath, fullPath_inj h h', storeFileName_inj]
    tauto
  rw [← hpath]
  refine ⟨fun h => h.1, fun hne => ⟨hne, fun fs data => ?_⟩⟩
  exact ⟨if_neg hne.symm, if_neg hne.symm, if_neg hne.symm⟩

/-- The store of suite 1 with the given name. -/
def dbFile (name : List UInt16) (h : 1 ≤ name.length ∧ name.length ≤ 32) : StoreKey where
  suiteId := 1
  name := name
  name_length := h
  extension := 0

/-- The stores `a` and `b`, in a directory `/rms`. -/
theorem distinct_files_ascii :
    buildStorePath (ascii "/rms") (dbFile [97] (by decide)) ≠
      buildStorePath (ascii "/rms") (dbFile [98] (by decide)) ∧
    Unaffected (ascii "/rms") (dbFile [97] (by decide)) (dbFile [98] (by decide)) :=
  (distinct_files_iff (by decide) (by decide)).2 (.inr (.inr (by decide)))

/-- **The names `é` and `ü` share a file**: both are an underscore in it. -/
theorem shared_file : ¬ ∀ (dir : List UInt8) (k k' : StoreKey), PathFits dir k → PathFits dir k' →
    k ≠ k' → buildStorePath dir k ≠ buildStorePath dir k' := by
  intro h
  refine h (ascii "/rms") (dbFile [0xE9] (by decide)) (dbFile [0xFC] (by decide)) (by decide)
    (by decide) (by decide) ?_
  rfl

end FroggyKVM.Rms
