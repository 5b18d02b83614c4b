/-
# FroggyKVM.Rms.Index — the store file, its headers, and the linear record index.

`RecordStoreUtil`, `IntToIntMapper`, the state of `RecordStoreImpl`, and `RecordStoreIndex` of the
linear index (`midp/src/rms`).  The file is a list of bytes; reads and writes are at offsets, since
every access of the source seeks first.  No file operation fails by itself; `io` is the
`IOException` the code throws when a read comes back short.

Java `int`s are `Int`s, with `i32` where a sum may leave the 32-bit range.  A scan of the block
chain takes fuel: a damaged header could make the source's loop run forever.
-/
import FroggyKVM.Lib.MachineInt
import FroggyKVM.Lib.Splice

namespace FroggyKVM.Rms

/-! ## Layout constants -/

def DB_HEADER_SIZE : Int := 40
def BLOCK_HEADER_SIZE : Int := 8
def COMPACT_BUFFER_SIZE : Int := 1024

/-- "midp-rms"; also used as pad bytes. -/
def DB_SIGNATURE : List UInt8 := [0x6D, 0x69, 0x64, 0x70, 0x2D, 0x72, 0x6D, 0x73]

/-- `RecordStoreUtil.calculateBlockSize`. -/
def calculateBlockSize (dataSize : Int) : Int :=
  let remainder := Int.tmod dataSize BLOCK_HEADER_SIZE
  if remainder = 0 then i32 (dataSize + BLOCK_HEADER_SIZE)
  else i32 (dataSize + (BLOCK_HEADER_SIZE - remainder) + BLOCK_HEADER_SIZE)

/-! ## Headers -/

/-- The fields of `dbHeader` behind the signature. -/
structure DbHeader where
  authMode : Int := 0
  nextId : Int := 1
  numLive : Int := 0
  version : Int := 0
  /-- the two halves of the `long` -/
  lastModified : Int × Int := (0, 0)
  dataSize : Int := 0
  freeSize : Int := 0
  deriving DecidableEq, Repr

/-- The 40 bytes of the database header. -/
def DbHeader.bytes (h : DbHeader) : List UInt8 :=
  DB_SIGNATURE ++ (intBytes h.authMode ++ (intBytes h.nextId ++ (intBytes h.numLive ++
    (intBytes h.version ++ (intBytes h.lastModified.1 ++ (intBytes h.lastModified.2 ++
      (intBytes h.dataSize ++ intBytes h.freeSize)))))))

/-- The header read from the first 40 bytes of a file, if the signature is right. -/
def DbHeader.read (bytes : List UInt8) : Option DbHeader :=
  if bytes.take 8 = DB_SIGNATURE then
    some { authMode := getInt bytes 8, nextId := getInt bytes 12, numLive := getInt bytes 16
           version := getInt bytes 20, lastModified := (getInt bytes 24, getInt bytes 28)
           dataSize := getInt bytes 32, freeSize := getInt bytes 36 }
  else none

/-- The header of a block: a record id, or `-1` for a free block, and the size of its data. -/
structure BlockHeader where
  id : Int
  size : Int
  deriving DecidableEq, Repr

def BlockHeader.bytes (h : BlockHeader) : List UInt8 := intBytes h.id ++ intBytes h.size

/-- `dbFile.seek(offset)` and `dbFile.read(header)`; `none` when fewer than eight bytes are left. -/
def readHeader (file : List UInt8) (offset : Int) : Option BlockHeader :=
  if 0 ≤ offset ∧ offset + BLOCK_HEADER_SIZE ≤ file.length then
    some { id := getInt file offset.toNat, size := getInt file (offset.toNat + 4) }
  else none

/-! ## The offset cache -/

/-- `IntToIntMapper`: the used part of its two arrays, as pairs of a key and its value.  No key
occurs twice. -/
structure IntToIntMapper where
  elements : List (Int × Int) := []
  nodup : (elements.map Prod.fst).Nodup := by simp

/-- The value the offset cache returns for an unknown key. -/
def INVALID_OFFSET : Int := -1

/-- `elementAt`, on the pairs. -/
def elementAt (key : Int) : List (Int × Int) → Int
  | [] => INVALID_OFFSET
  | (k, v) :: es => if key = k then v else elementAt key es

/-- `setElementAt`, on the pairs. -/
def setElementAt (obj key : Int) : List (Int × Int) → List (Int × Int)
  | [] => [(key, obj)]
  | (k, v) :: es => if key = k then (k, obj) :: es else (k, v) :: setElementAt obj key es

/-- `removeElementAt`, on the pairs: the last pair takes the place of the removed one. -/
def removeElementAt (key : Int) (es : List (Int × Int)) : List (Int × Int) :=
  match es.findIdx? fun e => key = e.1, es.getLast? with
  | some i, some last => (es.set i last).dropLast
  | _, _ => es

theorem setElementAt_keys (obj key : Int) :
    ∀ es : List (Int × Int), (setElementAt obj key es).map Prod.fst =
      if key ∈ es.map Prod.fst then es.map Prod.fst else es.map Prod.fst ++ [key]
  | [] => rfl
  | (k, v) :: es => by
    unfold setElementAt
    by_cases h : key = k
    · simp [h]
    · by_cases hk : key ∈ es.map Prod.fst <;> simp [h, hk, setElementAt_keys obj key es]

/-- Removal leaves the other pairs, in some order. -/
theorem removeElementAt_perm {key : Int} {l r : List (Int × Int)} (v : Int)
    (hl : key ∉ l.map Prod.fst) :
    (removeElementAt key (l ++ (key, v) :: r)).Perm (l ++ r) := by
  have hfind : (l ++ (key, v) :: r).findIdx? (fun e => key = e.1) = some l.length := by
    rw [List.findIdx?_append, List.findIdx?_eq_none_iff.2, List.findIdx?_cons]
    · simp
    · intro e he
      simp only [decide_eq_false_iff_not]
      rintro rfl
      exact hl (List.mem_map_of_mem he)
  unfold removeElementAt
  rw [hfind, List.getLast?_append, List.getLast?_cons]
  simp only [Option.some_or, List.set_append_right _ _ (Nat.le_refl _), Nat.sub_self,
    List.set_cons_zero]
  rcases List.eq_nil_or_concat r with rfl | ⟨r, last, rfl⟩
  · simp
  · rw [List.dropLast_append_of_ne_nil (by simp), List.dropLast_cons_of_ne_nil (by simp)]
    simpa using (List.perm_append_singleton last r).symm.append_left l |>.trans (by simp)

theorem removeElementAt_of_notMem {key : Int} {es : List (Int × Int)}
    (h : key ∉ es.map Prod.fst) : removeElementAt key es = es := by
  have hfind : es.findIdx? (fun e => key = e.1) = none := by
    rw [List.findIdx?_eq_none_iff]
    intro e he
    simp only [decide_eq_false_iff_not]
    rintro rfl
    exact h (List.mem_map_of_mem he)
  unfold removeElementAt
  rw [hfind]

/-- What removal leaves, whatever it moves: the keys stay distinct, and are those other than
`key`. -/
theorem removeElementAt_spec (key : Int) {es : List (Int × Int)} (h : (es.map Prod.fst).Nodup) :
    ((removeElementAt key es).map Prod.fst).Nodup ∧
      ∀ e, e ∈ removeElementAt key es ↔ e ∈ es ∧ e.1 ≠ key := by
  by_cases hk : key ∈ es.map Prod.fst
  · obtain ⟨⟨k, v⟩, he, hkey⟩ := List.mem_map.1 hk
    obtain rfl : k = key := hkey
    obtain ⟨l, r, rfl⟩ := List.append_of_mem he
    rw [List.map_append, List.map_cons, List.nodup_middle, List.nodup_cons, List.mem_append,
      not_or, ← List.map_append] at h
    have hperm := removeElementAt_perm (r := r) v h.1.1
    refine ⟨(hperm.map _).nodup_iff.2 h.2, fun e => ?_⟩
    rw [hperm.mem_iff]
    have hne : e ∈ l ++ r → e.1 ≠ k := by
      rintro hmem rfl
      have hkey := List.mem_map_of_mem (f := Prod.fst) hmem
      rw [List.map_append, List.mem_append] at hkey
      exact hkey.elim h.1.1 h.1.2
    constructor
    · intro hmem
      exact ⟨by simp only [List.mem_append, List.mem_cons] at hmem ⊢; tauto, hne hmem⟩
    · rintro ⟨hmem, hkey⟩
      rcases List.mem_append.1 hmem with hl | hr
      · exact List.mem_append_left _ hl
      · rcases List.mem_cons.1 hr with rfl | hr
        · exact absurd rfl hkey
        · exact List.mem_append_right _ hr
  · rw [removeElementAt_of_notMem hk]
    refine ⟨h, fun e => ⟨fun he => ⟨he, ?_⟩, And.left⟩⟩
    rintro rfl
    exact hk (List.mem_map_of_mem he)

theorem elementAt_of_mem {k v : Int} :
    ∀ {es : List (Int × Int)}, (es.map Prod.fst).Nodup → (k, v) ∈ es → elementAt k es = v
  | (k', v') :: es, h, hmem => by
    rw [List.map_cons, List.nodup_cons] at h
    unfold elementAt
    rcases List.mem_cons.1 hmem with heq | htail
    · cases heq
      rw [if_pos rfl]
    · rw [if_neg (fun heq => h.1 (List.mem_map.2 ⟨_, htail, heq⟩)), elementAt_of_mem h.2 htail]

theorem elementAt_of_notMem {k : Int} :
    ∀ {es : List (Int × Int)}, k ∉ es.map Prod.fst → elementAt k es = INVALID_OFFSET
  | [], _ => rfl
  | (k', v') :: es, h => by
    rw [List.map_cons, List.mem_cons, not_or] at h
    rw [elementAt, if_neg h.1, elementAt_of_notMem h.2]

theorem elementAt_setElementAt (obj key k : Int) :
    ∀ es : List (Int × Int), elementAt k (setElementAt obj key es) =
      if k = key then obj else elementAt k es
  | [] => by simp [setElementAt, elementAt]
  | (k', v') :: es => by
    have ih := elementAt_setElementAt obj key k es
    by_cases h₁ : key = k' <;> by_cases h₂ : k = key
    · simp [setElementAt, elementAt, h₁, h₂]
    · simp [setElementAt, elementAt, ← h₁, h₂]
    · subst h₂
      rw [if_pos rfl] at ih
      simp [setElementAt, elementAt, h₁, ih]
    · simp [setElementAt, elementAt, ih, h₁, h₂]

/-! ## The cache as a structure -/

/-- `OffsetCache`: offsets by record id, and the offset after which no id is cached. -/
structure OffsetCache extends IntToIntMapper where
  LastSeenOffset : Int := 0

/-- `NO_OFFSET`. -/
def NO_OFFSET : Int := 0

namespace OffsetCache

def elementAt (c : OffsetCache) (key : Int) : Int := Rms.elementAt key c.elements

def setElementAt (c : OffsetCache) (obj key : Int) : OffsetCache :=
  { c with
    elements := Rms.setElementAt obj key c.elements
    nodup := by
      rw [setElementAt_keys]
      split_ifs with h
      · exact c.nodup
      · simpa using c.nodup.concat h }

def removeElementAt (c : OffsetCache) (key : Int) : OffsetCache :=
  { c with
    elements := Rms.removeElementAt key c.elements
    nodup := (removeElementAt_spec key c.nodup).1 }

@[simp] theorem elementAt_setElementAt (c : OffsetCache) (obj key k : Int) :
    (c.setElementAt obj key).elementAt k = if k = key then obj else c.elementAt k :=
  Rms.elementAt_setElementAt obj key k c.elements

theorem elementAt_removeElementAt (c : OffsetCache) (key k : Int) :
    (c.removeElementAt key).elementAt k = if k = key then INVALID_OFFSET else c.elementAt k := by
  obtain ⟨hnodup, hmem⟩ := removeElementAt_spec key c.nodup
  simp only [elementAt, removeElementAt]
  split_ifs with h
  · refine elementAt_of_notMem fun hk => ?_
    obtain ⟨e, he, rfl⟩ := List.mem_map.1 hk
    exact ((hmem e).1 he).2 h
  · by_cases hk : k ∈ c.elements.map Prod.fst
    · obtain ⟨⟨_, v⟩, he, rfl⟩ := List.mem_map.1 hk
      rw [elementAt_of_mem hnodup ((hmem _).2 ⟨he, h⟩), elementAt_of_mem c.nodup he]
    · rw [elementAt_of_notMem hk, elementAt_of_notMem]
      rintro hk'
      obtain ⟨e, he, rfl⟩ := List.mem_map.1 hk'
      exact hk (List.mem_map_of_mem ((hmem e).1 he).1)

end OffsetCache

end FroggyKVM.Rms
