/-
# FroggyKVM.Zip.ReadSafety — the memory accesses of the launcher's JAR reader.

`checkedReadJarEntry` is `gb300_read_jar_entry` with every access to a block of memory compared with
the size the block was allocated with; its loop over the central directory takes fuel.  All sizes
and offsets come out of the file, and most sums that may wrap are followed by a read that then fails.
One is not: **a stored entry with a size close to `2 ^ 32` gets a block of less than 128 bytes**, and
the rest of the file is read into it.
-/
import FroggyKVM.Lib.Buffer
import FroggyKVM.Zip.ReadEntry

namespace FroggyKVM.Zip

/-! ## Checked accesses -/

/-- One byte of a block. -/
def byteOf (b : List UInt8) (i : Nat) : Except MemFault Nat :=
  if i < b.length then .ok (ch b i) else .error .outOfRange

/-- `read_u16_le`. -/
def shOf (b : List UInt8) (i : Nat) : Except MemFault Nat := do
  let lo ← byteOf b i
  let hi ← byteOf b (i + 1)
  return lo + 256 * hi

/-- `read_u32_le`. -/
def lgOf (b : List UInt8) (i : Nat) : Except MemFault Nat := do
  let lo ← shOf b i
  let hi ← shOf b (i + 2)
  return lo + 65536 * hi

/-- The comparison of four bytes with a signature, which stops at the first one that differs. -/
def sigOf (b : List UInt8) (i c d : Nat) : Except MemFault Bool := do
  let x ← byteOf b i
  if x = 0x50 then do
    let x ← byteOf b (i + 1)
    if x = 0x4b then do
      let x ← byteOf b (i + 2)
      if x = c then do
        let x ← byteOf b (i + 3)
        return x == d
      else return false
    else return false
  else return false

/-- `memcpy` out of a block. -/
def sliceOf (b : List UInt8) (i n : Nat) : Except MemFault (List UInt8) :=
  if i + n ≤ b.length then .ok (bytesAt b i n) else .error .outOfRange

/-- A write of `n` bytes to the start of a block of `size` bytes. -/
def writeTo (size n : Nat) : Except MemFault Unit :=
  if n ≤ size then .ok () else .error .outOfRange

/-- `fread` of up to `n` bytes into a block of `size` bytes. -/
def fread (size : Nat) (file : List UInt8) (offset n : Nat) : Except MemFault (List UInt8) := do
  writeTo size (bytesAt file offset n).length
  return bytesAt file offset n

section Accesses
variable {b : List UInt8} {i n : Nat}

theorem byteOf_eq (h : i < b.length) : byteOf b i = .ok (ch b i) := if_pos h

theorem shOf_eq (h : i + 1 < b.length) : shOf b i = .ok (sh b i) := by
  rw [shOf, byteOf_eq (by omega), byteOf_eq h]
  rfl

theorem lgOf_eq (h : i + 3 < b.length) : lgOf b i = .ok (lg b i) := by
  rw [lgOf, shOf_eq (by omega), shOf_eq (by omega)]
  rfl

theorem sigOf_eq {c d : Nat} (h : i + 3 < b.length) : sigOf b i c d = .ok (isSig b i c d) := by
  rw [sigOf, byteOf_eq (by omega), byteOf_eq (by omega), byteOf_eq (by omega), byteOf_eq h, isSig]
  simp only [ok_bind, pure_eq_ok]
  by_cases h₀ : ch b i = 0x50 <;> by_cases h₁ : ch b (i + 1) = 0x4b <;>
    by_cases h₂ : ch b (i + 2) = c <;> simp [h₀, h₁, h₂]

theorem sliceOf_eq (h : i + n ≤ b.length) : sliceOf b i n = .ok (bytesAt b i n) := if_pos h

/-- A block that holds as much as is asked for is large enough. -/
theorem fread_eq {size : Nat} (file : List UInt8) (offset : Nat) (h : n ≤ size) :
    fread size file offset n = .ok (bytesAt file offset n) := by
  have hle := length_bytesAt_le file offset n
  rw [fread, writeTo, if_pos (by omega)]
  rfl

end Accesses

/-! ## The checked reader -/

/-- The search for the end record. -/
def checkedSearchEnd (searchBuf : List UInt8) : Nat → Except MemFault (Option Nat)
  | 0 => .ok none
  | n + 1 => do
    if ← sigOf searchBuf n 5 6 then return some n else checkedSearchEnd searchBuf n

/-- The last `searchLen` bytes of the file, in a block of that size. -/
def readTail (file : List UInt8) (searchLen : Nat) : Except MemFault (List UInt8) :=
  fread searchLen file (file.length - searchLen) searchLen

def checkedFindEnd (mallocOk : Nat → Bool) (file : List UInt8) :
    Except MemFault (Option (List UInt8 × Nat)) :=
  let searchLen := if file.length < 2048 then file.length else 2048
  if mallocOk searchLen then do
    let searchBuf ← readTail file searchLen
    match ← checkedSearchEnd searchBuf (searchLen - 22 + 1) with
    | some i => return some (searchBuf, i)
    | none =>
      if searchLen < file.length then
        let searchLen := if file.length < 65558 then file.length else 65558
        if mallocOk searchLen then do
          let searchBuf ← readTail file searchLen
          match ← checkedSearchEnd searchBuf (searchLen - 22 + 1) with
          | some i => return some (searchBuf, i)
          | none => return none
        else return none
      else return none
  else return none

/-- A stored entry: a block of `comp_size + 128` bytes, computed as an `uint32_t`. -/
def checkedReadStored (mallocOk : Nat → Bool) (file : List UInt8) (dataOffset compSize : Nat) :
    Except MemFault (Option (List UInt8)) :=
  if mallocOk (u32 (compSize + 128)) then do
    let data ← fread (u32 (compSize + 128)) file dataOffset compSize
    if data.length = compSize then do
      -- the terminating zero
      writeTo (u32 (compSize + 128)) (compSize + 1)
      return some data
    else return none
  else return none

/-- A deflated entry, with a block for the compressed bytes and one for the others. -/
def checkedReadDeflated (mallocOk : Nat → Bool) (puff : Nat → List UInt8 → Nat × List UInt8)
    (file : List UInt8) (dataOffset compSize uncompSize : Nat) :
    Except MemFault (Option (List UInt8)) :=
  let maxUncomp := if 0 < uncompSize ∧ uncompSize < 1048576 then uncompSize else 65536
  if mallocOk compSize ∧ mallocOk (maxUncomp + 128) then do
    let data ← fread compSize file dataOffset compSize
    if data.length = compSize then do
      let (puffErr, result) := puff maxUncomp data
      writeTo (maxUncomp + 128) result.length
      if puffErr = 0 ∧ 0 < result.length then do
        writeTo (maxUncomp + 128) (result.length + 1)
        return some result
      else return none
    else return none
  else return none

/-- The data of the entry that has been chosen; the local header is read into 30 bytes. -/
def checkedReadData (mallocOk : Nat → Bool) (puff : Nat → List UInt8 → Nat × List UInt8)
    (file : List UInt8) (method compSize uncompSize localHeaderOffset : Nat) :
    Except MemFault (Option (List UInt8)) :=
  if canSeek localHeaderOffset then do
    let locHdr ← fread 30 file localHeaderOffset 30
    if locHdr.length = 30 then do
      if ← sigOf locHdr 0 3 4 then do
        let locNameLen ← shOf locHdr 26
        let locExtraLen ← shOf locHdr 28
        let dataOffset := u32 (localHeaderOffset + 30 + locNameLen + locExtraLen)
        if canSeek dataOffset then
          if method = 0 then checkedReadStored mallocOk file dataOffset compSize
          else if method = 8 then
            checkedReadDeflated mallocOk puff file dataOffset compSize uncompSize
          else return none
        else return none
      else return none
    else return none
  else return none

/-- The name of an entry, copied into 256 bytes. -/
def checkedName (cdBuf : List UInt8) (pos nameLen : Nat) : Except MemFault (List UInt8) :=
  let ncopy := if nameLen < 255 then nameLen else 255
  do
    let name ← sliceOf cdBuf (pos + 46) ncopy
    writeTo 256 (ncopy + 1)
    return name

/-- The loop over the central directory, at the entry number `entry`, an `uint16_t`. -/
def checkedLoop (mallocOk : Nat → Bool) (puff : Nat → List UInt8 → Nat × List UInt8)
    (file cdBuf target : List UInt8) (totalEntries : Nat) :
    Nat → (entry pos : Nat) → Except MemFault (Option (List UInt8))
  | 0, _, _ => .error .outOfFuel
  | fuel + 1, entry, pos =>
    if entry < totalEntries ∧ u32 (pos + 46) ≤ cdBuf.length then do
      let sig ← sigOf cdBuf pos 1 2
      if sig = false then .ok none
      else do
        let method ← shOf cdBuf (pos + 10)
        let compSize ← lgOf cdBuf (pos + 20)
        let uncompSize ← lgOf cdBuf (pos + 24)
        let nameLen ← shOf cdBuf (pos + 28)
        let extraLen ← shOf cdBuf (pos + 30)
        let commentLen ← shOf cdBuf (pos + 32)
        let localHeaderOffset ← lgOf cdBuf (pos + 42)
        if cdBuf.length < u32 (pos + 46 + nameLen) then .ok none
        else do
          let filename ← checkedName cdBuf pos nameLen
          if nameMatches filename target then
            checkedReadData mallocOk puff file method compSize uncompSize localHeaderOffset
          else
            checkedLoop mallocOk puff file cdBuf target totalEntries fuel ((entry + 1) % 65536)
              (u32 (pos + (46 + nameLen + extraLen + commentLen)))
    else .ok none

/-- `gb300_read_jar_entry` with its accesses checked. -/
def checkedReadJarEntry (mallocOk : Nat → Bool) (puff : Nat → List UInt8 → Nat × List UInt8)
    (file entryName : List UInt8) : Except MemFault (Option (List UInt8)) :=
  let target := (cString entryName).dropWhile (· = 47)
  if file.length < 22 ∨ 2147483648 ≤ file.length then .ok none
  else do
    match ← checkedFindEnd mallocOk file with
    | none => return none
    | some (searchBuf, eocdOffset) =>
      let totalEntries ← shOf searchBuf (eocdOffset + 10)
      let cdSize ← lgOf searchBuf (eocdOffset + 12)
      let cdOffset ← lgOf searchBuf (eocdOffset + 16)
      if file.length < u32 (cdOffset + cdSize) ∨ cdSize = 0 then return none
      else if mallocOk cdSize ∧ canSeek cdOffset then do
        let cdBuf ← fread cdSize file cdOffset cdSize
        if cdBuf.length = cdSize then
          checkedLoop mallocOk puff file cdBuf target totalEntries 65536 0 0
        else return none
      else return none

/-! ## The entry that is read -/

/-- The position of the first entry accepted, in a walk over `left` entries. -/
def select (cdBuf target : List UInt8) : (left pos : Nat) → Option Nat
  | 0, _ => none
  | left + 1, pos =>
    if u32 (pos + 46) ≤ cdBuf.length ∧ isSig cdBuf pos 1 2 then
      let nameLen := sh cdBuf (pos + 28)
      if cdBuf.length < u32 (pos + 46 + nameLen) then none
      else if nameMatches (bytesAt cdBuf (pos + 46) nameLen) target then some pos
      else select cdBuf target left
        (u32 (pos + (46 + nameLen + sh cdBuf (pos + 30) + sh cdBuf (pos + 32))))
    else none

/-- The central directory that is read into memory, and the number of its entries. -/
def openDirectory (mallocOk : Nat → Bool) (file : List UInt8) : Option (List UInt8 × Nat) :=
  if file.length < 22 ∨ 2147483648 ≤ file.length then none
  else
    match findEnd mallocOk file with
    | none => none
    | some (searchBuf, eocdOffset) =>
      let cdSize := lg searchBuf (eocdOffset + 12)
      let cdOffset := lg searchBuf (eocdOffset + 16)
      if file.length < u32 (cdOffset + cdSize) ∨ cdSize = 0 then none
      else if mallocOk cdSize ∧ canSeek cdOffset ∧ (bytesAt file cdOffset cdSize).length = cdSize then
        some (bytesAt file cdOffset cdSize, sh searchBuf (eocdOffset + 10))
      else none

/-- The directory and the position in it of the entry that is read. -/
def selected (mallocOk : Nat → Bool) (file entryName : List UInt8) : Option (List UInt8 × Nat) :=
  match openDirectory mallocOk file with
  | none => none
  | some (cdBuf, totalEntries) =>
    (select cdBuf ((cString entryName).dropWhile (· = 47)) totalEntries 0).map fun pos => (cdBuf, pos)

/-- The offset of the data behind a local header. -/
def dataOffsetOf (file : List UInt8) (localHeaderOffset : Nat) : Nat :=
  u32 (localHeaderOffset + 30 + sh (bytesAt file localHeaderOffset 30) 26 +
    sh (bytesAt file localHeaderOffset 30) 28)

/-- A stored entry of at least `2 ^ 32 - 128` bytes whose local header is there and which gets its
block, of what `compSize + 128` is above `2 ^ 32`, with more of the file behind the header. -/
def StoredOverruns (mallocOk : Nat → Bool) (file : List UInt8)
    (method compSize localHeaderOffset : Nat) : Prop :=
  method = 0 ∧ 4294967168 ≤ compSize ∧ mallocOk (compSize - 4294967168) = true ∧
  (bytesAt file localHeaderOffset 30).length = 30 ∧
  isSig (bytesAt file localHeaderOffset 30) 0 3 4 = true ∧
  dataOffsetOf file localHeaderOffset + (compSize - 4294967168) < file.length

/-- The entry that is read overruns its block. -/
def Overruns (mallocOk : Nat → Bool) (file entryName : List UInt8) : Prop :=
  ∃ cdBuf pos, selected mallocOk file entryName = some (cdBuf, pos) ∧
    StoredOverruns mallocOk file (sh cdBuf (pos + 10)) (lg cdBuf (pos + 20)) (lg cdBuf (pos + 42))

section Reader
variable {mallocOk : Nat → Bool} {puff : Nat → List UInt8 → Nat × List UInt8}
  {file cdBuf target : List UInt8}

theorem readLoop_eq_select (left pos : Nat) : readLoop mallocOk puff file cdBuf target left pos =
    (select cdBuf target left pos).bind fun pos => readData mallocOk puff file
      (sh cdBuf (pos + 10)) (lg cdBuf (pos + 20)) (lg cdBuf (pos + 24)) (lg cdBuf (pos + 42)) := by
  induction left generalizing pos with
  | zero => rfl
  | succ left ih =>
    rw [readLoop, select]
    dsimp only
    split
    · split
      · rfl
      · split
        · rfl
        · exact ih _
    · rfl

/-- The reader reads the entry selected. -/
theorem gb300ReadJarEntry_eq_selected (entryName : List UInt8) :
    gb300ReadJarEntry mallocOk puff file entryName =
      (selected mallocOk file entryName).bind fun at_ => readData mallocOk puff file
        (sh at_.1 (at_.2 + 10)) (lg at_.1 (at_.2 + 20)) (lg at_.1 (at_.2 + 24))
        (lg at_.1 (at_.2 + 42)) := by
  rw [gb300ReadJarEntry, selected, openDirectory]
  dsimp only
  split
  · rfl
  · cases findEnd mallocOk file with
    | none => rfl
    | some found =>
      dsimp only
      split
      · rfl
      · split
        · rw [readLoop_eq_select, Option.bind_map]
          rfl
        · rfl

/-! ## The buffers of the search and of the directory -/

theorem length_bytesAt (file : List UInt8) (i n : Nat) :
    (bytesAt file i n).length = min n (file.length - i) := by
  rw [bytesAt, List.length_take, List.length_drop]

theorem searchEnd_lt {b : List UInt8} {n i : Nat} (h : searchEnd b n = some i) : i < n := by
  induction n with
  | zero => exact absurd h (Option.some_ne_none i).symm
  | succ n ih =>
    rw [searchEnd] at h
    split at h
    · exact Nat.lt_succ_of_le (Nat.le_of_eq (Option.some.inj h).symm)
    · exact Nat.lt_succ_of_lt (ih h)

theorem checkedSearchEnd_eq {b : List UInt8} {n : Nat} (h : n + 3 ≤ b.length) :
    checkedSearchEnd b n = .ok (searchEnd b n) := by
  induction n with
  | zero => rfl
  | succ n ih =>
    rw [checkedSearchEnd, searchEnd, sigOf_eq (by omega), ok_bind, ih (by omega)]
    split <;> rfl

theorem readTail_eq {n : Nat} :
    readTail file n = .ok (bytesAt file (file.length - n) n) := fread_eq file _ (Nat.le_refl n)

theorem length_tail {n : Nat} (h : n ≤ file.length) :
    (bytesAt file (file.length - n) n).length = n := by
  rw [length_bytesAt]
  omega

/-- A window of the search has room for an end record and lies in the file. -/
theorem window_bounds (h : 22 ≤ file.length) {n : Nat} (hn : 22 ≤ n) :
    22 ≤ (if file.length < n then file.length else n) ∧
      (if file.length < n then file.length else n) ≤ file.length := by
  split <;> omega

theorem checkedFindEnd_eq (h : 22 ≤ file.length) :
    checkedFindEnd mallocOk file = .ok (findEnd mallocOk file) := by
  have hsearch : ∀ n, 22 ≤ n ∧ n ≤ file.length →
      checkedSearchEnd (bytesAt file (file.length - n) n) (n - 22 + 1) =
        .ok (searchEnd (bytesAt file (file.length - n) n) (n - 22 + 1)) := fun n hn =>
    checkedSearchEnd_eq (by rw [length_tail hn.2]; omega)
  have hfirst := hsearch _ (window_bounds h (n := 2048) (by omega))
  have hsecond := hsearch _ (window_bounds h (n := 65558) (by omega))
  rw [checkedFindEnd, findEnd]
  dsimp only
  rw [readTail_eq, readTail_eq, ok_bind, ok_bind, hfirst, hsecond, ok_bind, ok_bind]
  clear hfirst hsecond
  generalize (if file.length < 2048 then file.length else 2048) = n
  generalize (if file.length < 65558 then file.length else 65558) = m
  split
  · cases searchEnd (bytesAt file (file.length - n) n) (n - 22 + 1) with
    | some i => rfl
    | none =>
      dsimp only
      split
      · split
        · cases searchEnd (bytesAt file (file.length - m) m) (m - 22 + 1) <;> rfl
        · rfl
      · rfl
  · rfl

/-- The end record lies in its buffer. -/
theorem findEnd_bound (h : 22 ≤ file.length) {searchBuf : List UInt8} {i : Nat}
    (hfound : findEnd mallocOk file = some (searchBuf, i)) : i + 22 ≤ searchBuf.length := by
  have hsearch : ∀ n, 22 ≤ n ∧ n ≤ file.length → ∀ i,
      searchEnd (bytesAt file (file.length - n) n) (n - 22 + 1) = some i →
      i + 22 ≤ (bytesAt file (file.length - n) n).length := fun n hn i hi => by
    have := searchEnd_lt hi
    rw [length_tail hn.2]
    omega
  have hfirst := hsearch _ (window_bounds h (n := 2048) (by omega))
  have hsecond := hsearch _ (window_bounds h (n := 65558) (by omega))
  rw [findEnd] at hfound
  dsimp only at hfound
  generalize (if file.length < 2048 then file.length else 2048) = n at hfirst hfound
  generalize (if file.length < 65558 then file.length else 65558) = m at hsecond hfound
  split at hfound
  · split at hfound
    next j hj =>
      obtain ⟨rfl, rfl⟩ := Prod.mk.inj (Option.some.inj hfound)
      exact hfirst _ hj
    next =>
      split at hfound
      · split at hfound
        · obtain ⟨j, hj, heq⟩ := Option.map_eq_some_iff.1 hfound
          obtain ⟨rfl, rfl⟩ := Prod.mk.inj heq
          exact hsecond _ hj
        · exact absurd hfound (Option.some_ne_none _).symm
      · exact absurd hfound (Option.some_ne_none _).symm
  · exact absurd hfound (Option.some_ne_none _).symm

/-! ## The data -/

theorem lg_lt (b : List UInt8) (n : Nat) : lg b n < 4294967296 := by
  have := sh_lt b n
  have := sh_lt b (n + 2)
  rw [lg]
  omega

/-- A stored entry whose block is as large as what is read into it. -/
theorem checkedReadStored_eq {dataOffset compSize : Nat} (hsmall : file.length < 2147483648)
    (hroom : mallocOk (u32 (compSize + 128)) = true →
      (bytesAt file dataOffset compSize).length ≤ u32 (compSize + 128)) :
    checkedReadStored mallocOk file dataOffset compSize =
      .ok (if mallocOk (u32 (compSize + 128)) ∧ (bytesAt file dataOffset compSize).length = compSize
        then some (bytesAt file dataOffset compSize) else none) := by
  rw [checkedReadStored]
  by_cases hok : mallocOk (u32 (compSize + 128)) = true
  · rw [if_pos hok, fread, writeTo, if_pos (hroom hok)]
    simp only [ok_bind, pure_eq_ok]
    by_cases hall : (bytesAt file dataOffset compSize).length = compSize
    · -- what was read is part of the file, so that the size did not wrap
      have hle : compSize < 2147483648 := by
        rw [length_bytesAt] at hall
        omega
      rw [if_pos hall, if_pos ⟨hok, hall⟩, writeTo, u32, Nat.mod_eq_of_lt (by omega),
        if_pos (by omega)]
      rfl
    · rw [if_neg hall, if_neg fun h => hall h.2]
  · rw [if_neg hok, if_neg fun h => hok h.1]
    rfl

/-- A deflated entry. -/
theorem checkedReadDeflated_eq {dataOffset compSize uncompSize : Nat}
    (hpuff : ∀ n c, (puff n c).2.length ≤ n) :
    checkedReadDeflated mallocOk puff file dataOffset compSize uncompSize =
      .ok (let maxUncomp := if 0 < uncompSize ∧ uncompSize < 1048576 then uncompSize else 65536
        let data := bytesAt file dataOffset compSize
        if mallocOk compSize ∧ mallocOk (maxUncomp + 128) ∧ data.length = compSize then
          let (puffErr, result) := puff maxUncomp data
          if puffErr = 0 ∧ 0 < result.length then some result else none
        else none) := by
  rw [checkedReadDeflated]
  dsimp only
  generalize (if 0 < uncompSize ∧ uncompSize < 1048576 then uncompSize else 65536) = maxUncomp
  have hwrite := hpuff maxUncomp (bytesAt file dataOffset compSize)
  rw [fread_eq file dataOffset (Nat.le_refl compSize)]
  by_cases hok : mallocOk compSize = true ∧ mallocOk (maxUncomp + 128) = true
  · rw [if_pos hok, ok_bind]
    by_cases hall : (bytesAt file dataOffset compSize).length = compSize
    · rw [if_pos hall, if_pos (show mallocOk compSize = true ∧ mallocOk (maxUncomp + 128) = true ∧
        (bytesAt file dataOffset compSize).length = compSize from ⟨hok.1, hok.2, hall⟩)]
      generalize puff maxUncomp (bytesAt file dataOffset compSize) = out at hwrite ⊢
      obtain ⟨puffErr, result⟩ := out
      dsimp only at hwrite ⊢
      rw [writeTo, if_pos (by omega), ok_bind]
      by_cases hout : puffErr = 0 ∧ 0 < result.length
      · rw [if_pos hout, if_pos hout, writeTo, if_pos (by omega), ok_bind]
        rfl
      · rw [if_neg hout, if_neg hout]
        rfl
    · rw [if_neg hall, if_neg fun h => hall h.2.2]
      rfl
  · rw [if_neg hok, if_neg fun h => hok ⟨h.1, h.2.1⟩]
    rfl

/-- The checked reader of the data, once the local header has been accepted. -/
theorem checkedReadData_of_header {method compSize uncompSize localHeaderOffset : Nat}
    (hseek : canSeek localHeaderOffset = true)
    (hlength : (bytesAt file localHeaderOffset 30).length = 30)
    (hsig : isSig (bytesAt file localHeaderOffset 30) 0 3 4 = true) :
    checkedReadData mallocOk puff file method compSize uncompSize localHeaderOffset =
      if canSeek (dataOffsetOf file localHeaderOffset) then
        if method = 0 then
          checkedReadStored mallocOk file (dataOffsetOf file localHeaderOffset) compSize
        else if method = 8 then
          checkedReadDeflated mallocOk puff file (dataOffsetOf file localHeaderOffset) compSize uncompSize
        else .ok none
      else .ok none := by
  rw [checkedReadData, if_pos hseek, fread_eq file localHeaderOffset (Nat.le_refl 30), ok_bind,
    if_pos hlength, sigOf_eq (by omega), ok_bind, hsig, if_pos rfl, shOf_eq (by omega), ok_bind,
    shOf_eq (by omega), ok_bind]
  rfl

/-- Without a local header there is nothing to read. -/
theorem checkedReadData_of_not_header {method compSize uncompSize localHeaderOffset : Nat}
    (hheader : ¬(canSeek localHeaderOffset = true ∧ (bytesAt file localHeaderOffset 30).length = 30 ∧
      isSig (bytesAt file localHeaderOffset 30) 0 3 4 = true)) :
    checkedReadData mallocOk puff file method compSize uncompSize localHeaderOffset = .ok none := by
  rw [checkedReadData, fread_eq file localHeaderOffset (Nat.le_refl 30), ok_bind]
  by_cases hseek : canSeek localHeaderOffset = true
  · rw [if_pos hseek]
    by_cases hlength : (bytesAt file localHeaderOffset 30).length = 30
    · rw [if_pos hlength, sigOf_eq (by omega), ok_bind,
        if_neg fun hsig => hheader ⟨hseek, hlength, hsig⟩]
      rfl
    · rw [if_neg hlength]
      rfl
  · rw [if_neg hseek]
    rfl

/-- The data behind a local header, if a `long` can hold its offset. -/
theorem readData_of_header {method compSize uncompSize localHeaderOffset : Nat}
    (hseek : canSeek localHeaderOffset = true)
    (hlength : (bytesAt file localHeaderOffset 30).length = 30)
    (hsig : isSig (bytesAt file localHeaderOffset 30) 0 3 4 = true) :
    readData mallocOk puff file method compSize uncompSize localHeaderOffset =
      let data := bytesAt file (dataOffsetOf file localHeaderOffset) compSize
      if canSeek (dataOffsetOf file localHeaderOffset) = false then none
      else if method = 0 then
        if mallocOk (u32 (compSize + 128)) ∧ data.length = compSize then some data else none
      else if method = 8 then
        let maxUncomp := if 0 < uncompSize ∧ uncompSize < 1048576 then uncompSize else 65536
        if mallocOk compSize ∧ mallocOk (maxUncomp + 128) ∧ data.length = compSize then
          let (puffErr, result) := puff maxUncomp data
          if puffErr = 0 ∧ 0 < result.length then some result else none
        else none
      else none := by
  rw [readData]
  dsimp only
  rw [if_pos ⟨hseek, hlength, hsig⟩]
  rfl

/-- The accesses to a chosen entry stay in their blocks. -/
theorem checkedReadData_eq {method compSize uncompSize localHeaderOffset : Nat}
    (hpuff : ∀ n c, (puff n c).2.length ≤ n) (hsmall : file.length < 2147483648)
    (hcomp : compSize < 4294967296)
    (hroom : ¬ StoredOverruns mallocOk file method compSize localHeaderOffset) :
    checkedReadData mallocOk puff file method compSize uncompSize localHeaderOffset =
      .ok (readData mallocOk puff file method compSize uncompSize localHeaderOffset) := by
  by_cases hheader : canSeek localHeaderOffset = true ∧
      (bytesAt file localHeaderOffset 30).length = 30 ∧
      isSig (bytesAt file localHeaderOffset 30) 0 3 4 = true
  · obtain ⟨hseek, hlength, hsig⟩ := hheader
    rw [checkedReadData_of_header hseek hlength hsig, readData_of_header hseek hlength hsig]
    dsimp only
    by_cases hdata : canSeek (dataOffsetOf file localHeaderOffset) = true
    · have hdata' : ¬ canSeek (dataOffsetOf file localHeaderOffset) = false := by
        rw [hdata]
        exact Bool.noConfusion
      rw [if_pos hdata, if_neg hdata']
      by_cases hstored : method = 0
      · rw [if_pos hstored, if_pos hstored]
        apply checkedReadStored_eq hsmall
        intro hok
        by_contra hmore
        rw [length_bytesAt] at hmore
        by_cases hwrap : compSize < 4294967168
        · rw [u32, Nat.mod_eq_of_lt (by omega)] at hmore
          omega
        · have hu : u32 (compSize + 128) = compSize - 4294967168 := by
            rw [u32]
            omega
          rw [hu] at hok hmore
          exact hroom ⟨hstored, by omega, hok, hlength, hsig, by omega⟩
      · rw [if_neg hstored, if_neg hstored]
        split
        · exact checkedReadDeflated_eq hpuff
        · rfl
    · rw [if_neg hdata, if_pos (Bool.eq_false_iff.2 hdata)]
  · rw [checkedReadData_of_not_header hheader, readData]
    dsimp only
    rw [if_neg hheader]

/-- The block of 32 bits is too small for the part of the file that is read into it. -/
theorem checkedReadData_overruns {method compSize uncompSize localHeaderOffset : Nat}
    (hsmall : file.length < 2147483648) (hcomp : compSize < 4294967296)
    (h : StoredOverruns mallocOk file method compSize localHeaderOffset) :
    checkedReadData mallocOk puff file method compSize uncompSize localHeaderOffset =
      .error .outOfRange := by
  obtain ⟨hstored, hlarge, hok, hlength, hsig, hmore⟩ := h
  have hin : localHeaderOffset + 30 ≤ file.length := by
    rw [length_bytesAt] at hlength
    omega
  have hu : u32 (compSize + 128) = compSize - 4294967168 := by
    rw [u32]
    omega
  rw [checkedReadData_of_header (decide_eq_true (by omega)) hlength hsig,
    if_pos (show canSeek _ = true from decide_eq_true (by omega)), if_pos hstored, checkedReadStored,
    hu, if_pos hok, fread, writeTo, if_neg (by rw [length_bytesAt]; omega)]
  rfl

/-! ## The walk -/

/-- The name in its buffer is cut where the test cuts it. -/
theorem nameMatches_take (name : List UInt8) :
    nameMatches (name.take 255) target = nameMatches name target := by
  rw [nameMatches, nameMatches, List.take_take, Nat.min_self]

/-- **The walk over the directory ends and stays in it**, by induction on the entries to go. -/
theorem checkedLoop_eq {totalEntries : Nat} (hcd : cdBuf.length < 2147483648)
    (htotal : totalEntries < 65536) {left fuel entry pos : Nat} (hleft : entry + left = totalEntries)
    (hfuel : left ≤ fuel) (hpos : pos < 4294967250) :
    checkedLoop mallocOk puff file cdBuf target totalEntries (fuel + 1) entry pos =
      match select cdBuf target left pos with
      | none => .ok none
      | some pos => checkedReadData mallocOk puff file (sh cdBuf (pos + 10)) (lg cdBuf (pos + 20))
          (lg cdBuf (pos + 24)) (lg cdBuf (pos + 42)) := by
  induction left generalizing fuel entry pos with
  | zero =>
    rw [checkedLoop, if_neg (by omega)]
    rfl
  | succ left ih =>
    have hu : u32 (pos + 46) = pos + 46 := Nat.mod_eq_of_lt (by omega)
    rw [checkedLoop, select, hu]
    by_cases hheader : pos + 46 ≤ cdBuf.length
    · rw [if_pos ⟨by omega, hheader⟩, sigOf_eq (by omega), ok_bind]
      by_cases hsig : isSig cdBuf pos 1 2 = true
      · rw [if_neg (by rw [hsig]; exact Bool.noConfusion), shOf_eq (by omega), ok_bind,
          lgOf_eq (by omega), ok_bind, lgOf_eq (by omega), ok_bind, shOf_eq (by omega), ok_bind,
          shOf_eq (by omega), ok_bind, shOf_eq (by omega), ok_bind, lgOf_eq (by omega), ok_bind,
          if_pos (show pos + 46 ≤ cdBuf.length ∧ isSig cdBuf pos 1 2 = true from ⟨hheader, hsig⟩)]
        dsimp only
        have hnameLen := sh_lt cdBuf (pos + 28)
        have hextraLen := sh_lt cdBuf (pos + 30)
        have hcommentLen := sh_lt cdBuf (pos + 32)
        -- sums of a position in the directory and three lengths of 16 bits do not wrap
        rw [show u32 (pos + 46 + sh cdBuf (pos + 28)) = pos + 46 + sh cdBuf (pos + 28) from
          Nat.mod_eq_of_lt (by omega)]
        by_cases hname : cdBuf.length < pos + 46 + sh cdBuf (pos + 28)
        · rw [if_pos hname, if_pos hname]
        · rw [if_neg hname, if_neg hname, checkedName, sliceOf_eq (by split <;> omega), ok_bind, writeTo, if_pos (by split <;> omega), ok_bind,
            pure_eq_ok, ok_bind]
          have hmatch : nameMatches (bytesAt cdBuf (pos + 46)
              (if sh cdBuf (pos + 28) < 255 then sh cdBuf (pos + 28) else 255)) target =
              nameMatches (bytesAt cdBuf (pos + 46) (sh cdBuf (pos + 28))) target := by
            rw [← nameMatches_take (bytesAt cdBuf (pos + 46) (sh cdBuf (pos + 28)))]
            congr 1
            rw [bytesAt, bytesAt, List.take_take]
            congr 1
            split <;> omega
          rw [hmatch]
          by_cases haccept : nameMatches (bytesAt cdBuf (pos + 46) (sh cdBuf (pos + 28))) target = true
          · rw [if_pos haccept, if_pos haccept]
          · rw [if_neg haccept, if_neg haccept, Nat.mod_eq_of_lt (show entry + 1 < 65536 by omega)]
            obtain ⟨fuel, rfl⟩ := Nat.exists_eq_succ_of_ne_zero (show fuel ≠ 0 by omega)
            exact ih (by omega) (by omega) (by rw [u32]; omega)
      · rw [if_pos (Bool.eq_false_iff.2 hsig), if_neg fun h => hsig h.2]
    · rw [if_neg fun h => hheader h.2, if_neg fun h => hheader h.1]

/-! ## All accesses -/

/-- The directory that is read lies in the file, so that the sum compared with the size of the file
has not wrapped. -/
theorem openDirectory_inFile {found : List UInt8 × Nat}
    (h : openDirectory mallocOk file = some found) :
    ∃ searchBuf eocdOffset, findEnd mallocOk file = some (searchBuf, eocdOffset) ∧
      found = (bytesAt file (lg searchBuf (eocdOffset + 16)) (lg searchBuf (eocdOffset + 12)),
        sh searchBuf (eocdOffset + 10)) ∧
      lg searchBuf (eocdOffset + 16) + lg searchBuf (eocdOffset + 12) ≤ file.length := by
  rw [openDirectory] at h
  split at h
  · exact absurd h (Option.some_ne_none _).symm
  · split at h
    · exact absurd h (Option.some_ne_none _).symm
    next searchBuf eocdOffset hfound =>
      dsimp only at h
      split at h
      · exact absurd h (Option.some_ne_none _).symm
      · split at h
        next hsize hall =>
          refine ⟨searchBuf, eocdOffset, hfound, (Option.some.inj h).symm, ?_⟩
          have hlength := hall.2.2
          rw [length_bytesAt] at hlength
          omega
        · exact absurd h (Option.some_ne_none _).symm

/-- **The checked reader reads the entry selected.** -/
theorem checkedReadJarEntry_eq_selected (entryName : List UInt8) :
    checkedReadJarEntry mallocOk puff file entryName =
      match selected mallocOk file entryName with
      | none => .ok none
      | some (cdBuf, pos) => checkedReadData mallocOk puff file (sh cdBuf (pos + 10))
          (lg cdBuf (pos + 20)) (lg cdBuf (pos + 24)) (lg cdBuf (pos + 42)) := by
  rw [checkedReadJarEntry, selected, openDirectory]
  dsimp only
  by_cases hsize : file.length < 22 ∨ 2147483648 ≤ file.length
  · rw [if_pos hsize, if_pos hsize]
  · rw [if_neg hsize, if_neg hsize, checkedFindEnd_eq (by omega), ok_bind]
    cases hfound : findEnd mallocOk file with
    | none => rfl
    | some found =>
      obtain ⟨searchBuf, eocdOffset⟩ := found
      have hbound := findEnd_bound (by omega) hfound
      dsimp only
      rw [shOf_eq (by omega), ok_bind, lgOf_eq (by omega), ok_bind, lgOf_eq (by omega), ok_bind]
      split
      · rfl
      · by_cases hread : mallocOk (lg searchBuf (eocdOffset + 12)) = true ∧
            canSeek (lg searchBuf (eocdOffset + 16)) = true
        · rw [if_pos hread, fread_eq file _ (Nat.le_refl _), ok_bind]
          by_cases hall : (bytesAt file (lg searchBuf (eocdOffset + 16))
              (lg searchBuf (eocdOffset + 12))).length = lg searchBuf (eocdOffset + 12)
          · rw [if_pos hall, if_pos ⟨hread.1, hread.2, hall⟩]
            have htotal := sh_lt searchBuf (eocdOffset + 10)
            rw [checkedLoop_eq (by rw [length_bytesAt]; omega) htotal
              (Nat.zero_add (sh searchBuf (eocdOffset + 10)))
              (Nat.le_of_lt_succ htotal) (by omega)]
            dsimp only
            cases select _ _ (sh searchBuf (eocdOffset + 10)) 0 <;> rfl
          · rw [if_neg hall, if_neg fun h => hall h.2.2]
            rfl
        · rw [if_neg hread, if_neg fun h => hread ⟨h.1, h.2.1⟩]
          rfl

/-- A file of which an entry is selected has a size that a `long` can hold. -/
theorem length_lt_of_selected {entryName : List UInt8} {found : List UInt8 × Nat}
    (h : selected mallocOk file entryName = some found) : file.length < 2147483648 := by
  by_contra hlarge
  rw [selected, openDirectory, if_pos (.inr (Nat.not_lt.1 hlarge))] at h
  exact Option.some_ne_none _ h.symm

/-- **The reader stays in its blocks unless a stored entry overruns its own.**  The walk always ends,
what is read is what the unchecked reader reads, and the directory lies in the file. -/
theorem checkedReadJarEntry_inBounds (hpuff : ∀ n c, (puff n c).2.length ≤ n)
    (entryName : List UInt8) :
    checkedReadJarEntry mallocOk puff file entryName ≠ .error .outOfFuel ∧
    (checkedReadJarEntry mallocOk puff file entryName ≠ .error .outOfRange ↔
      ¬ Overruns mallocOk file entryName) ∧
    (¬ Overruns mallocOk file entryName → checkedReadJarEntry mallocOk puff file entryName =
      .ok (gb300ReadJarEntry mallocOk puff file entryName)) ∧
    (∀ cdBuf totalEntries, openDirectory mallocOk file = some (cdBuf, totalEntries) →
      ∃ cdOffset cdSize, cdOffset + cdSize ≤ file.length ∧ cdBuf = bytesAt file cdOffset cdSize) := by
  have hgood : ¬ Overruns mallocOk file entryName → checkedReadJarEntry mallocOk puff file entryName =
      .ok (gb300ReadJarEntry mallocOk puff file entryName) := by
    intro hroom
    rw [checkedReadJarEntry_eq_selected, gb300ReadJarEntry_eq_selected]
    cases hselected : selected mallocOk file entryName with
    | none => rfl
    | some found =>
      exact checkedReadData_eq hpuff (length_lt_of_selected hselected) (lg_lt _ _)
        fun h => hroom ⟨found.1, found.2, hselected, h⟩
  have hbad : Overruns mallocOk file entryName →
      checkedReadJarEntry mallocOk puff file entryName = .error .outOfRange := by
    rintro ⟨cdBuf, pos, hselected, hover⟩
    rw [checkedReadJarEntry_eq_selected, hselected]
    exact checkedReadData_overruns (length_lt_of_selected hselected) (lg_lt _ _) hover
  refine ⟨?_, ⟨fun h hover => h (hbad hover), fun hroom => ?_⟩, hgood, ?_⟩
  · by_cases hover : Overruns mallocOk file entryName
    · rw [hbad hover]
      decide
    · rw [hgood hover]
      nofun
  · rw [hgood hroom]
    nofun
  · intro cdBuf totalEntries hopen
    obtain ⟨searchBuf, eocdOffset, -, heq, hle⟩ := openDirectory_inFile hopen
    exact ⟨_, _, hle, (Prod.mk.inj heq).1⟩

end Reader

/-- The stored entry of the small archive stays in its block. -/
theorem checkedReadJarEntry_tiny :
    checkedReadJarEntry (fun _ => true) puffEmpty tinyArchive.file [115] = .ok (some [7]) ∧
      ¬ Overruns (fun _ => true) tinyArchive.file [115] := by
  have hread : checkedReadJarEntry (fun _ => true) puffEmpty tinyArchive.file [115] =
      .ok (some [7]) := by decide +kernel
  have hpuff : ∀ n c, (puffEmpty n c).2.length ≤ n := by
    intro n c
    rw [puffEmpty]
    split <;> exact Nat.zero_le n
  refine ⟨hread, ((checkedReadJarEntry_inBounds hpuff [115]).2.1).1 ?_⟩
  rw [hread]
  nofun

/-- A stored entry `a` whose size is given as `2 ^ 32 - 112`, with 20 bytes behind its header. -/
def wrappingJar : List UInt8 :=
  tinyLocalHeader ++ [97] ++ List.replicate 20 1 ++
  [0x50, 0x4b, 1, 2, 20, 0, 20, 0, 0, 0, 0, 0, 0, 0, 0, 0, 0, 0, 0, 0, 0x90, 255, 255, 255,
    20, 0, 0, 0, 1, 0, 0, 0, 0, 0, 0, 0, 0, 0, 0, 0, 0, 0, 0, 0, 0, 0, 97] ++
  [0x50, 0x4b, 5, 6, 0, 0, 0, 0, 1, 0, 1, 0, 47, 0, 0, 0, 51, 0, 0, 0, 0, 0]

/-- **The entry overruns its block**, which has 16 bytes. -/
theorem checkedReadJarEntry_overruns : ¬ ∀ (mallocOk : Nat → Bool)
    (puff : Nat → List UInt8 → Nat × List UInt8) (file entryName : List UInt8),
    (∀ n c, (puff n c).2.length ≤ n) →
    checkedReadJarEntry mallocOk puff file entryName ≠ .error .outOfRange := by
  intro h
  refine h (fun _ => true) puffEmpty wrappingJar [97] ?_ (by decide +kernel)
  intro n c
  rw [puffEmpty]
  split <;> exact Nat.zero_le n

end FroggyKVM.Zip
