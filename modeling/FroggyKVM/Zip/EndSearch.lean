/-
# FroggyKVM.Zip.EndSearch — the backward search for the end of the central directory.

`getJarInfo` and `find_end_of_central_header` look through a window of the file from the end: a byte
that is no part of the signature, or a certain part of it, says how far to go back, and when the
pointer has left the window to the front, the window is moved.  The two differ in how they read the
file, in the size of the window, and in what they make of the header.
-/
import FroggyKVM.Zip.BufferedFile
import FroggyKVM.Zip.Directory

namespace FroggyKVM.Zip

def LOCHDRSIZ : Nat := 30
def ENDHDRSIZ : Nat := 22
def TMPBUFFERSIZE : Nat := 64

/-! ## Reading a file -/

/-- The functions of a `FileObj`, or those of a buffered file. -/
structure FileReader (F : Type) where
  size : F → Int
  seek : F → Int → Origin → F × Int
  read : F → Buffer UInt8 → Int → Except MemFault (F × Buffer UInt8 × Int)

def OsFile.reader : FileReader OsFile where
  size f := f.length
  seek := OsFile.seek
  read := OsFile.read true

def BufferedFile.reader (fails : Bool) : FileReader BufferedFile where
  size b := b.fileSize
  seek := BufferedFile.seek
  read b dest num := do
    let (b, result, bytes) ← b.getBytes fails num
    let dest ← dest.write 0 bytes.length fun k => bytes.getD k 0
    return (b, dest, result)

namespace FileReader

variable {F : Type} (r : FileReader F)

/-- A `seek` and a read with the tests of their results. -/
def fetch (f : F) (buffer : Buffer UInt8) (offset : Int) (origin : Origin) (count : Int) :
    Except MemFault (Option (F × Buffer UInt8)) :=
  let (f, result) := r.seek f offset origin
  if result < 0 then .ok none
  else do
    let (f, buffer, n) ← r.read f buffer count
    return if n = count then some (f, buffer) else none

/-- Whether there is a local header at an offset, which `seek` takes as a signed number. -/
def localHeader (f : F) (offset : Nat) : Except MemFault Bool := do
  match ← r.fetch f { length := 4, data := fun _ => 0 } (i32 offset) .SEEK_SET 4 with
  | none => return false
  | some (_, sig) =>
    let b0 ← sig.get 0
    let b1 ← sig.get 1
    let b2 ← sig.get 2
    let b3 ← sig.get 3
    return decide (b0 = 80 ∧ b1 = 75 ∧ b2 = 3 ∧ b3 = 4)

end FileReader

/-! ## The window -/

/-- The local variables of the search; `bp` is an index into `buffer`. -/
structure EndScan (F : Type) where
  file : F
  length : Int
  buffer : Buffer UInt8
  currentOffset : Int
  bp : Int

/-- What the search ends with: a header with its `ENDSIZ` and `ENDOFF`, nothing left to read, or a
read that has failed. -/
inductive Outcome (F : Type) where
  | header (file : F) (endpos : Int) (endsiz endoff : Nat)
  | nothingLeft
  | cannotRead

namespace EndScan

variable {F : Type}

/-- `bp[n]`. -/
def byteAt (s : EndScan F) (n : Nat) : Except MemFault Nat :=
  if 0 ≤ s.bp + n then do
    let b ← s.buffer.get (s.bp + n).toNat
    return b.toNat
  else .error .outOfRange

/-- `SH(bp, n)`. -/
def sh (s : EndScan F) (n : Nat) : Except MemFault Nat := do
  let lo ← s.byteAt n
  let hi ← s.byteAt (n + 1)
  return lo + 256 * hi

/-- `LG(bp, n)`. -/
def lg (s : EndScan F) (n : Nat) : Except MemFault Nat := do
  let lo ← s.sh n
  let hi ← s.sh (n + 2)
  return lo + 65536 * hi

/-- `bp[1] == 'K' && bp[2] == 5 && bp[3] == 6`. -/
def isSignature (s : EndScan F) : Except MemFault Bool := do
  let b1 ← s.byteAt 1
  if b1 = 75 then
    let b2 ← s.byteAt 2
    if b2 = 5 then
      let b3 ← s.byteAt 3
      return decide (b3 = 6)
    else return false
  else return false

/-- How far to go back from a byte. -/
def skip (b : Nat) : Nat := if b = 6 then 3 else if b = 5 then 2 else if b = 75 then 1 else 4

/-- `case 'P'`: the header at `bp`, if the length it implies is the real one. -/
def header (s : EndScan F) : Except MemFault (Option (Outcome F)) := do
  let signature ← s.isSignature
  if signature then
    let endpos := s.currentOffset + s.bp
    let endcom ← s.sh 20
    if endpos + ENDHDRSIZ + endcom = s.length then
      let endsiz ← s.lg 12
      let endoff ← s.lg 16
      return some (.header s.file endpos endsiz endoff)
    else return none
  else return none

/-- `minOffset`. -/
def minOffset (length : Int) : Int :=
  if length - (0xFFFF + ENDHDRSIZ) < LOCHDRSIZ + CENHDRSIZ then LOCHDRSIZ + CENHDRSIZ
  else length - (0xFFFF + ENDHDRSIZ)

/-- The rest of a round when `bp` is in front of the buffer. -/
def moveWindow (r : FileReader F) (s : EndScan F) :
    Except MemFault (Except (Outcome F) (EndScan F)) :=
  let count := s.currentOffset - minOffset s.length
  if count ≤ 0 then .ok (.error .nothingLeft)
  else
    let available : Int := s.buffer.length - ENDHDRSIZ + -s.bp
    let count := if count > available then available else count
    let currentOffset := s.currentOffset - count
    if 0 ≤ count ∧ count ≤ s.buffer.length then do
      let buffer ← s.buffer.copy count.toNat s.buffer 0 (s.buffer.length - count.toNat)
      match ← r.fetch s.file buffer currentOffset .SEEK_SET count with
      | none => return .error .cannotRead
      | some (file, buffer) =>
        return .ok { s with
          file := file
          buffer := buffer
          currentOffset := currentOffset
          bp := s.bp + count }
    else .error .outOfRange

/-- A round of `for (;;)`. -/
def round (r : FileReader F) (s : EndScan F) :
    Except MemFault (Except (Outcome F) (EndScan F)) := do
  let b ← s.byteAt 0
  let found ← if b = 80 then s.header else pure none
  match found with
  | some outcome => return .error outcome
  | none =>
    let s := { s with bp := s.bp - skip b }
    if s.bp < 0 then s.moveWindow r else return .ok s

def loop (r : FileReader F) : Nat → EndScan F → Except MemFault (Outcome F)
  | 0, _ => .error .outOfFuel
  | fuel + 1, s => do
    match ← s.round r with
    | .error outcome => return outcome
    | .ok s => loop r fuel s

end EndScan

variable {F : Type}

/-- The search with a window of `size` bytes; `raw` is what is in the memory of the window. -/
def searchEndHeader (r : FileReader F) (size : Nat) (raw : Nat → UInt8) (f : F) :
    Except MemFault (Outcome F) := do
  match ← r.fetch f { length := size, data := raw } (-(ENDHDRSIZ : Int)) .SEEK_END ENDHDRSIZ with
  | none => return .cannotRead
  | some (file, buffer) =>
    EndScan.loop r ((r.size f).toNat + 1)
      { file := file
        length := r.size f
        buffer := buffer
        currentOffset := r.size f - ENDHDRSIZ
        bp := 0 }

/-! ## The two functions -/

/-- `(unsigned long) x`. -/
def unsignedLong (x : Int) : Nat := (x % 4294967296).toNat

/-- `cenOffset` and `locOffset` of a header. -/
def cenOffset (endpos : Int) (endsiz : Nat) : Nat := unsignedLong (endpos - endsiz)
def locOffset (endpos : Int) (endsiz endoff : Nat) : Nat :=
  unsignedLong (cenOffset endpos endsiz - endoff)

/-- `JarInfo`. -/
structure JarInfo where
  status : Int := 0
  cenOffset : Nat := 0
  locOffset : Nat := 0
  deriving DecidableEq

/-- `getJarInfo`; the first read fails with −1 and a later one with −4. -/
def getJarInfo (raw : Nat → UInt8) (f : OsFile) : Except MemFault JarInfo := do
  match ← searchEndHeader OsFile.reader (ENDHDRSIZ * 2) raw f with
  | .header file endpos endsiz endoff =>
    let isLocal ← OsFile.reader.localHeader file (locOffset endpos endsiz endoff)
    return if isLocal then
      { cenOffset := cenOffset endpos endsiz, locOffset := locOffset endpos endsiz endoff }
    else { status := -2 }
  | .nothingLeft => return { status := -3 }
  | .cannotRead => return { status := if f.length < ENDHDRSIZ then -1 else -4 }

/-- `find_end_of_central_header`: the result, and `cenOffset` and `locOffset` of
`raw_current_entry()` if they are set. -/
def findEndOfCentralHeader (fails : Bool) (raw : Nat → UInt8) (b : BufferedFile) :
    Except MemFault (Bool × Option (Nat × Nat)) := do
  match ← searchEndHeader (BufferedFile.reader fails) TMPBUFFERSIZE raw b with
  | .header file endpos endsiz endoff =>
    let isLocal ← (BufferedFile.reader fails).localHeader file (locOffset endpos endsiz endoff)
    return (true, if isLocal then
      some (cenOffset endpos endsiz, locOffset endpos endsiz endoff) else none)
  | .nothingLeft | .cannotRead => return (false, none)

end FroggyKVM.Zip
