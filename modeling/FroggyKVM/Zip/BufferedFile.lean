/-
# FroggyKVM.Zip.BufferedFile — a file read through a buffer (`BufferedFile.cpp`).

`file_pos` is the position behind the bytes in the buffer, and `index` the place of the next byte in
it.  The handle of the file is shared, so every read of it begins with a seek to `file_pos`.
-/
import FroggyKVM.Lib.Buffer
import FroggyKVM.Lib.MachineInt

namespace FroggyKVM.Zip

def BUFFERSIZE : Nat := 4096

inductive Origin where
  | SEEK_SET
  | SEEK_CUR
  | SEEK_END
  deriving DecidableEq

/-! ## The file -/

/-- An open file with the position of its handle. -/
structure OsFile where
  length : Nat
  byte : Nat → UInt8
  pos : Nat

/-- The position that an offset stands for. -/
def OsFile.destination (f : OsFile) (offset : Int) : Origin → Int
  | .SEEK_SET => offset
  | .SEEK_CUR => f.pos + offset
  | .SEEK_END => f.length + offset

/-- `OsFile_seek`: the new position, or −1 when there is no such position. -/
def OsFile.seek (f : OsFile) (offset : Int) (origin : Origin) : OsFile × Int :=
  if f.destination offset origin < 0 then (f, -1)
  else
    ({ f with pos := (f.destination offset origin).toNat }, f.destination offset origin)

/-- `OsFile_read` to the start of a buffer.  What it returns when it is asked for a negative number
of bytes is for the system to say: −1 if `fails`, else 0. -/
def OsFile.read (fails : Bool) (f : OsFile) (dest : Buffer UInt8) (count : Int) :
    Except MemFault (OsFile × Buffer UInt8 × Int) :=
  if count < 0 then .ok (f, dest, if fails then -1 else 0)
  else do
    let n := min count.toNat (f.length - f.pos)
    let dest ← dest.write 0 n fun k => f.byte (f.pos + k)
    return ({ f with pos := f.pos + n }, dest, n)

/-! ## The buffer -/

structure BufferedFile where
  filePointer : OsFile
  atEof : Bool := false
  dataBuffer : Buffer UInt8
  bufferSize : Int := BUFFERSIZE
  fileSize : Int
  index : Int := 0
  count : Int := 0
  filePos : Int := 0

namespace BufferedFile

variable (fails : Bool)

/-- `allocate` and `open`; `raw` is what a new array holds. -/
def opened (f : OsFile) (raw : Nat → UInt8) : BufferedFile :=
  { filePointer := f, dataBuffer := { length := BUFFERSIZE, data := raw }, fileSize := f.length }

/-- `last_unread_file_pos`. -/
def lastUnreadFilePos (b : BufferedFile) : Int := b.filePos - (b.count - b.index)

/-- `refill_buffer`. -/
def refillBuffer (b : BufferedFile) : Except MemFault BufferedFile :=
  if b.atEof then .ok b
  else do
    let max := b.fileSize - b.filePos
    let bytesToRead := if b.bufferSize > max then max else b.bufferSize
    let (f, _) := b.filePointer.seek b.filePos .SEEK_SET
    let (f, fb, countRead) ← f.read fails b.dataBuffer bytesToRead
    return { b with
      filePointer := f
      dataBuffer := fb
      count := countRead
      filePos := b.filePos + countRead
      index := 0
      atEof := b.atEof || decide (countRead ≤ 0) }

/-- The first part of a round of `get_bytes`: the bytes copied from the buffer; `memcpy` of a
negative number of bytes is no access inside. -/
def copyOut (b : BufferedFile) (num : Int) : Except MemFault (BufferedFile × List UInt8) :=
  let numToRead := if num > b.count - b.index then b.count - b.index else num
  if numToRead = 0 then .ok (b, [])
  else if 0 ≤ b.index ∧ 0 ≤ numToRead then do
    let bytes ← b.dataBuffer.slice b.index.toNat numToRead.toNat
    return ({ b with index := b.index + numToRead }, bytes)
  else .error .outOfRange

/-- The loop of `get_bytes`, with `total_read` and the bytes at `buffer`. -/
def getLoop : Nat → BufferedFile → Int → Int → List UInt8 →
    Except MemFault (BufferedFile × Int × List UInt8)
  | 0, _, _, _, _ => .error .outOfFuel
  | fuel + 1, b, num, totalRead, buffer =>
    if b.atEof = false ∧ num > 0 then do
      let (b, bytes) ← b.copyOut num
      let num := num - bytes.length
      let b ← if num > 0 then b.refillBuffer fails else .ok b
      getLoop fuel b num (totalRead + bytes.length) (buffer ++ bytes)
    else .ok (b, totalRead, buffer)

/-- `get_bytes`, buffered: the result and the bytes. -/
def getBytes (b : BufferedFile) (num : Int) : Except MemFault (BufferedFile × Int × List UInt8) :=
  b.getLoop fails (num.toNat + 2) num 0 []

/-- The end of `seek`: the buffer is flushed. -/
def flush (b : BufferedFile) (offset : Int) (origin : Origin) : BufferedFile × Int :=
  let (f, result) := b.filePointer.seek offset origin
  ({ b with
    filePointer := f
    count := 0
    index := 0
    atEof := b.atEof && !decide (b.filePos < b.fileSize) }, result)

/-- `seek`. -/
def seek (b : BufferedFile) (offset : Int) (origin : Origin) : BufferedFile × Int :=
  let ndx := b.index
  let cnt := b.count
  match origin with
  | .SEEK_CUR =>
    if cnt > 0 then
      if i32 (offset + ndx) ≥ 0 ∧ i32 (offset + ndx) < cnt then
        ({ b with index := i32 (ndx + offset) }, 0)
      else
        let offset := i32 (offset - (cnt - ndx))
        { b with filePos := i32 (b.filePos + offset) }.flush offset origin
    else b.flush offset origin
  | .SEEK_SET =>
    if cnt > 0 ∧ offset ≥ b.filePos - cnt ∧ offset < b.filePos then
      ({ b with index := cnt - (b.filePos - offset) }, 0)
    else { b with filePos := offset }.flush offset origin
  | .SEEK_END =>
    if cnt > 0 ∧ cnt = b.fileSize ∧ cnt + offset ≥ 0 then
      ({ b with index := cnt + offset }, 0)
    else { b with filePos := i32 (b.fileSize + offset) }.flush offset origin

end BufferedFile

end FroggyKVM.Zip
