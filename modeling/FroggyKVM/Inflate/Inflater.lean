/-
# FroggyKVM.Inflate.Inflater — the inflater, one loop iteration at a time.

`Inflater` with its base class `FileDecoder`, as the product build compiles them: without the
`GUARANTEE`s, and with an empty `ziperr`.  A step of the machine runs from one loop test of the
source to the next; an access outside an array is a fault.
-/
import FroggyKVM.Inflate.Tables
import FroggyKVM.Lib.MachineInt

namespace FroggyKVM.Inflate

def LITXLEN_BASE : Nat := 257
def DICTIONARY_SIZE : Nat := 32768
def INFLATER_INPUT_BUFFER : Nat := 32768
def INFLATER_OUTPUT_BUFFER : Nat := 65536
def INFLATER_OUTPUT_LIMIT : Nat := 36864
def EXTRA_INPUT_BYTES : Nat := 4
def EXTRA_OUTPUT_BYTES : Nat := 260
def MAX_ZIP_EXTRA_LENGTH_BITS : Nat := 5
def MAX_ZIP_EXTRA_DISTANCE_BITS : Nat := 13
def MAX_ZIP_DISTANCE_CODE : Nat := 29
def codelenBufSize : Nat := 286 + 32

def llExtraBits : List Nat :=
  [0, 0, 0, 0, 0, 0, 0, 0, 1, 1, 1, 1, 2, 2, 2, 2, 3, 3, 3, 3, 4, 4, 4, 4, 5, 5, 5, 5, 0]

def llLengthBase : List Nat :=
  [3, 4, 5, 6, 7, 8, 9, 10, 11, 13, 15, 17, 19, 23, 27, 31, 35, 43, 51, 59, 67, 83, 99, 115, 131,
   163, 195, 227, 258]

def distExtraBits : List Nat :=
  [0, 0, 0, 0, 1, 1, 2, 2, 3, 3, 4, 4, 5, 5, 6, 6, 7, 7, 8, 8, 9, 9, 10, 10, 11, 11, 12, 12, 13, 13]

def distBase : List Nat :=
  [1, 2, 3, 4, 5, 7, 9, 13, 17, 25, 33, 49, 65, 97, 129, 193, 257, 385, 513, 769, 1025, 1537, 2049,
   3073, 4097, 6145, 8193, 12289, 16385, 24577]

/-- The order in which the code lengths of the code length alphabet are given. -/
def ccodeIdx : List Nat := [16, 17, 18, 0, 8, 7, 9, 6, 10, 5, 11, 4, 12, 3, 13, 2, 14, 1, 15]

/-- `BTYPE_..`. -/
inductive BlockType where
  | noCompression
  | fixedHuffman
  | dynaHuffman
  | invalid
  | unknown
  deriving DecidableEq, Repr

def BlockType.ofBits : Nat → BlockType
  | 0 => .noCompression
  | 1 => .fixedHuffman
  | 2 => .dynaHuffman
  | _ => .invalid

/-- `INFLATE_..`: what `do_inflate` returns. -/
inductive Status where
  | error
  | more
  | complete
  deriving DecidableEq, Repr

/-! ## The decoder and its file -/

/-- An open file; a read ends at its end. -/
structure File where
  length : Nat
  byte : Nat → UInt8

/-- What the statements about the decoder refer to.  The code has none of it: the compressed length
is not stored, and the code lengths are gone when a block's tables are built. -/
structure Track where
  compLen : Nat
  /-- The offset in the compressed data of the first byte in the input buffer. -/
  base : Nat := 0
  litLens : List Nat := []
  distLens : List Nat := []

structure Inflater where
  fileHandle : Option File
  filePos : Nat
  fileSize : Int
  bytesRemain : Int
  incremental : Bool
  lastBlock : Bool := false
  expectedCrc : Nat
  blockType : BlockType := .unknown
  inBuffer : Option (Buffer UInt8)
  outBuffer : Option (Buffer UInt8)
  lengthBuffer : Option (Buffer Nat) := none
  distanceBuffer : Option (Buffer Nat) := none
  inOffset : Nat := 0
  inDataSize : Nat := 0
  inData : Nat := 0
  outOffset : Nat := 0
  outDumped : Nat := 0
  track : Track

/-- The array behind a field; there is none behind a null reference. -/
def deref {α : Type} : Option (Buffer α) → Except MemFault (Buffer α)
  | some b => .ok b
  | none => .error .outOfRange

/-- A new array; the heap throws when the length is negative or too great. -/
def newArray (length : Int) (data : Nat → UInt8) : Option (Buffer UInt8) :=
  if 0 ≤ length ∧ length ≤ 0x08000000 then some { length := length.toNat, data := data } else none

/-- The bytes that a read leaves in its destination. -/
def File.read (file : File) (pos count : Nat) (old : Nat → UInt8) (k : Nat) : UInt8 :=
  if k < min count (file.length - pos) then file.byte (pos + k) else old k

/-- `Inflater::allocate`; without a file the caller fills the input buffer, with `raw`. -/
def allocate (handle : Option File) (pos : Nat) (size compLen : Int) (expectedCrc : Nat)
    (incremental : Bool) (raw : Nat → UInt8) : Option Inflater := do
  let inSize := i32 (compLen + EXTRA_INPUT_BYTES)
  let inSize :=
    if incremental then min inSize (INFLATER_INPUT_BUFFER + EXTRA_INPUT_BYTES : Nat) else inSize
  let outSize :=
    if incremental then min size INFLATER_OUTPUT_BUFFER + EXTRA_OUTPUT_BYTES else size
  let inflater : Inflater :=
    { fileHandle := handle, filePos := pos, fileSize := size, bytesRemain := size
      incremental := incremental, expectedCrc := expectedCrc, inBuffer := none
      outBuffer := none, track := { compLen := compLen.toNat } }
  let inflater ← (
    if 0 ≤ compLen then do
      let inBuf ← newArray inSize raw
      match handle with
      | some file =>
        let inBuf := { inBuf with data := file.read pos inBuf.length raw }
        return { inflater with
          inBuffer := some inBuf
          filePos := pos + min inBuf.length (file.length - pos) }
      | none => return { inflater with inBuffer := some inBuf }
    else some inflater)
  if 0 ≤ outSize then do
    let outBuf ← newArray outSize raw
    return { inflater with outBuffer := some outBuf }
  else return inflater

namespace Inflater

/-- `get_bytes_raw` into `dest` from index `i` on; the last result is `bytes_read`. -/
def getBytesRaw (f : Inflater) (dest : Buffer UInt8) (i count : Nat) :
    Except MemFault (Inflater × Buffer UInt8 × Nat) :=
  match f.fileHandle with
  | some file => do
    let bytesRead := min count (file.length - f.filePos)
    let dest ← dest.write i bytesRead fun k => file.byte (f.filePos + k)
    return ({ f with filePos := f.filePos + bytesRead }, dest, bytesRead)
  | none => .error .outOfRange

/-- `refill_input`; the new array is not cleared. -/
def refillInput (f : Inflater) (raw : Nat → UInt8) (processed : Nat) : Except MemFault Inflater :=
  match f.fileHandle with
  | none => .ok f
  | some _ => do
    let inBuf ← deref f.inBuffer
    if processed ≤ inBuf.length then do
      let remainder := inBuf.length - processed
      let newInBuffer : Buffer UInt8 := { length := inBuf.length, data := raw }
      let newInBuffer ← newInBuffer.copy 0 inBuf processed remainder
      let (f, newInBuffer, _) ← f.getBytesRaw newInBuffer remainder processed
      return { f with
        inBuffer := some newInBuffer
        track := { f.track with base := f.track.base + processed } }
    else .error .outOfRange

end Inflater

/-! ## Reading bits -/

/-- The locals of `LOAD_IN`; the bytes are those of the input buffer. -/
structure In where
  inLength : Nat
  inOffset : Nat
  inDataSize : Nat
  inData : Nat

namespace In

/-- The loop of `NEEDBITS`. -/
def needLoop (b : Buffer UInt8) (j : Nat) : Nat → In → Except MemFault In
  | 0, _ => .error .outOfFuel
  | fuel + 1, i =>
    if i.inDataSize < j then do
      let byte ← b.get i.inOffset
      needLoop b j fuel { i with
        inData := i.inData ||| u32 (byte.toNat <<< i.inDataSize)
        inDataSize := i.inDataSize + 8
        inOffset := i.inOffset + 1 }
    else .ok i

/-- `NEEDBITS`. -/
def needBits (i : In) (b : Buffer UInt8) (j : Nat) : Except MemFault In := needLoop b j (j + 1) i

/-- `NEXTBITS`. -/
def nextBits (i : In) (j : Nat) : Nat := i.inData % 2 ^ j

/-- `DUMPBITS`. -/
def dumpBits (i : In) (j : Nat) : In :=
  { i with inData := i.inData >>> j, inDataSize := i.inDataSize - j }

/-- `GET_HUFFMAN_ENTRY`; without an entry its function returns an error. -/
def getEntry (i : In) (table : Buffer Nat) : Except MemFault (Option (Nat × In)) := do
  let huff ← getHuffmanEntry table i.inData
  if huff = 0 then return none
  return some (huff >>> 4, i.dumpBits (huff &&& 0xF))

end In

namespace Inflater

/-- `LOAD_IN`. -/
def loadIn (f : Inflater) : Except MemFault In := do
  let b ← deref f.inBuffer
  return { inLength := sub32 b.length (if f.incremental then EXTRA_INPUT_BYTES else 0)
           inOffset := f.inOffset, inDataSize := f.inDataSize, inData := f.inData }

/-- `STORE_IN`. -/
def storeIn (f : Inflater) (i : In) : Inflater :=
  { f with inOffset := i.inOffset, inDataSize := i.inDataSize, inData := i.inData }

/-- `outLength` of `LOAD_OUT`. -/
def outLength (f : Inflater) (out : Buffer UInt8) : Nat :=
  sub32 out.length (if f.incremental then EXTRA_OUTPUT_BYTES else 0)

/-- `STORE_OUT`. -/
def storeOut (f : Inflater) (outOffset : Nat) : Inflater := { f with outOffset := outOffset }

/-- `if (inOffset >= inLength) ..`: the check for input overflow. -/
def checkInput (f : Inflater) (raw : Nat → UInt8) (i : In) : Except MemFault (Inflater × In) :=
  if i.inLength ≤ i.inOffset then do
    let f ← f.refillInput raw i.inOffset
    return (f, { i with inOffset := 0 })
  else return (f, i)

end Inflater

/-! ## The points between steps -/

/-- The locals of `decode_dynamic_huffman_tables`. -/
structure Dynamic where
  hlit : Nat
  hdist : Nat
  hclen : Nat
  input : In
  codelen : Buffer Nat

/-- What a request returned. -/
inductive Result where
  | none
  /-- `read_completely`: the array, or `NULL`. -/
  | array (bytes : Option (Buffer UInt8))
  /-- `get_bytes`: the result, and the bytes at the destination. -/
  | count (result : Int) (dest : List UInt8)
  /-- `readBytes` without a call to `get_bytes`. -/
  | endOfData

/-- Where the decoder is. -/
inductive Point where
  /-- Between requests, with the last status and result. -/
  | idle (status : Status) (result : Result)
  /-- At the `switch` of `do_inflate`. -/
  | switch
  /-- At the start of `decode_dynamic_huffman_tables`. -/
  | tables
  /-- At its loop over the code length alphabet. -/
  | codeLengthCode (d : Dynamic) (i : Nat)
  /-- At its loop over the code lengths, with the table of the code length code for `lens`. -/
  | codeLengths (d : Dynamic) (lens : List Nat) (ccodes : Buffer Nat) (codePtr : Nat)
  /-- At the loop of `inflate_huffman`. -/
  | huffman (fixed : Bool) (i : In) (outOffset : Nat)
  /-- Behind a call of `do_inflate`. -/
  | returned (status : Status)

/-- The function that called `do_inflate`. -/
inductive Caller where
  | readCompletely
  /-- `get_bytes`, with the bytes still to deliver and those delivered. -/
  | getBytes (count : Nat) (dest : List UInt8)

structure Machine where
  inflater : Inflater
  point : Point := .idle .more .none
  caller : Caller := .readCompletely

end FroggyKVM.Inflate
