/-
# FroggyKVM.Inflate.DoInflate — the steps of the inflater.

One definition for each loop body of `Inflate.cpp`, and the machine that runs them: `do_inflate` at
its `switch`, `inflate_stored`, an iteration of `inflate_huffman`, the parts of
`decode_dynamic_huffman_tables`, and the loops of `get_bytes` and `read_completely` around
`do_inflate`.
-/
import FroggyKVM.Inflate.Inflater

namespace FroggyKVM.Inflate

namespace Inflater

variable (raw : Nat → UInt8)

/-! ## Stored blocks -/

/-- Without enough room in the output buffer, `inflate_stored` goes on in a new one, behind the part
of the dictionary that the block leaves.  The result is the new buffer with its offset. -/
def newOutput (out : Buffer UInt8) (outOffset length : Nat) :
    Except MemFault (Buffer UInt8 × Nat) := do
  let newOutBuffer : Buffer UInt8 := { length := out.length, data := raw }
  let preserveBytes : Int := DICTIONARY_SIZE - length
  if preserveBytes > 0 then
    if preserveBytes ≤ outOffset then do
      let preserve := preserveBytes.toNat
      let newOutBuffer ← newOutBuffer.copy 0 out (outOffset - preserve) preserve
      return (newOutBuffer, preserve)
    else .error .outOfRange
  else return (newOutBuffer, 0)

/-- The bytes of the block: what the input buffer lacks is read from the file. -/
def copyStored (f : Inflater) (b out : Buffer UInt8) (i : In) (outOffset length : Nat) :
    Except MemFault (Inflater × Status) := do
  let avail := b.length - i.inOffset
  let deficit := length - avail
  let (f, out, bytesRead) ←
    if deficit > 0 then f.getBytesRaw out (outOffset + avail) deficit else pure (f, out, 0)
  if bytesRead ≠ deficit then return ({ f with outBuffer := some out }, .error)
  let out ← out.copy outOffset b i.inOffset (length - deficit)
  let i := { i with inOffset := i.inOffset + (length - deficit) }
  let f := { f with
    outBuffer := some out
    blockType := .unknown
    track := { f.track with base := f.track.base + deficit } }
  return ((f.storeIn i).storeOut (outOffset + length), .more)

/-- `inflate_stored`. -/
def inflateStored (f : Inflater) : Except MemFault (Inflater × Status) := do
  let i ← f.loadIn
  let b ← deref f.inBuffer
  let out ← deref f.outBuffer
  let i ← (i.dumpBits (i.inDataSize &&& 7)).needBits b 32
  let length := i.nextBits 16
  let i := i.dumpBits 16
  let nlength := i.nextBits 16
  let i := i.dumpBits 16
  if length + nlength ≠ 0xFFFF then return (f, .error)
  if f.outOffset + length > f.outLength out then do
    let (out, outOffset) ← newOutput raw out f.outOffset length
    copyStored { f with outBuffer := some out, outDumped := outOffset } b out i outOffset length
  else copyStored f b out i f.outOffset length

/-! ## Compressed blocks -/

/-- The symbol of a fixed code, given nine bits in the opposite order, and its number of bits. -/
def fixedLitxlen (code : Nat) : Nat × Nat :=
  if code < 0x060 then (0x100 + code >>> 2, 7)
  else if code < 0x180 then (code >>> 1 - 0x030, 8)
  else if code < 0x190 then (code >>> 1 + (0x118 - 0x0c0), 8)
  else (0x90 + code - 0x190, 9)

/-- The next literal or length. -/
def nextLitxlen (f : Inflater) (fixed : Bool) (i : In) : Except MemFault (Option (Nat × In)) :=
  if fixed then do
    let code ← reverse9bits (i.nextBits 9)
    return some ((fixedLitxlen code).1, i.dumpBits (fixedLitxlen code).2)
  else do
    let lcodes ← deref f.lengthBuffer
    i.getEntry lcodes

/-- The next distance code. -/
def nextDistance (f : Inflater) (fixed : Bool) (i : In) : Except MemFault (Option (Nat × In)) :=
  if fixed then do
    let d0 ← reverse5bits (i.nextBits 5)
    return some (d0, i.dumpBits 5)
  else do
    let dcodes ← deref f.distanceBuffer
    i.getEntry dcodes

/-- The copy of a match, from left to right: single bytes as long as the rest overlaps, then
`memcpy`. -/
def copyMatch (distance : Nat) : Nat → Nat → Buffer UInt8 → Except MemFault (Buffer UInt8)
  | outOffset, 0, out => out.copy outOffset out (outOffset - distance) 0
  | outOffset, length + 1, out =>
    if length + 1 > distance then do
      let byte ← out.get (outOffset - distance)
      let out ← out.set outOffset byte
      copyMatch distance (outOffset + 1) length out
    else out.copy outOffset out (outOffset - distance) (length + 1)

/-- The end of an iteration: `while (!buffer_full)`. -/
def nextIteration (f : Inflater) (fixed bufferFull : Bool) (i : In) (outOffset : Nat) :
    Inflater × Point :=
  if bufferFull then ((f.storeIn i).storeOut outOffset, .returned .more)
  else (f, .huffman fixed i outOffset)

/-- The branch for a literal. -/
def putLiteral (f : Inflater) (out : Buffer UInt8) (fixed : Bool) (i : In) (outOffset litxlen : Nat) :
    Except MemFault (Inflater × Point) := do
  let bufferFull := decide (f.outLength out ≤ outOffset)
  if bufferFull && !f.incremental then return (f, .returned .error)
  let out ← out.set outOffset (UInt8.ofNat litxlen)
  return nextIteration { f with outBuffer := some out } fixed bufferFull i (outOffset + 1)

/-- The branch for a length. -/
def putMatch (f : Inflater) (b out : Buffer UInt8) (fixed : Bool) (i : In) (outOffset litxlen : Nat) :
    Except MemFault (Inflater × Point) := do
  let length ← lookup llLengthBase (litxlen - LITXLEN_BASE)
  let moreBits ← lookup llExtraBits (litxlen - LITXLEN_BASE)
  let length := length + i.nextBits moreBits
  let i ← (i.dumpBits moreBits).needBits b MAX_BITS
  match ← f.nextDistance fixed i with
  | none => return (f, .returned .error)
  | some (d0, i) =>
    if d0 > MAX_ZIP_DISTANCE_CODE then return (f, .returned .error)
    let i ← i.needBits b MAX_ZIP_EXTRA_DISTANCE_BITS
    let distance ← lookup distBase d0
    let moreBits ← lookup distExtraBits d0
    let distance := distance + i.nextBits moreBits
    let i := i.dumpBits moreBits
    if outOffset < distance then return (f, .returned .error)
    let bufferFull := decide (outOffset + length > f.outLength out)
    if bufferFull && !f.incremental then return (f, .returned .error)
    let out ← copyMatch distance outOffset length out
    return nextIteration { f with outBuffer := some out } fixed bufferFull i (outOffset + length)

/-- An iteration of `inflate_huffman`. -/
def inflateHuffman (f : Inflater) (fixed : Bool) (i : In) (outOffset : Nat) :
    Except MemFault (Inflater × Point) := do
  if i.inLength ≤ i.inOffset then do
    let f ← f.refillInput raw i.inOffset
    return ((f.storeIn { i with inOffset := 0 }).storeOut outOffset, .returned .more)
  else do
    let b ← deref f.inBuffer
    let out ← deref f.outBuffer
    let i ← i.needBits b (MAX_BITS + MAX_ZIP_EXTRA_LENGTH_BITS)
    match ← f.nextLitxlen fixed i with
    | none => return (f, .returned .error)
    | some (litxlen, i) =>
      if litxlen ≤ 255 then f.putLiteral out fixed i outOffset litxlen
      else if litxlen = 256 then
        return ((({ f with blockType := .unknown }).storeIn i).storeOut outOffset, .returned .more)
      else if litxlen > 285 then return (f, .returned .error)
      else f.putMatch b out fixed i outOffset litxlen

/-! ## Dynamic tables -/

/-- The start of `decode_dynamic_huffman_tables`. -/
def decodeHeader (f : Inflater) : Except MemFault (Inflater × Point) := do
  let i ← f.loadIn
  let b ← deref f.inBuffer
  let i ← i.needBits b 14
  let hlit := 257 + i.nextBits 5
  let i := i.dumpBits 5
  let hdist := 1 + i.nextBits 5
  let i := i.dumpBits 5
  let hclen := 4 + i.nextBits 4
  let i := i.dumpBits 4
  return (f, .codeLengthCode
    { hlit := hlit, hdist := hdist, hclen := hclen, input := i
      codelen := { length := codelenBufSize, data := fun _ => 0 } } 0)

/-- The loop over the code length alphabet; behind it the table of the code length code. -/
def decodeCodeLengthCode (heuristic : Bool) (f : Inflater) (d : Dynamic) (k : Nat) :
    Except MemFault (Inflater × Point) :=
  if k < d.hclen then do
    let b ← deref f.inBuffer
    let i ← d.input.needBits b 3
    let (f, i) ← f.checkInput raw i
    let idx ← lookup ccodeIdx k
    let codelen ← d.codelen.set idx (i.nextBits 3)
    return (f, .codeLengthCode { d with input := i.dumpBits 3, codelen := codelen } (k + 1))
  else do
    let lens ← d.codelen.slice 0 19
    let ccodes ← makeCodeTable heuristic lens MAX_QUICK_CXD
    let codelen : Buffer Nat := { length := codelenBufSize, data := fun _ => 0 }
    return (f, .codeLengths { d with codelen := codelen } lens ccodes 0)

/-- The branch for a repeat code; when the repetition is too long, `ziperr` is all that happens. -/
def repeatLength (f : Inflater) (d : Dynamic) (lens : List Nat) (ccodes : Buffer Nat)
    (codePtr val : Nat) (i : In) : Except MemFault (Inflater × Point) := do
  let bits := if val = 18 then 7 else val - 14
  let repetition := (if val = 18 then 11 else 3) + i.nextBits bits
  let i := i.dumpBits bits
  if val = 16 then
    if codePtr = 0 then return (f, .returned .error)
    let previous ← d.codelen.get (codePtr - 1)
    let codelen ← d.codelen.write codePtr repetition fun _ => previous
    return (f, .codeLengths { d with input := i, codelen := codelen } lens ccodes
      (codePtr + repetition))
  else
    return (f, .codeLengths { d with input := i } lens ccodes (codePtr + repetition))

/-- The loop over the code lengths; behind it the tables of the block. -/
def decodeCodeLengths (heuristic : Bool) (f : Inflater) (d : Dynamic) (lens : List Nat)
    (ccodes : Buffer Nat) (codePtr : Nat) : Except MemFault (Inflater × Point) :=
  if codePtr < d.hlit + d.hdist then do
    let b ← deref f.inBuffer
    let i ← d.input.needBits b (MAX_BITS + 7)
    match ← i.getEntry ccodes with
    | none => return (f, .returned .error)
    | some (val, i) => do
      let (f, i) ← f.checkInput raw i
      if val ≤ 15 then do
        let codelen ← d.codelen.set codePtr val
        return (f, .codeLengths { d with input := i, codelen := codelen } lens ccodes (codePtr + 1))
      else if val ≤ 18 then f.repeatLength d lens ccodes codePtr val i
      else return (f, .returned .error)
  else do
    let f := f.storeIn d.input
    let litLens ← d.codelen.slice 0 d.hlit
    let lcodes ← makeCodeTable heuristic litLens MAX_QUICK_LXL
    let distLens ← d.codelen.slice d.hlit d.hdist
    let dcodes ← makeCodeTable heuristic distLens MAX_QUICK_CXD
    return ({ f with
      lengthBuffer := some lcodes
      distanceBuffer := some dcodes
      track := { f.track with litLens := litLens, distLens := distLens } }, .switch)

/-! ## `do_inflate` -/

/-- The header of a block. -/
def blockHeader (f : Inflater) : Except MemFault (Inflater × Point) := do
  let i ← f.loadIn
  let (f, i) ← f.checkInput raw i
  let b ← deref f.inBuffer
  let i ← i.needBits b 3
  let btype := i.nextBits 3
  let i := i.dumpBits 3
  let f := { f with
    lastBlock := f.lastBlock || decide (btype % 2 = 1)
    blockType := BlockType.ofBits (btype >>> 1) }
  return (f.storeIn i, if f.blockType = .dynaHuffman then .tables else .switch)

/-- The `switch` of `do_inflate`. -/
def doInflate (f : Inflater) : Except MemFault (Inflater × Point) :=
  match f.blockType with
  | .unknown => if f.lastBlock then .ok (f, .returned .complete) else f.blockHeader raw
  | .invalid => .ok (f, .returned .error)
  | .noCompression => do
    let (f, status) ← f.inflateStored raw
    return (f, .returned status)
  | .fixedHuffman => do
    let i ← f.loadIn
    let _ ← deref f.outBuffer
    return (f, .huffman true i f.outOffset)
  | .dynaHuffman => do
    let _ ← deref f.lengthBuffer
    let _ ← deref f.distanceBuffer
    let i ← f.loadIn
    let _ ← deref f.outBuffer
    return (f, .huffman false i f.outOffset)

/-! ## The callers -/

/-- `for (j = 8; j > 0; --j) ..` in `crc32`. -/
def crcBits : Nat → Nat → Nat
  | 0, crc => crc
  | j + 1, crc => crcBits j (if crc % 2 = 1 then crc >>> 1 ^^^ 0xedb88320 else crc >>> 1)

/-- `crc32`; the table of the fast variant holds the values of `crcBits 8`. -/
def crc32 (data : List UInt8) : Nat :=
  data.foldl (fun crc byte => crcBits 8 (crc ^^^ byte.toNat)) 0xFFFFFFFF ^^^ 0xFFFFFFFF

/-- `read_completely` behind its loop. -/
def checkOutput (f : Inflater) (status : Status) : Except MemFault Point := do
  if status = .error ∨ (f.outOffset : Int) ≠ f.fileSize then
    return .idle status (.array none)
  match f.fileHandle with
  | some _ => do
    let out ← deref f.outBuffer
    let bytes ← out.slice 0 f.outOffset
    if crc32 bytes ≠ f.expectedCrc then return .idle status (.array none)
    return .idle status (.array (some out))
  | none => return .idle status (.array f.outBuffer)

/-- `FileDecoder::get_bytes` behind the call of `Inflater::get_bytes`. -/
def report (f : Inflater) (status : Status) (result : Int) (dest : List UInt8) :
    Inflater × Point :=
  ({ f with bytesRemain := f.bytesRemain - result }, .idle status (.count result dest))

/-- The loop of `get_bytes` up to its call of `do_inflate`. -/
def deliver (f : Inflater) (count : Nat) (dest : List UInt8) : Except MemFault Machine := do
  let out ← deref f.outBuffer
  let upperBound := f.outOffset
  let lowerBound := f.outDumped
  let avail := upperBound - lowerBound
  if count ≤ avail then do
    let bytes ← out.slice lowerBound count
    let (f, point) := { f with outDumped := lowerBound + count }.report .more
      (dest.length + count : Nat) (dest ++ bytes)
    return { inflater := f, point := point }
  else do
    let bytes ← out.slice lowerBound avail
    let caller := Caller.getBytes (count - avail) (dest ++ bytes)
    if upperBound > INFLATER_OUTPUT_LIMIT then do
      let newOutBuffer : Buffer UInt8 := { length := out.length, data := raw }
      let newOutBuffer ←
        newOutBuffer.copy 0 out (upperBound - DICTIONARY_SIZE) DICTIONARY_SIZE
      return { inflater := { f with
                 outBuffer := some newOutBuffer
                 outOffset := DICTIONARY_SIZE
                 outDumped := DICTIONARY_SIZE }
               point := .switch, caller := caller }
    else
      return { inflater := { f with outDumped := upperBound }, point := .switch, caller := caller }

end Inflater

/-! ## The machine -/

/-- What happens to the decoder; a step brings the contents of new arrays. -/
inductive Event where
  | step (raw : Nat → UInt8)
  | readCompletely
  /-- `ResourceInputStream.readBytes` of so many bytes. -/
  | readBytes (len : Nat) (raw : Nat → UInt8)

namespace Machine

/-- A step of `do_inflate`, or of its caller behind it. -/
def tick (heuristic : Bool) (raw : Nat → UInt8) (m : Machine) : Except MemFault Machine :=
  let goOn (result : Except MemFault (Inflater × Point)) : Except MemFault Machine := do
    let (f, point) ← result
    return { m with inflater := f, point := point }
  match m.point with
  | .idle .. => .ok m
  | .switch => goOn (m.inflater.doInflate raw)
  | .tables => goOn m.inflater.decodeHeader
  | .codeLengthCode d k => goOn (m.inflater.decodeCodeLengthCode raw heuristic d k)
  | .codeLengths d lens ccodes codePtr =>
    goOn (m.inflater.decodeCodeLengths raw heuristic d lens ccodes codePtr)
  | .huffman fixed i outOffset => goOn (m.inflater.inflateHuffman raw fixed i outOffset)
  | .returned status =>
    match m.caller, status with
    | .readCompletely, .more => .ok { m with point := .switch }
    | .readCompletely, _ => do
      let point ← m.inflater.checkOutput status
      return { m with point := point }
    | .getBytes count dest, .more => m.inflater.deliver raw count dest
    | .getBytes _ dest, .complete => goOn (.ok (m.inflater.report status dest.length dest))
    | .getBytes _ dest, .error => goOn (.ok (m.inflater.report status (-1) dest))

/-- Requests come between requests; resources are opened for incremental decoding, class files are
not. -/
def Legal (m : Machine) : Event → Prop
  | .step _ => ∀ status result, m.point ≠ .idle status result
  | .readCompletely => m.inflater.incremental = false ∧ ∃ status result, m.point = .idle status result
  | .readBytes .. => m.inflater.incremental = true ∧ ∃ status result, m.point = .idle status result

/-- A step or a request. -/
def next (heuristic : Bool) (m : Machine) : Event → Except MemFault Machine
  | .step raw => m.tick heuristic raw
  | .readCompletely => .ok { m with point := .switch, caller := .readCompletely }
  | .readBytes len raw =>
    if m.inflater.bytesRemain ≤ 0 then .ok { m with point := .idle .more .endOfData }
    else m.inflater.deliver raw (min len m.inflater.bytesRemain.toNat) []

end Machine

end FroggyKVM.Inflate
