/-
# FroggyKVM.Puff.Decoder — the decoder of compressed data (`platform_gb300/puff.c`).

The decoder reads its input bit by bit and writes its output in place; without a destination it only
counts.  Codes are kept as the counts of their lengths and the symbols sorted by length, in arrays on
the stack of which only what has been written may be read.  At the end of the input a `longjmp` leaves
from anywhere; it is an exception here, as is an access outside an array.
-/
import FroggyKVM.Lib.Buffer
import FroggyKVM.Lib.ForRange
import FroggyKVM.Lib.Outcome

namespace FroggyKVM.Puff

/-! ## State -/

/-- What ends a run without a return value. -/
inductive Stop
  | longjmp
  | uninitialised
  | fault (f : MemFault)
  deriving DecidableEq

/-- `struct state`; a destination is a block or `NULL`. -/
structure State where
  out : Option (Buffer UInt8)
  outlen : Nat
  outcnt : Nat
  input : Buffer UInt8
  inlen : Nat
  incnt : Nat
  bitbuf : Nat
  bitcnt : Nat

abbrev Run := ExceptT Stop (StateM State)

/-- An `unsigned long`. -/
def ulong (n : Nat) : Nat := n % 4294967296

/-- A step that does not touch the state. -/
def lift {α : Type} (x : Except Stop α) : Run α := fun s => (x, s)

def MemFault.check {α : Type} : Except MemFault α → Except Stop α
  | .ok a => .ok a
  | .error f => .error (.fault f)

/-- `s->in[s->incnt++]`. -/
def nextByte : Run Nat := do
  let s ← get
  let byte ← lift (MemFault.check (s.input.get s.incnt))
  set { s with incnt := ulong (s.incnt + 1) }
  return byte.toNat

/-- `s->out[i]`. -/
def outByte (i : Nat) : Run UInt8 := do
  let s ← get
  match s.out with
  | none => throw (.fault .outOfRange)
  | some out => lift (MemFault.check (out.get i))

/-- `s->out[s->outcnt++] = x`. -/
def putByte (x : UInt8) : Run Unit := do
  let s ← get
  match s.out with
  | none => throw (.fault .outOfRange)
  | some out =>
    let out ← lift (MemFault.check (out.set s.outcnt x))
    set { s with out := some out, outcnt := ulong (s.outcnt + 1) }

/-- The loop of `bits`. -/
def fill (need : Nat) : Nat → Nat → Run Nat
  | 0, _ => throw (.fault .outOfFuel)
  | fuel + 1, val => do
    let s ← get
    if s.bitcnt < need then
      if s.incnt = s.inlen then throw .longjmp
      else do
        let byte ← nextByte
        modify fun s => { s with bitcnt := s.bitcnt + 8 }
        fill need fuel (val ||| byte <<< s.bitcnt)
    else return val

/-- `bits`. -/
def bits (need : Nat) : Run Nat := do
  let s ← get
  let val ← fill need (need + 1) s.bitbuf
  modify fun s => { s with bitbuf := val >>> need, bitcnt := s.bitcnt - need }
  return val % 2 ^ need

/-! ## Stored blocks -/

/-- `while (len--) s->out[s->outcnt++] = s->in[s->incnt++]`. -/
def copyIn : Nat → Run Unit
  | 0 => return ()
  | len + 1 => do
    let byte ← nextByte
    putByte (UInt8.ofNat byte)
    copyIn len

/-- Two bytes, low byte first. -/
def nextShort : Run Nat := do
  let low ← nextByte
  let high ← nextByte
  return low ||| high <<< 8

/-- `stored`. -/
def stored : Run Int := do
  modify fun s => { s with bitbuf := 0, bitcnt := 0 }
  let s ← get
  if s.inlen < ulong (s.incnt + 4) then return 2
  else do
    let len ← nextShort
    let nlen ← nextShort
    -- `~nlen & 0xffff`
    if len ≠ (4294967295 - nlen) % 65536 then return -1
    else do
      let s ← get
      if s.inlen < ulong (s.incnt + len) then return 2
      else
        match s.out with
        | some _ =>
          if s.outlen < ulong (s.outcnt + len) then return 1
          else do
            copyIn len
            return 0
        | none => do
          set { s with outcnt := ulong (s.outcnt + len), incnt := ulong (s.incnt + len) }
          return 0

/-! ## Codes -/

/-- An array of `short` on the stack; what has not been written is `none`. -/
abbrev Shorts := Buffer (Option Nat)

/-- An array of `n` elements that has not been written. -/
def shorts (n : Nat) : Shorts := ⟨n, fun _ => none⟩

def short (a : Shorts) (i : Int) : Except Stop Nat :=
  if i < 0 then .error (.fault .outOfRange)
  else
    match a.get i.toNat with
    | .ok (some x) => .ok x
    | .ok none => .error .uninitialised
    | .error f => .error (.fault f)

def setShort (a : Shorts) (i : Int) (x : Nat) : Except Stop Shorts :=
  if i < 0 then .error (.fault .outOfRange) else MemFault.check (a.set i.toNat (some x))

/-- `struct huffman`. -/
structure Huffman where
  count : Shorts
  symbol : Shorts

/-- The variables of `decode`; `next` is `h->count + len`. -/
structure Search where
  code : Nat
  first : Nat
  index : Nat
  len : Nat
  bitbuf : Nat

/-- The loop over `left` bits of `bitbuf`: the symbol, or the variables behind the loop. -/
def overBits (h : Huffman) : Nat → Search → Run (Nat ⊕ Search)
  | 0, v => return .inr v
  | left + 1, v => do
    let code := v.code ||| (v.bitbuf &&& 1)
    let bitbuf := v.bitbuf >>> 1
    let count ← lift (short h.count v.len)
    if (code : Int) - count < v.first then do
      modify fun s => { s with bitbuf := bitbuf, bitcnt := (((s.bitcnt : Int) - v.len) % 8).toNat }
      let symbol ← lift (short h.symbol (v.index + (code - v.first)))
      return .inl symbol
    else overBits h left { code := code <<< 1, first := (v.first + count) <<< 1,
                           index := v.index + count, len := v.len + 1, bitbuf := bitbuf }

/-- The loop over the bytes, with `left` bits in the first one; a codeword has 15 bits at most. -/
def overBytes (h : Huffman) : Nat → Nat → Search → Run Int
  | 0, _, _ => throw (.fault .outOfFuel)
  | fuel + 1, left, v => do
    match ← overBits h left v with
    | .inl symbol => return symbol
    | .inr v =>
      let left := 16 - v.len
      if left = 0 then return -10
      else do
        let s ← get
        if s.incnt = s.inlen then throw .longjmp
        else do
          let byte ← nextByte
          overBytes h fuel (if 8 < left then 8 else left) { v with bitbuf := byte }

/-- `decode`. -/
def decode (h : Huffman) : Run Int := do
  let s ← get
  overBytes h 16 s.bitcnt { code := 0, first := 0, index := 0, len := 1, bitbuf := s.bitbuf }

/-- The loop that checks the lengths, over the lengths from `len` on. -/
def leftOver (count : Shorts) : Nat → Nat → Int → Except Stop Int
  | 0, _, left => return left
  | n + 1, len, left => do
    let left := 2 * left - (← short count len)
    if left < 0 then return left else leftOver count n (len + 1) left

/-- `(h->count[length[symbol]])++`. -/
def countSymbol (length : Shorts) (start : Nat) (symbol : Int) (count : Shorts) :
    Except Stop Shorts := do
  let len ← short length (start + symbol)
  setShort count len ((← short count len) + 1)

/-- `offs[len + 1] = offs[len] + h->count[len]`. -/
def nextOffset (count : Shorts) (len : Int) (offs : Shorts) : Except Stop Shorts := do
  setShort offs (len + 1) ((← short offs len) + (← short count len))

/-- `if (length[symbol] != 0) h->symbol[offs[length[symbol]]++] = symbol`, on `offs` and the table. -/
def sortSymbol (length : Shorts) (start : Nat) (symbol : Int) (arrays : Shorts × Shorts) :
    Except Stop (Shorts × Shorts) := do
  let len ← short length (start + symbol)
  if len = 0 then return arrays
  else do
    let place ← short arrays.1 len
    let table ← setShort arrays.2 place symbol.toNat
    let offs ← setShort arrays.1 len (place + 1)
    return (offs, table)

/-- `construct`, on the `n` lengths from `start` on. -/
def construct (h : Huffman) (length : Shorts) (start n : Nat) : Except Stop (Int × Huffman) := do
  let count ← forRange (fun len count => setShort count len 0) 16 0 h.count
  let count ← forRange (countSymbol length start) n 0 count
  if (← short count 0) = n then return (0, { h with count := count })
  else do
    let left ← leftOver count 15 1 1
    if left < 0 then return (left, { h with count := count })
    else do
      let offs ← setShort (shorts 16) 1 0
      let offs ← forRange (nextOffset count) 14 1 offs
      let arrays ← forRange (sortSymbol length start) n 0 (offs, h.symbol)
      return (left, { count := count, symbol := arrays.2 })

/-! ## Compressed blocks -/

def lens : List Nat :=
  [3, 4, 5, 6, 7, 8, 9, 10, 11, 13, 15, 17, 19, 23, 27, 31, 35, 43, 51, 59, 67, 83, 99, 115, 131, 163,
   195, 227, 258]

def lext : List Nat :=
  [0, 0, 0, 0, 0, 0, 0, 0, 1, 1, 1, 1, 2, 2, 2, 2, 3, 3, 3, 3, 4, 4, 4, 4, 5, 5, 5, 5, 0]

def dists : List Nat :=
  [1, 2, 3, 4, 5, 7, 9, 13, 17, 25, 33, 49, 65, 97, 129, 193, 257, 385, 513, 769, 1025, 1537, 2049,
   3073, 4097, 6145, 8193, 12289, 16385, 24577]

def dext : List Nat :=
  [0, 0, 0, 0, 1, 1, 2, 2, 3, 3, 4, 4, 5, 5, 6, 6, 7, 7, 8, 8, 9, 9, 10, 10, 11, 11, 12, 12, 13, 13]

/-- An element of a table. -/
def entry (table : List Nat) (i : Int) : Except Stop Nat :=
  if i < 0 then .error (.fault .outOfRange)
  else
    match table[i.toNat]? with
    | some x => .ok x
    | none => .error (.fault .outOfRange)

/-- `dist > s->outcnt ? 0 : s->out[s->outcnt - dist]`. -/
def backByte (dist : Nat) : Run UInt8 := do
  let s ← get
  if s.outcnt < dist then return 0 else outByte (s.outcnt - dist)

/-- The loop that copies `len` bytes of the output. -/
def copyOut (dist : Nat) : Nat → Run Unit
  | 0 => return ()
  | len + 1 => do
    let x ← backByte dist
    putByte x
    copyOut dist len

/-- `len = lens[symbol] + bits(s, lext[symbol])`, and the same with the tables of distances. -/
def withExtra (base extra : List Nat) (symbol : Int) : Run Nat := do
  let b ← lift (entry base symbol)
  let e ← lift (entry extra symbol)
  let x ← bits e
  return b + x

/-- `codes`.  A symbol that is left from a distance is not 256 either. -/
def codes (lencode distcode : Huffman) : Nat → Run Int
  | 0 => throw (.fault .outOfFuel)
  | fuel + 1 => do
    let symbol ← decode lencode
    if symbol < 0 then return symbol
    else if symbol < 256 then do
      let s ← get
      match s.out with
      | some _ =>
        if s.outcnt = s.outlen then return 1
        else do
          putByte (UInt8.ofNat symbol.toNat)
          codes lencode distcode fuel
      | none => do
        set { s with outcnt := ulong (s.outcnt + 1) }
        codes lencode distcode fuel
    else if 256 < symbol then
      if 29 ≤ symbol - 257 then return -10
      else do
        let len ← withExtra lens lext (symbol - 257)
        let symbol ← decode distcode
        if symbol < 0 then return symbol
        else do
          let dist ← withExtra dists dext symbol
          let s ← get
          match s.out with
          | some _ =>
            if s.outlen < ulong (s.outcnt + len) then return 1
            else do
              copyOut dist len
              codes lencode distcode fuel
          | none => do
            set { s with outcnt := ulong (s.outcnt + len) }
            codes lencode distcode fuel
    else return 0

/-- `lengths[symbol] = x` for the symbols from `first` up to `last`. -/
def fillLengths (first last x : Nat) (lengths : Shorts) : Except Stop Shorts :=
  forRange (fun symbol lengths => setShort lengths symbol x) (last - first) first lengths

/-- The lengths of the fixed codes. -/
def fixedLengths : Except Stop (Shorts × Shorts) := do
  let lencodeLengths ← fillLengths 0 144 8 (shorts 288)
  let lencodeLengths ← fillLengths 144 256 9 lencodeLengths
  let lencodeLengths ← fillLengths 256 280 7 lencodeLengths
  let lencodeLengths ← fillLengths 280 288 8 lencodeLengths
  let distcodeLengths ← fillLengths 0 30 5 (shorts 30)
  return (lencodeLengths, distcodeLengths)

/-- `fixed`. -/
def fixed (fuel : Nat) : Run Int := do
  let (lencodeLengths, distcodeLengths) ← lift fixedLengths
  let (left, lencode) ← lift (construct ⟨shorts 16, shorts 288⟩ lencodeLengths 0 288)
  if left ≠ 0 then return -4
  else do
    let (left, distcode) ← lift (construct ⟨shorts 16, shorts 30⟩ distcodeLengths 0 30)
    if left < 0 then return -8 else codes lencode distcode fuel

def order : List Nat := [16, 17, 18, 0, 8, 7, 9, 6, 10, 5, 11, 4, 12, 3, 13, 2, 14, 1, 15]

/-- `lengths[order[index]] = bits(s, 3)`, for `n` indices. -/
def readOrder : (n index : Nat) → Shorts → Run Shorts
  | 0, _, lengths => return lengths
  | n + 1, index, lengths => do
    let x ← bits 3
    let i ← lift (entry order index)
    let lengths ← lift (setShort lengths i x)
    readOrder n (index + 1) lengths

/-- `lengths[order[index]] = 0`, for the indices from `index` on. -/
def clearOrder (index : Nat) (lengths : Shorts) : Except Stop Shorts :=
  forRange (fun index lengths => do
    let i ← entry order index
    setShort lengths i 0) (19 - index) index lengths

/-- The length that a symbol from 16 on repeats, and how often; nothing to repeat is an error. -/
def repetition (symbol : Int) (index : Nat) (lengths : Shorts) : Run (Option (Nat × Nat)) :=
  if symbol = 16 then
    if index = 0 then return none
    else do
      let len ← lift (short lengths ((index : Int) - 1))
      let x ← bits 2
      return some (len, 3 + x)
  else if symbol = 17 then do
    let x ← bits 3
    return some (0, 3 + x)
  else do
    let x ← bits 7
    return some (0, 11 + x)

/-- The loop over the code lengths: an error, or the lengths. -/
def readLengths (lencode : Huffman) (total : Nat) : (fuel index : Nat) → Shorts → Run (Int ⊕ Shorts)
  | 0, _, _ => throw (.fault .outOfFuel)
  | fuel + 1, index, lengths =>
    if index < total then do
      let symbol ← decode lencode
      if symbol < 0 then return .inl symbol
      else if symbol < 16 then do
        let lengths ← lift (setShort lengths index symbol.toNat)
        readLengths lencode total fuel (index + 1) lengths
      else do
        match ← repetition symbol index lengths with
        | none => return .inl (-5)
        | some (len, n) =>
          if total < index + n then return .inl (-6)
          else do
            let lengths ← lift (fillLengths index (index + n) len lengths)
            readLengths lencode total fuel (index + n) lengths
    else return .inr lengths

/-- `dynamic` behind the three numbers; the code of the lengths uses the arrays of the code of the
literals. -/
def dynamicTail (fuel nlen ndist ncode : Nat) : Run Int :=
  if 286 < nlen ∨ 30 < ndist then return -3
  else do
    let lengths ← readOrder ncode 0 (shorts 316)
    let lengths ← lift (clearOrder ncode lengths)
    let (left, lencode) ← lift (construct ⟨shorts 16, shorts 286⟩ lengths 0 19)
    if left ≠ 0 then return -4
    else do
      match ← readLengths lencode (nlen + ndist) (nlen + ndist + 1) 0 lengths with
      | .inl err => return err
      | .inr lengths =>
        let (left, lencode) ← lift (construct lencode lengths 0 nlen)
        if left < 0 then return -7
        else do
          let (left, distcode) ← lift (construct ⟨shorts 16, shorts 30⟩ lengths nlen ndist)
          if left < 0 then return -8 else codes lencode distcode fuel

/-- `dynamic`. -/
def dynamic (fuel : Nat) : Run Int := do
  let nlen ← bits 5
  let ndist ← bits 5
  let ncode ← bits 4
  dynamicTail fuel (nlen + 257) (ndist + 1) (ncode + 4)

/-! ## Streams -/

/-- A block of the given type. -/
def block (fuel type : Nat) : Run Int :=
  if type = 0 then stored
  else if type = 1 then fixed fuel
  else if type = 2 then dynamic fuel
  else return -1

/-- The loop over the blocks. -/
def blocks (fuel : Nat) : Nat → Run Int
  | 0 => throw (.fault .outOfFuel)
  | k + 1 => do
    let last ← bits 1
    let type ← bits 2
    let err ← block fuel type
    if err ≠ 0 then return err
    else if last = 0 then blocks fuel k
    else return 0

/-- What a call returns, what it has written, and the two numbers it hands back. -/
structure Result where
  err : Int
  dest : Option (Buffer UInt8)
  destlen : Nat
  sourcelen : Nat

/-- The state that `puff` begins with. -/
def start (dest : Option (Buffer UInt8)) (destlen : Nat) (source : Buffer UInt8) (sourcelen : Nat) :
    State where
  out := dest
  outlen := destlen
  outcnt := 0
  input := source
  inlen := sourcelen
  incnt := 0
  bitbuf := 0
  bitcnt := 0

/-- `puff`.  The `longjmp` leaves the two numbers as they were; every turn of a loop takes a bit. -/
def puff (dest : Option (Buffer UInt8)) (destlen : Nat) (source : Buffer UInt8) (sourcelen : Nat) :
    Except Stop Result :=
  match blocks (8 * sourcelen + 1) (8 * sourcelen + 1) (start dest destlen source sourcelen) with
  | (.ok err, s) => .ok ⟨err, s.out, s.outcnt, s.incnt⟩
  | (.error .longjmp, s) => .ok ⟨2, s.out, destlen, sourcelen⟩
  | (.error stop, _) => .error stop

end FroggyKVM.Puff
