/-
# FroggyKVM.Inflate.Tables — the Huffman tables of the inflater.

A table is an array of 16-bit units: the header with `quickBits` and `maxCodeLen`, then the entries.
An entry is a symbol with the length of its code, or a pointer to a second-level table, given as an
offset in bytes from the header.  `make_code_table` is written without the checks of the debug
build.
-/
import FroggyKVM.Lib.Buffer

namespace FroggyKVM.Inflate

def MAX_BITS : Nat := 15
def MAX_QUICK_CXD : Nat := 6
def MAX_QUICK_LXL : Nat := 9

/-- If this bit is set, an entry points to a second-level table. -/
def HUFFINFO_LONG_MASK : Nat := 0x8000

/-- The units of `HuffmanCodeTableHeader`. -/
def headerUnits : Nat := 2

def u16 (x : Nat) : Nat := x % 65536
def u32 (x : Nat) : Nat := x % 4294967296

/-- `x - y` in 32 bits. -/
def sub32 (x y : Nat) : Nat := u32 (x + 4294967296 - u32 y)

/-! ## Bits in the opposite order -/

/-- A table for reversing 5 bits in a binary number. -/
def reverse5 : List Nat :=
  [0x0, 0x10, 0x8, 0x18, 0x4, 0x14, 0xc, 0x1c,
   0x2, 0x12, 0xa, 0x1a, 0x6, 0x16, 0xe, 0x1e,
   0x1, 0x11, 0x9, 0x19, 0x5, 0x15, 0xd, 0x1d,
   0x3, 0x13, 0xb, 0x1b, 0x7, 0x17, 0xf, 0x1f]

/-- Read a constant table. -/
def lookup (table : List Nat) (i : Nat) : Except MemFault Nat :=
  match table[i]? with
  | some x => .ok x
  | none => .error .outOfRange

def reverse5bits (code : Nat) : Except MemFault Nat := lookup reverse5 code

def reverse9bits (code : Nat) : Except MemFault Nat := do
  let low ← lookup reverse5 (code &&& 0x1F)
  let high ← lookup reverse5 (code >>> 4)
  return (low <<< 4) ||| high

def reverse15bits (code : Nat) : Except MemFault Nat := do
  let low ← lookup reverse5 (code &&& 0x1F)
  let middle ← lookup reverse5 ((code >>> 5) &&& 0x1F)
  let high ← lookup reverse5 (code >>> 10)
  return (low <<< 10) ||| (middle <<< 5) ||| high

/-! ## The sizes of a table -/

/-- Count the number of codes for each code length. -/
def bitLengthCount : List Nat → (Nat → Nat) → Except MemFault (Nat → Nat)
  | [], count => .ok count
  | bits :: lens, count =>
    if bits ≤ MAX_BITS then bitLengthCount lens (Function.update count bits (count bits + 1))
    else .error .outOfRange

/-- What the loops over the code lengths find. -/
structure Survey where
  codes : Nat → Nat := fun _ => 0
  code : Nat := 0
  maxCodeLen : Nat := 0
  optQuickBits : Nat := 0
  optTableSize : Nat := 0

/-- `for (bits = MAX_BITS; bits >= 1; bits--)`: the greatest length in use. -/
def findMaxCodeLen (count : Nat → Nat) : Nat → Nat
  | 0 => 0
  | bits + 1 => if count (bits + 1) ≠ 0 then bits + 1 else findMaxCodeLen count bits

/-- The first code of a length, and the code behind its last one. -/
def Survey.addLength (count : Nat → Nat) (s : Survey) (bits : Nat) : Survey :=
  { s with
    codes := Function.update s.codes bits s.code
    code := if count bits ≠ 0 then u32 (s.code + count bits <<< (MAX_BITS - bits)) else s.code }

/-- With the heuristic: the size of the lookup tables if the first level has so many bits. -/
def Survey.tableSize (s : Survey) (bits : Nat) : Nat :=
  let tableSize := sub32 (1 <<< MAX_BITS) s.code
  let tableSize := tableSize >>> (MAX_BITS - bits)
  let tableSize := u32 (tableSize <<< (s.maxCodeLen - bits))
  u32 (tableSize + 1 <<< bits)

def Survey.minimize (count : Nat → Nat) (s : Survey) (bits : Nat) : Survey :=
  let s := s.addLength count bits
  if s.optQuickBits = 0 ∨ s.tableSize bits < s.optTableSize then
    { s with optTableSize := s.tableSize bits, optQuickBits := bits }
  else s

def Survey.plain (count : Nat → Nat) (s : Survey) (bits : Nat) : Survey :=
  let s := s.addLength count bits
  if count bits ≠ 0 then { s with maxCodeLen := bits } else s

/-- The survey with and without `EnableLookupTableSizeHeuristic`. -/
def survey (heuristic : Bool) (count : Nat → Nat) : Survey :=
  if heuristic then
    let maxCodeLen := findMaxCodeLen count MAX_BITS
    (List.range' 1 maxCodeLen).foldl (Survey.minimize count) { maxCodeLen := maxCodeLen }
  else (List.range' 1 MAX_BITS).foldl (Survey.plain count) {}

/-- The sizes of the two levels. -/
structure Layout where
  maxQuickBits : Nat
  maxCodeLen : Nat
  mainTableLength : Nat
  numLongTables : Nat
  longTableLength : Nat

def Survey.layout (s : Survey) (maxQuickBits : Nat) : Layout :=
  if s.maxCodeLen ≤ maxQuickBits then
    { maxQuickBits := s.maxCodeLen, maxCodeLen := s.maxCodeLen
      mainTableLength := 1 <<< s.maxCodeLen, numLongTables := 0, longTableLength := 0 }
  else
    { maxQuickBits := maxQuickBits, maxCodeLen := s.maxCodeLen
      mainTableLength := 1 <<< maxQuickBits
      numLongTables :=
        sub32 (1 <<< MAX_BITS) (s.codes (maxQuickBits + 1)) >>> (MAX_BITS - maxQuickBits)
      longTableLength := 1 <<< (s.maxCodeLen - maxQuickBits) }

/-- The units of the table. -/
def Layout.units (y : Layout) : Nat :=
  u32 (2 * headerUnits + (y.mainTableLength + y.numLongTables * y.longTableLength) * 2) / 2

/-! ## Filling a table -/

/-- `for (j = ..; j < bound; j += stride) entries[j] = huff;`, with the entries at `base`. -/
def fillEntries (base bound stride huff : Nat) :
    Nat → Nat → Buffer Nat → Except MemFault (Buffer Nat)
  | 0, _, _ => .error .outOfFuel
  | fuel + 1, j, table =>
    if j < bound then do
      let table ← table.set (base + j) huff
      fillEntries base bound stride huff fuel (j + stride) table
    else .ok table

/-- What the loop over the symbols works on; `nextLongTable` is a position in the table. -/
structure Fill where
  table : Buffer Nat
  codes : Nat → Nat
  nextLongTable : Nat

/-- The loop body: enter the symbol `sym`, with a code of `bits` bits. -/
def Fill.addSymbol (y : Layout) (f : Fill) (sym bits : Nat) : Except MemFault Fill :=
  if bits ≠ 0 then do
    let code := f.codes bits
    let codes := Function.update f.codes bits (u32 (code + 1 <<< (MAX_BITS - bits)))
    let code ← reverse15bits code
    let huff := u16 ((sym <<< 4) + bits)
    if bits ≤ y.maxQuickBits then
      let table ← fillEntries headerUnits y.mainTableLength (1 <<< bits) huff
        (y.mainTableLength + 1) code f.table
      return { f with table := table, codes := codes }
    else
      let stride := 1 <<< (bits - y.maxQuickBits)
      let prefixCode := code &&& (1 <<< y.maxQuickBits) - 1
      let suffixCode := code >>> y.maxQuickBits
      let entry ← f.table.get (headerUnits + prefixCode)
      if entry = 0 then
        let delta := 2 * f.nextLongTable
        let table ← f.table.set (headerUnits + prefixCode) (u16 (HUFFINFO_LONG_MASK ||| delta))
        let table ← fillEntries f.nextLongTable y.longTableLength stride huff
          (y.longTableLength + 1) suffixCode table
        return { table := table, codes := codes
                 nextLongTable := f.nextLongTable + y.longTableLength }
      else
        let delta := entry &&& 0x7FFF
        let table ← fillEntries (delta / 2) y.longTableLength stride huff
          (y.longTableLength + 1) suffixCode f.table
        return { f with table := table, codes := codes }
  else .ok f

def Fill.addSymbols (y : Layout) : Nat → List Nat → Fill → Except MemFault Fill
  | _, [], f => .ok f
  | sym, bits :: lens, f => do
    let f ← f.addSymbol y sym bits
    Fill.addSymbols y (sym + 1) lens f

/-- `make_code_table`. -/
def makeCodeTable (heuristic : Bool) (codelen : List Nat) (maxQuickBits : Nat) :
    Except MemFault (Buffer Nat) := do
  let count ← bitLengthCount codelen fun _ => 0
  let s := survey heuristic count
  let y := s.layout (if heuristic then s.optQuickBits else maxQuickBits)
  let table : Buffer Nat := { length := y.units, data := fun _ => 0 }
  let table ← table.set 1 (u16 y.maxCodeLen)
  let table ← table.set 0 (u16 y.maxQuickBits)
  let f ← Fill.addSymbols y 0 codelen
    { table := table, codes := s.codes, nextLongTable := headerUnits + y.mainTableLength }
  return f.table

/-- The first part of `GET_HUFFMAN_ENTRY`: the entry for the bits at hand, in `inData`. -/
def getHuffmanEntry (table : Buffer Nat) (inData : Nat) : Except MemFault Nat := do
  let quickBits ← table.get 0
  let huff ← table.get (headerUnits + inData % 2 ^ quickBits)
  if huff &&& HUFFINFO_LONG_MASK ≠ 0 then
    let delta := huff &&& 0x7FFF
    let maxCodeLen ← table.get 1
    table.get (delta / 2 + (inData % 2 ^ maxCodeLen) >>> quickBits)
  else return huff

end FroggyKVM.Inflate
