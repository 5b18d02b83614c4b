/-
# FroggyKVM.Graphics.Screen — the screen buffer and the primitive line and block drawings.

A screen buffer is a block of 16-bit pixels, row after row.  The drawing loops store runs of pixels
through a pointer, several at a time; a store outside the block is a fault, and so is a signed
addition that overflows.  Alignment decides only how a run is split up.
-/
import FroggyKVM.Lib.Painting
import FroggyKVM.Lib.Buffer

namespace FroggyKVM.Graphics

open View

/-! ## Stores -/

inductive DrawFault where
  /-- a store outside the pixels -/
  | outOfBounds
  /-- a signed 32-bit overflow -/
  | overflow
  /-- the end of a loop's fuel -/
  | outOfFuel
deriving DecidableEq, Repr

/-- `gxj_screen_buffer`: the size, the address of the pixels and the pixels. -/
structure ScreenBuffer where
  width : Int
  height : Int
  address : Int
  pixelData : Buffer UInt16

abbrev Draw := ScreenBuffer → Except DrawFault ScreenBuffer

/-- A drawing that is made under a condition. -/
def drawIf (c : Prop) [Decidable c] (op : Draw) : Draw := fun sbuf =>
  if c then op sbuf else .ok sbuf

/-- `*pPtr = color`, with `pPtr` counted in pixels from the first one. -/
def store (color : UInt16) (pPtr : Int) : Draw := fun sbuf =>
  if 0 ≤ pPtr ∧ pPtr < sbuf.pixelData.length then
    .ok { sbuf with pixelData := { sbuf.pixelData with
      data := fun k => if k = pPtr.toNat then color else sbuf.pixelData.data k } }
  else .error .outOfBounds

/-- `*pPtr = color; pPtr += stride`, `n` times. -/
def storeRun (color : UInt16) (stride : Int) :
    Nat → Int → ScreenBuffer → Except DrawFault ScreenBuffer
  | 0, _, sbuf => .ok sbuf
  | n + 1, pPtr, sbuf => store color pPtr sbuf >>= storeRun color stride n (pPtr + stride)

/-- `while (count >= block)`, with `block` pixels stored in each turn. -/
def storeBlocks (color : UInt16) (stride : Int) (block : Nat) (pPtr count : Int)
    (sbuf : ScreenBuffer) : Except DrawFault (Int × Int × ScreenBuffer) :=
  if 0 < block ∧ block ≤ count then do
    let sbuf ← storeRun color stride block pPtr sbuf
    storeBlocks color stride block (pPtr + block * stride) (count - block) sbuf
  else .ok (pPtr, count, sbuf)
termination_by count.toNat

/-- `if (count >= block)`, with `block` pixels stored. -/
def storeBlock (color : UInt16) (block : Nat) (pPtr count : Int) (sbuf : ScreenBuffer) :
    Except DrawFault (Int × Int × ScreenBuffer) :=
  if block ≤ count then do
    let sbuf ← storeRun color 1 block pPtr sbuf
    .ok (pPtr + block, count - block, sbuf)
  else .ok (pPtr, count, sbuf)

/-- The pixel that is stored alone when the pointer is not at a word boundary. -/
def storeUnaligned (color : UInt16) (pPtr count : Int) (sbuf : ScreenBuffer) :
    Except DrawFault (Int × Int × ScreenBuffer) :=
  if (sbuf.address + 2 * pPtr) % 4 ≠ 0 ∧ 0 < count then do
    let sbuf ← store color pPtr sbuf
    .ok (pPtr + 1, count - 1, sbuf)
  else .ok (pPtr, count, sbuf)

/-- Stores of 16, 8 and 4 pixels. -/
def storeWide (color : UInt16) (pPtr count : Int) (sbuf : ScreenBuffer) :
    Except DrawFault (Int × Int × ScreenBuffer) := do
  let (pPtr, count, sbuf) ← storeUnaligned color pPtr count sbuf
  let (pPtr, count, sbuf) ← storeBlocks color 1 16 pPtr count sbuf
  let (pPtr, count, sbuf) ← storeBlock color 8 pPtr count sbuf
  storeBlock color 4 pPtr count sbuf

/-! ## Primitives -/

/-- `PRIMDRAWPIXEL`, clipped to the right, below and before the first pixel. -/
def primDrawPixel (color : UInt16) (x y : Int) : Draw := fun sbuf =>
  let i := y * sbuf.width + x
  if x < sbuf.width ∧ y < sbuf.height ∧ 0 ≤ i then store color i sbuf else .ok sbuf

/-- Into `0..bound`. -/
def clampTo (bound a : Int) : Int := if a < 0 then 0 else if a > bound then bound else a

/-- Onto one of the `size` rows or columns. -/
def clampInto (size a : Int) : Int := if a < 0 then 0 else if a ≥ size then size - 1 else a

def primDrawVertLine (color : UInt16) (x1 y1 _x2 y2 : Int) : Draw := fun sbuf =>
  let width := sbuf.width
  if x1 < 0 ∨ x1 ≥ width then .ok sbuf
  else do
    let y1 := clampInto sbuf.height y1
    let y2 := clampInto sbuf.height y2
    let count := y2 - y1
    let (y1, count) := if count < 0 then (y2, -count) else (y1, count)
    let (pPtr, count, sbuf) ← storeBlocks color width 8 (y1 * width + x1) count sbuf
    storeRun color width (count + 1).toNat pPtr sbuf

def primDrawHorzLine (color : UInt16) (x1 y1 x2 _y2 : Int) : Draw := fun sbuf =>
  if y1 < 0 ∨ y1 ≥ sbuf.height then .ok sbuf
  else do
    let x1 := clampInto sbuf.width x1
    let x2 := clampInto sbuf.width x2
    let count := x2 - x1
    let (x1, count) := if count < 0 then (x2, -count) else (x1, count)
    let (pPtr, count, sbuf) ← storeWide color (y1 * sbuf.width + x1) count sbuf
    storeRun color 1 (count + 1).toNat pPtr sbuf

/-- A row of `primDrawFilledRect`. -/
def filledRow (color : UInt16) (pPtr count : Int) : Draw := fun sbuf => do
  let (pPtr, count, sbuf) ← storeWide color pPtr count sbuf
  storeRun color 1 count.toNat pPtr sbuf

/-- The rows of `primDrawFilledRect`; `count` is the number of pixels of the first. -/
def filledRows (color : UInt16) (width rowCount : Int) :
    Nat → Int → Int → ScreenBuffer → Except DrawFault ScreenBuffer
  | 0, _, _, sbuf => .ok sbuf
  | rows + 1, lPtr, count, sbuf =>
    filledRow color lPtr count sbuf >>=
      filledRows color width rowCount rows (lPtr + width) rowCount

def primDrawFilledRect (color : UInt16) (x1 y1 x2 y2 : Int) : Draw := fun sbuf =>
  let width := sbuf.width
  let y1 := clampTo sbuf.height y1
  let y2 := clampTo sbuf.height y2
  let x1 := clampTo width x1
  let x2 := clampTo width x2
  let count := x2 - x1
  let (x1, x2, count) := if count < 0 then (x2, x1, -count) else (x1, x2, count)
  let lPtr := y1 * width + x1
  if x1 = 0 ∧ x2 = width then
    -- all rows are one run
    filledRows color width (x2 - x1) 1 lPtr (width * (y2 - y1)) sbuf
  else filledRows color width (x2 - x1) (y2 - y1).toNat lPtr count sbuf

/-- `fast_pixel_set`. -/
def fastPixelSet (color : UInt16) (pBuf numberOfPixels : Int) : Draw := fun sbuf =>
  if numberOfPixels ≤ 0 then .ok sbuf
  else do
    let (pBuf, numberOfPixels, sbuf) ← storeUnaligned color pBuf numberOfPixels sbuf
    let (pBuf, numberOfPixels, sbuf) ← storeBlocks color 1 16 pBuf numberOfPixels sbuf
    let (pBuf, numberOfPixels, sbuf) ← storeBlocks color 1 2 pBuf numberOfPixels sbuf
    storeRun color 1 numberOfPixels.toNat pBuf sbuf

end FroggyKVM.Graphics
