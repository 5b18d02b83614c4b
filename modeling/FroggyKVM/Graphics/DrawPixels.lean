/-
# FroggyKVM.Graphics.DrawPixels — the pixel loops of the Nokia drawing functions.

`gx_draw_pixels_4444_to_565` and `gx_draw_pixels_8888_to_565` differ in the format of the source
only.  Both compute where the rows of the turned image begin and how the pointers move, and then
take one of two paths: with alpha each pixel is tested and stored for itself, without it a row is
copied in blocks of eight.  A pointer is counted in pixels; what the code counts in bytes is still
checked in bytes.  **Both paths are lists of writes** when every source pixel is opaque.
-/
import FroggyKVM.Graphics.Rect
import FroggyKVM.Lib.LastWrite

namespace FroggyKVM.Graphics

/-! ## The formats -/

/-- What the two functions differ in. -/
structure PixelFormat (α : Type) where
  /-- `pix_size_src` -/
  size : Int
  /-- the alpha of a pixel, and that of an opaque one -/
  alpha : α → Nat
  full : Nat
  /-- the pixel that an opaque one is stored as -/
  convert : α → UInt16
  /-- the pixel that is stored over a background -/
  blend : α → UInt16 → UInt16

/-- `GXJ_RGB444TORGB565`, in the two orders of the framebuffer. -/
def rgb444ToRgb565 (bigEndian : Bool) (x : UInt16) : UInt16 :=
  if bigEndian then ((x &&& 0x000F) <<< 12) ||| ((x &&& 0x00F0) <<< 3) ||| ((x &&& 0x0F00) >>> 7)
  else ((x &&& 0x0F00) <<< 4) ||| ((x &&& 0x00F0) <<< 3) ||| ((x &&& 0x000F) <<< 1)

/-- `alphaComposition_4444to565`.  The alpha is the top byte of the sign-extended pixel. -/
def alphaComposition4444 (bigEndian : Bool) (src dst : UInt16) : UInt16 :=
  let As := if src &&& 0x8000 = 0 then 0 else 0xFF
  let mix (s d : UInt16) : UInt16 :=
    .ofNat ((s.toNat * As + d.toNat * (0xFF - As)) / 0xFF % 256)
  let Rr := mix ((src &&& 0x0F00) >>> 4) ((dst &&& 0xF800) >>> 8)
  let Gr := mix (src &&& 0x00F0) ((dst &&& 0x07E0) >>> 3)
  let Br := mix ((src &&& 0x000F) <<< 4) ((dst &&& 0x001F) <<< 3)
  if bigEndian then ((Br &&& 0xF8) <<< 8) ||| ((Gr &&& 0xFC) <<< 3) ||| ((Rr &&& 0xF8) >>> 3)
  else ((Rr &&& 0xF8) <<< 8) ||| ((Gr &&& 0xFC) <<< 3) ||| ((Br &&& 0xF8) >>> 3)

/-- `GXJ_RGB24TORGB16`. -/
def rgb24ToRgb16 (bigEndian : Bool) (x : UInt32) : UInt16 :=
  if bigEndian then
    (((x &&& 0x00F80000) >>> 19) + ((x &&& 0x0000FC00) >>> 5) + ((x &&& 0x000000F8) <<< 8)).toUInt16
  else
    (((x &&& 0x00F80000) >>> 8) + ((x &&& 0x0000FC00) >>> 5) + ((x &&& 0x000000F8) >>> 3)).toUInt16

/-- `GXJ_RGB16TORGB24`. -/
def rgb16ToRgb24 (bigEndian : Bool) (p : UInt16) : UInt32 :=
  let x := p.toUInt32
  if bigEndian then
    ((x &&& 0x001F) <<< 19) ||| ((x &&& 0x001C) <<< 14) ||| ((x &&& 0x07E0) <<< 5) |||
      ((x &&& 0x0600) >>> 1) ||| ((x &&& 0xF800) >>> 8) ||| ((x &&& 0xE000) >>> 13)
  else
    ((x &&& 0x001F) <<< 3) ||| ((x &&& 0x001C) >>> 2) ||| ((x &&& 0x07E0) <<< 5) |||
      ((x &&& 0x0600) >>> 1) ||| ((x &&& 0xF800) <<< 8) ||| ((x &&& 0xE000) <<< 3)

/-- `PREMULTUPLY_ALPHA`. -/
def premultiplyAlpha (c a : Nat) : Nat := c * a / 0xFF % 256

/-- `ADD_COLORS`: source over an opaque background. -/
def addColors (Csr As Cdr : Nat) : Nat :=
  (premultiplyAlpha Csr As + premultiplyAlpha Cdr 0xFF * (0xFF - As) / 0xFF) % 256

/-- `alphaComposition`. -/
def alphaComposition (src dst : UInt32) : UInt32 :=
  let As := src.toNat / 16777216
  let Rr := addColors (src.toNat / 65536 % 256) As (dst.toNat / 65536 % 256)
  let Gr := addColors (src.toNat / 256 % 256) As (dst.toNat / 256 % 256)
  let Br := addColors (src.toNat % 256) As (dst.toNat % 256)
  .ofNat (Rr * 65536 + Gr * 256 + Br)

def format4444 (bigEndian : Bool) : PixelFormat UInt16 where
  size := 2
  alpha x := (x >>> 8 &&& 0xF0).toNat
  full := 0xF0
  convert := rgb444ToRgb565 bigEndian
  blend := alphaComposition4444 bigEndian

def format8888 (bigEndian : Bool) : PixelFormat UInt32 where
  size := 4
  alpha x := (x >>> 24).toNat
  full := 0xFF
  convert := rgb24ToRgb16 bigEndian
  blend src dst := rgb24ToRgb16 bigEndian (alphaComposition src (rgb16ToRgb24 bigEndian dst))

/-! ## The arguments, and what is computed from them -/

/-- The integer arguments of a call. -/
structure PixelCall where
  nXOriginDest : Int
  nYOriginDest : Int
  nScanLen : Int
  nXOriginSrc : Int
  nYOriginSrc : Int
  nWidth : Int
  nHeight : Int
  transform : Int

/-- What the loops use. -/
structure PixelSetup where
  tWidth : Int
  tHeight : Int
  /-- `destBitsPtr` and `srcBitsPtr` -/
  dest : Int
  src : Int
  xDestIncr : Int
  yDestIncr : Int
  xSrcIncr : Int
  ySrcIncr : Int
  /-- `destBitsLimit` -/
  limit : Int

namespace PixelCall

/-- `TRANSFORM_INVERTED_AXES`, `TRANSFORM_X_FLIP` and `TRANSFORM_Y_FLIP`. -/
def inverted (c : PixelCall) : Bool := c.transform / 4 % 2 = 1

def xFlip (c : PixelCall) : Bool := c.transform / 2 % 2 = 1

def yFlip (c : PixelCall) : Bool := c.transform % 2 = 1

/-- `x = x + (n - 1) * incr; incr = -incr;` -/
def turn (x n incr : Int) : Except DrawFault (Int × Int) := do
  let last ← checked (n - 1)
  let distance ← checked (last * incr)
  let x ← checked (x + distance)
  return (x, -incr)

/-- The code in front of the loops, for a destination of `W` by `H` pixels and source pixels of
`size` bytes. -/
def setup (size W H : Int) (c : PixelCall) : Except DrawFault PixelSetup := do
  let tWidth := if c.inverted then c.nHeight else c.nWidth
  let tHeight := if c.inverted then c.nWidth else c.nHeight
  let (yDest, yDestIncr) ← if c.inverted then turn c.nYOriginDest tHeight 1
    else pure (c.nYOriginDest, 1)
  let (xDest, xDestIncr) ← if c.inverted then turn c.nXOriginDest tWidth 1
    else pure (c.nXOriginDest, 1)
  let (yDest, yDestIncr) ← if c.yFlip then turn yDest tHeight yDestIncr else pure (yDest, yDestIncr)
  let right ← checked (xDest + tWidth)
  let tWidth ← if W ≤ right then checked (W - xDest) else pure tWidth
  let (xDest, xDestIncr) ← if c.xFlip then turn xDest tWidth xDestIncr else pure (xDest, xDestIncr)
  let yDestIncr ← checked (yDestIncr * W)
  let xSrcIncr := if c.inverted then c.nScanLen else 1
  let ySrcIncr := if c.inverted then 1 else c.nScanLen
  -- the increments in bytes
  let _ ← checked (yDestIncr * 2)
  let xSrcBytes ← checked (xSrcIncr * size)
  let _ ← checked (ySrcIncr * size)
  let _ ← checked (tWidth * (xDestIncr * 2))
  let _ ← checked (tWidth * xSrcBytes)
  let firstRow ← checked (yDest * W)
  let dest ← checked (firstRow + xDest)
  let _ ← checked (dest * 2)
  let srcRow ← checked (c.nYOriginSrc * c.nScanLen)
  let src ← checked (srcRow + c.nXOriginSrc)
  let limit ← checked (W * H)
  let _ ← checked (limit * 2)
  return { tWidth, tHeight, dest, src, xDestIncr, yDestIncr, xSrcIncr, ySrcIncr, limit }

end PixelCall

/-! ## The path with alpha -/

section Paths
variable {α : Type} (fmt : PixelFormat α) (data : Int → α) (s : PixelSetup)

/-- One pixel, if the pointer is in front of the limit. -/
def blendPixel (destBitsPtr srcBitsPtr : Int) : Draw := fun sbuf =>
  if destBitsPtr < s.limit then
    let alpha := fmt.alpha (data srcBitsPtr)
    if alpha = fmt.full then store (fmt.convert (data srcBitsPtr)) destBitsPtr sbuf
    else if alpha ≠ 0 then
      store (fmt.blend (data srcBitsPtr) (sbuf.pixelData.data destBitsPtr.toNat)) destBitsPtr sbuf
    else .ok sbuf
  else .ok sbuf

/-- The pixels of a row, and where the pointers stand behind them. -/
def blendRow : Nat → Int → Int → ScreenBuffer → Except DrawFault (Int × Int × ScreenBuffer)
  | 0, destBitsPtr, srcBitsPtr, sbuf => .ok (destBitsPtr, srcBitsPtr, sbuf)
  | n + 1, destBitsPtr, srcBitsPtr, sbuf => do
    let sbuf ← blendPixel fmt data s destBitsPtr srcBitsPtr sbuf
    blendRow n (destBitsPtr + s.xDestIncr) (srcBitsPtr + s.xSrcIncr) sbuf

def blendRows : Nat → Int → Int → Draw
  | 0, _, _, sbuf => .ok sbuf
  | n + 1, destBitsPtr, srcBitsPtr, sbuf => do
    let (destBitsPtr, srcBitsPtr, sbuf) ←
      blendRow fmt data s s.tWidth.toNat destBitsPtr srcBitsPtr sbuf
    let _ ← checked (s.yDestIncr * 2 - s.tWidth * (s.xDestIncr * 2))
    let _ ← checked (s.ySrcIncr * fmt.size - s.tWidth * (s.xSrcIncr * fmt.size))
    blendRows n (destBitsPtr + (s.yDestIncr - s.tWidth * s.xDestIncr))
      (srcBitsPtr + (s.ySrcIncr - s.tWidth * s.xSrcIncr)) sbuf

/-! ## The path without alpha -/

/-- `*pTo++ = convert(*pFrom); pFrom++`, or with `pTo--`, `n` times. -/
def copyRun (incr : Int) :
    Nat → Int → Int → ScreenBuffer → Except DrawFault (Int × Int × ScreenBuffer)
  | 0, pTo, pFrom, sbuf => .ok (pTo, pFrom, sbuf)
  | n + 1, pTo, pFrom, sbuf => do
    let sbuf ← store (fmt.convert (data pFrom)) pTo sbuf
    copyRun incr n (pTo + incr) (pFrom + 1) sbuf

/-- `for (i = 0; i < blocks; i++)`, with eight pixels in each turn. -/
def copyBlocks (incr : Int) :
    Nat → Int → Int → ScreenBuffer → Except DrawFault (Int × Int × ScreenBuffer)
  | 0, pTo, pFrom, sbuf => .ok (pTo, pFrom, sbuf)
  | n + 1, pTo, pFrom, sbuf => do
    let (pTo, pFrom, sbuf) ← copyRun fmt data incr 8 pTo pFrom sbuf
    copyBlocks incr n pTo pFrom sbuf

/-- A row of the path without alpha: the blocks, and the cases of `switch (remains)`. -/
def copyRow (destBitsPtr srcBitsPtr : Int) : Draw := fun sbuf =>
  if destBitsPtr < s.limit ∧ destBitsPtr + s.tWidth * s.xDestIncr < s.limit then do
    let incr := if 0 < s.xDestIncr then 1 else -1
    let (pTo, pFrom, sbuf) ←
      copyBlocks fmt data incr (s.tWidth.tdiv 8).toNat destBitsPtr srcBitsPtr sbuf
    let (_, _, sbuf) ← copyRun fmt data incr (s.tWidth.tmod 8).toNat pTo pFrom sbuf
    .ok sbuf
  else .ok sbuf

def copyRows : Nat → Int → Int → Draw
  | 0, _, _, sbuf => .ok sbuf
  | n + 1, destBitsPtr, srcBitsPtr, sbuf => do
    let sbuf ← copyRow fmt data s destBitsPtr srcBitsPtr sbuf
    copyRows n (destBitsPtr + s.yDestIncr) (srcBitsPtr + s.ySrcIncr) sbuf

end Paths

/-- The drawing function for a format. -/
def drawPixels {α : Type} (fmt : PixelFormat α) (c : PixelCall) (dataSrc : Int → α)
    (processAlpha : Bool) : Draw := fun sbuf => do
  let s ← c.setup fmt.size sbuf.width sbuf.height
  if processAlpha then blendRows fmt dataSrc s s.tHeight.toNat s.dest s.src sbuf
  else copyRows fmt dataSrc s s.tHeight.toNat s.dest s.src sbuf

/-- `gx_draw_pixels_4444_to_565`. -/
def gxDrawPixels4444 (bigEndian : Bool) (c : PixelCall) (dataSrc : Int → UInt16) :
    (processAlpha : Bool) → Draw := drawPixels (format4444 bigEndian) c dataSrc

/-- `gx_draw_pixels_8888_to_565`. -/
def gxDrawPixels8888 (bigEndian : Bool) (c : PixelCall) (dataSrc : Int → UInt32) :
    (processAlpha : Bool) → Draw := drawPixels (format8888 bigEndian) c dataSrc

/-! ## Writes -/

section Writes
variable {α : Type} {fmt : PixelFormat α} {data : Int → α} {s : PixelSetup} {sbuf : ScreenBuffer}

/-- Writes into the pixels, in turn. -/
def storeAll (f : Int → UInt16) : List (Int × Int) → Draw
  | [], sbuf => .ok sbuf
  | e :: l, sbuf => store (f e.2) e.1 sbuf >>= storeAll f l

theorem storeAll_append (f : Int → UInt16) (l l' : List (Int × Int)) (sbuf : ScreenBuffer) :
    storeAll f (l ++ l') sbuf = storeAll f l sbuf >>= storeAll f l' := by
  induction l generalizing sbuf with
  | nil => rfl
  | cons e l ih =>
    rw [List.cons_append, storeAll, storeAll, bind_assoc]
    exact bind_congr fun sbuf' => ih sbuf'

/-- Inside the pixels. -/
def Inside (n : Int) (l : List (Int × Int)) : Prop := ∀ e ∈ l, 0 ≤ e.1 ∧ e.1 < n

/-- The screen buffer after the writes: it shows the last write of each pixel. -/
def ScreenBuffer.after (sbuf : ScreenBuffer) (f : Int → UInt16) (l : List (Int × Int)) :
    ScreenBuffer where
  width := sbuf.width
  height := sbuf.height
  address := sbuf.address
  pixelData := ⟨sbuf.pixelData.length, fun k =>
    ((lastWrite (k : Int) l).map f).getD (sbuf.pixelData.data k)⟩

theorem ScreenBuffer.after_cons {f : Int → UInt16} {e : Int × Int} {l : List (Int × Int)}
    (he : 0 ≤ e.1) : ({ sbuf with pixelData := { sbuf.pixelData with
      data := fun k => if k = e.1.toNat then f e.2 else sbuf.pixelData.data k } } : ScreenBuffer).after
        f l = sbuf.after f (e :: l) := by
  unfold after
  congr 2
  funext k
  dsimp only
  rw [lastWrite]
  cases lastWrite (k : Int) l with
  | some q => rfl
  | none =>
    have hk : k = e.1.toNat ↔ e.1 = k := by omega
    by_cases heq : e.1 = (k : Int)
    · simp [heq]
    · simp [heq, hk]

/-- **Writes succeed exactly if all of them are inside.** -/
theorem storeAll_eq {f : Int → UInt16} {l : List (Int × Int)} (h : Inside sbuf.pixelData.length l) :
    storeAll f l sbuf = .ok (sbuf.after f l) := by
  induction l generalizing sbuf with
  | nil => rfl
  | cons e l ih =>
    have he := h e List.mem_cons_self
    rw [storeAll, store, if_pos he, ok_bind, ← ScreenBuffer.after_cons he.1]
    apply ih
    exact fun e' he' => h e' (List.mem_cons_of_mem _ he')

theorem storeAll_error {f : Int → UInt16} {l : List (Int × Int)}
    (h : ¬ Inside sbuf.pixelData.length l) : storeAll f l sbuf = .error .outOfBounds := by
  induction l generalizing sbuf with
  | nil => exact absurd (fun e he => absurd he List.not_mem_nil) h
  | cons e l ih =>
    rw [storeAll, store]
    split
    · next he =>
      refine ih fun hl => h fun e' he' => ?_
      rcases List.mem_cons.1 he' with rfl | he'
      · exact he
      · exact hl e' he'
    · rfl

/-- The write of an opaque pixel with alpha. -/
def pixelWrite (limit p q : Int) : List (Int × Int) := if p < limit then [(p, q)] else []

/-- The writes of the path with alpha, for opaque pixels. -/
def alphaWrites (s : PixelSetup) : List (Int × Int) :=
  along (along (pixelWrite s.limit) s.xDestIncr s.xSrcIncr s.tWidth.toNat) s.yDestIncr s.ySrcIncr
    s.tHeight.toNat s.dest s.src

/-- The writes of a row of the path without alpha. -/
def rowWrites (s : PixelSetup) (p q : Int) : List (Int × Int) :=
  if p < s.limit ∧ p + s.tWidth * s.xDestIncr < s.limit then
    along (fun p q => [(p, q)]) (if 0 < s.xDestIncr then 1 else -1) 1 s.tWidth.toNat p q
  else []

/-- The writes of the path without alpha. -/
def opaqueWrites (s : PixelSetup) : List (Int × Int) :=
  along (rowWrites s) s.yDestIncr s.ySrcIncr s.tHeight.toNat s.dest s.src

theorem blendRow_eq (hfull : ∀ q, fmt.alpha (data q) = fmt.full) {n : Nat} {p q : Int} :
    blendRow fmt data s n p q sbuf =
      (storeAll (fun q => fmt.convert (data q))
        (along (pixelWrite s.limit) s.xDestIncr s.xSrcIncr n p q) sbuf).map fun sbuf =>
          (p + n * s.xDestIncr, q + n * s.xSrcIncr, sbuf) := by
  induction n generalizing p q sbuf with
  | zero => simp [blendRow, along, storeAll, Except.map]
  | succ n ih =>
    have hpixel : blendPixel fmt data s p q sbuf =
        storeAll (fun q => fmt.convert (data q)) (pixelWrite s.limit p q) sbuf := by
      unfold blendPixel pixelWrite
      split
      · simp only [hfull, if_true, storeAll]
        exact (bind_pure _).symm
      · rfl
    rw [blendRow, along, storeAll_append, hpixel]
    cases storeAll (fun q => fmt.convert (data q)) (pixelWrite s.limit p q) sbuf with
    | error e => rfl
    | ok sbuf' =>
      rw [ok_bind, ok_bind, ih]
      congr 1
      funext sbuf''
      push_cast
      refine Prod.ext ?_ (Prod.ext ?_ rfl) <;> ring

def IsInt32 (a : Int) : Prop := -2147483648 ≤ a ∧ a < 2147483648

/-- The sums behind a row. -/
def RowFits (size : Int) (s : PixelSetup) : Prop :=
  IsInt32 (s.yDestIncr * 2 - s.tWidth * (s.xDestIncr * 2)) ∧
    IsInt32 (s.ySrcIncr * size - s.tWidth * (s.xSrcIncr * size))

theorem along_empty {row : Int → Int → List (Int × Int)} (hrow : ∀ p q, row p q = []) {dp dq : Int}
    {n : Nat} {p q : Int} : along row dp dq n p q = [] := by
  induction n generalizing p q with
  | zero => rfl
  | succ n ih => rw [along, hrow, ih, List.nil_append]

/-- **The path with alpha** writes its list. -/
theorem blendRows_eq (hfull : ∀ q, fmt.alpha (data q) = fmt.full) (hfits : RowFits fmt.size s)
    {n : Nat} {p q : Int} : blendRows fmt data s n p q sbuf =
      storeAll (fun q => fmt.convert (data q))
        (along (along (pixelWrite s.limit) s.xDestIncr s.xSrcIncr s.tWidth.toNat) s.yDestIncr
          s.ySrcIncr n p q) sbuf := by
  induction n generalizing p q sbuf with
  | zero => rfl
  | succ n ih =>
    rw [blendRows, blendRow_eq hfull, along, storeAll_append]
    cases storeAll (fun q => fmt.convert (data q))
        (along (pixelWrite s.limit) s.xDestIncr s.xSrcIncr s.tWidth.toNat p q) sbuf with
    | error e => rfl
    | ok sbuf' =>
      simp only [Except.map, ok_bind]
      rw [checked_ok hfits.1, ok_bind, checked_ok hfits.2, ok_bind, ih]
      rcases Int.le_total 0 s.tWidth with hw | hw
      · -- the pointers go back to the beginning of the row
        rw [Int.toNat_of_nonneg hw]
        congr 2 <;> ring
      · have hempty : ∀ p q, along (pixelWrite s.limit) s.xDestIncr s.xSrcIncr s.tWidth.toNat p q =
            [] := fun p q => by rw [Int.toNat_of_nonpos hw, along]
        rw [along_empty hempty, along_empty hempty]

/-- A sum behind a row that overflows is not survived. -/
theorem blendRows_overflow (hfull : ∀ q, fmt.alpha (data q) = fmt.full)
    (hfits : ¬ RowFits fmt.size s) {n : Nat} (hn : 0 < n) {p q : Int} {r : ScreenBuffer} :
    blendRows fmt data s n p q sbuf ≠ .ok r := by
  obtain ⟨n, rfl⟩ := Nat.exists_eq_succ_of_ne_zero (Nat.ne_of_gt hn)
  rw [blendRows, blendRow_eq hfull]
  cases storeAll (fun q => fmt.convert (data q))
      (along (pixelWrite s.limit) s.xDestIncr s.xSrcIncr s.tWidth.toNat p q) sbuf with
  | error e =>
    intro h
    cases h
  | ok sbuf' =>
    simp only [Except.map, ok_bind]
    by_cases hdest : IsInt32 (s.yDestIncr * 2 - s.tWidth * (s.xDestIncr * 2))
    · rw [checked_ok hdest, ok_bind, checked_error fun hsrc => hfits ⟨hdest, hsrc⟩]
      intro h
      cases h
    · rw [checked_error hdest]
      intro h
      cases h

theorem copyRun_eq {incr : Int} {n : Nat} {p q : Int} : copyRun fmt data incr n p q sbuf =
    (storeAll (fun q => fmt.convert (data q)) (along (fun p q => [(p, q)]) incr 1 n p q) sbuf).map
      fun sbuf => (p + n * incr, q + n, sbuf) := by
  induction n generalizing p q sbuf with
  | zero => simp [copyRun, along, storeAll, Except.map]
  | succ n ih =>
    rw [copyRun, along, List.singleton_append, storeAll]
    cases store (fmt.convert (data q)) p sbuf with
    | error e => rfl
    | ok sbuf' =>
      rw [ok_bind, ok_bind, ih]
      congr 1
      funext sbuf''
      push_cast
      refine Prod.ext ?_ (Prod.ext ?_ rfl) <;> ring

theorem copyBlocks_eq {incr : Int} {n : Nat} {p q : Int} : copyBlocks fmt data incr n p q sbuf =
    (storeAll (fun q => fmt.convert (data q)) (along (fun p q => [(p, q)]) incr 1 (8 * n) p q)
      sbuf).map fun sbuf => (p + (8 * n : Nat) * incr, q + (8 * n : Nat), sbuf) := by
  induction n generalizing p q sbuf with
  | zero => simp [copyBlocks, along, storeAll, Except.map]
  | succ n ih =>
    rw [copyBlocks, copyRun_eq, Nat.mul_succ, Nat.add_comm (8 * n) 8, along_add, storeAll_append]
    cases storeAll (fun q => fmt.convert (data q)) (along (fun p q => [(p, q)]) incr 1 8 p q) sbuf with
    | error e => rfl
    | ok sbuf' =>
      simp only [Except.map, ok_bind, ih, Int.mul_one]
      congr 1
      funext sbuf''
      push_cast
      refine congrArg Except.ok (Prod.ext ?_ (Prod.ext ?_ rfl)) <;> ring

/-- Blocks and remaining pixels make up a row; a negative width has neither. -/
theorem blocks_add_remains (w : Int) : w.toNat = 8 * (w.tdiv 8).toNat + (w.tmod 8).toNat := by
  have h := Int.mul_tdiv_add_tmod w 8
  rcases Int.le_total 0 w with hw | hw
  · have h₁ := Int.tdiv_nonneg hw (show (0 : Int) ≤ 8 by omega)
    have h₂ := Int.tmod_nonneg 8 hw
    omega
  · have h₁ := Int.tdiv_nonneg (show 0 ≤ -w by omega) (show (0 : Int) ≤ 8 by omega)
    have h₂ := Int.tmod_nonneg 8 (show 0 ≤ -w by omega)
    rw [Int.neg_tdiv] at h₁
    rw [Int.neg_tmod] at h₂
    omega

theorem copyRow_eq {p q : Int} : copyRow fmt data s p q sbuf =
    storeAll (fun q => fmt.convert (data q)) (rowWrites s p q) sbuf := by
  unfold copyRow rowWrites
  split
  · dsimp only
    rw [copyBlocks_eq, blocks_add_remains s.tWidth, along_add, storeAll_append]
    cases storeAll (fun q => fmt.convert (data q)) (along (fun p q => [(p, q)])
        (if 0 < s.xDestIncr then 1 else -1) 1 (8 * (s.tWidth.tdiv 8).toNat) p q) sbuf with
    | error e => rfl
    | ok sbuf' =>
      simp only [Except.map, ok_bind, copyRun_eq, Int.mul_one]
      cases storeAll (fun q => fmt.convert (data q)) (along (fun p q => [(p, q)])
        (if 0 < s.xDestIncr then 1 else -1) 1 (s.tWidth.tmod 8).toNat _ _) sbuf' <;> rfl
  · rfl

/-- **The path without alpha** writes its list. -/
theorem copyRows_eq {n : Nat} {p q : Int} : copyRows fmt data s n p q sbuf =
    storeAll (fun q => fmt.convert (data q)) (along (rowWrites s) s.yDestIncr s.ySrcIncr n p q)
      sbuf := by
  induction n generalizing p q sbuf with
  | zero => rfl
  | succ n ih =>
    rw [copyRows, copyRow_eq, along, storeAll_append]
    exact bind_congr fun sbuf' => ih

end Writes

end FroggyKVM.Graphics
