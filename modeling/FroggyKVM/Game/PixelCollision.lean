/-
# FroggyKVM.Game.PixelCollision — the eight transforms and `Sprite.doPixelCollision`.

A transform is a three-bit number: bit 2 exchanges the axes, bit 1 flips the columns of the source
and bit 0 its rows.  `doPixelCollision` reads the same painter-space window of two transformed images
out of their sources and walks both arrays with a start and two increments for each.
`Transform.apply` says what a transform means, by mirroring and clockwise quarter turns;
`doPixelCollision_spec` says that the walk visits, for each point of the window, the two source
pixels that are drawn there.
-/
import FroggyKVM.Lib.Answer
import FroggyKVM.Game.Image

namespace FroggyKVM.Game

/-- The transforms `TRANS_NONE`, …, `TRANS_MIRROR_ROT270`. -/
inductive Transform where
  | none
  | rot90
  | rot180
  | rot270
  | mirror
  | mirrorRot90
  | mirrorRot180
  | mirrorRot270
  deriving DecidableEq, Repr

namespace Transform

/-- The values of the `TRANS_` constants. -/
def value : Transform → Nat
  | none => 0
  | rot90 => 5
  | rot180 => 3
  | rot270 => 6
  | mirror => 2
  | mirrorRot90 => 7
  | mirrorRot180 => 1
  | mirrorRot270 => 4

/-- The transform of a Java `int`; the other values are rejected. -/
def ofInt (transform : Int) : Option Transform :=
  [none, rot90, rot180, rot270, mirror, mirrorRot90, mirrorRot180, mirrorRot270].find?
    fun t => t.value = transform

/-- `transform & INVERTED_AXES`. -/
def invertedAxes (t : Transform) : Bool := t.value &&& 0x4 != 0

/-- `transform & X_FLIP`. -/
def xFlip (t : Transform) : Bool := t.value &&& 0x2 != 0

/-- `transform & Y_FLIP`. -/
def yFlip (t : Transform) : Bool := t.value &&& 0x1 != 0

/-! ## The meaning of a transform -/

/-- The raster a transform draws: reflections first, then clockwise quarter turns. -/
def apply {α : Type*} (t : Transform) (r : Raster α) : Raster α :=
  match t with
  | none => r
  | rot90 => r.rotate
  | rot180 => r.rotate.rotate
  | rot270 => r.rotate.rotate.rotate
  | mirror => r.mirror
  | mirrorRot90 => r.mirror.rotate
  | mirrorRot180 => r.mirror.rotate.rotate
  | mirrorRot270 => r.mirror.rotate.rotate.rotate

/-- The source column of the pixel drawn at `(x, y)`, for a source of `width` by `height`. -/
def column (t : Transform) (width x y : Int) : Int :=
  match t with
  | none | mirrorRot180 => x
  | mirror | rot180 => width - 1 - x
  | rot90 | mirrorRot270 => y
  | rot270 | mirrorRot90 => width - 1 - y

/-- The source row of the pixel drawn at `(x, y)`, for a source of `width` by `height`. -/
def row (t : Transform) (height x y : Int) : Int :=
  match t with
  | none | mirror => y
  | rot180 | mirrorRot180 => height - 1 - y
  | rot270 | mirrorRot270 => x
  | rot90 | mirrorRot90 => height - 1 - x

variable {α : Type*}

theorem apply_width (t : Transform) (r : Raster α) :
    (t.apply r).width = if t.invertedAxes then r.height else r.width := by
  cases t <;> rfl

theorem apply_height (t : Transform) (r : Raster α) :
    (t.apply r).height = if t.invertedAxes then r.width else r.height := by
  cases t <;> rfl

/-- **Each drawn pixel comes from one source pixel.** -/
theorem apply_pixel (t : Transform) (r : Raster α) (x y : Int) :
    (t.apply r).pixel x y = r.pixel (t.column r.width x y) (t.row r.height x y) := by
  cases t with
  | rot270 | mirrorRot90 | mirrorRot180 | mirrorRot270 =>
    -- two reflections of the same axis cancel
    simp [apply, Raster.mirror, Raster.rotate, column, row]
  | _ => rfl

/-! ## The walk -/

/-- Where a walk over the array of a window starts, and its steps to the next column and row. -/
structure Walk where
  start : Int
  xIncr : Int
  yIncr : Int

/-- The walk for a window of `width` by `height` drawn points. -/
def walk (t : Transform) (width height : Int) : Walk :=
  let numPixels := height * width
  if t.invertedAxes then
    -- the array holds `width` rows of `height` pixels
    let (xIncr, start) := if t.yFlip then (-height, numPixels - height) else (height, 0)
    if t.xFlip then { start := start + (height - 1), xIncr := xIncr, yIncr := -1 }
    else { start := start, xIncr := xIncr, yIncr := 1 }
  else
    let (yIncr, start) := if t.yFlip then (-width, numPixels - width) else (width, 0)
    if t.xFlip then { start := start + (width - 1), xIncr := -1, yIncr := yIncr }
    else { start := start, xIncr := 1, yIncr := yIncr }

/-- The width of the source window of a drawn window: also the scan length of its array. -/
def windowWidth (t : Transform) (width height : Int) : Int :=
  if t.invertedAxes then height else width

/-- The height of the source window of a drawn window. -/
def windowHeight (t : Transform) (width height : Int) : Int :=
  if t.invertedAxes then width else height

/-- The walk's address at a point of the window. -/
def Walk.address (walk : Walk) (dx dy : Int) : Int := walk.start + dy * walk.yIncr + dx * walk.xIncr

variable {width height dx dy : Int}

/-- **The walk visits the drawn pixels**: at each point of the window its address is that of the
source pixel drawn there, inside the window's array. -/
theorem walk_address (t : Transform) (width height dx dy : Int) :
    (t.walk width height).address dx dy =
      t.column (t.windowWidth width height) dx dy +
        t.row (t.windowHeight width height) dx dy * t.windowWidth width height := by
  cases t <;>
    simp [walk, Walk.address, column, row, windowWidth, windowHeight, invertedAxes, xFlip, yFlip,
      value] <;> ring

/-- The source pixel of a point of the window lies in the source window. -/
theorem column_row_mem (t : Transform) (hx : 0 ≤ dx ∧ dx < width) (hy : 0 ≤ dy ∧ dy < height) :
    (0 ≤ t.column (t.windowWidth width height) dx dy ∧
      t.column (t.windowWidth width height) dx dy < t.windowWidth width height) ∧
    0 ≤ t.row (t.windowHeight width height) dx dy ∧
      t.row (t.windowHeight width height) dx dy < t.windowHeight width height := by
  cases t <;> refine ⟨⟨?_, ?_⟩, ?_, ?_⟩ <;>
    simp [column, row, windowWidth, windowHeight, invertedAxes, value] <;> omega

theorem window_size (t : Transform) (width height : Int) :
    height * width = t.windowWidth width height * t.windowHeight width height := by
  cases t <;> simp [windowWidth, windowHeight, invertedAxes, value, Int.mul_comm]

end Transform

/-! ## `doPixelCollision` -/

/-- The inner loop: the next `n` columns, from `x1` and `x2` on. -/
def scanColumns (argbData1 argbData2 : IntArray) (xIncr1 xIncr2 : Int) :
    Nat → Int → Int → Except Throwable Bool
  | 0, _, _ => .ok false
  | n + 1, x1, x2 => do
    if isOpaque (← argbData1.get x1) then
      -- the second array is read only under an opaque pixel of the first
      if isOpaque (← argbData2.get x2) then
        return true
    scanColumns argbData1 argbData2 xIncr1 xIncr2 n (x1 + xIncr1) (x2 + xIncr2)

/-- The outer loop: the next `m` rows of `n` columns, from `xLocalBegin1` and `xLocalBegin2` on. -/
def scanRows (argbData1 argbData2 : IntArray) (walk1 walk2 : Transform.Walk) (n : Nat) :
    Nat → Int → Int → Except Throwable Bool
  | 0, _, _ => .ok false
  | m + 1, xLocalBegin1, xLocalBegin2 => do
    if ← scanColumns argbData1 argbData2 walk1.xIncr walk2.xIncr n xLocalBegin1 xLocalBegin2 then
      return true
    scanRows argbData1 argbData2 walk1 walk2 n m (xLocalBegin1 + walk1.yIncr)
      (xLocalBegin2 + walk2.yIncr)

/-- The array of an image's window: `scanlength` is the width of the source window. -/
def readWindow (image : Image) (transform : Transform) (xOffset yOffset width height : Int) :
    Except Throwable IntArray :=
  image.getRGB (IntArray.new (height * width)) 0 (transform.windowWidth width height) xOffset
    yOffset (transform.windowWidth width height) (transform.windowHeight width height)

/-- `Sprite.doPixelCollision`. -/
def doPixelCollision (image1XOffset image1YOffset image2XOffset image2YOffset : Int)
    (image1 : Image) (transform1 : Transform) (image2 : Image) (transform2 : Transform)
    (width height : Int) : Except Throwable Bool := do
  let argbData1 ← readWindow image1 transform1 image1XOffset image1YOffset width height
  let argbData2 ← readWindow image2 transform2 image2XOffset image2YOffset width height
  let walk1 := transform1.walk width height
  let walk2 := transform2.walk width height
  scanRows argbData1 argbData2 walk1 walk2 width.toNat height.toNat walk1.start walk2.start

section Loops

variable {argbData1 argbData2 : IntArray} {walk1 walk2 : Transform.Walk}

/-- Both arrays hold opaque pixels at their addresses. -/
def BothOpaque (argbData1 argbData2 : IntArray) (a₁ a₂ : Int) : Prop :=
  isOpaque (argbData1.data a₁) = true ∧ isOpaque (argbData2.data a₂) = true

/-- The address lies in the array. -/
def IntArray.Has (array : IntArray) (a : Int) : Prop := 0 ≤ a ∧ a < array.length

/-- The inner loop finds a column where both pixels are opaque. -/
theorem scanColumns_answers {xIncr1 xIncr2 : Int} {n : Nat} {x1 x2 : Int}
    (h₁ : ∀ k : Nat, k < n → argbData1.Has (x1 + k * xIncr1))
    (h₂ : ∀ k : Nat, k < n → argbData2.Has (x2 + k * xIncr2)) :
    Answers (scanColumns argbData1 argbData2 xIncr1 xIncr2 n x1 x2)
      (∃ k : Nat, k < n ∧ BothOpaque argbData1 argbData2 (x1 + k * xIncr1) (x2 + k * xIncr2)) := by
  induction n generalizing x1 x2 with
  | zero => exact Answers.ok_false.2 (by simp)
  | succ n ih =>
    have hstep : ∀ (x incr : Int) (k : Nat), x + incr + k * incr = x + (k + 1 : Nat) * incr := by
      intro x incr k
      push_cast
      ring
    have hrest := @ih (x1 + xIncr1) (x2 + xIncr2)
      (fun k hk => by rw [hstep]; exact h₁ _ (by omega))
      (fun k hk => by rw [hstep]; exact h₂ _ (by omega))
    simp only [hstep] at hrest
    have hget₁ := IntArray.get_ok (by simpa [IntArray.Has] using h₁ 0 (by omega))
    have hget₂ := IntArray.get_ok (by simpa [IntArray.Has] using h₂ 0 (by omega))
    by_cases hhit : BothOpaque argbData1 argbData2 x1 x2
    · rw [scanColumns, hget₁, ok_bind, if_pos hhit.1, hget₂, ok_bind, if_pos hhit.2]
      exact Answers.ok_true.2 ⟨0, by omega, by simpa using hhit⟩
    · have hskip : scanColumns argbData1 argbData2 xIncr1 xIncr2 (n + 1) x1 x2 =
          scanColumns argbData1 argbData2 xIncr1 xIncr2 n (x1 + xIncr1) (x2 + xIncr2) := by
        rw [scanColumns, hget₁, ok_bind]
        by_cases ho : isOpaque (argbData1.data x1) = true
        · rw [if_pos ho, hget₂, ok_bind, if_neg fun h => hhit ⟨ho, h⟩]
        · rw [if_neg ho]
      rw [hskip]
      refine hrest.congr ⟨fun ⟨k, hk, h⟩ => ⟨k + 1, by omega, h⟩, fun ⟨k, hk, h⟩ => ?_⟩
      cases k with
      | zero => exact absurd (by simpa using h) hhit
      | succ k => exact ⟨k, by omega, h⟩

/-- The two loops find a point of the window where both pixels are opaque. -/
theorem scanRows_answers {n m : Nat} {b1 b2 : Int}
    (h₁ : ∀ k l : Nat, k < n → l < m → argbData1.Has (b1 + l * walk1.yIncr + k * walk1.xIncr))
    (h₂ : ∀ k l : Nat, k < n → l < m → argbData2.Has (b2 + l * walk2.yIncr + k * walk2.xIncr)) :
    Answers (scanRows argbData1 argbData2 walk1 walk2 n m b1 b2)
      (∃ k l : Nat, k < n ∧ l < m ∧ BothOpaque argbData1 argbData2
        (b1 + l * walk1.yIncr + k * walk1.xIncr) (b2 + l * walk2.yIncr + k * walk2.xIncr)) := by
  induction m generalizing b1 b2 with
  | zero => exact Answers.ok_false.2 (by simp)
  | succ m ih =>
    have hstep : ∀ (x incr : Int) (l : Nat), x + incr + l * incr = x + (l + 1 : Nat) * incr := by
      intro x incr l
      push_cast
      ring
    have hrest := @ih (b1 + walk1.yIncr) (b2 + walk2.yIncr)
      (fun k l hk hl => by rw [hstep]; exact h₁ k _ hk (by omega))
      (fun k l hk hl => by rw [hstep]; exact h₂ k _ hk (by omega))
    simp only [hstep] at hrest
    have hrow := scanColumns_answers (n := n)
      (fun k hk => by simpa using h₁ k 0 hk (by omega))
      (fun k hk => by simpa using h₂ k 0 hk (by omega))
    by_cases hhit : ∃ k : Nat, k < n ∧
        BothOpaque argbData1 argbData2 (b1 + k * walk1.xIncr) (b2 + k * walk2.xIncr)
    · rw [scanRows, hrow.eq_true hhit, ok_bind, if_pos rfl]
      obtain ⟨k, hk, h⟩ := hhit
      exact Answers.ok_true.2 ⟨k, 0, hk, by omega, by simpa using h⟩
    · have hskip : scanRows argbData1 argbData2 walk1 walk2 n (m + 1) b1 b2 =
          scanRows argbData1 argbData2 walk1 walk2 n m (b1 + walk1.yIncr) (b2 + walk2.yIncr) := by
        rw [scanRows, hrow.eq_false hhit, ok_bind, if_neg (by simp)]
      rw [hskip]
      refine hrest.congr ⟨fun ⟨k, l, hk, hl, h⟩ => ⟨k, l + 1, hk, by omega, h⟩,
        fun ⟨k, l, hk, hl, h⟩ => ?_⟩
      cases l with
      | zero => exact absurd ⟨k, hk, by simpa using h⟩ hhit
      | succ l => exact ⟨k, l, hk, by omega, h⟩

end Loops

/-! ## The windows -/

/-- A drawn window can be read out of its image. -/
def WindowReadable (image : Image) (t : Transform) (xOffset yOffset width height : Int) : Prop :=
  image.Readable xOffset yOffset (t.windowWidth width height) (t.windowHeight width height)

instance (image : Image) (t : Transform) (xOffset yOffset width height : Int) :
    Decidable (WindowReadable image t xOffset yOffset width height) :=
  inferInstanceAs (Decidable (Image.Readable ..))

/-- The pixel drawn at a point of the window is fully opaque. -/
def WindowOpaque (image : Image) (t : Transform) (xOffset yOffset width height dx dy : Int) : Prop :=
  image.OpaqueAt (xOffset + t.column (t.windowWidth width height) dx dy)
    (yOffset + t.row (t.windowHeight width height) dx dy)

/-- Two windows hold fully opaque pixels at the same point. -/
def WindowsCollide (xOffset1 yOffset1 xOffset2 yOffset2 : Int) (image1 : Image) (t1 : Transform)
    (image2 : Image) (t2 : Transform) (width height : Int) : Prop :=
  ∃ dx dy, (0 ≤ dx ∧ dx < width) ∧ (0 ≤ dy ∧ dy < height) ∧
    WindowOpaque image1 t1 xOffset1 yOffset1 width height dx dy ∧
    WindowOpaque image2 t2 xOffset2 yOffset2 width height dx dy

section Windows

variable {xOffset yOffset width height : Int}

theorem windowWidth_nonneg (t : Transform) (hw : 0 ≤ width) (hh : 0 ≤ height) :
    0 ≤ t.windowWidth width height ∧ 0 ≤ t.windowHeight width height := by
  unfold Transform.windowWidth Transform.windowHeight
  split <;> exact ⟨by assumption, by assumption⟩

/-- A readable window is read, and the walk finds the drawn pixels in its array. -/
theorem readWindow_of_readable {image : Image} {t : Transform}
    (h : WindowReadable image t xOffset yOffset width height) (hw : 0 ≤ width) (hh : 0 ≤ height) :
    ∃ array, readWindow image t xOffset yOffset width height = .ok array ∧
      ∀ dx dy, 0 ≤ dx ∧ dx < width → 0 ≤ dy ∧ dy < height →
        array.Has ((t.walk width height).address dx dy) ∧
        (isOpaque (array.data ((t.walk width height).address dx dy)) = true ↔
          WindowOpaque image t xOffset yOffset width height dx dy) := by
  obtain ⟨hw', hh'⟩ := windowWidth_nonneg t hw hh
  obtain ⟨array, hok, hlen, hdata⟩ := Image.getRGB_of_readable h hw' hh' (t.window_size width height)
  refine ⟨array, hok, fun dx dy hx hy => ?_⟩
  obtain ⟨⟨hc₀, hc⟩, hr₀, hr⟩ := t.column_row_mem hx hy
  rw [t.walk_address, IntArray.Has, hlen, isOpaque_iff, hdata _ _ hc₀ hc hr₀ hr]
  refine ⟨⟨Int.add_nonneg hc₀ (Int.mul_nonneg hr₀ hw'), ?_⟩, Iff.rfl⟩
  -- the last row starts one scan length before the end
  have hrow := Int.mul_le_mul_of_nonneg_right (Int.add_one_le_iff.2 hr) hw'
  rw [t.window_size width height]
  linarith

/-- A window that is not readable is refused. -/
theorem readWindow_of_not_readable {image : Image} {t : Transform}
    (h : ¬ WindowReadable image t xOffset yOffset width height) (hw : 0 ≤ width) (hh : 0 ≤ height) :
    ∃ e, readWindow image t xOffset yOffset width height = .error e := by
  obtain ⟨hw', hh'⟩ := windowWidth_nonneg t hw hh
  exact Image.getRGB_of_not_readable h hw' hh' _

variable {xOffset1 yOffset1 xOffset2 yOffset2 : Int} {image1 image2 : Image} {t1 t2 : Transform}

/-- **`doPixelCollision` is exact on readable windows**, for each of the 64 pairs of transforms: it
answers whether the windows hold fully opaque pixels at the same point. -/
theorem doPixelCollision_answers (h1 : WindowReadable image1 t1 xOffset1 yOffset1 width height)
    (h2 : WindowReadable image2 t2 xOffset2 yOffset2 width height) (hw : 0 ≤ width)
    (hh : 0 ≤ height) :
    Answers (doPixelCollision xOffset1 yOffset1 xOffset2 yOffset2 image1 t1 image2 t2 width height)
      (WindowsCollide xOffset1 yOffset1 xOffset2 yOffset2 image1 t1 image2 t2 width height) := by
  obtain ⟨argbData1, hok1, hread1⟩ := readWindow_of_readable h1 hw hh
  obtain ⟨argbData2, hok2, hread2⟩ := readWindow_of_readable h2 hw hh
  rw [doPixelCollision, hok1, ok_bind, hok2, ok_bind]
  have hscan := scanRows_answers (n := width.toNat) (m := height.toNat)
    (fun k l hk hl => (hread1 k l ⟨by omega, by omega⟩ ⟨by omega, by omega⟩).1)
    (fun k l hk hl => (hread2 k l ⟨by omega, by omega⟩ ⟨by omega, by omega⟩).1)
  refine hscan.congr ⟨?_, ?_⟩
  · rintro ⟨k, l, hk, hl, ho1, ho2⟩
    have hx : 0 ≤ (k : Int) ∧ (k : Int) < width := by omega
    have hy : 0 ≤ (l : Int) ∧ (l : Int) < height := by omega
    exact ⟨k, l, hx, hy, (hread1 k l hx hy).2.1 ho1, (hread2 k l hx hy).2.1 ho2⟩
  · rintro ⟨dx, dy, hx, hy, ho1, ho2⟩
    have hk : ((dx.toNat : Nat) : Int) = dx := Int.toNat_of_nonneg hx.1
    have hl : ((dy.toNat : Nat) : Int) = dy := Int.toNat_of_nonneg hy.1
    refine ⟨dx.toNat, dy.toNat, by omega, by omega, ?_, ?_⟩
    · rw [hk, hl]
      exact (hread1 dx dy hx hy).2.2 ho1
    · rw [hk, hl]
      exact (hread2 dx dy hx hy).2.2 ho2

/-- `doPixelCollision` throws when one of its windows is not readable. -/
theorem doPixelCollision_throws (h : ¬ (WindowReadable image1 t1 xOffset1 yOffset1 width height ∧
      WindowReadable image2 t2 xOffset2 yOffset2 width height)) (hw : 0 ≤ width)
    (hh : 0 ≤ height) :
    ∃ e, doPixelCollision xOffset1 yOffset1 xOffset2 yOffset2 image1 t1 image2 t2 width height =
      .error e := by
  by_cases h1 : WindowReadable image1 t1 xOffset1 yOffset1 width height
  · obtain ⟨_, hok1, -⟩ := readWindow_of_readable h1 hw hh
    obtain ⟨e, herr⟩ := readWindow_of_not_readable (fun h2 => h ⟨h1, h2⟩) hw hh
    exact ⟨e, by rw [doPixelCollision, hok1, ok_bind, herr]; rfl⟩
  · obtain ⟨e, herr⟩ := readWindow_of_not_readable h1 hw hh
    exact ⟨e, by rw [doPixelCollision, herr]; rfl⟩

/-- The windows can be read and hold no common opaque point. -/
def Harmless (xOffset1 yOffset1 xOffset2 yOffset2 : Int) (image1 : Image) (t1 : Transform)
    (image2 : Image) (t2 : Transform) (width height : Int) : Prop :=
  (WindowReadable image1 t1 xOffset1 yOffset1 width height ∧
    WindowReadable image2 t2 xOffset2 yOffset2 width height) ∧
  ¬ WindowsCollide xOffset1 yOffset1 xOffset2 yOffset2 image1 t1 image2 t2 width height

/-- **The scan of windows without a real common point**: `doPixelCollision` answers no exactly when
the windows are harmless; else it throws, or says yes. -/
theorem doPixelCollision_harmless_iff (hw : 0 ≤ width) (hh : 0 ≤ height) {P : Prop} (hP : ¬ P) :
    Answers (doPixelCollision xOffset1 yOffset1 xOffset2 yOffset2 image1 t1 image2 t2 width height)
        P ↔
      Harmless xOffset1 yOffset1 xOffset2 yOffset2 image1 t1 image2 t2 width height := by
  by_cases h : WindowReadable image1 t1 xOffset1 yOffset1 width height ∧
      WindowReadable image2 t2 xOffset2 yOffset2 width height
  · rw [(doPixelCollision_answers h.1 h.2 hw hh).iff]
    simp [Harmless, h, hP]
  · obtain ⟨e, herr⟩ := doPixelCollision_throws h hw hh
    rw [herr]
    exact ⟨fun ha => absurd ha (Answers.not_error e), fun hharm => absurd hharm.1 h⟩

/-- The scan of windows that are not harmless throws, or says yes. -/
theorem doPixelCollision_not_harmless (hw : 0 ≤ width) (hh : 0 ≤ height)
    (h : ¬ Harmless xOffset1 yOffset1 xOffset2 yOffset2 image1 t1 image2 t2 width height) :
    (∃ e, doPixelCollision xOffset1 yOffset1 xOffset2 yOffset2 image1 t1 image2 t2 width height =
        .error e) ∨
      doPixelCollision xOffset1 yOffset1 xOffset2 yOffset2 image1 t1 image2 t2 width height =
        .ok true := by
  by_cases hread : WindowReadable image1 t1 xOffset1 yOffset1 width height ∧
      WindowReadable image2 t2 xOffset2 yOffset2 width height
  · have hcollide : WindowsCollide xOffset1 yOffset1 xOffset2 yOffset2 image1 t1 image2 t2 width
        height := not_not.1 fun hno => h ⟨hread, hno⟩
    exact .inr ((doPixelCollision_answers hread.1 hread.2 hw hh).eq_true hcollide)
  · exact .inl (doPixelCollision_throws hread hw hh)

end Windows

end FroggyKVM.Game
