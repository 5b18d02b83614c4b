/-
# FroggyKVM.Game.Sprite — sprites, their public operations, and what every reachable sprite keeps.

A sprite cuts its source image into frames, shows one of them through a transform, and carries a
collision rectangle in frame coordinates.  `computeTransformedBounds` keeps the transformed rectangle
and the painted size; every operation keeps them in step with the frame, and the shown frame inside
the image (`Reachable.ok`).
-/
import FroggyKVM.Game.PixelCollision

namespace FroggyKVM.Game

/-- `array[i]` for an array of integers. -/
def readArray (array : List Int) (i : Int) : Except Throwable Int :=
  if 0 ≤ i ∧ i < array.length then .ok (array.getD i.toNat 0) else .error .arrayIndexOutOfBounds

theorem readArray_ok {array : List Int} {i : Int} (h : 0 ≤ i ∧ i < array.length) :
    readArray array i = .ok (array.getD i.toNat 0) := if_pos h

/-! ## Cutting an image into frames -/

/-- The values of `for (v = 0; v < limit; v += stride)`. -/
def stridesBelow (limit stride : Int) : List Int :=
  (List.range ((limit + stride - 1) / stride).toNat).map fun k : Nat => (k : Int) * stride

/-- The top left corners of the frames, row by row. -/
def frameOrigins (image : Image) (fWidth fHeight : Int) : List (Int × Int) :=
  (stridesBelow image.height fHeight).flatMap fun yy =>
    (stridesBelow image.width fWidth).map fun xx => (xx, yy)

/-- The test of the constructors and of `setImage` and `setStaticTileSet`. -/
def Cuts (image : Image) (fWidth fHeight : Int) : Prop :=
  ¬ (fWidth < 1 ∨ fHeight < 1) ∧ image.width.tmod fWidth = 0 ∧ image.height.tmod fHeight = 0

instance (image : Image) (fWidth fHeight : Int) : Decidable (Cuts image fWidth fHeight) :=
  inferInstanceAs (Decidable (_ ∧ _))

theorem stridesBelow_length {limit stride : Int} (hs : 0 < stride) (hdvd : limit.tmod stride = 0) :
    (stridesBelow limit stride).length = (limit / stride).toNat := by
  obtain ⟨k, rfl⟩ := Int.dvd_of_tmod_eq_zero hdvd
  have hlast : (stride - 1) / stride = 0 := Int.ediv_eq_zero_of_lt (by omega) (by omega)
  rw [stridesBelow, List.length_map, List.length_range, Int.mul_ediv_cancel_left _ hs.ne',
    Int.add_sub_assoc, Int.mul_add_ediv_left _ _ hs.ne', hlast, Int.add_zero]

/-- A stride from a visited value does not reach past the limit. -/
theorem mem_stridesBelow {limit stride v : Int} (hs : 0 < stride) (hdvd : limit.tmod stride = 0)
    (hv : v ∈ stridesBelow limit stride) : 0 ≤ v ∧ v + stride ≤ limit := by
  have hlen := stridesBelow_length hs hdvd
  obtain ⟨k, hk, rfl⟩ := List.mem_map.1 hv
  rw [stridesBelow, List.length_map, List.length_range] at hlen
  rw [List.mem_range, hlen] at hk
  obtain ⟨q, rfl⟩ := Int.dvd_of_tmod_eq_zero hdvd
  rw [Int.mul_ediv_cancel_left _ hs.ne'] at hk
  have hmul := Int.mul_le_mul_of_nonneg_left (show (k : Int) + 1 ≤ q by lia) hs.le
  refine ⟨Int.mul_nonneg (by omega) hs.le, ?_⟩
  linarith

section Frames

variable {image : Image} {fWidth fHeight : Int}

/-- A frame that begins at `(x, y)` lies inside the image. -/
def FrameInside (image : Image) (fWidth fHeight x y : Int) : Prop :=
  (0 ≤ x ∧ x + fWidth ≤ image.width) ∧ 0 ≤ y ∧ y + fHeight ≤ image.height

theorem Cuts.pos (h : Cuts image fWidth fHeight) : 0 < fWidth ∧ 0 < fHeight := by
  have h₁ := h.1
  omega

/-- Every frame of a cut lies inside the image. -/
theorem Cuts.inside (h : Cuts image fWidth fHeight) {o : Int × Int}
    (ho : o ∈ frameOrigins image fWidth fHeight) : FrameInside image fWidth fHeight o.1 o.2 := by
  obtain ⟨yy, hy, ho⟩ := List.mem_flatMap.1 ho
  obtain ⟨xx, hx, rfl⟩ := List.mem_map.1 ho
  exact ⟨mem_stridesBelow h.pos.1 h.2.1 hx, mem_stridesBelow h.pos.2 h.2.2 hy⟩

/-- The number of frames as the constructors compute it. -/
def frameCount (image : Image) (fWidth fHeight : Int) : Int :=
  image.width.tdiv fWidth * image.height.tdiv fHeight

theorem Cuts.length (h : Cuts image fWidth fHeight) :
    ((frameOrigins image fWidth fHeight).length : Int) = frameCount image fWidth fHeight := by
  have hw := image.width_pos
  have hh := image.height_pos
  have hcols := stridesBelow_length h.pos.1 h.2.1
  have hrows := stridesBelow_length h.pos.2 h.2.2
  rw [frameOrigins, List.length_flatMap]
  simp only [List.length_map, hcols, List.map_const', List.sum_replicate_nat, hrows]
  rw [frameCount, Int.tdiv_eq_ediv_of_nonneg hw.le, Int.tdiv_eq_ediv_of_nonneg hh.le]
  push_cast
  rw [Int.toNat_of_nonneg (Int.ediv_nonneg hh.le h.pos.2.le),
    Int.toNat_of_nonneg (Int.ediv_nonneg hw.le h.pos.1.le), Int.mul_comm]

/-- There is a frame. -/
theorem Cuts.count_pos (h : Cuts image fWidth fHeight) : 0 < frameCount image fWidth fHeight := by
  have hw := image.width_pos
  have hh := image.height_pos
  have hside : ∀ {limit stride : Int}, 0 < limit → 0 < stride → limit.tmod stride = 0 →
      0 < limit.tdiv stride := by
    intro limit stride hl hs hdvd
    obtain ⟨k, rfl⟩ := Int.dvd_of_tmod_eq_zero hdvd
    rw [Int.mul_tdiv_cancel_left _ hs.ne']
    exact Int.pos_of_mul_pos_right hl hs
  exact Int.mul_pos (hside hw h.pos.1 h.2.1) (hside hh h.pos.2 h.2.2)

end Frames

/-! ## The sprite -/

/-- A rectangle: `width` columns from `x` and `height` rows from `y`. -/
structure Rect where
  x : Int
  y : Int
  width : Int
  height : Int
  deriving DecidableEq, Repr

/-- The point lies in the rectangle. -/
def Rect.Contains (r : Rect) (u v : Int) : Prop :=
  (r.x ≤ u ∧ u < r.x + r.width) ∧ r.y ≤ v ∧ v < r.y + r.height

/-- The fields of `Layer` and of `Sprite`. -/
@[ext]
structure Sprite where
  x : Int
  y : Int
  width : Int
  height : Int
  visible : Bool
  sourceImage : Image
  numberFrames : Int
  frameCoordsX : List Int
  frameCoordsY : List Int
  frameSequence : List Int
  sequenceIndex : Int
  customSequenceDefined : Bool
  dRefX : Int
  dRefY : Int
  collisionRect : Rect
  tCurrentTransformation : Transform
  tCollisionRect : Rect
  srcFrameWidth : Int
  srcFrameHeight : Int

/-- What `computeTransformedBounds` computes. -/
structure Bounds where
  rect : Rect
  width : Int
  height : Int

/-- The switch of `computeTransformedBounds`, on the source frame's size and the collision
rectangle. -/
def transformedBounds (transform : Transform) (srcFrameWidth srcFrameHeight : Int) (c : Rect) :
    Bounds :=
  match transform with
  | .none =>
    { rect := { x := c.x, y := c.y, width := c.width, height := c.height }
      width := srcFrameWidth, height := srcFrameHeight }
  | .mirror =>
    { rect := { x := srcFrameWidth - (c.x + c.width), y := c.y, width := c.width,
                height := c.height }
      width := srcFrameWidth, height := srcFrameHeight }
  | .mirrorRot180 =>
    { rect := { x := c.x, y := srcFrameHeight - (c.y + c.height), width := c.width,
                height := c.height }
      width := srcFrameWidth, height := srcFrameHeight }
  | .rot90 =>
    { rect := { x := srcFrameHeight - (c.height + c.y), y := c.x, width := c.height,
                height := c.width }
      width := srcFrameHeight, height := srcFrameWidth }
  | .rot180 =>
    { rect := { x := srcFrameWidth - (c.width + c.x), y := srcFrameHeight - (c.height + c.y),
                width := c.width, height := c.height }
      width := srcFrameWidth, height := srcFrameHeight }
  | .rot270 =>
    { rect := { x := c.y, y := srcFrameWidth - (c.width + c.x), width := c.height,
                height := c.width }
      width := srcFrameHeight, height := srcFrameWidth }
  | .mirrorRot90 =>
    { rect := { x := srcFrameHeight - (c.height + c.y), y := srcFrameWidth - (c.width + c.x),
                width := c.height, height := c.width }
      width := srcFrameHeight, height := srcFrameWidth }
  | .mirrorRot270 =>
    { rect := { x := c.y, y := c.x, width := c.height, height := c.width }
      width := srcFrameHeight, height := srcFrameWidth }

namespace Sprite

/-- `getTransformedPtX`; a value that is no transform gives 0. -/
def getTransformedPtX (s : Sprite) (x y : Int) : Option Transform → Int
  | some .none | some .mirrorRot180 => x
  | some .mirror | some .rot180 => s.srcFrameWidth - x - 1
  | some .rot90 | some .mirrorRot90 => s.srcFrameHeight - y - 1
  | some .rot270 | some .mirrorRot270 => y
  | none => 0

/-- `getTransformedPtY`. -/
def getTransformedPtY (s : Sprite) (x y : Int) : Option Transform → Int
  | some .none | some .mirror => y
  | some .mirrorRot180 | some .rot180 => s.srcFrameHeight - y - 1
  | some .rot90 | some .mirrorRot270 => x
  | some .rot270 | some .mirrorRot90 => s.srcFrameWidth - x - 1
  | none => 0

/-- `computeTransformedBounds` for a valid transform. -/
def computeTransformedBounds (s : Sprite) (transform : Transform) : Sprite :=
  let b := transformedBounds transform s.srcFrameWidth s.srcFrameHeight s.collisionRect
  { s with tCollisionRect := b.rect, width := b.width, height := b.height }

/-- `setTransformImpl`, and the sprite it leaves.  The position moves before
`computeTransformedBounds` throws on a value that is no transform. -/
def setTransformImpl (s : Sprite) (transform : Option Transform) : Sprite :=
  let current := some s.tCurrentTransformation
  let moved := { s with
    x := s.x + s.getTransformedPtX s.dRefX s.dRefY current -
      s.getTransformedPtX s.dRefX s.dRefY transform
    y := s.y + s.getTransformedPtY s.dRefX s.dRefY current -
      s.getTransformedPtY s.dRefX s.dRefY transform }
  match transform with
  | none => moved
  | some t => { moved.computeTransformedBounds t with tCurrentTransformation := t }

/-- `initializeFrames`. -/
def initializeFrames (s : Sprite) (image : Image) (fWidth fHeight : Int)
    (maintainCurFrame : Bool) : Sprite :=
  let origins := frameOrigins image fWidth fHeight
  { s with
    sourceImage := image
    srcFrameWidth := fWidth
    srcFrameHeight := fHeight
    numberFrames := frameCount image fWidth fHeight
    frameCoordsX := origins.map Prod.fst
    frameCoordsY := origins.map Prod.snd
    sequenceIndex := if maintainCurFrame then s.sequenceIndex else 0
    frameSequence := if s.customSequenceDefined then s.frameSequence
      else (List.range origins.length).map Int.ofNat }

/-- `initCollisionRectBounds`. -/
def initCollisionRectBounds (s : Sprite) : Sprite :=
  { s with collisionRect := { x := 0, y := 0, width := s.width, height := s.height } }

/-- The fields before a constructor fills them. -/
def blank (image : Image) (width height : Int) : Sprite where
  x := 0
  y := 0
  width := width
  height := height
  visible := true
  sourceImage := image
  numberFrames := 0
  frameCoordsX := []
  frameCoordsY := []
  frameSequence := []
  sequenceIndex := 0
  customSequenceDefined := false
  dRefX := 0
  dRefY := 0
  collisionRect := { x := 0, y := 0, width := 0, height := 0 }
  tCurrentTransformation := .none
  tCollisionRect := { x := 0, y := 0, width := 0, height := 0 }
  srcFrameWidth := 0
  srcFrameHeight := 0

/-- The common part of the two constructors on an image. -/
def initFrames (image : Image) (frameWidth frameHeight : Int) : Sprite :=
  (((blank image frameWidth frameHeight).initializeFrames image frameWidth frameHeight
    false).initCollisionRectBounds).setTransformImpl (some .none)

/-- `Sprite(Image)`. -/
def ofImage (image : Image) : Sprite := initFrames image image.width image.height

/-- `Sprite(Image, int, int)`. -/
def ofFrames (image : Image) (frameWidth frameHeight : Int) : Except Throwable Sprite :=
  if Cuts image frameWidth frameHeight then .ok (initFrames image frameWidth frameHeight)
  else .error .illegalArgument

/-! ## Public operations -/

def defineReferencePixel (s : Sprite) (x y : Int) : Sprite := { s with dRefX := x, dRefY := y }

def setRefPixelPosition (s : Sprite) (x y : Int) : Sprite :=
  { s with
    x := x - s.getTransformedPtX s.dRefX s.dRefY (some s.tCurrentTransformation)
    y := y - s.getTransformedPtY s.dRefX s.dRefY (some s.tCurrentTransformation) }

def getRefPixelX (s : Sprite) : Int :=
  s.x + s.getTransformedPtX s.dRefX s.dRefY (some s.tCurrentTransformation)

def getRefPixelY (s : Sprite) : Int :=
  s.y + s.getTransformedPtY s.dRefX s.dRefY (some s.tCurrentTransformation)

def setFrame (s : Sprite) (sequenceIndex : Int) : Except Throwable Sprite :=
  if sequenceIndex < 0 ∨ sequenceIndex ≥ s.frameSequence.length then .error .indexOutOfBounds
  else .ok { s with sequenceIndex := sequenceIndex }

def nextFrame (s : Sprite) : Sprite :=
  { s with sequenceIndex := (s.sequenceIndex + 1).tmod s.frameSequence.length }

def prevFrame (s : Sprite) : Sprite :=
  { s with sequenceIndex :=
      if s.sequenceIndex = 0 then s.frameSequence.length - 1 else s.sequenceIndex - 1 }

/-- `setFrameSequence`; `none` is the null reference. -/
def setFrameSequence (s : Sprite) : Option (List Int) → Except Throwable Sprite
  | none =>
    .ok { s with
      sequenceIndex := 0
      customSequenceDefined := false
      frameSequence := (List.range s.numberFrames.toNat).map Int.ofNat }
  | some sequence =>
    if sequence.length < 1 then .error .illegalArgument
    else if sequence.any fun e => e < 0 ∨ e ≥ s.numberFrames then .error .arrayIndexOutOfBounds
    else
      .ok { s with
        customSequenceDefined := true
        frameSequence := sequence
        sequenceIndex := 0 }

/-- `setImage`: a new frame size resets the collision rectangle and keeps the reference pixel in
place. -/
def setImage (s : Sprite) (image : Image) (frameWidth frameHeight : Int) :
    Except Throwable Sprite :=
  if ¬ Cuts image frameWidth frameHeight then .error .illegalArgument
  else
    let maintainCurFrame := ¬ frameCount image frameWidth frameHeight < s.numberFrames
    let s' := { s with customSequenceDefined := s.customSequenceDefined && maintainCurFrame }
    if ¬ (s.srcFrameWidth = frameWidth ∧ s.srcFrameHeight = frameHeight) then
      let oldX := s.getRefPixelX
      let oldY := s.getRefPixelY
      let s' := { s' with width := frameWidth, height := frameHeight }
      let s' := (s'.initializeFrames image frameWidth frameHeight
        maintainCurFrame).initCollisionRectBounds
      .ok ((s'.setRefPixelPosition oldX oldY).computeTransformedBounds s.tCurrentTransformation)
    else
      .ok (s'.initializeFrames image frameWidth frameHeight maintainCurFrame)

def defineCollisionRectangle (s : Sprite) (x y width height : Int) : Except Throwable Sprite :=
  if width < 0 ∨ height < 0 then .error .illegalArgument
  else
    .ok ({ s with collisionRect := { x := x, y := y, width := width, height := height } }
      |>.setTransformImpl (some s.tCurrentTransformation))

def setTransform (s : Sprite) (transform : Int) : Sprite :=
  s.setTransformImpl (Transform.ofInt transform)

def setPosition (s : Sprite) (x y : Int) : Sprite := { s with x := x, y := y }

def move (s : Sprite) (dx dy : Int) : Sprite := { s with x := s.x + dx, y := s.y + dy }

def setVisible (s : Sprite) (visible : Bool) : Sprite := { s with visible := visible }

/-- `Sprite(Sprite)`. -/
def copy (s : Sprite) : Except Throwable Sprite := do
  let c := { blank s.sourceImage s.width s.height with
    numberFrames := s.numberFrames
    frameCoordsX := s.frameCoordsX
    frameCoordsY := s.frameCoordsY
    x := s.x
    y := s.y
    dRefX := s.dRefX
    dRefY := s.dRefY
    collisionRect := s.collisionRect
    srcFrameWidth := s.srcFrameWidth
    srcFrameHeight := s.srcFrameHeight }
  let c := (c.setTransformImpl (some s.tCurrentTransformation)).setVisible s.visible
  let c ← c.setFrameSequence (some s.frameSequence)
  let c ← c.setFrame s.sequenceIndex
  return c.setRefPixelPosition s.getRefPixelX s.getRefPixelY

/-- Drawing into the source image, when it is mutable. -/
def draw (s : Sprite) (argb : Int → Int → BitVec 32) : Sprite :=
  { s with sourceImage := { s.sourceImage with argb := argb } }

/-! ## What every operation keeps -/

/-- The frames lie inside the image, and the frame sequence points at frames. -/
structure FramesOk (s : Sprite) : Prop where
  src : 0 < s.srcFrameWidth ∧ 0 < s.srcFrameHeight
  coords : (s.frameCoordsX.length : Int) = s.numberFrames ∧
    (s.frameCoordsY.length : Int) = s.numberFrames
  inside : ∀ i < s.frameCoordsX.length, FrameInside s.sourceImage s.srcFrameWidth s.srcFrameHeight
    (s.frameCoordsX.getD i 0) (s.frameCoordsY.getD i 0)
  sequence : ∀ e ∈ s.frameSequence, 0 ≤ e ∧ e < s.numberFrames
  index : 0 ≤ s.sequenceIndex ∧ s.sequenceIndex < s.frameSequence.length
  whole : s.customSequenceDefined = false → (s.frameSequence.length : Int) = s.numberFrames

/-- **The invariant of sprites**: sound frames, a collision rectangle that is not negative, and
transformed bounds in step with the transform. -/
structure Ok (s : Sprite) : Prop extends FramesOk s where
  rect : 0 ≤ s.collisionRect.width ∧ 0 ≤ s.collisionRect.height
  bounds : ⟨s.tCollisionRect, s.width, s.height⟩ =
    transformedBounds s.tCurrentTransformation s.srcFrameWidth s.srcFrameHeight s.collisionRect

/-- The default sequence shows every frame in turn. -/
theorem mem_range_ofNat {n : Nat} {e : Int} (he : e ∈ (List.range n).map Int.ofNat) :
    0 ≤ e ∧ e < n := by
  obtain ⟨k, hk, rfl⟩ := List.mem_map.1 he
  rw [List.mem_range] at hk
  constructor
  · exact Int.natCast_nonneg k
  · exact Int.ofNat_lt.2 hk

/-- Cutting an image into frames gives sound frames, when the sequence that stays is sound for the
new number of frames. -/
theorem initializeFrames_framesOk {s : Sprite} {image : Image} {fWidth fHeight : Int}
    {maintain : Bool} (h : Cuts image fWidth fHeight)
    (hindex : maintain = true → 0 ≤ s.sequenceIndex ∧ s.sequenceIndex < s.frameSequence.length)
    (hdefault : maintain = true → s.customSequenceDefined = false →
      (s.frameSequence.length : Int) ≤ frameCount image fWidth fHeight)
    (hcustom : s.customSequenceDefined = true → 0 < s.frameSequence.length ∧
      ∀ e ∈ s.frameSequence, 0 ≤ e ∧ e < frameCount image fWidth fHeight) :
    (s.initializeFrames image fWidth fHeight maintain).FramesOk := by
  have hlen := h.length
  have hpos := h.count_pos
  refine ⟨h.pos, ⟨?_, ?_⟩, ?_, ?_, ?_, ?_⟩
  · simpa [initializeFrames] using hlen
  · simpa [initializeFrames] using hlen
  · intro i hi
    simp only [initializeFrames, List.length_map] at hi ⊢
    have hmem := h.inside (List.getElem_mem hi)
    simpa [List.getD_eq_getElem?_getD, List.getElem?_map, List.getElem?_eq_getElem hi] using hmem
  · intro e he
    simp only [initializeFrames] at he ⊢
    cases hc : s.customSequenceDefined with
    | true => exact (hcustom hc).2 e (by simpa [hc] using he)
    | false =>
      obtain ⟨h₀, h₁⟩ := mem_range_ofNat (by simpa [hc] using he)
      exact ⟨h₀, by omega⟩
  · simp only [initializeFrames]
    cases maintain with
    | true =>
      cases hc : s.customSequenceDefined with
      | true => simpa using hindex rfl
      | false =>
        have h₁ := hindex rfl
        have h₂ := hdefault rfl hc
        simp only [List.length_map, List.length_range, if_true, Bool.false_eq_true, if_false]
        omega
    | false =>
      cases hc : s.customSequenceDefined with
      | true => simpa using (hcustom hc).1
      | false =>
        simp only [List.length_map, List.length_range, Bool.false_eq_true, if_false]
        omega
  · intro hc
    simp only [initializeFrames] at hc ⊢
    simpa [hc] using hlen

theorem setTransformImpl_ok {s : Sprite} (hf : s.FramesOk)
    (hrect : 0 ≤ s.collisionRect.width ∧ 0 ≤ s.collisionRect.height) (t : Transform) :
    (s.setTransformImpl (some t)).Ok where
  toFramesOk := { hf with }
  rect := hrect
  bounds := rfl

theorem initFrames_ok {image : Image} {fWidth fHeight : Int} (h : Cuts image fWidth fHeight) :
    (initFrames image fWidth fHeight).Ok := by
  have hframes : ((blank image fWidth fHeight).initializeFrames image fWidth fHeight false).FramesOk :=
    initializeFrames_framesOk h (by simp) (by simp) (by simp [blank])
  have hrect : 0 ≤ fWidth ∧ 0 ≤ fHeight := ⟨h.pos.1.le, h.pos.2.le⟩
  rw [initFrames]
  apply setTransformImpl_ok
  · exact { hframes with }
  · exact hrect

/-- The whole image is one frame. -/
theorem cuts_self (image : Image) : Cuts image image.width image.height := by
  have hw := image.width_pos
  have hh := image.height_pos
  exact ⟨by omega, Int.tmod_self, Int.tmod_self⟩

theorem setTransform_ok {s : Sprite} (h : s.Ok) (transform : Int) : (s.setTransform transform).Ok := by
  rw [setTransform]
  cases Transform.ofInt transform with
  | none => exact { h with }
  | some t => exact setTransformImpl_ok h.toFramesOk h.rect t

theorem defineCollisionRectangle_ok {s s' : Sprite} (h : s.Ok) {x y width height : Int}
    (hs : s.defineCollisionRectangle x y width height = .ok s') : s'.Ok := by
  rw [defineCollisionRectangle] at hs
  split at hs
  · cases hs
  · cases hs
    have hrect : 0 ≤ width ∧ 0 ≤ height := by omega
    apply setTransformImpl_ok
    · exact { h.toFramesOk with }
    · exact hrect

theorem setFrame_ok {s s' : Sprite} (h : s.Ok) {i : Int} (hs : s.setFrame i = .ok s') : s'.Ok := by
  rw [setFrame] at hs
  split at hs
  · cases hs
  · cases hs
    exact { h with index := ⟨by dsimp only; omega, by dsimp only; omega⟩ }

theorem nextFrame_ok {s : Sprite} (h : s.Ok) : s.nextFrame.Ok := by
  have hindex := h.index
  exact { h with
    index := ⟨Int.tmod_nonneg _ (by omega), Int.tmod_lt_of_pos _ (by omega)⟩ }

theorem prevFrame_ok {s : Sprite} (h : s.Ok) : s.prevFrame.Ok := by
  have hindex := h.index
  refine { h with index := ?_ }
  simp only [prevFrame]
  split <;> omega

/-- There is a frame. -/
theorem FramesOk.numberFrames_pos {s : Sprite} (h : s.FramesOk) : 0 < s.numberFrames := by
  have hindex := h.index
  have hmem := h.sequence _ (List.getElem_mem (show 0 < s.frameSequence.length by omega))
  omega

theorem setFrameSequence_ok {s s' : Sprite} (h : s.Ok) {sequence : Option (List Int)}
    (hs : s.setFrameSequence sequence = .ok s') : s'.Ok := by
  have hpos := h.numberFrames_pos
  cases sequence with
  | none =>
    cases hs
    refine { h with sequence := ?_, index := ?_, whole := ?_ }
    · intro e he
      obtain ⟨h₀, h₁⟩ := mem_range_ofNat he
      exact ⟨h₀, by dsimp only; omega⟩
    · simp only [List.length_map, List.length_range]
      omega
    · intro _
      simp only [List.length_map, List.length_range]
      omega
  | some sequence =>
    rw [setFrameSequence] at hs
    split at hs
    · cases hs
    · split at hs
      · cases hs
      · rename_i hlen hany
        cases hs
        refine { h with sequence := ?_, index := ?_, whole := by simp }
        · intro e he
          have hne : ¬ (e < 0 ∨ e ≥ s.numberFrames) := fun hbad =>
            hany (List.any_eq_true.2 ⟨e, he, by simpa using hbad⟩)
          dsimp only
          omega
        · dsimp only
          lia

theorem setImage_ok {s s' : Sprite} (h : s.Ok) {image : Image} {fWidth fHeight : Int}
    (hs : s.setImage image fWidth fHeight = .ok s') : s'.Ok := by
  rw [setImage] at hs
  split at hs
  · cases hs
  · rename_i hcuts
    rw [not_not] at hcuts
    have hpos := hcuts.pos
    have hframes : ∀ s₁ : Sprite, s₁.sequenceIndex = s.sequenceIndex →
        s₁.frameSequence = s.frameSequence → s₁.customSequenceDefined = (s.customSequenceDefined &&
          decide (¬ frameCount image fWidth fHeight < s.numberFrames)) →
        (s₁.initializeFrames image fWidth fHeight
          (decide (¬ frameCount image fWidth fHeight < s.numberFrames))).FramesOk := by
      intro s₁ hi hf hc
      apply initializeFrames_framesOk hcuts
      · intro _
        rw [hi, hf]
        exact h.index
      · intro hm hd
        rw [hc, hm, Bool.and_true] at hd
        rw [hf, h.whole hd]
        simpa using hm
      · intro hd
        rw [hc, Bool.and_eq_true, decide_eq_true_eq] at hd
        have hindex := h.index
        rw [hf]
        refine ⟨by omega, fun e he => ?_⟩
        have hseq := h.sequence e he
        omega
    dsimp only at hs
    split at hs
    · cases hs
      have hf := hframes { s with
        width := fWidth, height := fHeight
        customSequenceDefined := s.customSequenceDefined &&
          decide (¬ frameCount image fWidth fHeight < s.numberFrames) } rfl rfl rfl
      exact {
        toFramesOk := { hf with }
        rect := ⟨hpos.1.le, hpos.2.le⟩
        bounds := rfl }
    · rename_i hsame
      rw [not_not] at hsame
      cases hs
      have hf := hframes { s with
        customSequenceDefined := s.customSequenceDefined &&
          decide (¬ frameCount image fWidth fHeight < s.numberFrames) } rfl rfl rfl
      have hb := h.bounds
      rw [hsame.1, hsame.2] at hb
      exact { hf with rect := h.rect, bounds := hb }

/-- A copy takes everything over, but its frame sequence counts as custom, and its transformed bounds
are computed anew. -/
theorem copy_frames {s : Sprite} (h : s.FramesOk) :
    s.copy = .ok ({ s with customSequenceDefined := true }.computeTransformedBounds
      s.tCurrentTransformation) := by
  have hindex := h.index
  have hsequence : ∀ c : Sprite, c.numberFrames = s.numberFrames →
      c.setFrameSequence (some s.frameSequence) = .ok { c with
        customSequenceDefined := true, frameSequence := s.frameSequence, sequenceIndex := 0 } := by
    intro c hn
    have hany : ¬ (s.frameSequence.any fun e => e < 0 ∨ e ≥ c.numberFrames) = true := by
      intro hbad
      obtain ⟨e, he, hbad⟩ := List.any_eq_true.1 hbad
      have hseq := h.sequence e he
      rw [decide_eq_true_eq] at hbad
      omega
    rw [setFrameSequence, if_neg (by omega), if_neg hany]
  have hframe : ∀ c : Sprite, c.frameSequence = s.frameSequence →
      c.setFrame s.sequenceIndex = .ok { c with sequenceIndex := s.sequenceIndex } := by
    intro c hf
    rw [setFrame, hf, if_neg (by omega)]
  rw [copy, hsequence, ok_bind, hframe, ok_bind, pure_eq_ok]
  · apply congrArg Except.ok
    apply Sprite.ext
    -- the reference pixel brings the position back
    case x => exact Int.add_sub_cancel _ _
    case y => exact Int.add_sub_cancel _ _
    all_goals rfl
  · rfl
  · rfl

/-- The copy of a sprite differs from it only in that its frame sequence counts as custom. -/
theorem copy_eq {s : Sprite} (h : s.Ok) : s.copy = .ok { s with customSequenceDefined := true } := by
  have hbounds := h.bounds
  rw [copy_frames h.toFramesOk]
  apply congrArg Except.ok
  apply Sprite.ext
  case width => exact (congrArg Bounds.width hbounds).symm
  case height => exact (congrArg Bounds.height hbounds).symm
  case tCollisionRect => exact (congrArg Bounds.rect hbounds).symm
  all_goals rfl

theorem copy_ok {s c : Sprite} (h : s.Ok) (hc : s.copy = .ok c) : c.Ok := by
  rw [copy_eq h] at hc
  cases hc
  exact { h with whole := by simp }

/-! ## Runs -/

/-- A call of a public operation, or a drawing into the source image. -/
inductive Call where
  | defineReferencePixel (x y : Int)
  | setRefPixelPosition (x y : Int)
  | setFrame (sequenceIndex : Int)
  | nextFrame
  | prevFrame
  | setFrameSequence (sequence : Option (List Int))
  | setImage (image : Image) (frameWidth frameHeight : Int)
  | defineCollisionRectangle (x y width height : Int)
  | setTransform (transform : Int)
  | setPosition (x y : Int)
  | move (dx dy : Int)
  | setVisible (visible : Bool)
  | draw (argb : Int → Int → BitVec 32)

/-- The sprite after an operation that changes nothing when it throws. -/
def orUnchanged (s : Sprite) : Except Throwable Sprite → Sprite
  | .ok s' => s'
  | .error _ => s

/-- The sprite a call leaves. -/
def exec (s : Sprite) : Call → Sprite
  | .defineReferencePixel x y => s.defineReferencePixel x y
  | .setRefPixelPosition x y => s.setRefPixelPosition x y
  | .setFrame sequenceIndex => s.orUnchanged (s.setFrame sequenceIndex)
  | .nextFrame => s.nextFrame
  | .prevFrame => s.prevFrame
  | .setFrameSequence sequence => s.orUnchanged (s.setFrameSequence sequence)
  | .setImage image frameWidth frameHeight =>
    s.orUnchanged (s.setImage image frameWidth frameHeight)
  | .defineCollisionRectangle x y width height =>
    s.orUnchanged (s.defineCollisionRectangle x y width height)
  | .setTransform transform => s.setTransform transform
  | .setPosition x y => s.setPosition x y
  | .move dx dy => s.move dx dy
  | .setVisible visible => s.setVisible visible
  | .draw argb => s.draw argb

/-- The sprites a program can hold. -/
inductive Reachable : Sprite → Prop
  | ofImage (image : Image) : Reachable (ofImage image)
  | ofFrames {image : Image} {frameWidth frameHeight : Int} {s : Sprite}
      (h : ofFrames image frameWidth frameHeight = .ok s) : Reachable s
  | copy {s c : Sprite} (hs : Reachable s) (h : s.copy = .ok c) : Reachable c
  | exec {s : Sprite} (hs : Reachable s) (call : Call) : Reachable (s.exec call)

theorem orUnchanged_ok {s : Sprite} {r : Except Throwable Sprite} (h : s.Ok)
    (hr : ∀ s', r = .ok s' → s'.Ok) : (s.orUnchanged r).Ok := by
  cases r with
  | ok s' => exact hr s' rfl
  | error e => exact h

/-- **Every call keeps the invariant.** -/
theorem exec_ok {s : Sprite} (h : s.Ok) (call : Call) : (s.exec call).Ok := by
  cases call with
  | defineReferencePixel x y => exact { h with }
  | setRefPixelPosition x y => exact { h with }
  | setFrame sequenceIndex => exact orUnchanged_ok h fun _ hs => setFrame_ok h hs
  | nextFrame => exact nextFrame_ok h
  | prevFrame => exact prevFrame_ok h
  | setFrameSequence sequence => exact orUnchanged_ok h fun _ hs => setFrameSequence_ok h hs
  | setImage image frameWidth frameHeight => exact orUnchanged_ok h fun _ hs => setImage_ok h hs
  | defineCollisionRectangle x y width height =>
    exact orUnchanged_ok h fun _ hs => defineCollisionRectangle_ok h hs
  | setTransform transform => exact setTransform_ok h transform
  | setPosition x y => exact { h with }
  | move dx dy => exact { h with }
  | setVisible visible => exact { h with }
  | draw argb => exact { h with }

/-- **Every reachable sprite keeps the invariant.** -/
theorem Reachable.ok {s : Sprite} (h : Reachable s) : s.Ok := by
  induction h with
  | ofImage image => exact initFrames_ok (cuts_self image)
  | ofFrames h =>
    rw [Sprite.ofFrames] at h
    split at h
    · cases h
      exact initFrames_ok (by assumption)
    · cases h
  | copy _ h ih => exact copy_ok ih h
  | exec _ call ih => exact exec_ok ih call

/-! ## What a sprite draws -/

/-- The column of the source image where the shown frame begins. -/
def frameX (s : Sprite) : Int :=
  s.frameCoordsX.getD (s.frameSequence.getD s.sequenceIndex.toNat 0).toNat 0

/-- The row of the source image where the shown frame begins. -/
def frameY (s : Sprite) : Int :=
  s.frameCoordsY.getD (s.frameSequence.getD s.sequenceIndex.toNat 0).toNat 0

/-- The points of the shown frame that count: opaque and in the collision rectangle. -/
def solid (s : Sprite) : Raster Prop where
  width := s.srcFrameWidth
  height := s.srcFrameHeight
  pixel u v := s.collisionRect.Contains u v ∧ s.sourceImage.OpaqueAt (s.frameX + u) (s.frameY + v)

/-- The same points as they are painted, through the current transform. -/
def drawn (s : Sprite) : Raster Prop := s.tCurrentTransformation.apply s.solid

/-- The number of the shown frame. -/
theorem Ok.shown {s : Sprite} (h : s.Ok) :
    readArray s.frameSequence s.sequenceIndex =
        .ok (s.frameSequence.getD s.sequenceIndex.toNat 0) ∧
      0 ≤ s.frameSequence.getD s.sequenceIndex.toNat 0 ∧
      s.frameSequence.getD s.sequenceIndex.toNat 0 < s.numberFrames := by
  have hindex := h.index
  have hlt : s.sequenceIndex.toNat < s.frameSequence.length := by omega
  refine ⟨readArray_ok hindex, ?_⟩
  rw [List.getD_eq_getElem?_getD, List.getElem?_eq_getElem hlt, Option.getD_some]
  exact h.sequence _ (List.getElem_mem hlt)

/-- The shown frame lies inside the source image. -/
theorem Ok.shown_inside {s : Sprite} (h : s.Ok) :
    FrameInside s.sourceImage s.srcFrameWidth s.srcFrameHeight s.frameX s.frameY := by
  obtain ⟨-, h₀, hlt⟩ := h.shown
  have hcoords := h.coords
  exact h.inside _ (by omega)

theorem Ok.drawn_size {s : Sprite} (h : s.Ok) :
    s.drawn.width = s.width ∧ s.drawn.height = s.height := by
  have hw := congrArg Bounds.width h.bounds
  have hh := congrArg Bounds.height h.bounds
  simp only at hw hh
  rw [drawn, Transform.apply_width, Transform.apply_height, hw, hh, solid]
  cases s.tCurrentTransformation <;> exact ⟨rfl, rfl⟩

/-- **The transformed bounds are right**: a point of the painted frame lies in the transformed
collision rectangle when its source point lies in the collision rectangle. -/
theorem transformedBounds_contains (t : Transform) (srcWidth srcHeight : Int) (c : Rect)
    (u v : Int) :
    (transformedBounds t srcWidth srcHeight c).rect.Contains u v ↔
      c.Contains (t.column srcWidth u v) (t.row srcHeight u v) := by
  cases t <;> simp only [transformedBounds, Rect.Contains, Transform.column, Transform.row] <;>
    constructor <;> intro h <;> omega

/-- **What is drawn at a point**: it lies in the painted frame and in the transformed collision
rectangle, and its source pixel is opaque. -/
theorem Ok.drawn_shows {s : Sprite} (h : s.Ok) {px py : Int} :
    s.drawn.Shows s.x s.y px py ↔
      (0 ≤ px - s.x ∧ px - s.x < s.width) ∧ (0 ≤ py - s.y ∧ py - s.y < s.height) ∧
        s.tCollisionRect.Contains (px - s.x) (py - s.y) ∧
        s.sourceImage.OpaqueAt
          (s.frameX + s.tCurrentTransformation.column s.srcFrameWidth (px - s.x) (py - s.y))
          (s.frameY + s.tCurrentTransformation.row s.srcFrameHeight (px - s.x) (py - s.y)) := by
  have hrect := congrArg Bounds.rect h.bounds
  simp only at hrect
  rw [Raster.Shows, h.drawn_size.1, h.drawn_size.2, drawn, Transform.apply_pixel, hrect,
    transformedBounds_contains]
  rfl

end Sprite

end FroggyKVM.Game
