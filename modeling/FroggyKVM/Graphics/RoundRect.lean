/-
# FroggyKVM.Graphics.RoundRect — rectangles with rounded corners, and the calls that draw rectangles.

The corners are drawn by a midpoint walk along a quarter of an ellipse, first with `x` as the major
axis and then with `y`.  Every value of the walk is an `int`, so an addition that overflows stops it.
-/
import FroggyKVM.Graphics.Rect

namespace FroggyKVM.Graphics

/-! ## The walk -/

/-- What `SetUpRoundRectParameters` computes and the walk does not change. -/
structure RoundRectParameters where
  aSquared : Int
  bSquared : Int
  twoAsquared : Int
  twoBsquared : Int
  fourAsquared : Int
  fourBsquared : Int
  aSquaredTwo : Int
  bSquaredTwo : Int

/-- The variables of the walk. -/
structure Walk where
  x : Int
  y : Int
  decision : Int
  xSlope : Int
  ySlope : Int

/-- The squares of `SetUpRoundRectParameters`, for radii above one. -/
def squares (arcWidth arcHeight : Int) : Except DrawFault RoundRectParameters := do
  let aSquared ← checked (arcWidth * arcWidth)
  let bSquared ← checked (arcHeight * arcHeight)
  let twoAsquared ← checked (aSquared + aSquared)
  let twoBsquared ← checked (bSquared + bSquared)
  let fourAsquared ← checked (twoAsquared + twoAsquared)
  let fourBsquared ← checked (twoBsquared + twoBsquared)
  .ok
    { aSquared := aSquared
      bSquared := bSquared
      twoAsquared := twoAsquared
      twoBsquared := twoBsquared
      fourAsquared := fourAsquared
      fourBsquared := fourBsquared
      aSquaredTwo := aSquared >>> (1 : Nat)
      bSquaredTwo := bSquared >>> (1 : Nat) }

/-- The first point of the walk, and its slopes. -/
def walkStart (p : RoundRectParameters) (arcHeight : Int) : Except DrawFault Walk := do
  let arcHeight1 ← checked (arcHeight - 1)
  let ySlope ← checked (p.fourAsquared * arcHeight1)
  let decision ← checked (p.twoBsquared - p.aSquared)
  let decision ← checked (decision - ySlope >>> (1 : Nat))
  let decision ← checked (decision - p.aSquaredTwo)
  .ok
    { x := 0
      y := arcHeight
      decision := decision
      xSlope := p.fourBsquared
      ySlope := ySlope }

/-- `if (decision > 0)` of the first loop: the walk goes one row down. -/
def nextRow (p : RoundRectParameters) (w : Walk) : Except DrawFault Walk :=
  if w.decision > 0 then do
    let decision ← checked (w.decision - w.ySlope)
    let y ← checked (w.y - 1)
    let ySlope ← checked (w.ySlope - p.fourAsquared)
    .ok { w with
      decision := decision
      y := y
      ySlope := ySlope }
  else .ok w

/-- A turn of the loop with `x` as the major axis. -/
def xMajorStep (p : RoundRectParameters) (w : Walk) : Except DrawFault Walk := do
  let w ← nextRow p w
  let increment ← checked (p.twoBsquared + w.xSlope)
  let decision ← checked (w.decision + increment)
  let x ← checked (w.x + 1)
  let xSlope ← checked (w.xSlope + p.fourBsquared)
  .ok { w with
    decision := decision
    x := x
    xSlope := xSlope }

/-- `if (decision <= 0)` of the second loop: the walk goes one column out. -/
def nextColumn (p : RoundRectParameters) (w : Walk) : Except DrawFault Walk :=
  if w.decision ≤ 0 then do
    let decision ← checked (w.decision + w.xSlope)
    let x ← checked (w.x + 1)
    let xSlope ← checked (w.xSlope + p.fourBsquared)
    .ok { w with
      decision := decision
      x := x
      xSlope := xSlope }
  else .ok w

/-- A turn of the loop with `y` as the major axis. -/
def yMajorStep (p : RoundRectParameters) (w : Walk) : Except DrawFault Walk := do
  let w ← nextColumn p w
  let increment ← checked (p.twoAsquared - w.ySlope)
  let decision ← checked (w.decision + increment)
  let y ← checked (w.y - 1)
  let ySlope ← checked (w.ySlope - p.fourAsquared)
  .ok { w with
    decision := decision
    y := y
    ySlope := ySlope }

/-- The change of the decision variable between the loops. -/
def changeAxis (p : RoundRectParameters) (w : Walk) : Except DrawFault Walk := do
  let difference ← checked (p.bSquared - p.aSquared)
  let half ← checked (p.aSquaredTwo - p.bSquaredTwo)
  let sum ← checked (difference + half)
  let slopes ← checked (w.xSlope + w.ySlope)
  let change ← checked (sum - slopes)
  let decision ← checked (w.decision + change >>> (1 : Nat))
  .ok { w with decision := decision }

/-- The loops, which draw at a point of the walk and then go on. -/
def xMajorLoop (p : RoundRectParameters) (draw : Walk → Draw) :
    Nat → Walk → ScreenBuffer → Except DrawFault (Walk × ScreenBuffer)
  | 0, _, _ => .error .outOfFuel
  | fuel + 1, w, sbuf =>
    if w.decision ≤ w.ySlope then do
      let sbuf ← draw w sbuf
      let w ← xMajorStep p w
      xMajorLoop p draw fuel w sbuf
    else .ok (w, sbuf)

def yMajorLoop (p : RoundRectParameters) (draw : Walk → Draw) :
    Nat → Walk → ScreenBuffer → Except DrawFault ScreenBuffer
  | 0, _, _ => .error .outOfFuel
  | fuel + 1, w, sbuf =>
    if w.y ≥ 0 then do
      let sbuf ← draw w sbuf
      let w ← yMajorStep p w
      yMajorLoop p draw fuel w sbuf
    else .ok sbuf

/-! ## The corners -/

/-- The rectangle and its radii, as the corner drawings get them. -/
structure Corners where
  xOrigin : Int
  yOrigin : Int
  width : Int
  height : Int
  arcWidth : Int
  arcHeight : Int

/-- The coordinates that a point of the walk has in the four corners: `x1`, `y1`, `x2`, `y2`. -/
def fourWay (c : Corners) (w : Walk) : Except DrawFault (Int × Int × Int × Int) := do
  let x1 ← checked (c.xOrigin + c.arcWidth)
  let x1 ← checked (x1 - w.x)
  let y1 ← checked (c.yOrigin + c.arcHeight)
  let y1 ← checked (y1 - w.y)
  let x2 ← checked (c.xOrigin + c.width)
  let x2 ← checked (x2 - c.arcWidth)
  let x2 ← checked (x2 + w.x)
  let y2 ← checked (c.yOrigin + c.height)
  let y2 ← checked (y2 - c.arcHeight)
  let y2 ← checked (y2 + w.y)
  .ok (x1, y1, x2, y2)

def drawClippedVertLine (clip : Clip) (color : UInt16) (x1 y1 x2 y2 : Int) : Draw := fun sbuf =>
  if y1 ≥ clip.y2 ∨ y2 < clip.y1 ∨ x2 < clip.x1 ∨ x1 ≥ clip.x2 then .ok sbuf
  else
    let y1 := if y1 < clip.y1 then clip.y1 else y1
    let y2 := if y2 ≥ clip.y2 then clip.y2 - 1 else y2
    primDrawVertLine color x1 y1 x1 y2 sbuf

def drawClippedHorzLine (clip : Clip) (color : UInt16) (x1 y1 x2 _y2 : Int) : Draw := fun sbuf =>
  if x1 ≥ clip.x2 ∨ x2 < clip.x1 ∨ y1 < clip.y1 ∨ y1 ≥ clip.y2 then .ok sbuf
  else
    let x1 := if x1 < clip.x1 then clip.x1 else x1
    let x2 := if x2 ≥ clip.x2 then clip.x2 - 1 else x2
    primDrawHorzLine color x1 y1 x2 y1 sbuf

/-- `drawClippedFourWayRoundRectPixels`. -/
def drawClippedFourWayRoundRectPixels (clip : Option Clip) (c : Corners) (color : UInt16)
    (w : Walk) : Draw := fun sbuf => do
  let (x1, y1, x2, y2) ← fourWay c w
  match clip with
  | none => do
    let sbuf ← primDrawPixel color x1 y1 sbuf
    let sbuf ← primDrawPixel color x2 y1 sbuf
    let sbuf ← primDrawPixel color x1 y2 sbuf
    let sbuf ← primDrawPixel color x2 y2 sbuf
    if w.y = c.arcHeight ∧ w.x = 0 then do
      let sbuf ← primDrawHorzLine color x1 y1 x2 y1 sbuf
      primDrawHorzLine color x1 y2 x2 y2 sbuf
    else if w.x = c.arcWidth ∧ w.y = 0 then do
      let sbuf ← primDrawVertLine color x1 y1 x1 y2 sbuf
      primDrawVertLine color x2 y1 x2 y2 sbuf
    else .ok sbuf
  | some clip =>
    if clip.x2 ≤ x1 ∨ x2 < clip.x1 ∨ clip.y2 ≤ y1 ∨ y2 < clip.y1 then .ok sbuf
    else do
      let y1Inside := clip.y1 ≤ y1 ∧ y1 < clip.y2
      let y2Inside := clip.y1 ≤ y2 ∧ y2 < clip.y2
      let x1Inside := clip.x1 ≤ x1 ∧ x1 < clip.x2
      let x2Inside := clip.x1 ≤ x2 ∧ x2 < clip.x2
      let sbuf ← drawIf (y1Inside ∧ x1Inside) (primDrawPixel color x1 y1) sbuf
      let sbuf ← drawIf (y1Inside ∧ x2Inside) (primDrawPixel color x2 y1) sbuf
      let sbuf ← drawIf (y2Inside ∧ x1Inside) (primDrawPixel color x1 y2) sbuf
      let sbuf ← drawIf (y2Inside ∧ x2Inside) (primDrawPixel color x2 y2) sbuf
      if w.y = c.arcHeight ∧ w.x = 0 then do
        let sbuf ← drawIf y1Inside (drawClippedHorzLine clip color x1 y1 x2 y1) sbuf
        drawIf y2Inside (drawClippedHorzLine clip color x1 y2 x2 y2) sbuf
      else if w.x = c.arcWidth ∧ w.y = 0 then do
        let sbuf ← drawIf x1Inside (drawClippedVertLine clip color x1 y1 x1 y2) sbuf
        drawIf x2Inside (drawClippedVertLine clip color x2 y1 x2 y2) sbuf
      else .ok sbuf

/-- `drawClippedFourWayRoundRectLines`. -/
def drawClippedFourWayRoundRectLines (clip : Option Clip) (c : Corners) (color : UInt16)
    (w : Walk) : Draw := fun sbuf => do
  let (x1, y1, x2, y2) ← fourWay c w
  match clip with
  | none =>
    if w.x ≠ c.arcWidth then do
      let sbuf ← primDrawHorzLine color x1 y1 x2 y1 sbuf
      primDrawHorzLine color x1 y2 x2 y2 sbuf
    else do
      let x2 ← checked (x2 + 1)
      let y2 ← checked (y2 + 1)
      primDrawFilledRect color x1 y1 x2 y2 sbuf
  | some clip =>
    if clip.x2 ≤ x1 ∨ x2 < clip.x1 ∨ clip.y2 ≤ y1 ∨ y2 < clip.y1 then .ok sbuf
    else do
      let x1 := if x1 < clip.x1 then clip.x1 else x1
      let x2 := if x2 ≥ clip.x2 then clip.x2 - 1 else x2
      if w.x ≠ c.arcWidth then do
        let sbuf ← drawIf (clip.y1 ≤ y1 ∧ y1 < clip.y2) (primDrawHorzLine color x1 y1 x2 y1) sbuf
        drawIf (clip.y1 ≤ y2 ∧ y2 < clip.y2) (primDrawHorzLine color x1 y2 x2 y2) sbuf
      else do
        let y1 := if y1 < clip.y1 then clip.y1 else y1
        let y2 := if y2 ≥ clip.y2 then clip.y2 - 1 else y2
        primDrawFilledRect color x1 y1 (x2 + 1) (y2 + 1) sbuf

/-! ## Rounded rectangles -/

/-- The turns that a loop over 32-bit values can take. -/
def walkFuel : Nat := 4294967296

/-- `drawCompleteOutlineRoundRect`; a radius of one is drawn as a plain rectangle. -/
def drawCompleteOutlineRoundRect (clip : Option Clip) (color : UInt16)
    (x y width height arcWidth arcHeight : Int) : Draw := fun sbuf =>
  if arcWidth ≤ 0 ∨ arcHeight ≤ 0 then .ok sbuf
  else if arcWidth = 1 ∨ arcHeight = 1 then
    match clip with
    | none => drawUnclippedRect color false x y width height sbuf
    | some clip => drawClippedRect color false clip x y width height sbuf
  else do
    let p ← squares arcWidth arcHeight
    let w ← walkStart p arcHeight
    let draw := drawClippedFourWayRoundRectPixels clip
      { xOrigin := x
        yOrigin := y
        width := width
        height := height
        arcWidth := arcWidth
        arcHeight := arcHeight } color
    let (w, sbuf) ← xMajorLoop p draw walkFuel w sbuf
    let w ← changeAxis p w
    yMajorLoop p draw walkFuel w sbuf

/-- `drawCompleteFilledRoundRect`: in the first loop a row is drawn when it is left. -/
def drawCompleteFilledRoundRect (clip : Option Clip) (color : UInt16)
    (x y width height arcWidth arcHeight : Int) : Draw := fun sbuf => do
  let width ← checked (width - 1)
  let height ← checked (height - 1)
  if arcWidth ≤ 0 ∨ arcHeight ≤ 0 then .ok sbuf
  else if arcWidth = 1 ∨ arcHeight = 1 then
    match clip with
    | none => drawUnclippedRect color true x y width height sbuf
    | some clip => drawClippedRect color true clip x y width height sbuf
  else do
    let p ← squares arcWidth arcHeight
    let w ← walkStart p arcHeight
    let draw := drawClippedFourWayRoundRectLines clip
      { xOrigin := x
        yOrigin := y
        width := width
        height := height
        arcWidth := arcWidth
        arcHeight := arcHeight } color
    let (w, sbuf) ← xMajorLoop p (fun w => drawIf (w.decision > 0) (draw w)) walkFuel w sbuf
    let w ← changeAxis p w
    yMajorLoop p draw walkFuel w sbuf

/-- A radius, limited to half a side. -/
def limitArc (arc side : Int) : Int :=
  if arc < 0 then 0 else if arc > side >>> (1 : Nat) then side >>> (1 : Nat) else arc

/-- `draw_roundrect` with `lineStyle == SOLID`. -/
def drawRoundrect (color : UInt16) (clip : Clip) (x y width height : Int) (filled : Bool)
    (arcWidth arcHeight : Int) : Draw := fun sbuf => do
  let arcWidth := limitArc arcWidth width
  let arcHeight := limitArc arcHeight height
  let x2 ← checked (x + width)
  let y2 ← checked (y + height)
  let inside := x ≥ clip.x1 ∧ x2 < clip.x2 ∧ y ≥ clip.y1 ∧ y2 < clip.y2
  if arcWidth = 0 ∨ arcHeight = 0 then
    if inside then
      if filled then primDrawFilledRect color x y x2 y2 sbuf
      else primDrawSolidRect color x y x2 y2 sbuf
    else drawClippedRect color filled clip x y width height sbuf
  else
    let clip := if inside then none else some clip
    if filled then
      drawCompleteFilledRoundRect clip color x y width height arcWidth arcHeight sbuf
    else drawCompleteOutlineRoundRect clip color x y width height arcWidth arcHeight sbuf

/-! ## The calls -/

/-- The rows of `fastFill_rect`. -/
def fastRows (color : UInt16) (screenHoriz width : Int) :
    Nat → Int → ScreenBuffer → Except DrawFault ScreenBuffer
  | 0, _, sbuf => .ok sbuf
  | height + 1, raster, sbuf =>
    fastPixelSet color raster width sbuf >>=
      fastRows color screenHoriz width height (raster + screenHoriz)

/-- `if (x < 0)`: the left edge is moved into the buffer. -/
def fastLeft (x width : Int) : Except DrawFault (Int × Int) :=
  if x < 0 then do
    let width ← checked (width + x)
    .ok (0, width)
  else .ok (x, width)

/-- `if (y < cliptop)`: the top edge is moved into the clip. -/
def fastTop (cliptop y height : Int) : Except DrawFault (Int × Int) :=
  if y < cliptop then do
    let above ← checked (y - cliptop)
    let height ← checked (height + above)
    .ok (cliptop, height)
  else .ok (y, height)

/-- `fastFill_rect`. -/
def fastFillRect (color : UInt16) (x y width height cliptop clipbottom : Int) : Draw := fun sbuf =>
  let screen_horiz := sbuf.width
  if width ≤ 0 ∨ x > screen_horiz ∨ y > sbuf.height then .ok sbuf
  else do
    let (x, width) ← fastLeft x width
    let (y, height) ← fastTop cliptop y height
    let right ← checked (x + width)
    let width := if right > screen_horiz then screen_horiz - x else width
    let bottom ← checked (y + height)
    let height := if bottom > clipbottom then clipbottom - y else height
    fastRows color screen_horiz width height.toNat (y * screen_horiz + x) sbuf

/-- `gx_fill_rect` with a solid line style. -/
def gxFillRect (color : UInt16) (clip : Clip) (x y width height : Int) : Draw := fun sbuf =>
  if clip.x1 = 0 ∧ clip.x2 = sbuf.width then
    fastFillRect color x y width height clip.y1 clip.y2 sbuf
  else drawRoundrect color clip x y width height true 0 0 sbuf

/-- `gx_draw_rect` with a solid line style. -/
def gxDrawRect (color : UInt16) (clip : Clip) (x y width height : Int) : Draw :=
  drawRoundrect color clip x y width height false 0 0

end FroggyKVM.Graphics
