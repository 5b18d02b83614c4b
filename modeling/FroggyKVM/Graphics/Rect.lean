/-
# FroggyKVM.Graphics.Rect — rectangles in solid style, clipped and not.

`x2` and `y2` are the exclusive ends of a filled rectangle and the inclusive ones of an outline.
-/
import FroggyKVM.Graphics.Screen

namespace FroggyKVM.Graphics

/-- The clip: the upper bounds are exclusive. -/
structure Clip where
  x1 : Int
  y1 : Int
  x2 : Int
  y2 : Int

/-- The result of a signed 32-bit operation. -/
def checked (a : Int) : Except DrawFault Int :=
  if -2147483648 ≤ a ∧ a < 2147483648 then .ok a else .error .overflow

theorem checked_ok {a : Int} (h : -2147483648 ≤ a ∧ a < 2147483648) : checked a = .ok a := if_pos h

theorem checked_error {a : Int} (h : ¬ (-2147483648 ≤ a ∧ a < 2147483648)) :
    checked a = .error .overflow := if_neg h

/-- The corner pixels are painted once. -/
def primDrawSolidRect (color : UInt16) (x1 y1 x2 y2 : Int) : Draw := fun sbuf => do
  let sbuf ← primDrawHorzLine color x1 y1 x2 y1 sbuf
  let sbuf ← primDrawHorzLine color x1 y2 x2 y2 sbuf
  let y2 ← checked (y2 - 1)
  let y1 ← checked (y1 + 1)
  if y2 > y1 then do
    let sbuf ← primDrawVertLine color x1 y1 x1 y2 sbuf
    primDrawVertLine color x2 y1 x2 y2 sbuf
  else .ok sbuf

/-- `drawClippedRect` with `clip == NULL`. -/
def drawUnclippedRect (color : UInt16) (filled : Bool) (x y width height : Int) : Draw :=
  fun sbuf => do
    let x2 ← checked (x + width)
    let y2 ← checked (y + height)
    if filled then primDrawFilledRect color x y x2 y2 sbuf
    else do
      let sbuf ← primDrawVertLine color x y x y2 sbuf
      let sbuf ← primDrawHorzLine color x y x2 y sbuf
      let sbuf ← primDrawVertLine color x2 y x2 y2 sbuf
      primDrawHorzLine color x y2 x2 y2 sbuf

/-- `drawClippedRect` with a clip.  A side is drawn when its coordinate was not moved. -/
def drawClippedRect (color : UInt16) (filled : Bool) (clip : Clip) (x y width height : Int) :
    Draw := fun sbuf =>
  if clip.x1 = clip.x2 ∨ clip.y1 = clip.y2 then .ok sbuf
  else do
    let x1 := max x clip.x1
    let y1 := max y clip.y1
    let x2UnClipped ← checked (x + width)
    let y2UnClipped ← checked (y + height)
    let x2 := min x2UnClipped clip.x2
    let y2 := min y2UnClipped clip.y2
    if filled then
      if x1 > x2 ∨ y1 > y2 then .ok sbuf else primDrawFilledRect color x1 y1 x2 y2 sbuf
    else if (x1 > x ∧ x2 < x2UnClipped ∧ y1 > y ∧ y2 < y2UnClipped) ∨ x1 > x2 ∨ y1 > y2 then
      .ok sbuf
    else do
      let sbuf ← drawIf (x1 = x) (primDrawVertLine color x1 y1 x1 y2) sbuf
      let sbuf ← drawIf (y1 = y) (primDrawHorzLine color x1 y1 x2 y1) sbuf
      let sbuf ← drawIf (x2 = x2UnClipped) (primDrawVertLine color x2 y1 x2 y2) sbuf
      drawIf (y2 = y2UnClipped) (primDrawHorzLine color x1 y2 x2 y2) sbuf

end FroggyKVM.Graphics
