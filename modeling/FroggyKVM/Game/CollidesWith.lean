/-
# FroggyKVM.Game.CollidesWith — `Sprite.collidesWith` for sprites, tiled layers and images.

The three methods intersect rectangles, clip the sprites' collision rectangles to their frames edge by
edge, and hand the windows of the common rectangle to `doPixelCollision`.  A collision rectangle
outside its frame comes out of the clipping inside out, an empty one stays empty, and both can pass
`intersectRect`; a cell that holds an animated tile is looked up among the static tiles.
**Pixel-level collision is exact** when none of this reaches the scan.
-/
import FroggyKVM.Game.TiledLayer

namespace FroggyKVM.Game

/-! ## The methods -/

/-- The four edges of a rectangle in painter space; `right` and `bottom` lie past it. -/
structure Edges where
  left : Int
  top : Int
  right : Int
  bottom : Int

/-- `intersectRect`. -/
def intersectRect (r1 r2 : Edges) : Bool :=
  !(r2.left ≥ r1.right || r2.top ≥ r1.bottom || r2.right ≤ r1.left || r2.bottom ≤ r1.top)

/-- The intersecting region, as the methods compute it. -/
def intersection (e other : Edges) : Edges where
  left := if e.left < other.left then other.left else e.left
  top := if e.top < other.top then other.top else e.top
  right := if e.right < other.right then e.right else other.right
  bottom := if e.bottom < other.bottom then e.bottom else other.bottom

namespace Sprite

/-- The edges of the transformed collision rectangle. -/
def collisionEdges (s : Sprite) : Edges where
  left := s.x + s.tCollisionRect.x
  top := s.y + s.tCollisionRect.y
  right := s.x + s.tCollisionRect.x + s.tCollisionRect.width
  bottom := s.y + s.tCollisionRect.y + s.tCollisionRect.height

/-- Use only the coordinates within the sprite's frame: each edge on its own. -/
def clipToFrame (s : Sprite) (e : Edges) : Edges where
  left := if s.tCollisionRect.x < 0 then s.x else e.left
  top := if s.tCollisionRect.y < 0 then s.y else e.top
  right := if s.tCollisionRect.x + s.tCollisionRect.width > s.width then s.x + s.width else e.right
  bottom := if s.tCollisionRect.y + s.tCollisionRect.height > s.height then s.y + s.height
    else e.bottom

/-- The switch of `getImageTopLeftX`. -/
def topLeftX (s : Sprite) (e : Edges) : Int :=
  match s.tCurrentTransformation with
  | .none | .mirrorRot180 => e.left - s.x
  | .mirror | .rot180 => s.x + s.width - e.right
  | .rot90 | .mirrorRot270 => e.top - s.y
  | .rot270 | .mirrorRot90 => s.y + s.height - e.bottom

/-- The switch of `getImageTopLeftY`. -/
def topLeftY (s : Sprite) (e : Edges) : Int :=
  match s.tCurrentTransformation with
  | .none | .mirror => e.top - s.y
  | .rot180 | .mirrorRot180 => s.y + s.height - e.bottom
  | .rot270 | .mirrorRot270 => e.left - s.x
  | .rot90 | .mirrorRot90 => s.x + s.width - e.right

/-- `getImageTopLeftX`. -/
def getImageTopLeftX (s : Sprite) (e : Edges) : Except Throwable Int := do
  let frame ← readArray s.frameSequence s.sequenceIndex
  let frameX ← readArray s.frameCoordsX frame
  return s.topLeftX e + frameX

/-- `getImageTopLeftY`. -/
def getImageTopLeftY (s : Sprite) (e : Edges) : Except Throwable Int := do
  let frame ← readArray s.frameSequence s.sequenceIndex
  let frameY ← readArray s.frameCoordsY frame
  return s.topLeftY e + frameY

/-- `collidesWith(Sprite, boolean)`. -/
def collidesWithSprite (this s : Sprite) (pixelLevel : Bool) : Except Throwable Bool :=
  if ¬ (s.visible ∧ this.visible) then .ok false
  else if intersectRect s.collisionEdges this.collisionEdges then
    if pixelLevel then
      let own := this.clipToFrame this.collisionEdges
      let other := s.clipToFrame s.collisionEdges
      if ¬ intersectRect other own then .ok false
      else do
        let e := intersection own other
        let intersectWidth : Int := (e.right - e.left).natAbs
        let intersectHeight : Int := (e.bottom - e.top).natAbs
        let thisImageXOffset ← this.getImageTopLeftX e
        let thisImageYOffset ← this.getImageTopLeftY e
        let otherImageXOffset ← s.getImageTopLeftX e
        let otherImageYOffset ← s.getImageTopLeftY e
        doPixelCollision thisImageXOffset thisImageYOffset otherImageXOffset otherImageYOffset
          this.sourceImage this.tCurrentTransformation s.sourceImage s.tCurrentTransformation
          intersectWidth intersectHeight
    else .ok true
  else .ok false

/-- `collidesWith(Image, int, int, boolean)`. -/
def collidesWithImage (this : Sprite) (image : Image) (x y : Int) (pixelLevel : Bool) :
    Except Throwable Bool :=
  if ¬ this.visible then .ok false
  else
    let other : Edges :=
      { left := x, top := y, right := x + image.width, bottom := y + image.height }
    if intersectRect other this.collisionEdges then
      if pixelLevel then
        let own := this.clipToFrame this.collisionEdges
        if ¬ intersectRect other own then .ok false
        else do
          let e := intersection own other
          let intersectWidth : Int := (e.right - e.left).natAbs
          let intersectHeight : Int := (e.bottom - e.top).natAbs
          let thisImageXOffset ← this.getImageTopLeftX e
          let thisImageYOffset ← this.getImageTopLeftY e
          doPixelCollision thisImageXOffset thisImageYOffset (e.left - x) (e.top - y)
            this.sourceImage this.tCurrentTransformation image .none intersectWidth intersectHeight
      else .ok true
    else .ok false

end Sprite

/-! ## Tiled layers -/

/-- The first cell a rectangle from `lo` on can touch. -/
def startCell (lo base size : Int) : Int := if lo ≤ base then 0 else (lo - base).tdiv size

/-- The last cell a rectangle up to `hi` can touch. -/
def endCell (hi base limit size count : Int) : Int :=
  if hi < limit then (hi - 1 - base).tdiv size else count - 1

/-- A loop over `n` cells from number `i` on, the first at coordinate `a` and each `size` wide, that
stops at the first hit. -/
def forCells (size : Int) (body : Int → Int → Except Throwable Bool) :
    Nat → Int → Int → Except Throwable Bool
  | 0, _, _ => .ok false
  | n + 1, i, a => do
    if ← body i a then
      return true
    forCells size body n (i + 1) (a + size)

namespace TiledLayer

/-- The edges of the layer. -/
def edges (t : TiledLayer) : Edges where
  left := t.x
  top := t.y
  right := t.x + t.width
  bottom := t.y + t.height

def startCol (t : TiledLayer) (s : Edges) : Int := startCell s.left t.x t.cellWidth

def startRow (t : TiledLayer) (s : Edges) : Int := startCell s.top t.y t.cellHeight

def endCol (t : TiledLayer) (s : Edges) : Int :=
  endCell s.right t.x (t.x + t.width) t.cellWidth t.columns

def endRow (t : TiledLayer) (s : Edges) : Int :=
  endCell s.bottom t.y (t.y + t.height) t.cellHeight t.rows

/-- The two loops over the cells that a rectangle can touch; the body gets the row, the top of the
cell, the column and the left of the cell. -/
def overCells (t : TiledLayer) (s : Edges)
    (body : Int → Int → Int → Int → Except Throwable Bool) : Except Throwable Bool :=
  forCells t.cellHeight
    (fun row cellTop =>
      forCells t.cellWidth (fun col cellLeft => body row cellTop col cellLeft)
        (t.endCol s + 1 - t.startCol s).toNat (t.startCol s) (t.startCol s * t.cellWidth + t.x))
    (t.endRow s + 1 - t.startRow s).toNat (t.startRow s) (t.startRow s * t.cellHeight + t.y)

end TiledLayer

/-- Exchange the edges of a side that came out inside out. -/
def Edges.swapped (e : Edges) : Edges where
  left := if e.left > e.right then e.right else e.left
  top := if e.top > e.bottom then e.bottom else e.top
  right := if e.left > e.right then e.left else e.right
  bottom := if e.top > e.bottom then e.top else e.bottom

/-- The edges of a cell. -/
def TiledLayer.cellEdges (t : TiledLayer) (cellLeft cellTop : Int) : Edges where
  left := cellLeft
  top := cellTop
  right := cellLeft + t.cellWidth
  bottom := cellTop + t.cellHeight

namespace Sprite

/-- The body of the pixel-level loops: one cell, against the clipped collision rectangle. -/
def collidesWithCell (this : Sprite) (t : TiledLayer) (s : Edges)
    (row cellTop col cellLeft : Int) : Except Throwable Bool := do
  let tileIndex ← t.getCell col row
  if tileIndex = 0 then
    return false
  let e := (intersection s (t.cellEdges cellLeft cellTop)).swapped
  let intersectWidth := e.right - e.left
  let intersectHeight := e.bottom - e.top
  let image1XOffset ← this.getImageTopLeftX e
  let image1YOffset ← this.getImageTopLeftY e
  let tileX ← readArray t.tileSetX tileIndex
  let tileY ← readArray t.tileSetY tileIndex
  doPixelCollision image1XOffset image1YOffset (tileX + (e.left - cellLeft))
    (tileY + (e.top - cellTop)) this.sourceImage this.tCurrentTransformation t.sourceImage .none
    intersectWidth intersectHeight

/-- `collidesWith(TiledLayer, boolean)`. -/
def collidesWithTiledLayer (this : Sprite) (t : TiledLayer) (pixelLevel : Bool) :
    Except Throwable Bool :=
  if ¬ (t.visible ∧ this.visible) then .ok false
  else if ¬ intersectRect t.edges this.collisionEdges then .ok false
  else if ¬ pixelLevel then
    -- a non-empty cell is a hit
    t.overCells this.collisionEdges fun row _ col _ => do
      return (← t.getCell col row) ≠ 0
  else
    let s := this.clipToFrame this.collisionEdges
    if ¬ intersectRect t.edges s then .ok false
    else t.overCells s (this.collidesWithCell t s)

end Sprite

end FroggyKVM.Game
