/-
# FroggyKVM.Game.ExactCollision — when pixel-level collision is exact.

A shot is a window of a source image that shows, point by point, what is painted in a rectangle of
painter space; `doPixelCollision` on two shots of one rectangle answers whether the two paintings meet
there.  Sprites give shots of every rectangle inside their clipped collision rectangle, images of
every rectangle inside themselves and layers of every rectangle inside a static cell.  What remains
is the scan of rectangles that came out of the clipping empty or inside out, and of animated cells.
-/
import FroggyKVM.Game.CollidesWith

namespace FroggyKVM.Game

/-! ## Rectangles -/

namespace Edges

/-- The point lies between the edges. -/
def Contains (e : Edges) (px py : Int) : Prop :=
  (e.left ≤ px ∧ px < e.right) ∧ e.top ≤ py ∧ py < e.bottom

/-- The rectangle is neither empty nor inside out. -/
def Proper (e : Edges) : Prop := e.left < e.right ∧ e.top < e.bottom

instance (e : Edges) : Decidable e.Proper := inferInstanceAs (Decidable (_ ∧ _))

/-- The edges of `e` lie between those of `f`. -/
def Inside (e f : Edges) : Prop :=
  (f.left ≤ e.left ∧ e.right ≤ f.right) ∧ f.top ≤ e.top ∧ e.bottom ≤ f.bottom

theorem Contains.proper {e : Edges} {px py : Int} (h : e.Contains px py) : e.Proper := by
  unfold Contains at h
  exact ⟨by omega, by omega⟩

theorem Proper.swapped {e : Edges} (h : e.Proper) : e.swapped = e := by
  obtain ⟨hx, hy⟩ := h
  rw [Edges.swapped, if_neg (by omega), if_neg (by omega), if_neg (by omega), if_neg (by omega)]

end Edges

section Intersection

variable {e f : Edges}

theorem intersection_contains {px py : Int} :
    (intersection e f).Contains px py ↔ e.Contains px py ∧ f.Contains px py := by
  unfold Edges.Contains intersection
  dsimp only
  split <;> split <;> split <;> split <;> constructor <;> intro h <;> lia

theorem intersectRect_iff : intersectRect e f = true ↔
    f.left < e.right ∧ f.top < e.bottom ∧ e.left < f.right ∧ e.top < f.bottom := by
  simp [intersectRect]
  omega

/-- Two proper rectangles that intersect have a proper intersection. -/
theorem intersection_proper (h : intersectRect f e = true) (he : e.Proper) (hf : f.Proper) :
    (intersection e f).Proper := by
  rw [intersectRect_iff] at h
  unfold Edges.Proper intersection at *
  dsimp only
  constructor <;> split <;> split <;> omega

theorem intersection_inside : (intersection e f).Inside e ∧ (intersection e f).Inside f := by
  unfold Edges.Inside intersection
  dsimp only
  refine ⟨⟨⟨?_, ?_⟩, ?_, ?_⟩, ⟨?_, ?_⟩, ?_, ?_⟩ <;> split <;> omega

theorem intersection_comm : intersection e f = intersection f e := by
  unfold intersection
  congr 1 <;> split <;> split <;> omega

/-- Rectangles with a common point intersect. -/
theorem intersectRect_of_contains {px py : Int} (he : e.Contains px py) (hf : f.Contains px py) :
    intersectRect f e = true := by
  rw [intersectRect_iff]
  unfold Edges.Contains at he hf
  lia

end Intersection

/-! ## Shots -/

/-- The window of the image at the offsets shows what the raster, painted at `(x, y)`, shows in the
rectangle. -/
structure Shot (image : Image) (t : Transform) (xOffset yOffset : Int) (r : Raster Prop) (x y : Int)
    (e : Edges) : Prop where
  readable : WindowReadable image t xOffset yOffset (e.right - e.left) (e.bottom - e.top)
  shows_iff : ∀ dx dy, (0 ≤ dx ∧ dx < e.right - e.left) → (0 ≤ dy ∧ dy < e.bottom - e.top) →
    (WindowOpaque image t xOffset yOffset (e.right - e.left) (e.bottom - e.top) dx dy ↔
      r.Shows x y (e.left + dx) (e.top + dy))

/-- **Two shots of one rectangle**: `doPixelCollision` answers whether both rasters show at a point
of it. -/
theorem Shot.answers {image1 image2 : Image} {t1 t2 : Transform}
    {xOffset1 yOffset1 xOffset2 yOffset2 : Int} {r1 r2 : Raster Prop} {x1 y1 x2 y2 : Int} {e : Edges}
    (h1 : Shot image1 t1 xOffset1 yOffset1 r1 x1 y1 e)
    (h2 : Shot image2 t2 xOffset2 yOffset2 r2 x2 y2 e) (he : e.Proper) :
    Answers (doPixelCollision xOffset1 yOffset1 xOffset2 yOffset2 image1 t1 image2 t2
        (e.right - e.left) (e.bottom - e.top))
      (∃ px py, e.Contains px py ∧ r1.Shows x1 y1 px py ∧ r2.Shows x2 y2 px py) := by
  obtain ⟨hx, hy⟩ := he
  refine (doPixelCollision_answers h1.readable h2.readable (by omega) (by omega)).congr ⟨?_, ?_⟩
  · rintro ⟨dx, dy, hdx, hdy, ho1, ho2⟩
    refine ⟨e.left + dx, e.top + dy, ⟨⟨?_, ?_⟩, ?_, ?_⟩, ?_, ?_⟩
    · omega
    · omega
    · omega
    · omega
    · exact (h1.shows_iff dx dy hdx hdy).1 ho1
    · exact (h2.shows_iff dx dy hdx hdy).1 ho2
  · rintro ⟨px, py, ⟨hpx, hpy⟩, hs1, hs2⟩
    have hdx : 0 ≤ px - e.left ∧ px - e.left < e.right - e.left := by omega
    have hdy : 0 ≤ py - e.top ∧ py - e.top < e.bottom - e.top := by omega
    refine ⟨px - e.left, py - e.top, hdx, hdy, ?_, ?_⟩
    · rw [h1.shows_iff _ _ hdx hdy, add_sub_cancel, add_sub_cancel]
      exact hs1
    · rw [h2.shows_iff _ _ hdx hdy, add_sub_cancel, add_sub_cancel]
      exact hs2

namespace Sprite

/-- The collision rectangle clipped to the frame. -/
def framed (s : Sprite) : Edges := s.clipToFrame s.collisionEdges

variable {s : Sprite}

/-- The clipping is right on points. -/
theorem framed_contains {px py : Int} :
    s.framed.Contains px py ↔
      (0 ≤ px - s.x ∧ px - s.x < s.width) ∧ (0 ≤ py - s.y ∧ py - s.y < s.height) ∧
        s.tCollisionRect.Contains (px - s.x) (py - s.y) := by
  unfold Edges.Contains framed clipToFrame collisionEdges Rect.Contains
  dsimp only
  split <;> split <;> split <;> split <;> constructor <;> intro h <;> lia

/-- **What a sprite shows**: the opaque points of its clipped collision rectangle. -/
theorem Ok.shows_iff (h : s.Ok) {px py : Int} :
    s.drawn.Shows s.x s.y px py ↔ s.framed.Contains px py ∧
      s.sourceImage.OpaqueAt
        (s.frameX + s.tCurrentTransformation.column s.srcFrameWidth (px - s.x) (py - s.y))
        (s.frameY + s.tCurrentTransformation.row s.srcFrameHeight (px - s.x) (py - s.y)) := by
  rw [h.drawn_shows, framed_contains]
  simp only [and_assoc]

/-- The offsets of a rectangle in the source image. -/
theorem Ok.getImageTopLeft (h : s.Ok) (e : Edges) :
    s.getImageTopLeftX e = .ok (s.topLeftX e + s.frameX) ∧
      s.getImageTopLeftY e = .ok (s.topLeftY e + s.frameY) := by
  obtain ⟨hread, h₀, hlt⟩ := h.shown
  have hcoords := h.coords
  constructor
  · rw [getImageTopLeftX, hread, ok_bind, readArray_ok (by omega)]
    rfl
  · rw [getImageTopLeftY, hread, ok_bind, readArray_ok (by omega)]
    rfl

/-- The painted size, from the frame's. -/
theorem Ok.size (h : s.Ok) :
    (s.width, s.height) = if s.tCurrentTransformation.invertedAxes then
      (s.srcFrameHeight, s.srcFrameWidth) else (s.srcFrameWidth, s.srcFrameHeight) := by
  have hw := congrArg Bounds.width h.bounds
  have hh := congrArg Bounds.height h.bounds
  simp only at hw hh
  rw [hw, hh]
  cases s.tCurrentTransformation <;> rfl

/-- **The offset formulas invert the transforms**: for a rectangle inside the painted frame the
window at the offsets lies inside the frame, and its points come from the same source pixels. -/
theorem Ok.offsets (h : s.Ok) {e : Edges} (he : e.Proper) (hleft : s.x ≤ e.left)
    (hright : e.right ≤ s.x + s.width) (htop : s.y ≤ e.top) (hbottom : e.bottom ≤ s.y + s.height) :
    ((0 ≤ s.topLeftX e ∧ s.topLeftX e + s.tCurrentTransformation.windowWidth (e.right - e.left)
        (e.bottom - e.top) ≤ s.srcFrameWidth) ∧
      0 ≤ s.topLeftY e ∧ s.topLeftY e + s.tCurrentTransformation.windowHeight (e.right - e.left)
        (e.bottom - e.top) ≤ s.srcFrameHeight) ∧
    ∀ dx dy,
      s.topLeftX e + s.tCurrentTransformation.column (s.tCurrentTransformation.windowWidth
          (e.right - e.left) (e.bottom - e.top)) dx dy =
        s.tCurrentTransformation.column s.srcFrameWidth (e.left + dx - s.x) (e.top + dy - s.y) ∧
      s.topLeftY e + s.tCurrentTransformation.row (s.tCurrentTransformation.windowHeight
          (e.right - e.left) (e.bottom - e.top)) dx dy =
        s.tCurrentTransformation.row s.srcFrameHeight (e.left + dx - s.x) (e.top + dy - s.y) := by
  obtain ⟨hx, hy⟩ := he
  have hsize := h.size
  unfold topLeftX topLeftY
  cases ht : s.tCurrentTransformation <;>
    simp [ht, Transform.invertedAxes, Transform.value] at hsize <;>
    obtain ⟨hw, hh⟩ := hsize <;>
    refine ⟨⟨⟨?_, ?_⟩, ?_, ?_⟩, fun dx dy => ⟨?_, ?_⟩⟩ <;>
    simp [Transform.windowWidth, Transform.windowHeight, Transform.column, Transform.row,
      Transform.invertedAxes, Transform.value] <;> lia

/-- **A sprite gives shots** of the rectangles inside its clipped collision rectangle. -/
theorem Ok.shot (h : s.Ok) {e : Edges} (he : e.Proper) (hin : e.Inside s.framed) :
    Shot s.sourceImage s.tCurrentTransformation (s.topLeftX e + s.frameX) (s.topLeftY e + s.frameY)
      s.drawn s.x s.y e := by
  have hpoint : ∀ px py, e.Contains px py → s.framed.Contains px py := by
    intro px py hp
    unfold Edges.Contains Edges.Inside at *
    lia
  obtain ⟨hx, hy⟩ := he
  -- the corners of the rectangle lie in the frame
  have hfirst := framed_contains.1 (hpoint e.left e.top (by unfold Edges.Contains; omega))
  have hlast := framed_contains.1
    (hpoint (e.right - 1) (e.bottom - 1) (by unfold Edges.Contains; omega))
  obtain ⟨hwindow, hsource⟩ := h.offsets ⟨hx, hy⟩ (by omega) (by omega) (by omega) (by omega)
  obtain ⟨hframeX, hframeY⟩ := h.shown_inside
  refine ⟨?_, fun dx dy hdx hdy => ?_⟩
  · have hrows : s.tCurrentTransformation.windowHeight (e.right - e.left) (e.bottom - e.top) ≠ 0 := by
      unfold Transform.windowHeight
      split <;> omega
    unfold WindowReadable Image.Readable
    omega
  · rw [h.shows_iff, WindowOpaque, ← (hsource dx dy).1, ← (hsource dx dy).2]
    have hcontains := hpoint (e.left + dx) (e.top + dy) (by unfold Edges.Contains; omega)
    simp only [hcontains, true_and]
    rw [show ∀ a b c : Int, a + b + c = b + (a + c) by intros; omega,
      show ∀ a b c : Int, a + b + c = b + (a + c) by intros; omega]

/-- A shown point lies in the collision rectangle as it was before the clipping. -/
theorem collisionEdges_contains {px py : Int} (h : s.framed.Contains px py) :
    s.collisionEdges.Contains px py := by
  have hrect := (framed_contains.1 h).2.2
  unfold Edges.Contains collisionEdges
  unfold Rect.Contains at hrect
  dsimp only
  omega

end Sprite

/-! ## Images -/

/-- The opaque points of an image. -/
def Image.drawn (image : Image) : Raster Prop where
  width := image.width
  height := image.height
  pixel := image.OpaqueAt

/-- The edges of an image painted at `(x, y)`. -/
def Image.edges (image : Image) (x y : Int) : Edges where
  left := x
  top := y
  right := x + image.width
  bottom := y + image.height

/-- Without a transform the window is the region itself. -/
theorem windowReadable_none {image : Image} {xOffset yOffset width height : Int} :
    WindowReadable image .none xOffset yOffset width height ↔
      image.Readable xOffset yOffset width height := Iff.rfl

/-- **An image gives shots** of the rectangles inside it. -/
theorem Image.shot (image : Image) (x y : Int) {e : Edges} (he : e.Proper)
    (hin : e.Inside (image.edges x y)) :
    Shot image .none (e.left - x) (e.top - y) image.drawn x y e := by
  obtain ⟨hx, hy⟩ := he
  unfold Edges.Inside Image.edges at hin
  dsimp only at hin
  refine ⟨?_, fun dx dy hdx hdy => ?_⟩
  · rw [windowReadable_none, Image.Readable]
    omega
  · have hpx : e.left - x + dx = e.left + dx - x := by omega
    have hpy : e.top - y + dy = e.top + dy - y := by omega
    simp only [WindowOpaque, Transform.column, Transform.row, Raster.Shows, Image.drawn, hpx, hpy]
    constructor
    · intro h
      exact ⟨by omega, by omega, h⟩
    · intro h
      exact h.2.2

/-! ## Tiles -/

/-- The cell a coordinate lies in, and its place there. -/
theorem cell_div {u c n : Int} (h₀ : c * n ≤ u) (h : u < c * n + n) :
    u / n = c ∧ u % n = u - c * n := by
  rw [Int.ediv_emod_unique (by omega)]
  exact ⟨by ring, by omega, by omega⟩

namespace TiledLayer

variable {t : TiledLayer}

/-- The cell at a row and a column. -/
def cellAt (t : TiledLayer) (row col : Int) : Edges :=
  t.cellEdges (col * t.cellWidth + t.x) (row * t.cellHeight + t.y)

/-- Cells lie inside the layer. -/
theorem Ok.cell_inside (h : t.Ok) {row col : Int} (hc : t.HasCell col row) :
    (0 ≤ col * t.cellWidth ∧ col * t.cellWidth + t.cellWidth ≤ t.width) ∧
      0 ≤ row * t.cellHeight ∧ row * t.cellHeight + t.cellHeight ≤ t.height := by
  obtain ⟨hcw, hch⟩ := h.tile
  obtain ⟨hw, hh⟩ := h.size
  unfold HasCell at hc
  have hside : ∀ {i n size : Int}, 0 ≤ i → i < n → 0 < size →
      0 ≤ i * size ∧ i * size + size ≤ n * size := by
    intro i n size hi hn hs
    have hmul := Int.mul_le_mul_of_nonneg_right (show i + 1 ≤ n by omega) hs.le
    exact ⟨Int.mul_nonneg hi hs.le, by linarith⟩
  rw [hw, hh]
  exact ⟨hside (by omega) (by omega) hcw, hside (by omega) (by omega) hch⟩

/-- A point of a cell that shows tells that the cell shows a tile. -/
theorem Ok.shows_cell (h : t.Ok) {row col px py : Int} (hc : t.HasCell col row)
    (hp : (t.cellAt row col).Contains px py) :
    t.drawn.Shows t.x t.y px py ↔ t.shownTile row col ≠ 0 ∧ t.sourceImage.OpaqueAt
      (t.tileSetX.getD (t.shownTile row col).toNat 0 + (px - (col * t.cellWidth + t.x)))
      (t.tileSetY.getD (t.shownTile row col).toNat 0 + (py - (row * t.cellHeight + t.y))) := by
  have hin := h.cell_inside hc
  unfold Edges.Contains cellAt cellEdges at hp
  dsimp only at hp
  obtain ⟨hdivX, hmodX⟩ := cell_div (u := px - t.x) (c := col) (n := t.cellWidth) (by omega)
    (by omega)
  obtain ⟨hdivY, hmodY⟩ := cell_div (u := py - t.y) (c := row) (n := t.cellHeight) (by omega)
    (by omega)
  have hpx : px - t.x - col * t.cellWidth = px - (col * t.cellWidth + t.x) := by omega
  have hpy : py - t.y - row * t.cellHeight = py - (row * t.cellHeight + t.y) := by omega
  simp only [Raster.Shows, drawn, hdivX, hmodX, hdivY, hmodY, hpx, hpy]
  constructor
  · intro hs
    exact hs.2.2
  · intro hs
    exact ⟨by omega, by omega, hs⟩

/-- **A static cell gives shots** of the rectangles inside it. -/
theorem Ok.shot (h : t.Ok) {row col : Int} (hc : t.HasCell col row) (hpos : 0 < t.cellMatrix row col)
    {e : Edges} (he : e.Proper) (hin : e.Inside (t.cellAt row col)) :
    Shot t.sourceImage .none
      (t.tileSetX.getD (t.cellMatrix row col).toNat 0 + (e.left - (col * t.cellWidth + t.x)))
      (t.tileSetY.getD (t.cellMatrix row col).toNat 0 + (e.top - (row * t.cellHeight + t.y)))
      t.drawn t.x t.y e := by
  have hindex := h.indices row col
  have hcoords := h.coords
  obtain ⟨hx, hy⟩ := he
  obtain ⟨htileX, htileY⟩ := h.inside (t.cellMatrix row col).toNat (by omega) (by omega)
  have hshown : t.shownTile row col = t.cellMatrix row col := if_neg (by omega)
  have hcontains : ∀ dx dy, (0 ≤ dx ∧ dx < e.right - e.left) → (0 ≤ dy ∧ dy < e.bottom - e.top) →
      (t.cellAt row col).Contains (e.left + dx) (e.top + dy) := by
    intro dx dy hdx hdy
    unfold Edges.Contains
    unfold Edges.Inside at hin
    omega
  unfold Edges.Inside cellAt cellEdges at hin
  dsimp only at hin
  refine ⟨?_, fun dx dy hdx hdy => ?_⟩
  · rw [windowReadable_none, Image.Readable]
    omega
  · rw [h.shows_cell hc (hcontains dx dy hdx hdy), hshown]
    have hne : t.cellMatrix row col ≠ 0 := by omega
    simp only [WindowOpaque, Transform.column, Transform.row, ne_eq, hne, not_false_eq_true, true_and]
    rw [show ∀ a b c d : Int, a + (b - c) + d = a + (b + d - c) by intros; omega,
      show ∀ a b c d : Int, a + (b - c) + d = a + (b + d - c) by intros; omega]

end TiledLayer

end FroggyKVM.Game
