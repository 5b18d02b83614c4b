/-
# FroggyKVM.Game.TilePaint — `TiledLayer.paint`.

The rows and columns that lie outside the clip are left out.  The distances to the clip are divided
towards zero, so what is left out has no point inside the clip (`paintCells_idle`), and the canvas is
the one that drawing every cell leaves.  An exception needs a cell without a tile, or a `Graphics`
that draws into the source image of the layer.
-/
import FroggyKVM.Game.TileTable
import FroggyKVM.Lib.ForRange

namespace FroggyKVM.Game

/-! ## Drawing a region of an image -/

/-- A `Graphics`: its clip, and what `renderRegion` draws.  Drawing changes nothing when the region's
destination has no point inside the clip. -/
structure Graphics (Canvas : Type) where
  clipX : Int
  clipY : Int
  clipWidth : Int
  clipHeight : Int
  /-- `img == src` -/
  drawsInto : Image → Bool
  render : (src : Image) → (x_src y_src width height x_dest y_dest : Int) → Canvas → Canvas
  render_outside : ∀ src x_src y_src width height x_dest y_dest canvas,
    x_dest + width ≤ clipX ∨ clipX + clipWidth ≤ x_dest ∨
      y_dest + height ≤ clipY ∨ clipY + clipHeight ≤ y_dest →
    render src x_src y_src width height x_dest y_dest canvas = canvas

variable {Canvas : Type}

/-- `drawRegion` without a transformation, with the anchor at the top left. -/
def Graphics.drawRegion (g : Graphics Canvas) (src : Image)
    (x_src y_src width height x_dest y_dest : Int) (canvas : Canvas) : Except Throwable Canvas :=
  if g.drawsInto src = true ∨ height < 0 ∨ width < 0 ∨ x_src < 0 ∨ y_src < 0 ∨
      x_src + width > src.width ∨ y_src + height > src.height then .error .illegalArgument
  else .ok (g.render src x_src y_src width height x_dest y_dest canvas)

namespace TiledLayer

variable (t : TiledLayer) (g : Graphics Canvas)

/-! ## Painting -/

/-- The static tile of a cell, by the table if the cell is animated. -/
def staticTile (row column : Int) : Except Throwable Int :=
  let tileIndex := t.cellMatrix row column
  if tileIndex < 0 then t.getAnimatedTile tileIndex else .ok tileIndex

/-- The body of the loops. -/
def paintCell (row column tx ty : Int) (canvas : Canvas) : Except Throwable Canvas :=
  if t.HasCell column row then
    if t.cellMatrix row column = 0 then .ok canvas
    else do
      let tileIndex ← t.staticTile row column
      let x_src ← readArray t.tileSetX tileIndex
      let y_src ← readArray t.tileSetY tileIndex
      g.drawRegion t.sourceImage x_src y_src t.cellWidth t.cellHeight tx ty canvas
  else .error .arrayIndexOutOfBounds

/-- The loop over the columns, with so many turns left. -/
def paintColumns (row ty : Int) : Nat → Int → Int → Canvas → Except Throwable Canvas
  | 0, _, _, canvas => .ok canvas
  | n + 1, column, tx, canvas => do
    let canvas ← t.paintCell g row column tx ty canvas
    paintColumns row ty n (column + 1) (i32 (tx + t.cellWidth)) canvas

/-- The loop over the rows, with so many turns left. -/
def paintRows (startColumn endColumn : Int) : Nat → Int → Int → Canvas → Except Throwable Canvas
  | 0, _, _, canvas => .ok canvas
  | n + 1, row, ty, canvas => do
    let tx := i32 (t.x + i32 (startColumn * t.cellWidth))
    let canvas ← t.paintColumns g row ty (endColumn - startColumn).toNat startColumn tx canvas
    paintRows startColumn endColumn n (row + 1) (i32 (ty + t.cellHeight)) canvas

/-- Both loops. -/
def paintCells (startColumn endColumn startRow endRow : Int) (canvas : Canvas) :
    Except Throwable Canvas :=
  t.paintRows g startColumn endColumn (endRow - startRow).toNat startRow
    (i32 (t.y + i32 (startRow * t.cellHeight))) canvas

/-- The columns left of the clip, or the rows above it. -/
def startIndex (clip position size : Int) : Int :=
  let number := (i32 (clip - position)).tdiv size
  if number > 0 then number else 0

/-- The columns that are not right of the clip, or the rows that are not below it. -/
def endIndex (clipEnd position count size : Int) : Int :=
  let number := (i32 (i32 (position + i32 (count * size)) - clipEnd)).tdiv size
  if number > 0 then count - number else count

/-- `paint`. -/
def paint (canvas : Canvas) : Except Throwable Canvas :=
  if t.visible then
    t.paintCells g (startIndex g.clipX t.x t.cellWidth)
      (endIndex (i32 (g.clipX + g.clipWidth)) t.x t.columns t.cellWidth)
      (startIndex g.clipY t.y t.cellHeight)
      (endIndex (i32 (g.clipY + g.clipHeight)) t.y t.rows t.cellHeight) canvas
  else .ok canvas

/-- Every cell is drawn. -/
def paintAll (canvas : Canvas) : Except Throwable Canvas :=
  t.paintCells g 0 t.columns 0 t.rows canvas

/-! ## Cells -/

variable {t g}

theorem startIndex_nonneg (clip position size : Int) : 0 ≤ startIndex clip position size := by
  unfold startIndex
  dsimp only
  split <;> omega

theorem endIndex_le (clipEnd position count size : Int) :
    endIndex clipEnd position count size ≤ count := by
  unfold endIndex
  dsimp only
  split <;> omega

/-- The region of tile 0, which an animated tile may show, lies inside the source image. -/
def ZeroInside (t : TiledLayer) : Prop :=
  FrameInside t.sourceImage t.cellWidth t.cellHeight (t.tileSetX.getD 0 0) (t.tileSetY.getD 0 0)

theorem le_of_tmod_eq_zero {a b : Int} (ha : 0 < a) (h : a.tmod b = 0) : b ≤ a :=
  Int.le_of_dvd ha (Int.dvd_of_tmod_eq_zero h)

theorem createStaticSet_zeroInside {image : Image} {tileWidth tileHeight n : Int} {maintain : Bool}
    (h : Cuts image tileWidth tileHeight) :
    (t.createStaticSet image n tileWidth tileHeight maintain).ZeroInside := by
  have hwidth := le_of_tmod_eq_zero image.width_pos h.2.1
  have hheight := le_of_tmod_eq_zero image.height_pos h.2.2
  change ((0 : Int) ≤ 0 ∧ 0 + tileWidth ≤ image.width) ∧ (0 : Int) ≤ 0 ∧ 0 + tileHeight ≤ image.height
  omega

theorem orUnchanged_zeroInside {r : Except Throwable TiledLayer} (h : t.ZeroInside)
    (hr : ∀ t', r = .ok t' → t'.ZeroInside) : (t.orUnchanged r).ZeroInside := by
  cases r with
  | ok t' => exact hr t' rfl
  | error e => exact h

theorem exec_zeroInside (h : t.ZeroInside) (call : Call) : (t.exec call).ZeroInside := by
  cases call with
  | createAnimatedTile staticTileIndex =>
    apply orUnchanged_zeroInside h
    intro t' ht
    unfold createAnimatedTile at ht
    split at ht
    · cases ht
    · cases ht
      exact h
  | setAnimatedTile animatedTileIndex staticTileIndex =>
    apply orUnchanged_zeroInside h
    intro t' ht
    unfold setAnimatedTile at ht
    split at ht
    · cases ht
    · dsimp only at ht
      split at ht
      · cases ht
      · split at ht
        · cases ht
        · cases ht
          exact h
  | setCell col row tileIndex =>
    apply orUnchanged_zeroInside h
    intro t' ht
    unfold setCell at ht
    split_ifs at ht
    cases ht
    exact h
  | fillCells col row numCols numRows tileIndex =>
    apply orUnchanged_zeroInside h
    intro t' ht
    unfold fillCells at ht
    split_ifs at ht
    cases ht
    exact h
  | setStaticTileSet image tileWidth tileHeight =>
    apply orUnchanged_zeroInside h
    intro t' ht
    unfold setStaticTileSet at ht
    split at ht
    · cases ht
    · next hcuts =>
      cases ht
      exact createStaticSet_zeroInside (not_not.1 hcuts)
  | setPosition x y => exact h
  | move dx dy => exact h
  | setVisible visible => exact h
  | draw argb => exact h

theorem Reachable.zeroInside (h : Reachable t) : t.ZeroInside := by
  induction h with
  | new h =>
    unfold TiledLayer.new at h
    split at h
    · cases h
    · split at h
      · cases h
      · next hcuts =>
        cases h
        exact createStaticSet_zeroInside (not_not.1 hcuts)
  | exec _ call ih => exact exec_zeroInside ih call

/-- What painting needs of a layer. -/
structure Paintable (t : TiledLayer) : Prop where
  valid : t.Valid
  ok : t.sized.Ok
  zero : t.ZeroInside

theorem Run.paintable (h : Run AvoidsSmallest t) : t.Paintable :=
  ⟨h.valid, h.reachable.ok, h.reachable.zeroInside⟩

/-- The static tile that a cell shows is there. -/
theorem Valid.staticTile (h : t.Valid) (htiles : 0 < t.numberOfTiles) (row column : Int) :
    t.staticTile row column = .ok (t.shownTile row column) ∧
      0 ≤ t.shownTile row column ∧ t.shownTile row column < t.numberOfTiles := by
  unfold TiledLayer.staticTile shownTile
  dsimp only
  rcases h.cells row column with hzero | ⟨hpos, hlt⟩ | ⟨hsome, hpos, hlt⟩
  · rw [if_neg (by omega), if_neg (by omega)]
    exact ⟨rfl, by omega⟩
  · rw [if_neg (by omega), if_neg (by omega)]
    exact ⟨rfl, by omega⟩
  · obtain ⟨table, htable⟩ := Option.isSome_iff_exists.1 hsome
    obtain ⟨⟨hpos', hle⟩, hentries⟩ := h.table table htable
    have hmin := h.ints row column
    have hget : t.getAnimatedTile (t.cellMatrix row column) =
        .ok (table.getD (-t.cellMatrix row column).toNat 0) := by
      unfold getAnimatedTile
      rw [i32_of_range (by omega), htable]
      dsimp only
      rw [if_neg (by omega)]
      exact readArray_ok (by omega)
    rw [if_pos (by omega), if_pos (by omega), hget]
    exact ⟨rfl, hentries _ hpos hlt⟩

/-- The canvas after a cell: an animated tile that shows tile 0 draws the region at the origin. -/
def cellDrawn (t : TiledLayer) (g : Graphics Canvas) (row column tx ty : Int) (canvas : Canvas) :
    Canvas :=
  if t.cellMatrix row column = 0 then canvas
  else
    g.render t.sourceImage (t.tileSetX.getD (t.shownTile row column).toNat 0)
      (t.tileSetY.getD (t.shownTile row column).toNat 0) t.cellWidth t.cellHeight tx ty canvas

/-- **A cell of a valid layer is drawn without an exception.** -/
theorem Paintable.paintCell (h : t.Paintable) (hown : g.drawsInto t.sourceImage = false)
    {row column : Int} (hcell : t.HasCell column row) (tx ty : Int) (canvas : Canvas) :
    t.paintCell g row column tx ty canvas = .ok (t.cellDrawn g row column tx ty canvas) := by
  obtain ⟨hlookup, hnonneg, hlt⟩ := h.valid.staticTile h.ok.tiles row column
  obtain ⟨hx, hy⟩ : (t.tileSetX.length : Int) = t.numberOfTiles ∧
      (t.tileSetY.length : Int) = t.numberOfTiles := h.ok.coords
  have hinside : FrameInside t.sourceImage t.cellWidth t.cellHeight
      (t.tileSetX.getD (t.shownTile row column).toNat 0)
      (t.tileSetY.getD (t.shownTile row column).toNat 0) := by
    by_cases hzero : t.shownTile row column = 0
    · rw [hzero]
      exact h.zero
    · exact h.ok.inside _ (by omega) (show _ < t.tileSetX.length by omega)
  obtain ⟨hwidth, hheight⟩ := h.ok.tile
  unfold TiledLayer.paintCell cellDrawn
  rw [if_pos hcell]
  split
  · rfl
  · rw [hlookup]
    change (readArray t.tileSetX _ >>= _) = _
    rw [readArray_ok ⟨hnonneg, hlt.trans_eq hx.symm⟩]
    change (readArray t.tileSetY _ >>= _) = _
    rw [readArray_ok ⟨hnonneg, hlt.trans_eq hy.symm⟩]
    refine if_neg ?_
    rw [hown]
    unfold FrameInside at hinside
    change 0 < t.cellWidth at hwidth
    change 0 < t.cellHeight at hheight
    simp only [Bool.false_eq_true, false_or]
    omega

/-! ## The loops -/

/-- Where a column starts, and where a row starts. -/
def cellX (t : TiledLayer) (column : Int) : Int := i32 (t.x + column * t.cellWidth)

def cellY (t : TiledLayer) (row : Int) : Int := i32 (t.y + row * t.cellHeight)

theorem i32_step (a b c : Int) : i32 (i32 (a + b * c) + c) = i32 (a + (b + 1) * c) := by
  unfold i32
  rw [Int.bmod_add_bmod]
  congr 1
  ring

theorem i32_start (a b : Int) : i32 (a + i32 b) = i32 (a + b) := by
  unfold i32
  exact Int.add_bmod_bmod

/-- The cells of a row. -/
def paintRow (t : TiledLayer) (g : Graphics Canvas) (startColumn endColumn row : Int)
    (canvas : Canvas) : Except Throwable Canvas :=
  forRange (fun column => t.paintCell g row column (t.cellX column) (t.cellY row))
    (endColumn - startColumn).toNat startColumn canvas

theorem paintColumns_eq {row ty : Int} {n : Nat} {column : Int} {canvas : Canvas} :
    t.paintColumns g row ty n column (t.cellX column) canvas =
      forRange (fun column => t.paintCell g row column (t.cellX column) ty) n column canvas := by
  induction n generalizing column canvas with
  | zero => rfl
  | succ n ih =>
    rw [paintColumns, forRange]
    congr 1
    funext canvas'
    rw [← ih]
    unfold cellX
    rw [i32_step]

theorem paintRows_eq {startColumn endColumn : Int} {n : Nat} {row : Int} {canvas : Canvas} :
    t.paintRows g startColumn endColumn n row (t.cellY row) canvas =
      forRange (t.paintRow g startColumn endColumn) n row canvas := by
  induction n generalizing row canvas with
  | zero => rfl
  | succ n ih =>
    rw [paintRows, forRange]
    have hstart : i32 (t.x + i32 (startColumn * t.cellWidth)) = t.cellX startColumn := i32_start _ _
    have hcells : t.paintColumns g row (t.cellY row) (endColumn - startColumn).toNat startColumn
        (t.cellX startColumn) canvas = t.paintRow g startColumn endColumn row canvas := paintColumns_eq
    rw [hstart, hcells]
    congr 1
    funext canvas'
    rw [← ih]
    unfold cellY
    rw [i32_step]

theorem paintCells_eq {startColumn endColumn startRow endRow : Int} {canvas : Canvas} :
    t.paintCells g startColumn endColumn startRow endRow canvas =
      forRange (t.paintRow g startColumn endColumn) (endRow - startRow).toNat startRow canvas := by
  have hstart : i32 (t.y + i32 (startRow * t.cellHeight)) = t.cellY startRow := i32_start _ _
  unfold paintCells
  rw [hstart, paintRows_eq]

/-- **Painting does not throw**, whatever the clip is. -/
theorem Paintable.paintCells (h : t.Paintable) (hown : g.drawsInto t.sourceImage = false)
    {startColumn endColumn startRow endRow : Int} (hcolumns : 0 ≤ startColumn ∧ endColumn ≤ t.columns)
    (hrows : 0 ≤ startRow ∧ endRow ≤ t.rows) (canvas : Canvas) :
    ∃ canvas', t.paintCells g startColumn endColumn startRow endRow canvas = .ok canvas' := by
  rw [paintCells_eq]
  apply forRange_ok
  intro row hrow hrow' canvas
  apply forRange_ok
  intro column hcolumn hcolumn' canvas
  refine ⟨_, h.paintCell hown ?_ _ _ canvas⟩
  unfold HasCell
  omega

/-! ## What is left out -/

/-- The coordinates of one axis do not overflow: where the layer starts and ends, where the clip
ends, and the distances between them. -/
structure AxisFits (position count size clip clipSize : Int) : Prop where
  start : IsInt position
  length : IsInt (count * size)
  stop : IsInt (position + count * size)
  clipEnd : IsInt (clip + clipSize)
  before : IsInt (clip - position)
  behind : IsInt (position + count * size - (clip + clipSize))

/-- No coordinate of `paint` overflows. -/
def CoordinatesFit (t : TiledLayer) (g : Graphics Canvas) : Prop :=
  AxisFits t.x t.columns t.cellWidth g.clipX g.clipWidth ∧
    AxisFits t.y t.rows t.cellHeight g.clipY g.clipHeight

section Axis
variable {position count size clip clipSize i : Int}

theorem tdiv_mul_le {a b : Int} (hb : 0 < b) (hpos : 0 < a.tdiv b) : a.tdiv b * b ≤ a := by
  have ha : 0 ≤ a := by
    by_contra hneg
    have hle : a.tdiv b ≤ 0 := by
      rw [← neg_neg a, Int.neg_tdiv]
      have := Int.tdiv_nonneg (show 0 ≤ -a by omega) hb.le
      omega
    omega
  rw [Int.tdiv_eq_ediv_of_nonneg ha]
  exact Int.ediv_mul_le a hb.ne'

theorem AxisFits.exact (h : AxisFits position count size clip clipSize) (hsize : 0 < size)
    (hi : 0 ≤ i) (hlt : i ≤ count) : i32 (position + i * size) = position + i * size := by
  have hle : i * size ≤ count * size := Int.mul_le_mul_of_nonneg_right hlt hsize.le
  have hnonneg : 0 ≤ i * size := Int.mul_nonneg hi hsize.le
  have hstart := h.start
  have hstop := h.stop
  unfold IsInt at hstart hstop
  exact i32_of_range (by omega)

/-- What is left out at the start ends before the clip. -/
theorem AxisFits.before_start (h : AxisFits position count size clip clipSize) (hsize : 0 < size)
    (hi : 0 ≤ i) (hlt : i < startIndex clip position size) : position + i * size + size ≤ clip := by
  unfold startIndex at hlt
  rw [h.before.i32_eq] at hlt
  dsimp only at hlt
  split at hlt
  · next hpos =>
    have hle := tdiv_mul_le hsize hpos
    have hmul : (i + 1) * size ≤ (clip - position).tdiv size * size :=
      Int.mul_le_mul_of_nonneg_right (by omega) hsize.le
    rw [Int.add_mul, Int.one_mul] at hmul
    omega
  · omega

/-- What is left out at the end starts behind the clip. -/
theorem AxisFits.behind_end (h : AxisFits position count size clip clipSize) (hsize : 0 < size)
    (hi : endIndex (i32 (clip + clipSize)) position count size ≤ i) (hlt : i < count) :
    clip + clipSize ≤ position + i * size := by
  unfold endIndex at hi
  rw [h.clipEnd.i32_eq, h.length.i32_eq, h.stop.i32_eq, h.behind.i32_eq] at hi
  dsimp only at hi
  split at hi
  · next hpos =>
    have hle := tdiv_mul_le hsize hpos
    have hmul : (count - i) * size ≤ (position + count * size - (clip + clipSize)).tdiv size * size :=
      Int.mul_le_mul_of_nonneg_right (by omega) hsize.le
    rw [Int.sub_mul] at hmul
    omega
  · omega

end Axis

/-- The rows and columns that `paint` draws. -/
def InView (t : TiledLayer) (g : Graphics Canvas) (row column : Int) : Prop :=
  (startIndex g.clipX t.x t.cellWidth ≤ column ∧
    column < endIndex (i32 (g.clipX + g.clipWidth)) t.x t.columns t.cellWidth) ∧
  startIndex g.clipY t.y t.cellHeight ≤ row ∧
    row < endIndex (i32 (g.clipY + g.clipHeight)) t.y t.rows t.cellHeight

/-- **A cell that is left out has no point inside the clip.** -/
theorem Paintable.idle (h : t.Paintable) (hown : g.drawsInto t.sourceImage = false)
    (hfit : t.CoordinatesFit g) {row column : Int} (hcell : t.HasCell column row)
    (hout : ¬ t.InView g row column) (canvas : Canvas) :
    t.paintCell g row column (t.cellX column) (t.cellY row) canvas = .ok canvas := by
  obtain ⟨hx, hy⟩ := hfit
  obtain ⟨hwidth, hheight⟩ : 0 < t.cellWidth ∧ 0 < t.cellHeight := h.ok.tile
  rw [h.paintCell hown hcell]
  unfold cellDrawn
  split
  · rfl
  · rw [g.render_outside]
    unfold cellX cellY
    unfold HasCell at hcell
    rw [hx.exact hwidth (by omega) (by omega), hy.exact hheight (by omega) (by omega)]
    unfold InView at hout
    by_cases hleft : column < startIndex g.clipX t.x t.cellWidth
    · exact .inl (hx.before_start hwidth (by omega) hleft)
    by_cases hright : endIndex (i32 (g.clipX + g.clipWidth)) t.x t.columns t.cellWidth ≤ column
    · exact .inr (.inl (hx.behind_end hwidth hright (by omega)))
    by_cases hupper : row < startIndex g.clipY t.y t.cellHeight
    · exact .inr (.inr (.inl (hy.before_start hheight (by omega) hupper)))
    · exact .inr (.inr (.inr (hy.behind_end hheight (by omega) (by omega))))

/-- **`paint` leaves the canvas that drawing every cell leaves.** -/
theorem Paintable.paint_eq (h : t.Paintable) (hown : g.drawsInto t.sourceImage = false)
    (hfit : t.CoordinatesFit g) (hvisible : t.visible = true) (canvas : Canvas) :
    t.paint g canvas = t.paintAll g canvas := by
  obtain ⟨hcolumns, hrows⟩ : 0 < t.columns ∧ 0 < t.rows := h.ok.cells
  have hend := endIndex_le (i32 (g.clipX + g.clipWidth)) t.x t.columns t.cellWidth
  have hend' := endIndex_le (i32 (g.clipY + g.clipHeight)) t.y t.rows t.cellHeight
  unfold paint paintAll
  rw [if_pos hvisible, paintCells_eq, paintCells_eq]
  -- a row without the columns that are left out
  have hrow : ∀ row, 0 ≤ row → row < t.rows → ∀ canvas,
      t.paintRow g (startIndex g.clipX t.x t.cellWidth)
        (endIndex (i32 (g.clipX + g.clipWidth)) t.x t.columns t.cellWidth) row canvas =
      t.paintRow g 0 t.columns row canvas := by
    intro row hrow₀ hrow canvas
    unfold paintRow
    apply forRange_trim (startIndex_nonneg _ _ _) (by omega)
    intro column hcolumn hcolumn' hout canvas
    apply h.idle hown hfit (by unfold HasCell; omega)
    unfold InView
    omega
  rw [forRange_congr fun row h₁ h₂ => funext (hrow row
    ((startIndex_nonneg g.clipY t.y t.cellHeight).trans h₁) (by omega))]
  apply forRange_trim (startIndex_nonneg _ _ _) (by omega)
  intro row hrow₀ hrow' hout canvas
  unfold paintRow
  apply forRange_idle
  intro column hcolumn hcolumn' canvas
  apply h.idle hown hfit (by unfold HasCell; omega)
  unfold InView
  omega

/-! ## What the cells show -/

/-- A cell as it should look: tile 0 is transparent, also where an animated tile shows it. -/
def cellShown (t : TiledLayer) (g : Graphics Canvas) (row column : Int) (canvas : Canvas) : Canvas :=
  let tile := t.shownTile row column
  if tile = 0 then canvas
  else
    g.render t.sourceImage (t.tileSetX.getD tile.toNat 0) (t.tileSetY.getD tile.toNat 0)
      t.cellWidth t.cellHeight (t.x + column * t.cellWidth) (t.y + row * t.cellHeight) canvas

/-- Every cell, row by row, as it should look. -/
def layerShown (t : TiledLayer) (g : Graphics Canvas) (canvas : Canvas) : Canvas :=
  (List.range t.rows.toNat).foldl (fun canvas (row : Nat) =>
    (List.range t.columns.toNat).foldl (fun canvas (column : Nat) =>
      t.cellShown g row column canvas) canvas) canvas

/-- No cell holds an animated tile that shows tile 0. -/
def NoEmptyAnimation (t : TiledLayer) : Prop :=
  ∀ row column, t.HasCell column row → t.shownTile row column = 0 → t.cellMatrix row column = 0

theorem shownTile_zero {row column : Int} (h : t.cellMatrix row column = 0) :
    t.shownTile row column = 0 := by
  unfold shownTile
  rw [h]
  exact if_neg (lt_irrefl 0)

/-- **Drawing every cell shows the layer**, unless an animated tile shows tile 0. -/
theorem Paintable.paintAll_eq (h : t.Paintable) (hown : g.drawsInto t.sourceImage = false)
    (hfit : t.CoordinatesFit g) (hempty : t.NoEmptyAnimation) (canvas : Canvas) :
    t.paintAll g canvas = .ok (t.layerShown g canvas) := by
  obtain ⟨hx, hy⟩ := hfit
  obtain ⟨hwidth, hheight⟩ : 0 < t.cellWidth ∧ 0 < t.cellHeight := h.ok.tile
  have hcell : ∀ row column, t.HasCell column row → ∀ canvas,
      t.paintCell g row column (t.cellX column) (t.cellY row) canvas =
        .ok (t.cellShown g row column canvas) := by
    intro row column hcell canvas
    rw [h.paintCell hown hcell]
    unfold cellDrawn cellShown cellX cellY
    by_cases hzero : t.cellMatrix row column = 0
    · rw [if_pos hzero, if_pos (shownTile_zero hzero)]
    · have hshown : t.shownTile row column ≠ 0 := fun hs => hzero (hempty row column hcell hs)
      unfold HasCell at hcell
      rw [if_neg hzero, if_neg hshown, hx.exact hwidth (by omega) (by omega),
        hy.exact hheight (by omega) (by omega)]
  unfold paintAll
  rw [paintCells_eq, Int.sub_zero]
  have hrow : ∀ row : Int, 0 ≤ row → row < 0 + t.rows.toNat → ∀ canvas,
      t.paintRow g 0 t.columns row canvas =
        .ok ((List.range t.columns.toNat).foldl (fun canvas (column : Nat) =>
          t.cellShown g row column canvas) canvas) := by
    intro row hrow₀ hrow canvas
    unfold paintRow
    rw [Int.sub_zero, forRange_pure fun column h₁ h₂ => hcell row column (by unfold HasCell; omega)]
    simp only [Int.zero_add]
  rw [forRange_pure hrow]
  simp only [Int.zero_add]
  rfl

/-! ## Runs -/

/-- **Tiled layers hold only valid cells and draw all of them**, in every run that does not store the
smallest `int`, and on every canvas but the layer's own source image. -/
theorem tiledLayer_sound {t : TiledLayer} (h : Run AvoidsSmallest t) :
    ((∀ r c, t.RefersToTile (t.cellMatrix r c)) ∧
        ∀ table, t.animToStatic = some table → t.ValidTable table) ∧
      (∀ image tileWidth tileHeight,
        (t.setStaticTileSetInt image tileWidth tileHeight).1 = none →
        if frameCount image tileWidth tileHeight + 1 ≥ t.numberOfTiles then
          (t.setStaticTileSetInt image tileWidth tileHeight).2.cellMatrix = t.cellMatrix ∧
            (t.setStaticTileSetInt image tileWidth tileHeight).2.animToStatic = t.animToStatic
        else
          (∀ r c, (t.setStaticTileSetInt image tileWidth tileHeight).2.cellMatrix r c = 0) ∧
            (t.setStaticTileSetInt image tileWidth tileHeight).2.animToStatic = none) ∧
      ∀ (Canvas : Type) (g : Graphics Canvas) (canvas : Canvas),
        g.drawsInto t.sourceImage = false →
        (∃ canvas', t.paint g canvas = .ok canvas') ∧
          (t.visible = true → t.CoordinatesFit g →
            t.paint g canvas = t.paintAll g canvas ∧
              (t.NoEmptyAnimation → t.paint g canvas = .ok (t.layerShown g canvas))) := by
  have hpaintable := h.paintable
  refine ⟨⟨hpaintable.valid.cells, hpaintable.valid.table⟩,
    fun image tileWidth tileHeight hs => setStaticTileSetInt_keeps hs, ?_⟩
  intro Canvas g canvas hown
  constructor
  · unfold paint
    split
    · exact hpaintable.paintCells hown ⟨startIndex_nonneg _ _ _, endIndex_le _ _ _ _⟩
        ⟨startIndex_nonneg _ _ _, endIndex_le _ _ _ _⟩ canvas
    · exact ⟨canvas, rfl⟩
  · intro hvisible hfit
    rw [hpaintable.paint_eq hown hfit hvisible]
    exact ⟨rfl, fun hempty => hpaintable.paintAll_eq hown hfit hempty canvas⟩

/-- An image of one pixel. -/
def onePixel : Image where
  width := 1
  height := 1
  argb _ _ := 0xff000000
  width_pos := Int.one_pos
  height_pos := Int.one_pos

/-- A layer of one cell. -/
def oneCell : TiledLayer :=
  ({ x := 0, y := 0, width := 1, height := 1, visible := true, cellHeight := 0, cellWidth := 0,
     rows := 1, columns := 1, cellMatrix := fun _ _ => 0, sourceImage := onePixel, numberOfTiles := 0,
     tileSetX := [], tileSetY := [], animToStatic := none, numOfAnimTiles := 0 } :
    TiledLayer).createStaticSet onePixel 2 1 1 true

theorem oneCell_run {allowed : TiledLayer → Call → Prop} : Run allowed oneCell :=
  .new (show newInt 1 1 onePixel 1 1 = .ok oneCell from rfl)

/-- A canvas that counts what is drawn inside the clip of one point. -/
def onePoint : Graphics Nat where
  clipX := 0
  clipY := 0
  clipWidth := 1
  clipHeight := 1
  drawsInto _ := false
  render _ _ _ width height x_dest y_dest canvas :=
    if x_dest + width ≤ 0 ∨ 0 + 1 ≤ x_dest ∨ y_dest + height ≤ 0 ∨ 0 + 1 ≤ y_dest then canvas
    else canvas + 1
  render_outside _ _ _ _ _ _ _ _ h := if_pos h

/-- The tile is drawn. -/
theorem oneCell_sound : ∃ t, Run AvoidsSmallest t ∧ t.cellMatrix 0 0 = 1 ∧
    ∃ canvas', t.paint onePoint 0 = .ok canvas' := by
  have hrun : Run AvoidsSmallest (oneCell.execInt (.setCell 0 0 1)) :=
    oneCell_run.exec _ ⟨by unfold IsInt; omega, by unfold IsInt; omega, by unfold IsInt; omega⟩
      (.inl (by decide))
  exact ⟨_, hrun, rfl, ((tiledLayer_sound hrun).2.2 Nat onePoint 0 rfl).1⟩

/-- With an animated tile, the smallest `int` is stored in a cell; then `paint` throws. -/
theorem smallest_index_stored : ¬ ∀ t, Run (fun _ _ => True) t →
    (∀ r c, t.RefersToTile (t.cellMatrix r c)) ∧
      ∀ (Canvas : Type) (g : Graphics Canvas) (canvas : Canvas), g.drawsInto t.sourceImage = false →
        ∃ canvas', t.paint g canvas = .ok canvas' := by
  intro hall
  have hrun : Run (fun _ _ => True)
      ((oneCell.execInt (.createAnimatedTile 1)).execInt (.setCell 0 0 (-2147483648))) :=
    (oneCell_run.exec _ (by unfold Call.Ints IsInt; omega) trivial).exec _
      ⟨by unfold IsInt; omega, by unfold IsInt; omega, by unfold IsInt; omega⟩ trivial
  obtain ⟨canvas', hpaint⟩ := (hall _ hrun).2 Nat onePoint 0 rfl
  have hthrows : ((oneCell.execInt (.createAnimatedTile 1)).execInt
      (.setCell 0 0 (-2147483648))).paint onePoint 0 = .error .indexOutOfBounds := rfl
  rw [hthrows] at hpaint
  cases hpaint

end TiledLayer

end FroggyKVM.Game
