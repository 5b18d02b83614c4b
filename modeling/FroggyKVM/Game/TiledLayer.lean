/-
# FroggyKVM.Game.TiledLayer — tiled layers, their public operations, and what every layer keeps.

A layer is a matrix of cells; a cell is 0 for nothing, a positive index of a static tile, or a
negative index of an animated tile, which a table resolves to a static one.  Every operation keeps
the positive indices below the number of tiles and each tile inside the source image
(`Reachable.ok`).
-/
import FroggyKVM.Lib.MachineInt
import FroggyKVM.Game.Sprite

namespace FroggyKVM.Game

/-- The fields of `Layer` and of `TiledLayer`; a cell is found by its row and its column. -/
structure TiledLayer where
  x : Int
  y : Int
  width : Int
  height : Int
  visible : Bool
  cellHeight : Int
  cellWidth : Int
  rows : Int
  columns : Int
  cellMatrix : Int → Int → Int
  sourceImage : Image
  numberOfTiles : Int
  tileSetX : List Int
  tileSetY : List Int
  animToStatic : Option (List Int)
  numOfAnimTiles : Int

namespace TiledLayer

/-- `createStaticSet`: without `maintainIndices` the cells are emptied and the animated tiles
deleted.  Tile 0 is the transparent one. -/
def createStaticSet (t : TiledLayer) (image : Image) (noOfFrames tileWidth tileHeight : Int)
    (maintainIndices : Bool) : TiledLayer :=
  let origins := frameOrigins image tileWidth tileHeight
  { t with
    cellWidth := tileWidth
    cellHeight := tileHeight
    sourceImage := image
    numberOfTiles := noOfFrames
    tileSetX := 0 :: origins.map Prod.fst
    tileSetY := 0 :: origins.map Prod.snd
    cellMatrix := if maintainIndices then t.cellMatrix else fun _ _ => 0
    animToStatic := if maintainIndices then t.animToStatic else none }

/-- `TiledLayer(int, int, Image, int, int)`. -/
def new (columns rows : Int) (image : Image) (tileWidth tileHeight : Int) :
    Except Throwable TiledLayer :=
  if (columns < 1 ∨ tileWidth < 1) ∨ rows < 1 ∨ tileHeight < 1 then .error .illegalArgument
  else if ¬ Cuts image tileWidth tileHeight then .error .illegalArgument
  else
    .ok (createStaticSet
      { x := 0, y := 0, width := columns * tileWidth, height := rows * tileHeight, visible := true,
        cellHeight := 0, cellWidth := 0, rows := rows, columns := columns, cellMatrix := fun _ _ => 0,
        sourceImage := image, numberOfTiles := 0, tileSetX := [], tileSetY := [],
        animToStatic := none, numOfAnimTiles := 0 }
      image (frameCount image tileWidth tileHeight + 1) tileWidth tileHeight true)

/-- `createAnimatedTile`: the table starts with four entries and doubles when it is full. -/
def createAnimatedTile (t : TiledLayer) (staticTileIndex : Int) :
    Except Throwable (TiledLayer × Int) :=
  if staticTileIndex < 0 ∨ staticTileIndex ≥ t.numberOfTiles then .error .indexOutOfBounds
  else
    let (table, number) :=
      match t.animToStatic with
      | none => (List.replicate 4 0, 1)
      | some table =>
        (if t.numOfAnimTiles = table.length then table ++ List.replicate table.length 0 else table,
          t.numOfAnimTiles)
    .ok ({ t with
      animToStatic := some (table.set number.toNat staticTileIndex)
      numOfAnimTiles := number + 1 }, -number)

/-- `setAnimatedTile`. -/
def setAnimatedTile (t : TiledLayer) (animatedTileIndex staticTileIndex : Int) :
    Except Throwable TiledLayer :=
  if staticTileIndex < 0 ∨ staticTileIndex ≥ t.numberOfTiles then .error .indexOutOfBounds
  else
    let animatedTileIndex := i32 (-animatedTileIndex)
    match t.animToStatic with
    | none => .error .indexOutOfBounds
    | some table =>
      if animatedTileIndex ≤ 0 ∨ animatedTileIndex ≥ t.numOfAnimTiles then
        .error .indexOutOfBounds
      else .ok { t with animToStatic := some (table.set animatedTileIndex.toNat staticTileIndex) }

/-- `getAnimatedTile`. -/
def getAnimatedTile (t : TiledLayer) (animatedTileIndex : Int) : Except Throwable Int :=
  let animatedTileIndex := i32 (-animatedTileIndex)
  match t.animToStatic with
  | none => .error .indexOutOfBounds
  | some table =>
    if animatedTileIndex ≤ 0 ∨ animatedTileIndex ≥ t.numOfAnimTiles then .error .indexOutOfBounds
    else readArray table animatedTileIndex

/-- The check of `setCell` and `fillCells` on a tile index.  The negation of the smallest integer is
itself, so that index passes. -/
def acceptsTile (t : TiledLayer) (tileIndex : Int) : Bool :=
  if tileIndex > 0 then tileIndex < t.numberOfTiles
  else if tileIndex < 0 then t.animToStatic.isSome && i32 (-tileIndex) < t.numOfAnimTiles
  else true

/-- The bounds check of `setCell`, `getCell` and `fillCells`. -/
def HasCell (t : TiledLayer) (col row : Int) : Prop :=
  ¬ (col < 0 ∨ col ≥ t.columns ∨ row < 0 ∨ row ≥ t.rows)

instance (t : TiledLayer) (col row : Int) : Decidable (t.HasCell col row) :=
  inferInstanceAs (Decidable (¬ _))

/-- `setCell`. -/
def setCell (t : TiledLayer) (col row tileIndex : Int) : Except Throwable TiledLayer :=
  if ¬ t.HasCell col row then .error .indexOutOfBounds
  else if ¬ t.acceptsTile tileIndex then .error .indexOutOfBounds
  else
    .ok { t with
      cellMatrix := fun r c => if r = row ∧ c = col then tileIndex else t.cellMatrix r c }

/-- `getCell`. -/
def getCell (t : TiledLayer) (col row : Int) : Except Throwable Int :=
  if ¬ t.HasCell col row then .error .indexOutOfBounds else .ok (t.cellMatrix row col)

/-- `fillCells`: sums that wrap pass the bounds check, and then nothing is filled. -/
def fillCells (t : TiledLayer) (col row numCols numRows tileIndex : Int) :
    Except Throwable TiledLayer :=
  if numCols < 0 ∨ numRows < 0 then .error .illegalArgument
  else if ¬ t.HasCell col row ∨ i32 (col + numCols) > t.columns ∨ i32 (row + numRows) > t.rows then
    .error .indexOutOfBounds
  else if ¬ t.acceptsTile tileIndex then .error .indexOutOfBounds
  else
    .ok { t with
      cellMatrix := fun r c =>
        if (row ≤ r ∧ r < i32 (row + numRows)) ∧ col ≤ c ∧ c < i32 (col + numCols) then tileIndex
        else t.cellMatrix r c }

/-- `setStaticTileSet`: with at least as many tiles as before the cells stay. -/
def setStaticTileSet (t : TiledLayer) (image : Image) (tileWidth tileHeight : Int) :
    Except Throwable TiledLayer :=
  if ¬ Cuts image tileWidth tileHeight then .error .illegalArgument
  else
    let noOfFrames := frameCount image tileWidth tileHeight
    let t' := { t with width := t.columns * tileWidth, height := t.rows * tileHeight }
    .ok (t'.createStaticSet image (noOfFrames + 1) tileWidth tileHeight
      (noOfFrames ≥ t.numberOfTiles - 1))

/-! ## What every operation keeps -/

/-- **The invariant of layers**: the size is that of the cells, every tile lies inside the source
image, and no cell holds a static index past the last tile. -/
structure Ok (t : TiledLayer) : Prop where
  cells : 0 < t.columns ∧ 0 < t.rows
  tile : 0 < t.cellWidth ∧ 0 < t.cellHeight
  size : t.width = t.columns * t.cellWidth ∧ t.height = t.rows * t.cellHeight
  tiles : 0 < t.numberOfTiles
  coords : (t.tileSetX.length : Int) = t.numberOfTiles ∧
    (t.tileSetY.length : Int) = t.numberOfTiles
  inside : ∀ i : Nat, 0 < i → i < t.tileSetX.length →
    FrameInside t.sourceImage t.cellWidth t.cellHeight (t.tileSetX.getD i 0) (t.tileSetY.getD i 0)
  indices : ∀ r c, t.cellMatrix r c < t.numberOfTiles

/-- A new tile set is sound, when the indices that stay are. -/
theorem createStaticSet_ok {t : TiledLayer} {image : Image} {tileWidth tileHeight : Int}
    {maintain : Bool} (h : Cuts image tileWidth tileHeight)
    (hcells : 0 < t.columns ∧ 0 < t.rows)
    (hsize : t.width = t.columns * tileWidth ∧ t.height = t.rows * tileHeight)
    (hkeep : maintain = true → ∀ r c, t.cellMatrix r c < frameCount image tileWidth tileHeight + 1) :
    (t.createStaticSet image (frameCount image tileWidth tileHeight + 1) tileWidth tileHeight
      maintain).Ok where
  cells := hcells
  tile := h.pos
  size := hsize
  tiles := by
    have hpos := h.count_pos
    simp only [createStaticSet]
    omega
  coords := by
    have hlen := h.length
    simp only [createStaticSet, List.length_cons, List.length_map]
    omega
  inside := by
    intro i hpos hi
    obtain ⟨i, rfl⟩ : ∃ j, i = j + 1 := ⟨i - 1, by omega⟩
    simp only [createStaticSet, List.length_cons, List.length_map, Nat.add_lt_add_iff_right] at hi
    have hmem := h.inside (List.getElem_mem hi)
    simpa [createStaticSet, List.getD_eq_getElem?_getD, List.getElem?_map,
      List.getElem?_eq_getElem hi] using hmem
  indices := by
    intro r c
    have hpos := h.count_pos
    simp only [createStaticSet]
    cases maintain with
    | true => simpa using hkeep rfl r c
    | false =>
      simp only [Bool.false_eq_true, if_false]
      omega

theorem new_ok {columns rows : Int} {image : Image} {tileWidth tileHeight : Int} {t : TiledLayer}
    (h : new columns rows image tileWidth tileHeight = .ok t) : t.Ok := by
  rw [new] at h
  split at h
  · cases h
  · split at h
    · cases h
    · rename_i hpos hcuts
      rw [not_not] at hcuts
      cases h
      have hcount := hcuts.count_pos
      have hcells : 0 < columns ∧ 0 < rows := by omega
      apply createStaticSet_ok hcuts
      · exact hcells
      · exact ⟨rfl, rfl⟩
      · intro _ r c
        dsimp only
        omega

theorem createAnimatedTile_ok {t t' : TiledLayer} (h : t.Ok) {staticTileIndex i : Int}
    (hs : t.createAnimatedTile staticTileIndex = .ok (t', i)) : t'.Ok := by
  rw [createAnimatedTile] at hs
  split at hs
  · cases hs
  · cases hs
    exact { h with }

theorem setAnimatedTile_ok {t t' : TiledLayer} (h : t.Ok) {animatedTileIndex staticTileIndex : Int}
    (hs : t.setAnimatedTile animatedTileIndex staticTileIndex = .ok t') : t'.Ok := by
  rw [setAnimatedTile] at hs
  split at hs
  · cases hs
  · dsimp only at hs
    split at hs
    · cases hs
    · split at hs
      · cases hs
      · cases hs
        exact { h with }

/-- An accepted index is below the number of tiles. -/
theorem Ok.acceptsTile_lt {t : TiledLayer} (h : t.Ok) {tileIndex : Int}
    (ha : ¬ ¬ t.acceptsTile tileIndex = true) : tileIndex < t.numberOfTiles := by
  have htiles := h.tiles
  rw [not_not, acceptsTile] at ha
  split at ha
  · simpa using ha
  · omega

theorem setCell_ok {t t' : TiledLayer} (h : t.Ok) {col row tileIndex : Int}
    (hs : t.setCell col row tileIndex = .ok t') : t'.Ok := by
  rw [setCell] at hs
  split at hs
  · cases hs
  · split at hs
    · cases hs
    · rename_i ha
      cases hs
      refine { h with indices := fun r c => ?_ }
      dsimp only
      split
      · exact h.acceptsTile_lt ha
      · exact h.indices r c

theorem fillCells_ok {t t' : TiledLayer} (h : t.Ok) {col row numCols numRows tileIndex : Int}
    (hs : t.fillCells col row numCols numRows tileIndex = .ok t') : t'.Ok := by
  rw [fillCells] at hs
  split at hs
  · cases hs
  · split at hs
    · cases hs
    · split at hs
      · cases hs
      · rename_i ha
        cases hs
        refine { h with indices := fun r c => ?_ }
        dsimp only
        split
        · exact h.acceptsTile_lt ha
        · exact h.indices r c

theorem setStaticTileSet_ok {t t' : TiledLayer} (h : t.Ok) {image : Image}
    {tileWidth tileHeight : Int} (hs : t.setStaticTileSet image tileWidth tileHeight = .ok t') :
    t'.Ok := by
  rw [setStaticTileSet] at hs
  split at hs
  · cases hs
  · rename_i hcuts
    rw [not_not] at hcuts
    cases hs
    apply createStaticSet_ok hcuts
    · exact h.cells
    · exact ⟨rfl, rfl⟩
    · intro hkeep r c
      have hold := h.indices r c
      rw [decide_eq_true_eq] at hkeep
      dsimp only
      omega

/-! ## Runs -/

/-- A call of a public operation, or a drawing into the source image. -/
inductive Call where
  | createAnimatedTile (staticTileIndex : Int)
  | setAnimatedTile (animatedTileIndex staticTileIndex : Int)
  | setCell (col row tileIndex : Int)
  | fillCells (col row numCols numRows tileIndex : Int)
  | setStaticTileSet (image : Image) (tileWidth tileHeight : Int)
  | setPosition (x y : Int)
  | move (dx dy : Int)
  | setVisible (visible : Bool)
  | draw (argb : Int → Int → BitVec 32)

/-- The layer after an operation that changes nothing when it throws. -/
def orUnchanged (t : TiledLayer) : Except Throwable TiledLayer → TiledLayer
  | .ok t' => t'
  | .error _ => t

/-- The layer a call leaves. -/
def exec (t : TiledLayer) : Call → TiledLayer
  | .createAnimatedTile staticTileIndex =>
    t.orUnchanged ((t.createAnimatedTile staticTileIndex).map Prod.fst)
  | .setAnimatedTile animatedTileIndex staticTileIndex =>
    t.orUnchanged (t.setAnimatedTile animatedTileIndex staticTileIndex)
  | .setCell col row tileIndex => t.orUnchanged (t.setCell col row tileIndex)
  | .fillCells col row numCols numRows tileIndex =>
    t.orUnchanged (t.fillCells col row numCols numRows tileIndex)
  | .setStaticTileSet image tileWidth tileHeight =>
    t.orUnchanged (t.setStaticTileSet image tileWidth tileHeight)
  | .setPosition x y => { t with x := x, y := y }
  | .move dx dy => { t with x := t.x + dx, y := t.y + dy }
  | .setVisible visible => { t with visible := visible }
  | .draw argb => { t with sourceImage := { t.sourceImage with argb := argb } }

/-- The layers a program can hold. -/
inductive Reachable : TiledLayer → Prop
  | new {columns rows : Int} {image : Image} {tileWidth tileHeight : Int} {t : TiledLayer}
      (h : new columns rows image tileWidth tileHeight = .ok t) : Reachable t
  | exec {t : TiledLayer} (ht : Reachable t) (call : Call) : Reachable (t.exec call)

theorem orUnchanged_ok {t : TiledLayer} {r : Except Throwable TiledLayer} (h : t.Ok)
    (hr : ∀ t', r = .ok t' → t'.Ok) : (t.orUnchanged r).Ok := by
  cases r with
  | ok t' => exact hr t' rfl
  | error e => exact h

/-- **Every call keeps the invariant.** -/
theorem exec_ok {t : TiledLayer} (h : t.Ok) (call : Call) : (t.exec call).Ok := by
  cases call with
  | createAnimatedTile staticTileIndex =>
    apply orUnchanged_ok h
    intro t' ht
    cases hs : t.createAnimatedTile staticTileIndex with
    | ok r =>
      rw [hs] at ht
      cases ht
      exact createAnimatedTile_ok h hs
    | error e =>
      rw [hs] at ht
      cases ht
  | setAnimatedTile animatedTileIndex staticTileIndex =>
    exact orUnchanged_ok h fun _ hs => setAnimatedTile_ok h hs
  | setCell col row tileIndex => exact orUnchanged_ok h fun _ hs => setCell_ok h hs
  | fillCells col row numCols numRows tileIndex =>
    exact orUnchanged_ok h fun _ hs => fillCells_ok h hs
  | setStaticTileSet image tileWidth tileHeight =>
    exact orUnchanged_ok h fun _ hs => setStaticTileSet_ok h hs
  | setPosition x y => exact { h with }
  | move dx dy => exact { h with }
  | setVisible visible => exact { h with }
  | draw argb => exact { h with }

/-- **Every reachable layer keeps the invariant.** -/
theorem Reachable.ok {t : TiledLayer} (h : Reachable t) : t.Ok := by
  induction h with
  | new h => exact new_ok h
  | exec _ call ih => exact exec_ok ih call

/-! ## What a layer draws -/

/-- The static tile a cell shows; 0 is the transparent tile. -/
def shownTile (t : TiledLayer) (row col : Int) : Int :=
  if t.cellMatrix row col < 0 then
    match t.getAnimatedTile (t.cellMatrix row col) with
    | .ok staticTileIndex => staticTileIndex
    | .error _ => 0
  else t.cellMatrix row col

/-- The opaque points of a layer. -/
def drawn (t : TiledLayer) : Raster Prop where
  width := t.width
  height := t.height
  pixel u v :=
    let tile := t.shownTile (v / t.cellHeight) (u / t.cellWidth)
    tile ≠ 0 ∧ t.sourceImage.OpaqueAt (t.tileSetX.getD tile.toNat 0 + u % t.cellWidth)
      (t.tileSetY.getD tile.toNat 0 + v % t.cellHeight)

end TiledLayer

end FroggyKVM.Game
