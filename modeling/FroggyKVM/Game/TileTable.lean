/-
# FroggyKVM.Game.TileTable — the cells of a tiled layer, and the tiles they refer to.

The products of the constructor and of `setStaticTileSet` are `int`s here, and so is every argument
of a call.  Apart from the size of the layer, such a run is one of `TiledLayer.Reachable`; what it
adds is that every cell and every animated tile refers to a tile that exists (`Run.valid`).  The
smallest `int` is the one tile index that gets past the check of `setCell` and `fillCells` though
there is no such tile.
-/
import FroggyKVM.Game.TiledLayer

namespace FroggyKVM.Game

/-- A Java `int`. -/
def IsInt (x : Int) : Prop := -2147483648 ≤ x ∧ x < 2147483648

theorem IsInt.i32_eq {x : Int} (h : IsInt x) : i32 x = x := i32_of_range h

namespace TiledLayer

/-! ## Sizes that wrap -/

/-- The layer with the size of its cells. -/
def sized (t : TiledLayer) : TiledLayer :=
  { t with width := t.columns * t.cellWidth, height := t.rows * t.cellHeight }

/-- `TiledLayer(int, int, Image, int, int)`: `Layer` refuses a negative size. -/
def newInt (columns rows : Int) (image : Image) (tileWidth tileHeight : Int) :
    Except Throwable TiledLayer :=
  if i32 (columns * tileWidth) < 0 ∨ i32 (rows * tileHeight) < 0 then .error .illegalArgument
  else
    (new columns rows image tileWidth tileHeight).map fun t =>
      { t with width := i32 (columns * tileWidth), height := i32 (rows * tileHeight) }

/-- `setStaticTileSet`: the exception, if there is one, and the layer.  The width is set before the
height is refused. -/
def setStaticTileSetInt (t : TiledLayer) (image : Image) (tileWidth tileHeight : Int) :
    Option Throwable × TiledLayer :=
  let width := i32 (t.columns * tileWidth)
  let height := i32 (t.rows * tileHeight)
  if ¬ Cuts image tileWidth tileHeight then (some .illegalArgument, t)
  else if width < 0 then (some .illegalArgument, t)
  else if height < 0 then (some .illegalArgument, { t with width := width })
  else
    let noOfFrames := frameCount image tileWidth tileHeight
    (none, { t with width := width, height := height }.createStaticSet image (noOfFrames + 1)
      tileWidth tileHeight (noOfFrames ≥ t.numberOfTiles - 1))

/-- What `setStaticTileSet` does: it throws and changes nothing but the width, or it takes the new
set. -/
theorem setStaticTileSetInt_cases (t : TiledLayer) (image : Image) (tileWidth tileHeight : Int) :
    (∃ width, t.setStaticTileSetInt image tileWidth tileHeight =
      (some .illegalArgument, { t with width := width })) ∨
    Cuts image tileWidth tileHeight ∧ ∃ width height,
      t.setStaticTileSetInt image tileWidth tileHeight =
        (none, { t with width := width, height := height }.createStaticSet image
          (frameCount image tileWidth tileHeight + 1) tileWidth tileHeight
          (frameCount image tileWidth tileHeight ≥ t.numberOfTiles - 1)) := by
  unfold setStaticTileSetInt
  dsimp only
  by_cases hcuts : Cuts image tileWidth tileHeight
  · rw [if_neg (not_not.2 hcuts)]
    split
    · exact .inl ⟨t.width, rfl⟩
    · split
      · exact .inl ⟨_, rfl⟩
      · exact .inr ⟨hcuts, _, _, rfl⟩
  · rw [if_pos hcuts]
    exact .inl ⟨t.width, rfl⟩

/-- The layer a call leaves. -/
def execInt (t : TiledLayer) : Call → TiledLayer
  | .setStaticTileSet image tileWidth tileHeight =>
    (t.setStaticTileSetInt image tileWidth tileHeight).2
  | .setPosition x y => t.exec (.setPosition x y)
  | .move dx dy => t.exec (.setPosition (i32 (t.x + dx)) (i32 (t.y + dy)))
  | call => t.exec call

section Sized
variable {t t' : TiledLayer} {col row numCols numRows tileIndex animatedTileIndex : Int}

theorem sized_createAnimatedTile : t.sized.createAnimatedTile tileIndex =
    (t.createAnimatedTile tileIndex).map fun r => (r.1.sized, r.2) := by
  unfold createAnimatedTile
  by_cases h : tileIndex < 0 ∨ tileIndex ≥ t.numberOfTiles
  · rw [if_pos h]
    exact if_pos h
  · rw [if_neg h]
    exact if_neg h

theorem sized_setAnimatedTile : t.sized.setAnimatedTile animatedTileIndex tileIndex =
    (t.setAnimatedTile animatedTileIndex tileIndex).map sized := by
  unfold setAnimatedTile
  rw [apply_ite (Except.map sized)]
  dsimp only [sized]
  cases t.animToStatic with
  | none => rfl
  | some table =>
    dsimp only
    rw [apply_ite (Except.map sized)]
    rfl

theorem sized_setCell :
    t.sized.setCell col row tileIndex = (t.setCell col row tileIndex).map sized := by
  unfold setCell
  rw [apply_ite (Except.map sized), apply_ite (Except.map sized)]
  rfl

theorem sized_fillCells : t.sized.fillCells col row numCols numRows tileIndex =
    (t.fillCells col row numCols numRows tileIndex).map sized := by
  unfold fillCells
  rw [apply_ite (Except.map sized), apply_ite (Except.map sized), apply_ite (Except.map sized)]
  rfl

theorem sized_orUnchanged {r : Except Throwable TiledLayer} :
    (t.orUnchanged r).sized = t.sized.orUnchanged (r.map sized) := by
  cases r with
  | ok t' => rfl
  | error e => rfl

/-- **An `int` call is a call on the layer with the size of its cells**, or changes nothing but the
size. -/
theorem sized_execInt (t : TiledLayer) (call : Call) :
    (t.execInt call).sized = t.sized ∨ ∃ call', (t.execInt call).sized = t.sized.exec call' := by
  cases call with
  | createAnimatedTile staticTileIndex =>
    refine .inr ⟨.createAnimatedTile staticTileIndex, sized_orUnchanged.trans ?_⟩
    unfold exec
    dsimp only
    rw [sized_createAnimatedTile]
    cases t.createAnimatedTile staticTileIndex <;> rfl
  | setAnimatedTile animatedTileIndex staticTileIndex =>
    refine .inr ⟨.setAnimatedTile animatedTileIndex staticTileIndex, sized_orUnchanged.trans ?_⟩
    rw [← sized_setAnimatedTile]
    rfl
  | setCell col row tileIndex =>
    refine .inr ⟨.setCell col row tileIndex, sized_orUnchanged.trans ?_⟩
    rw [← sized_setCell]
    rfl
  | fillCells col row numCols numRows tileIndex =>
    refine .inr ⟨.fillCells col row numCols numRows tileIndex, sized_orUnchanged.trans ?_⟩
    rw [← sized_fillCells]
    rfl
  | setStaticTileSet image tileWidth tileHeight =>
    unfold execInt
    dsimp only
    rcases t.setStaticTileSetInt_cases image tileWidth tileHeight with ⟨w, heq⟩ | ⟨hcuts, w, h, heq⟩
    · rw [heq]
      exact .inl rfl
    · refine .inr ⟨.setStaticTileSet image tileWidth tileHeight, ?_⟩
      rw [heq]
      unfold exec setStaticTileSet
      dsimp only
      rw [if_neg (not_not.2 hcuts)]
      rfl
  | setPosition x y => exact .inr ⟨.setPosition x y, rfl⟩
  | move dx dy => exact .inr ⟨.setPosition _ _, rfl⟩
  | setVisible visible => exact .inr ⟨.setVisible visible, rfl⟩
  | draw argb => exact .inr ⟨.draw argb, rfl⟩

end Sized

/-! ## Runs -/

/-- Every argument is an `int`. -/
def Call.Ints : Call → Prop
  | .createAnimatedTile staticTileIndex => IsInt staticTileIndex
  | .setAnimatedTile animatedTileIndex staticTileIndex =>
    IsInt animatedTileIndex ∧ IsInt staticTileIndex
  | .setCell col row tileIndex => IsInt col ∧ IsInt row ∧ IsInt tileIndex
  | .fillCells col row numCols numRows tileIndex =>
    IsInt col ∧ IsInt row ∧ IsInt numCols ∧ IsInt numRows ∧ IsInt tileIndex
  | .setStaticTileSet _ tileWidth tileHeight => IsInt tileWidth ∧ IsInt tileHeight
  | .setPosition x y => IsInt x ∧ IsInt y
  | .move dx dy => IsInt dx ∧ IsInt dy
  | .setVisible _ => True
  | .draw _ => True

/-- The layers that calls with `int` arguments lead to, where `allowed` holds of every call and of the
layer it is made on. -/
inductive Run (allowed : TiledLayer → Call → Prop) : TiledLayer → Prop
  | new {columns rows : Int} {image : Image} {tileWidth tileHeight : Int} {t : TiledLayer}
      (h : newInt columns rows image tileWidth tileHeight = .ok t) : Run allowed t
  | exec {t : TiledLayer} (ht : Run allowed t) (call : Call) (hints : call.Ints)
      (hallowed : allowed t call) : Run allowed (t.execInt call)

/-- A layer that was made has the size of its cells, or would have it if nothing wrapped. -/
theorem newInt_sized {columns rows : Int} {image : Image} {tileWidth tileHeight : Int}
    {t : TiledLayer} (h : newInt columns rows image tileWidth tileHeight = .ok t) :
    new columns rows image tileWidth tileHeight = .ok t.sized := by
  unfold newInt at h
  split at h
  · cases h
  · cases hnew : new columns rows image tileWidth tileHeight with
    | error e =>
      rw [hnew] at h
      cases h
    | ok t₀ =>
      rw [hnew] at h
      cases h
      obtain ⟨hwidth, hheight⟩ := (new_ok hnew).size
      cases t₀
      simp only at hwidth hheight
      subst hwidth hheight
      rfl

theorem Run.reachable {allowed : TiledLayer → Call → Prop} {t : TiledLayer} (h : Run allowed t) :
    Reachable t.sized := by
  induction h with
  | new h => exact .new (newInt_sized h)
  | exec _ call _ _ ih =>
    rcases sized_execInt _ call with heq | ⟨call', heq⟩
    · rw [heq]
      exact ih
    · rw [heq]
      exact .exec ih call'

/-! ## Tiles that exist -/

/-- `i` is the number of an animated tile. -/
def HasAnimatedTile (t : TiledLayer) (i : Int) : Prop :=
  t.animToStatic.isSome = true ∧ 0 < i ∧ i < t.numOfAnimTiles

/-- The index of a cell: nothing, a static tile, or an animated one. -/
def RefersToTile (t : TiledLayer) (index : Int) : Prop :=
  index = 0 ∨ (0 < index ∧ index < t.numberOfTiles) ∨ t.HasAnimatedTile (-index)

/-- The table of the animated tiles is large enough, and each of them shows a static tile or none. -/
def ValidTable (t : TiledLayer) (table : List Int) : Prop :=
  (0 < t.numOfAnimTiles ∧ t.numOfAnimTiles ≤ table.length) ∧
    ∀ i, 0 < i → i < t.numOfAnimTiles →
      0 ≤ table.getD i.toNat 0 ∧ table.getD i.toNat 0 < t.numberOfTiles

/-- **Every cell and every animated tile refers to a tile that exists.** -/
structure Valid (t : TiledLayer) : Prop where
  cells : ∀ r c, t.RefersToTile (t.cellMatrix r c)
  ints : ∀ r c, -2147483648 < t.cellMatrix r c
  table : ∀ table, t.animToStatic = some table → t.ValidTable table

/-- The tile index of a call is not the smallest `int`, unless there are no animated tiles. -/
def AvoidsSmallest (t : TiledLayer) : Call → Prop
  | .setCell _ _ tileIndex => tileIndex ≠ -2147483648 ∨ t.animToStatic = none
  | .fillCells _ _ _ _ tileIndex => tileIndex ≠ -2147483648 ∨ t.animToStatic = none
  | _ => True

section Valid
variable {t t' : TiledLayer}

/-- A layer with more tiles still has those that are referred to. -/
theorem RefersToTile.mono {index : Int} (h : t.RefersToTile index)
    (htiles : t.numberOfTiles ≤ t'.numberOfTiles)
    (hanim : t.animToStatic.isSome = true →
      t'.animToStatic.isSome = true ∧ t.numOfAnimTiles ≤ t'.numOfAnimTiles) :
    t'.RefersToTile index := by
  rcases h with hzero | ⟨hpos, hlt⟩ | ⟨hsome, hpos, hlt⟩
  · exact .inl hzero
  · exact .inr (.inl ⟨hpos, hlt.trans_le htiles⟩)
  · obtain ⟨hsome', hle⟩ := hanim hsome
    exact .inr (.inr ⟨hsome', hpos, hlt.trans_le hle⟩)

/-- An index that passes the check refers to a tile, but for the smallest `int`. -/
theorem acceptsTile_refers {tileIndex : Int} (hint : IsInt tileIndex)
    (havoid : tileIndex ≠ -2147483648 ∨ t.animToStatic = none)
    (ha : t.acceptsTile tileIndex = true) :
    t.RefersToTile tileIndex ∧ -2147483648 < tileIndex := by
  unfold acceptsTile at ha
  obtain ⟨hmin, hmax⟩ := hint
  split at ha
  · next hpos => exact ⟨.inr (.inl ⟨hpos, by simpa using ha⟩), by omega⟩
  · split at ha
    · next hneg =>
      rw [Bool.and_eq_true, decide_eq_true_eq] at ha
      have hne : tileIndex ≠ -2147483648 := havoid.resolve_right fun hnone => by
        rw [hnone] at ha
        cases ha.1
      rw [i32_of_range (by omega)] at ha
      exact ⟨.inr (.inr ⟨ha.1, by omega, ha.2⟩), by omega⟩
    · exact ⟨.inl (by omega), by omega⟩

/-- Cells that are filled with an accepted index. -/
theorem Valid.fill (h : t.Valid) {tileIndex : Int} (htile : t.RefersToTile tileIndex)
    (hint : -2147483648 < tileIndex) {cells : Int → Int → Int}
    (hcells : ∀ r c, cells r c = tileIndex ∨ cells r c = t.cellMatrix r c) :
    ({ t with cellMatrix := cells } : TiledLayer).Valid := by
  refine ⟨fun r c => ?_, fun r c => ?_, h.table⟩
  · dsimp only
    rcases hcells r c with heq | heq <;> rw [heq]
    · exact htile
    · exact h.cells r c
  · dsimp only
    rcases hcells r c with heq | heq <;> rw [heq]
    · exact hint
    · exact h.ints r c

theorem setCell_valid (h : t.Valid) {col row tileIndex : Int} (hint : IsInt tileIndex)
    (havoid : tileIndex ≠ -2147483648 ∨ t.animToStatic = none)
    (hs : t.setCell col row tileIndex = .ok t') : t'.Valid := by
  unfold setCell at hs
  split at hs
  · cases hs
  · split at hs
    · cases hs
    · next ha =>
      cases hs
      obtain ⟨htile, hmin⟩ := acceptsTile_refers hint havoid (not_not.1 ha)
      apply h.fill htile hmin
      intro r c
      split
      · exact .inl rfl
      · exact .inr rfl

theorem fillCells_valid (h : t.Valid) {col row numCols numRows tileIndex : Int}
    (hint : IsInt tileIndex) (havoid : tileIndex ≠ -2147483648 ∨ t.animToStatic = none)
    (hs : t.fillCells col row numCols numRows tileIndex = .ok t') : t'.Valid := by
  unfold fillCells at hs
  split at hs
  · cases hs
  · split at hs
    · cases hs
    · split at hs
      · cases hs
      · next ha =>
        cases hs
        obtain ⟨htile, hmin⟩ := acceptsTile_refers hint havoid (not_not.1 ha)
        apply h.fill htile hmin
        intro r c
        split
        · exact .inl rfl
        · exact .inr rfl

/-- An entry of a table after one of them was set. -/
theorem getD_set {table : List Int} {i j v : Int} (hi : 0 ≤ i) (hj : 0 ≤ j)
    (hlt : i < table.length) :
    (table.set i.toNat v).getD j.toNat 0 = if j = i then v else table.getD j.toNat 0 := by
  rw [List.getD_eq_getElem?_getD, List.getElem?_set, List.getD_eq_getElem?_getD]
  by_cases hij : j = i
  · rw [if_pos hij, if_pos (by rw [hij]), if_pos (by omega)]
    rfl
  · rw [if_neg hij, if_neg (by omega)]

theorem setAnimatedTile_valid (h : t.Valid) {animatedTileIndex staticTileIndex : Int}
    (hs : t.setAnimatedTile animatedTileIndex staticTileIndex = .ok t') : t'.Valid := by
  unfold setAnimatedTile at hs
  split at hs
  · cases hs
  · next hstatic =>
    dsimp only at hs
    split at hs
    · cases hs
    · next table htable =>
      split at hs
      · cases hs
      · next hindex =>
        cases hs
        obtain ⟨⟨hpos, hle⟩, hentries⟩ := h.table table htable
        refine ⟨fun r c => ?_, h.ints, ?_⟩
        · exact (h.cells r c).mono (le_refl _) fun _ => ⟨rfl, le_refl _⟩
        · rintro _ ⟨⟩
          refine ⟨⟨hpos, by rw [List.length_set]; exact hle⟩, fun i hi hlt => ?_⟩
          rw [getD_set (by omega) (by omega) (by omega)]
          split
          · dsimp only
            omega
          · exact hentries i hi hlt

/-- A table with one more entry. -/
theorem Valid.addAnimated (h : t.Valid) {table : List Int} {number staticTileIndex : Int}
    (hstatic : 0 ≤ staticTileIndex ∧ staticTileIndex < t.numberOfTiles)
    (hnumber : 0 < number ∧ number < table.length)
    (hentries : ∀ i, 0 < i → i < number →
      0 ≤ table.getD i.toNat 0 ∧ table.getD i.toNat 0 < t.numberOfTiles)
    (hmore : t.animToStatic.isSome = true → t.numOfAnimTiles ≤ number + 1) :
    ({ t with
      animToStatic := some (table.set number.toNat staticTileIndex)
      numOfAnimTiles := number + 1 } : TiledLayer).Valid := by
  refine ⟨fun r c => ?_, h.ints, ?_⟩
  · exact (h.cells r c).mono (le_refl _) fun hsome => ⟨rfl, hmore hsome⟩
  · rintro _ ⟨⟩
    refine ⟨⟨by dsimp only; omega, by rw [List.length_set]; dsimp only; omega⟩, fun i hi hlt => ?_⟩
    dsimp only at hlt ⊢
    rw [getD_set (by omega) (by omega) hnumber.2]
    split
    · exact hstatic
    · exact hentries i hi (by omega)

theorem createAnimatedTile_valid (h : t.Valid) {staticTileIndex i : Int}
    (hs : t.createAnimatedTile staticTileIndex = .ok (t', i)) : t'.Valid := by
  unfold createAnimatedTile at hs
  split at hs
  · cases hs
  · next hstatic =>
    cases htable : t.animToStatic with
    | none =>
      simp only [htable] at hs
      cases hs
      apply h.addAnimated (by omega) ⟨Int.one_pos, by decide⟩
      · intro i hi hlt
        omega
      · intro hsome
        rw [htable] at hsome
        cases hsome
    | some table =>
      simp only [htable] at hs
      cases hs
      obtain ⟨⟨hpos, hle⟩, hentries⟩ := h.table table htable
      apply h.addAnimated (by omega) _ _ fun _ => by omega
      · refine ⟨hpos, ?_⟩
        split
        · rw [List.length_append, List.length_replicate]
          omega
        · omega
      · intro i hi hlt
        -- the entries so far are those of the old table
        have hold : (if t.numOfAnimTiles = table.length then
            table ++ List.replicate table.length 0 else table).getD i.toNat 0 =
              table.getD i.toNat 0 := by
          split
          · rw [List.getD_eq_getElem?_getD, List.getElem?_append_left (by omega),
              List.getD_eq_getElem?_getD]
          · rfl
        rw [hold]
        exact hentries i hi hlt

/-- **A new set keeps all cells and animated tiles, or none of them.** -/
theorem setStaticTileSetInt_keeps {image : Image} {tileWidth tileHeight : Int}
    (hs : (t.setStaticTileSetInt image tileWidth tileHeight).1 = none) :
    if frameCount image tileWidth tileHeight + 1 ≥ t.numberOfTiles then
      (t.setStaticTileSetInt image tileWidth tileHeight).2.cellMatrix = t.cellMatrix ∧
        (t.setStaticTileSetInt image tileWidth tileHeight).2.animToStatic = t.animToStatic
    else
      (∀ r c, (t.setStaticTileSetInt image tileWidth tileHeight).2.cellMatrix r c = 0) ∧
        (t.setStaticTileSetInt image tileWidth tileHeight).2.animToStatic = none := by
  rcases t.setStaticTileSetInt_cases image tileWidth tileHeight with ⟨w, heq⟩ | ⟨-, w, h, heq⟩
  · rw [heq] at hs
    cases hs
  · rw [heq]
    unfold createStaticSet
    dsimp only
    split
    · next hge =>
      rw [decide_eq_true (by omega), if_pos rfl, if_pos rfl]
      exact ⟨rfl, rfl⟩
    · next hlt =>
      rw [decide_eq_false (by omega), if_neg Bool.false_ne_true, if_neg Bool.false_ne_true]
      exact ⟨fun _ _ => rfl, rfl⟩

theorem setStaticTileSetInt_valid (h : t.Valid) (image : Image) (tileWidth tileHeight : Int) :
    (t.setStaticTileSetInt image tileWidth tileHeight).2.Valid := by
  have hkeeps := @setStaticTileSetInt_keeps t image tileWidth tileHeight
  rcases t.setStaticTileSetInt_cases image tileWidth tileHeight with ⟨w, heq⟩ | ⟨-, w, h', heq⟩
  · rw [heq]
    exact ⟨h.cells, h.ints, h.table⟩
  · rw [heq] at hkeeps ⊢
    have hkeeps := hkeeps rfl
    split at hkeeps
    · next hge =>
      obtain ⟨hcells, hanim⟩ := hkeeps
      refine ⟨fun r c => ?_, fun r c => ?_, fun table htable => ?_⟩
      · rw [hcells]
        exact (h.cells r c).mono hge fun hsome => ⟨by rw [hanim]; exact hsome, le_refl _⟩
      · rw [hcells]
        exact h.ints r c
      · rw [hanim] at htable
        obtain ⟨hsize, hentries⟩ := h.table table htable
        refine ⟨hsize, fun i hi hlt => ?_⟩
        obtain ⟨hnonneg, hbelow⟩ := hentries i hi hlt
        exact ⟨hnonneg, hbelow.trans_le hge⟩
    · obtain ⟨hcells, hanim⟩ := hkeeps
      refine ⟨fun r c => .inl (hcells r c), fun r c => by rw [hcells]; decide, fun table htable => ?_⟩
      rw [hanim] at htable
      cases htable

theorem orUnchanged_valid {r : Except Throwable TiledLayer} (h : t.Valid)
    (hr : ∀ t', r = .ok t' → t'.Valid) : (t.orUnchanged r).Valid := by
  cases r with
  | ok t' => exact hr t' rfl
  | error e => exact h

/-- **Every call that avoids the smallest `int` keeps the layer valid.** -/
theorem execInt_valid (h : t.Valid) (call : Call) (hints : call.Ints) (havoid : t.AvoidsSmallest call) :
    (t.execInt call).Valid := by
  cases call with
  | createAnimatedTile staticTileIndex =>
    apply orUnchanged_valid h
    intro t' ht
    cases hs : t.createAnimatedTile staticTileIndex with
    | ok r =>
      rw [hs] at ht
      cases ht
      exact createAnimatedTile_valid h hs
    | error e =>
      rw [hs] at ht
      cases ht
  | setAnimatedTile animatedTileIndex staticTileIndex =>
    exact orUnchanged_valid h fun _ hs => setAnimatedTile_valid h hs
  | setCell col row tileIndex =>
    exact orUnchanged_valid h fun _ hs => setCell_valid h hints.2.2 havoid hs
  | fillCells col row numCols numRows tileIndex =>
    exact orUnchanged_valid h fun _ hs => fillCells_valid h hints.2.2.2.2 havoid hs
  | setStaticTileSet image tileWidth tileHeight =>
    exact setStaticTileSetInt_valid h image tileWidth tileHeight
  | setPosition x y => exact ⟨h.cells, h.ints, h.table⟩
  | move dx dy => exact ⟨h.cells, h.ints, h.table⟩
  | setVisible visible => exact ⟨h.cells, h.ints, h.table⟩
  | draw argb => exact ⟨h.cells, h.ints, h.table⟩

theorem newInt_valid {columns rows : Int} {image : Image} {tileWidth tileHeight : Int}
    (h : newInt columns rows image tileWidth tileHeight = .ok t) : t.Valid := by
  have hnew := newInt_sized h
  unfold new at hnew
  split at hnew
  · cases hnew
  · split at hnew
    · cases hnew
    · have hempty := Except.ok.inj hnew
      have hcells : ∀ r c, t.cellMatrix r c = 0 := fun r c =>
        (congrArg (fun t => t.cellMatrix r c) hempty).symm
      have hanim : t.animToStatic = none := (congrArg TiledLayer.animToStatic hempty).symm
      refine ⟨fun r c => .inl (hcells r c), fun r c => by rw [hcells]; decide, fun table htable => ?_⟩
      rw [hanim] at htable
      cases htable

/-- **Every layer of a run that avoids the smallest `int` is valid.** -/
theorem Run.valid (h : Run AvoidsSmallest t) : t.Valid := by
  induction h with
  | new h => exact newInt_valid h
  | exec _ call hints havoid ih => exact execInt_valid ih call hints havoid

end Valid

end TiledLayer

end FroggyKVM.Game
