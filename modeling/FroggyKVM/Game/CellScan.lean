/-
# FroggyKVM.Game.CellScan — the scan of a tiled layer, and pixel-level collision as a whole.

`collidesWith(TiledLayer, true)` visits the cells that the clipped collision rectangle can touch, row
by row, and stops at the first hit.  A cell is faulty when it holds an animated tile, whose negative
index is looked up among the static tiles, or when the rectangle is improper and its window in the
cell is not harmless.  **The method is exact when a hit comes before the first faulty cell.**
-/
import FroggyKVM.Game.PixelLevel

namespace FroggyKVM.Game

/-! ## Cells along one axis -/

section Axis

variable {lo hi base n count : Int}

/-- The cells of the range exist. -/
theorem cell_exists (hn : 0 < n) (hhi : base < hi) :
    0 ≤ startCell lo base n ∧ endCell hi base (base + count * n) n count < count := by
  unfold startCell endCell
  constructor
  · split
    · exact Int.le_refl 0
    · exact Int.tdiv_nonneg (by omega) hn.le
  · split
    · rw [Int.tdiv_eq_ediv_of_nonneg (by omega)]
      exact Int.ediv_lt_of_lt_mul hn (by omega)
    · omega

/-- The rectangle reaches into every cell of its range, from both sides. -/
theorem cell_touches (hn : 0 < n) (hhi : base < hi) {c : Int}
    (h₁ : startCell lo base n ≤ c) (h₂ : c ≤ endCell hi base (base + count * n) n count) :
    lo < c * n + base + n ∧ c * n + base < hi := by
  unfold startCell at h₁
  unfold endCell at h₂
  constructor
  · split at h₁
    · have := Int.mul_nonneg h₁ hn.le
      omega
    · rw [Int.tdiv_eq_ediv_of_nonneg (by omega)] at h₁
      have hlt := Int.lt_ediv_add_one_mul_self (lo - base) hn
      have hmul := Int.mul_le_mul_of_nonneg_right h₁ hn.le
      rw [Int.add_mul, Int.one_mul] at hlt
      omega
  · split at h₂
    · rw [Int.tdiv_eq_ediv_of_nonneg (by omega)] at h₂
      have hmul := Int.mul_le_of_le_ediv hn h₂
      omega
    · have hmul := Int.mul_le_mul_of_nonneg_right (show c + 1 ≤ count by omega) hn.le
      rw [Int.add_mul, Int.one_mul] at hmul
      omega

/-- The cell of a point of the rectangle is in the range. -/
theorem cell_of_point (hn : 0 < n) {p : Int} (hlo : lo ≤ p) (hhi : p < hi) (hbase : base ≤ p)
    (hlimit : p < base + count * n) :
    startCell lo base n ≤ (p - base) / n ∧
      (p - base) / n ≤ endCell hi base (base + count * n) n count := by
  unfold startCell endCell
  constructor
  · split
    · exact Int.ediv_nonneg (by omega) hn.le
    · rw [Int.tdiv_eq_ediv_of_nonneg (by omega)]
      exact Int.ediv_le_ediv hn (by omega)
  · split
    · rw [Int.tdiv_eq_ediv_of_nonneg (by omega)]
      exact Int.ediv_le_ediv hn (by omega)
    · have hlt : (p - base) / n < count := Int.ediv_lt_of_lt_mul hn (by omega)
      omega

end Axis

/-! ## The loops as a search -/

/-- `n` consecutive numbers from `i` on. -/
def cellsFrom (i : Int) : Nat → List Int
  | 0 => []
  | n + 1 => i :: cellsFrom (i + 1) n

theorem mem_cellsFrom {i c : Int} {n : Nat} : c ∈ cellsFrom i n ↔ i ≤ c ∧ c < i + n := by
  induction n generalizing i with
  | zero => simp [cellsFrom]
  | succ n ih =>
    rw [cellsFrom, List.mem_cons, ih]
    omega

/-- The loop visits the cells in order, each with its coordinate. -/
theorem forCells_eq {size base : Int} {body : Int → Int → Except Throwable Bool} {n : Nat} {i : Int} :
    forCells size body n i (i * size + base) =
      (cellsFrom i n).anyM fun c => body c (c * size + base) := by
  induction n generalizing i with
  | zero => rfl
  | succ n ih =>
    have hnext : i * size + base + size = (i + 1) * size + base := by ring
    rw [forCells, cellsFrom, List.anyM, hnext, ih]
    cases body i (i * size + base) with
    | error e => rfl
    | ok r => cases r <;> rfl

namespace TiledLayer

/-- The rows and columns that the loops visit, in their order. -/
def examined (t : TiledLayer) (s : Edges) : List (Int × Int) :=
  (cellsFrom (t.startRow s) (t.endRow s + 1 - t.startRow s).toNat).flatMap fun row =>
    (cellsFrom (t.startCol s) (t.endCol s + 1 - t.startCol s).toNat).map fun col => (row, col)

theorem mem_examined {t : TiledLayer} {s : Edges} {c : Int × Int} :
    c ∈ t.examined s ↔ (t.startRow s ≤ c.1 ∧ c.1 ≤ t.endRow s) ∧
      t.startCol s ≤ c.2 ∧ c.2 ≤ t.endCol s := by
  obtain ⟨row, col⟩ := c
  simp only [examined, List.mem_flatMap, List.mem_map, mem_cellsFrom, Prod.mk.injEq]
  constructor
  · rintro ⟨r, hr, k, hk, rfl, rfl⟩
    omega
  · rintro ⟨hr, hk⟩
    exact ⟨row, by omega, col, by omega, rfl, rfl⟩

/-- The two loops are one search of the examined cells. -/
theorem overCells_eq (t : TiledLayer) (s : Edges)
    (body : Int → Int → Int → Int → Except Throwable Bool) :
    t.overCells s body = (t.examined s).anyM fun c =>
      body c.1 (c.1 * t.cellHeight + t.y) c.2 (c.2 * t.cellWidth + t.x) := by
  rw [overCells, forCells_eq, examined, anyM_flatMap]
  simp only [forCells_eq, anyM_map]

end TiledLayer

/-! ## One cell -/

namespace Sprite

variable {a : Sprite} {t : TiledLayer}

/-- The window that is scanned in a cell. -/
def cellWindow (a : Sprite) (t : TiledLayer) (c : Int × Int) : Edges :=
  (intersection a.framed (t.cellAt c.1 c.2)).swapped

/-- The scanned windows of the sprite and of a static cell are harmless. -/
def HarmlessInCell (a : Sprite) (t : TiledLayer) (c : Int × Int) : Prop :=
  let e := a.cellWindow t c
  let tile := (t.cellMatrix c.1 c.2).toNat
  Harmless (a.imageX e) (a.imageY e)
    (t.tileSetX.getD tile 0 + (e.left - (c.2 * t.cellWidth + t.x)))
    (t.tileSetY.getD tile 0 + (e.top - (c.1 * t.cellHeight + t.y))) a.sourceImage
    a.tCurrentTransformation t.sourceImage .none (e.right - e.left) (e.bottom - e.top)

/-- The cell holds an animated tile, or the clipped rectangle is improper and its window in the cell
is not harmless. -/
def FaultyCell (a : Sprite) (t : TiledLayer) (c : Int × Int) : Prop :=
  t.cellMatrix c.1 c.2 < 0 ∨
    t.cellMatrix c.1 c.2 ≠ 0 ∧ ¬ a.framed.Proper ∧ ¬ a.HarmlessInCell t c

/-- The drawn pixels of the sprite and the layer meet in the cell. -/
def MeetsInCell (a : Sprite) (t : TiledLayer) (c : Int × Int) : Prop :=
  ∃ px py, (t.cellAt c.1 c.2).Contains px py ∧ a.drawn.Shows a.x a.y px py ∧
    t.drawn.Shows t.x t.y px py

theorem swapped_ordered (e : Edges) : e.swapped.left ≤ e.swapped.right ∧
    e.swapped.top ≤ e.swapped.bottom := by
  unfold Edges.swapped
  dsimp only
  constructor <;> split <;> omega

/-- What the body of the loops runs in a cell with a static tile. -/
theorem collidesWithCell_static (ha : a.Ok) (ht : t.Ok) {c : Int × Int} (hc : t.HasCell c.2 c.1)
    (hpos : 0 < t.cellMatrix c.1 c.2) :
    a.collidesWithCell t a.framed c.1 (c.1 * t.cellHeight + t.y) c.2 (c.2 * t.cellWidth + t.x) =
      let e := a.cellWindow t c
      let tile := (t.cellMatrix c.1 c.2).toNat
      doPixelCollision (a.imageX e) (a.imageY e)
        (t.tileSetX.getD tile 0 + (e.left - (c.2 * t.cellWidth + t.x)))
        (t.tileSetY.getD tile 0 + (e.top - (c.1 * t.cellHeight + t.y))) a.sourceImage
        a.tCurrentTransformation t.sourceImage .none (e.right - e.left) (e.bottom - e.top) := by
  have hindex := ht.indices c.1 c.2
  have hcoords := ht.coords
  have hX := @readArray_ok t.tileSetX (t.cellMatrix c.1 c.2) (by omega)
  have hY := @readArray_ok t.tileSetY (t.cellMatrix c.1 c.2) (by omega)
  have hcell : t.getCell c.2 c.1 = .ok (t.cellMatrix c.1 c.2) := if_neg (not_not.2 hc)
  rw [collidesWithCell, hcell, ok_bind, if_neg (by omega)]
  simp only [(ha.getImageTopLeft _).1, (ha.getImageTopLeft _).2, hX, hY, ok_bind]
  rfl

/-- The examined cells exist, and the clipped rectangle reaches into them. -/
theorem examined_spec (ht : t.Ok) {s : Edges} (hscan : intersectRect t.edges s = true)
    {c : Int × Int} (hc : c ∈ t.examined s) :
    t.HasCell c.2 c.1 ∧ (s.left < c.2 * t.cellWidth + t.x + t.cellWidth ∧
      c.2 * t.cellWidth + t.x < s.right) ∧
      s.top < c.1 * t.cellHeight + t.y + t.cellHeight ∧ c.1 * t.cellHeight + t.y < s.bottom := by
  obtain ⟨hrow, hcol⟩ := TiledLayer.mem_examined.1 hc
  obtain ⟨hw, hh⟩ := ht.size
  obtain ⟨hcw, hch⟩ := ht.tile
  rw [intersectRect_iff] at hscan
  unfold TiledLayer.edges at hscan
  dsimp only at hscan
  unfold TiledLayer.startRow TiledLayer.endRow at hrow
  unfold TiledLayer.startCol TiledLayer.endCol at hcol
  rw [hw] at hcol
  rw [hh] at hrow
  have hexistsX := @cell_exists s.left s.right t.x t.cellWidth t.columns hcw (by omega)
  have hexistsY := @cell_exists s.top s.bottom t.y t.cellHeight t.rows hch (by omega)
  refine ⟨?_, cell_touches hcw (by omega) hcol.1 hcol.2, cell_touches hch (by omega) hrow.1 hrow.2⟩
  unfold TiledLayer.HasCell
  omega

/-- A cell that is not faulty answers whether the pixels meet in it. -/
theorem collidesWithCell_answers (ha : a.Ok) (ht : t.Ok)
    (hscan : intersectRect t.edges a.framed = true) {c : Int × Int} (hc : c ∈ t.examined a.framed)
    (h : ¬ a.FaultyCell t c) :
    Answers (a.collidesWithCell t a.framed c.1 (c.1 * t.cellHeight + t.y) c.2
      (c.2 * t.cellWidth + t.x)) (a.MeetsInCell t c) := by
  obtain ⟨hcell, hx, hy⟩ := examined_spec ht hscan hc
  have hcases : t.cellMatrix c.1 c.2 = 0 ∨ 0 < t.cellMatrix c.1 c.2 := by
    unfold FaultyCell at h
    omega
  rcases hcases with hzero | hpos
  · -- the transparent tile shows nothing
    have hget : t.getCell c.2 c.1 = .ok 0 := by rw [TiledLayer.getCell, if_neg (not_not.2 hcell), hzero]
    rw [collidesWithCell, hget, ok_bind, if_pos rfl]
    refine Answers.ok_false.2 ?_
    rintro ⟨px, py, hp, -, hs⟩
    have hshown : t.shownTile c.1 c.2 = 0 := by
      rw [TiledLayer.shownTile, hzero, if_neg (by omega)]
    exact ((ht.shows_cell hcell hp).1 hs).1 hshown
  · rw [collidesWithCell_static ha ht hcell hpos]
    by_cases hproper : a.framed.Proper
    · have he : (intersection a.framed (t.cellAt c.1 c.2)).Proper := by
        obtain ⟨hcw, hch⟩ := ht.tile
        apply intersection_proper _ hproper
        · unfold Edges.Proper TiledLayer.cellAt TiledLayer.cellEdges
          dsimp only
          omega
        · rw [intersectRect_iff]
          unfold TiledLayer.cellAt TiledLayer.cellEdges
          dsimp only
          omega
      obtain ⟨hina, hint⟩ := intersection_inside (e := a.framed) (f := t.cellAt c.1 c.2)
      have hwindow : a.cellWindow t c = intersection a.framed (t.cellAt c.1 c.2) := he.swapped
      rw [hwindow]
      refine ((ha.shot he hina).answers (ht.shot hcell hpos he hint) he).congr ⟨?_, ?_⟩
      · rintro ⟨px, py, hp, hs₁, hs₂⟩
        exact ⟨px, py, (intersection_contains.1 hp).2, hs₁, hs₂⟩
      · rintro ⟨px, py, hp, hs₁, hs₂⟩
        exact ⟨px, py, intersection_contains.2 ⟨(ha.shows_iff.1 hs₁).1, hp⟩, hs₁, hs₂⟩
    · have hharmless : a.HarmlessInCell t c :=
        not_not.1 fun hno => h (.inr ⟨by omega, hproper, hno⟩)
      have hno : ¬ a.MeetsInCell t c := by
        rintro ⟨px, py, -, hs, -⟩
        exact hproper (ha.shows_iff.1 hs).1.proper
      have hordered := swapped_ordered (intersection a.framed (t.cellAt c.1 c.2))
      exact (doPixelCollision_harmless_iff (by rw [cellWindow]; omega) (by rw [cellWindow]; omega)
        hno).2 hharmless

/-- A faulty cell throws, or says yes where nothing meets. -/
theorem collidesWithCell_faulty (ha : a.Ok) (ht : t.Ok)
    (hscan : intersectRect t.edges a.framed = true) {c : Int × Int} (hc : c ∈ t.examined a.framed)
    (h : a.FaultyCell t c) :
    (∃ e, a.collidesWithCell t a.framed c.1 (c.1 * t.cellHeight + t.y) c.2
        (c.2 * t.cellWidth + t.x) = .error e) ∨
      a.collidesWithCell t a.framed c.1 (c.1 * t.cellHeight + t.y) c.2
        (c.2 * t.cellWidth + t.x) = .ok true ∧ ¬ a.framed.Proper := by
  obtain ⟨hcell, -, -⟩ := examined_spec ht hscan hc
  rcases Int.lt_or_le (t.cellMatrix c.1 c.2) 0 with hneg | hnonneg
  · -- an animated tile: the index is negative
    have hget : t.getCell c.2 c.1 = .ok (t.cellMatrix c.1 c.2) := if_neg (not_not.2 hcell)
    have hread : readArray t.tileSetX (t.cellMatrix c.1 c.2) = .error .arrayIndexOutOfBounds :=
      if_neg (by omega)
    refine .inl ⟨.arrayIndexOutOfBounds, ?_⟩
    rw [collidesWithCell, hget, ok_bind, if_neg (by omega)]
    simp only [(ha.getImageTopLeft _).1, (ha.getImageTopLeft _).2, hread, ok_bind]
    rfl
  · obtain ⟨hne, hproper, hno⟩ := h.resolve_left (by omega)
    rw [collidesWithCell_static ha ht hcell (by omega)]
    have hordered := swapped_ordered (intersection a.framed (t.cellAt c.1 c.2))
    rcases doPixelCollision_not_harmless (by rw [cellWindow]; omega) (by rw [cellWindow]; omega) hno
      with herr | htrue
    · exact .inl herr
    · exact .inr ⟨htrue, hproper⟩

/-! ## A sprite and a layer -/

/-- Both `intersectRect` tests pass. -/
def ScansLayer (a : Sprite) (t : TiledLayer) : Prop :=
  intersectRect t.edges a.collisionEdges = true ∧ intersectRect t.edges a.framed = true

/-- When the cells are scanned, every faulty cell comes after one where the pixels meet. -/
def ExactWithLayer (a : Sprite) (t : TiledLayer) : Prop :=
  ScansLayer a t → HitFirst (a.MeetsInCell t) (a.FaultyCell t) (t.examined a.framed)

/-- The drawn pixels of the sprite and of the layer meet. -/
def MeetsLayer (a : Sprite) (t : TiledLayer) : Prop := a.drawn.Meets a.x a.y t.drawn t.x t.y

/-- A point that a layer shows lies in the layer. -/
theorem layer_contains {px py : Int} (h : t.drawn.Shows t.x t.y px py) :
    t.edges.Contains px py := by
  obtain ⟨hx, hy, -⟩ := h
  unfold Edges.Contains TiledLayer.edges
  dsimp only [TiledLayer.drawn] at hx hy ⊢
  omega

theorem MeetsLayer.scans (ha : a.Ok) (h : MeetsLayer a t) : ScansLayer a t ∧ a.framed.Proper := by
  obtain ⟨px, py, hsa, hst⟩ := h
  have hpa := (ha.shows_iff.1 hsa).1
  have hpt := layer_contains hst
  exact ⟨⟨intersectRect_of_contains (collisionEdges_contains hpa) hpt,
    intersectRect_of_contains hpa hpt⟩, hpa.proper⟩

/-- The pixels meet when they meet in an examined cell. -/
theorem meetsLayer_iff (ha : a.Ok) (ht : t.Ok) :
    MeetsLayer a t ↔ ∃ c ∈ t.examined a.framed, a.MeetsInCell t c := by
  constructor
  · rintro ⟨px, py, hsa, hst⟩
    obtain ⟨⟨hleft, hright⟩, htop, hbottom⟩ := (ha.shows_iff.1 hsa).1
    obtain ⟨⟨hx₀, hx⟩, hy₀, hy⟩ := layer_contains hst
    obtain ⟨hw, hh⟩ := ht.size
    obtain ⟨hcw, hch⟩ := ht.tile
    unfold TiledLayer.edges at hx₀ hx hy₀ hy
    dsimp only at hx₀ hx hy₀ hy
    have hcol := @cell_of_point _ _ _ _ t.columns hcw _ hleft hright hx₀ (by rw [← hw]; exact hx)
    have hrow := @cell_of_point _ _ _ _ t.rows hch _ htop hbottom hy₀ (by rw [← hh]; exact hy)
    rw [← hw] at hcol
    rw [← hh] at hrow
    refine ⟨((py - t.y) / t.cellHeight, (px - t.x) / t.cellWidth),
      TiledLayer.mem_examined.2 ⟨hrow, hcol⟩, px, py, ?_, hsa, hst⟩
    have hdivX := Int.ediv_mul_add_emod (px - t.x) t.cellWidth
    have hdivY := Int.ediv_mul_add_emod (py - t.y) t.cellHeight
    have hmodX := Int.emod_nonneg (px - t.x) hcw.ne'
    have hmodX' := Int.emod_lt_of_pos (px - t.x) hcw
    have hmodY := Int.emod_nonneg (py - t.y) hch.ne'
    have hmodY' := Int.emod_lt_of_pos (py - t.y) hch
    unfold Edges.Contains TiledLayer.cellAt TiledLayer.cellEdges
    dsimp only
    omega
  · rintro ⟨c, -, px, py, -, hsa, hst⟩
    exact ⟨px, py, hsa, hst⟩

theorem collidesWithTiledLayer_of_not_scans (hva : a.visible = true) (hvt : t.visible = true)
    (h : ¬ ScansLayer a t) : a.collidesWithTiledLayer t true = .ok false := by
  rw [collidesWithTiledLayer, if_neg (by simp [hva, hvt])]
  by_cases h₁ : intersectRect t.edges a.collisionEdges = true
  · rw [if_neg (not_not.2 h₁), if_neg (by simp)]
    exact if_pos fun h₂ => h ⟨h₁, h₂⟩
  · rw [if_pos h₁]

/-- **A sprite and a layer**: the method is exact exactly when a hit comes before every faulty
cell. -/
theorem collidesWithTiledLayer_answers_iff (ha : a.Ok) (ht : t.Ok) (hva : a.visible = true)
    (hvt : t.visible = true) :
    Answers (a.collidesWithTiledLayer t true) (MeetsLayer a t) ↔ ExactWithLayer a t := by
  by_cases hscan : ScansLayer a t
  · rw [collidesWithTiledLayer, if_neg (by simp [hva, hvt]), if_neg (not_not.2 hscan.1),
      if_neg (by simp)]
    have hrun : Answers (t.overCells a.framed (a.collidesWithCell t a.framed)) (MeetsLayer a t) ↔
        HitFirst (a.MeetsInCell t) (a.FaultyCell t) (t.examined a.framed) := by
      rw [TiledLayer.overCells_eq]
      apply anyM_answers_iff (meetsLayer_iff ha ht)
      · intro c hc hfaulty
        exact collidesWithCell_answers ha ht hscan.2 hc hfaulty
      · intro c hc hfaulty
        rcases collidesWithCell_faulty ha ht hscan.2 hc hfaulty with herr | ⟨htrue, hproper⟩
        · exact .inl herr
        · exact .inr ⟨htrue, fun h => hproper (h.scans ha).2⟩
    have hsecond : ¬ ¬ intersectRect t.edges (a.clipToFrame a.collisionEdges) = true :=
      not_not.2 hscan.2
    rw [if_neg hsecond]
    exact hrun.trans ⟨fun h _ => h, fun h => h hscan⟩
  · rw [collidesWithTiledLayer_of_not_scans hva hvt hscan, Answers.ok_false]
    exact ⟨fun _ h => absurd h hscan, fun _ h => hscan (h.scans ha).1⟩

/-! ## Pixel-level collision -/

/-- **Pixel-level collision is exact exactly on exact pairs**: for every visible sprite a program can
hold, against every other sprite, image and layer, the method returns without an exception and says
whether drawn pixels meet, if and only if the pair is exact; on exact pairs of sprites it is
symmetric. -/
theorem collidesWith_exact_iff (ha : a.Reachable) (hva : a.visible = true) :
    (∀ b : Sprite, b.Reachable → b.visible = true →
      (Answers (a.collidesWithSprite b true) (Meets a b) ↔ ExactWith a b) ∧
      (ExactWith a b → a.collidesWithSprite b true = b.collidesWithSprite a true)) ∧
    (∀ (image : Image) (x y : Int),
      Answers (a.collidesWithImage image x y true) (MeetsImage a image x y) ↔
        ExactWithImage a image x y) ∧
    ∀ t : TiledLayer, t.Reachable → t.visible = true →
      (Answers (a.collidesWithTiledLayer t true) (MeetsLayer a t) ↔ ExactWithLayer a t) := by
  refine ⟨fun b hb hvb => ⟨?_, ?_⟩, fun image x y => ?_, fun t ht hvt => ?_⟩
  · exact collidesWithSprite_answers_iff ha.ok hb.ok hva hvb
  · exact collidesWithSprite_comm ha.ok hb.ok hva hvb
  · exact collidesWithImage_answers_iff ha.ok hva
  · exact collidesWithTiledLayer_answers_iff ha.ok ht.ok hva hvt

/-- An image of black pixels. -/
def blackImage (width height : Nat) : Image where
  width := width + 1
  height := height + 1
  argb _ _ := 0xff000000
  width_pos := by omega
  height_pos := by omega

/-- A sprite of one pixel collides with itself. -/
theorem collidesWith_exact_tiny :
    Answers ((Sprite.ofImage (blackImage 0 0)).collidesWithSprite (Sprite.ofImage (blackImage 0 0))
      true) (Meets (Sprite.ofImage (blackImage 0 0)) (Sprite.ofImage (blackImage 0 0))) :=
  ((collidesWith_exact_iff (.ofImage _) rfl).1 _ (.ofImage _) rfl).1.2
    fun _ => .inl ⟨⟨by decide, by decide⟩, by decide, by decide⟩

/-- One black pixel of three, with its collision rectangle two pixels to the right. -/
def beside : Sprite := (initFrames (blackImage 2 0) 1 1).exec (.defineCollisionRectangle 2 0 1 1)

theorem beside_reachable : beside.Reachable := by
  have hnew : ofFrames (blackImage 2 0) 1 1 = .ok (initFrames (blackImage 2 0) 1 1) := if_pos (by decide)
  exact .exec (.ofFrames hnew) _

/-- A layer of one empty cell. -/
def emptyCell : TiledLayer where
  x := 0
  y := 0
  width := 1
  height := 1
  visible := true
  cellHeight := 1
  cellWidth := 1
  rows := 1
  columns := 1
  cellMatrix _ _ := 0
  sourceImage := blackImage 0 0
  numberOfTiles := 2
  tileSetX := [0, 0]
  tileSetY := [0, 0]
  animToStatic := none
  numOfAnimTiles := 0

/-- The cell shows tile 1 through an animated tile. -/
def animatedCell : TiledLayer :=
  (emptyCell.exec (.createAnimatedTile 1)).exec (.setCell 0 0 (-1))

theorem animatedCell_reachable : animatedCell.Reachable := by
  have hnew : TiledLayer.new 1 1 (blackImage 0 0) 1 1 = .ok emptyCell := rfl
  exact .exec (.exec (.new hnew) _) _

/-- **A rectangle outside the frame reports the pixels there, and an animated tile throws.** -/
theorem collidesWith_not_exact :
    (∃ a b : Sprite, (a.Reachable ∧ b.Reachable) ∧ (a.visible = true ∧ b.visible = true) ∧
      a.collidesWithSprite b true = .ok true ∧ ¬ Meets a b) ∧
    ∃ (a : Sprite) (t : TiledLayer), (a.Reachable ∧ t.Reachable) ∧
      (a.visible = true ∧ t.visible = true) ∧
      a.collidesWithTiledLayer t true = .error .arrayIndexOutOfBounds ∧ MeetsLayer a t := by
  constructor
  · refine ⟨beside, Sprite.ofImage (blackImage 4 4), ⟨beside_reachable, .ofImage _⟩, ⟨rfl, rfl⟩,
      by decide +kernel, fun h => ?_⟩
    have hproper := (h.scans beside_reachable.ok (Reachable.ofImage _).ok).2.1
    exact absurd hproper (by decide +kernel)
  · refine ⟨Sprite.ofImage (blackImage 0 0), animatedCell, ⟨.ofImage _, animatedCell_reachable⟩,
      ⟨rfl, rfl⟩, by decide +kernel, 0, 0, ?_, ?_⟩
    · exact ⟨⟨by decide, by decide⟩, ⟨by decide, by decide⟩,
        ⟨⟨by decide, by decide⟩, by decide, by decide⟩, rfl⟩
    · exact ⟨⟨by decide, by decide⟩, ⟨by decide, by decide⟩, by decide +kernel, rfl⟩

end Sprite

end FroggyKVM.Game
