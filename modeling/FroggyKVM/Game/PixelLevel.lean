/-
# FroggyKVM.Game.PixelLevel — the exact conditions of pixel-level collision.

For sprites and images the scan is exact if both clipped rectangles are proper.  An improper one that
still passes `intersectRect` has no point, and the code then scans the window between its exchanged
edges: it throws, or reports pixels that lie outside the frame, unless that window happens to be
readable and to hold no common opaque point.  For a layer the cells are scanned row by row, and the
first animated cell ends the scan with an exception unless an earlier cell was a hit.
-/
import FroggyKVM.Game.ExactCollision

namespace FroggyKVM.Game

/-- `Math.abs` does nothing to the sides of a proper rectangle. -/
theorem Edges.Proper.natAbs {e : Edges} (h : e.Proper) :
    ((e.right - e.left).natAbs : Int) = e.right - e.left ∧
      ((e.bottom - e.top).natAbs : Int) = e.bottom - e.top := by
  unfold Edges.Proper at h
  omega

namespace Sprite

/-- The offset of a rectangle in the source image, column and row. -/
def imageX (s : Sprite) (e : Edges) : Int := s.topLeftX e + s.frameX

def imageY (s : Sprite) (e : Edges) : Int := s.topLeftY e + s.frameY

/-! ## Two sprites -/

/-- Both `intersectRect` tests pass, so that the pixels are scanned. -/
def Scans (a b : Sprite) : Prop :=
  intersectRect b.collisionEdges a.collisionEdges = true ∧ intersectRect b.framed a.framed = true

/-- The scanned windows of two sprites are harmless. -/
def HarmlessWith (a b : Sprite) : Prop :=
  let e := intersection a.framed b.framed
  Harmless (a.imageX e) (a.imageY e) (b.imageX e) (b.imageY e) a.sourceImage
    a.tCurrentTransformation b.sourceImage b.tCurrentTransformation (e.right - e.left).natAbs
    (e.bottom - e.top).natAbs

/-- When the pixels are scanned, neither clipped rectangle is empty or inside out, or else the
scanned windows are harmless. -/
def ExactWith (a b : Sprite) : Prop :=
  Scans a b → (a.framed.Proper ∧ b.framed.Proper) ∨ HarmlessWith a b

/-- The sprites' drawn pixels meet: some point lies in the frame and collision rectangle of both,
where both are opaque. -/
def Meets (a b : Sprite) : Prop := a.drawn.Meets a.x a.y b.drawn b.x b.y

variable {a b : Sprite}

theorem Meets.symm (h : Meets a b) : Meets b a := Raster.Meets.symm h

theorem meets_comm : Meets a b ↔ Meets b a := ⟨Meets.symm, Meets.symm⟩

/-- Sprites that meet are scanned, and their rectangles are proper. -/
theorem Meets.scans (ha : a.Ok) (hb : b.Ok) (h : Meets a b) :
    Scans a b ∧ a.framed.Proper ∧ b.framed.Proper := by
  obtain ⟨px, py, hsa, hsb⟩ := h
  have hpa := (ha.shows_iff.1 hsa).1
  have hpb := (hb.shows_iff.1 hsb).1
  exact ⟨⟨intersectRect_of_contains (collisionEdges_contains hpa) (collisionEdges_contains hpb),
    intersectRect_of_contains hpa hpb⟩, hpa.proper, hpb.proper⟩

/-- What the method runs when it scans. -/
theorem collidesWithSprite_of_scans (ha : a.Ok) (hb : b.Ok) (hva : a.visible = true)
    (hvb : b.visible = true) (h : Scans a b) :
    a.collidesWithSprite b true =
      let e := intersection a.framed b.framed
      doPixelCollision (a.imageX e) (a.imageY e) (b.imageX e) (b.imageY e) a.sourceImage
        a.tCurrentTransformation b.sourceImage b.tCurrentTransformation (e.right - e.left).natAbs
        (e.bottom - e.top).natAbs := by
  have h₂ : intersectRect (b.clipToFrame b.collisionEdges) (a.clipToFrame a.collisionEdges) =
    true := h.2
  rw [collidesWithSprite, if_neg (by simp [hva, hvb]), if_pos h.1, if_pos rfl]
  simp only [h₂, not_true_eq_false, if_false, (ha.getImageTopLeft _).1, (ha.getImageTopLeft _).2,
    (hb.getImageTopLeft _).1, (hb.getImageTopLeft _).2, ok_bind]
  rfl

theorem collidesWithSprite_of_not_scans (hva : a.visible = true) (hvb : b.visible = true)
    (h : ¬ Scans a b) : a.collidesWithSprite b true = .ok false := by
  rw [collidesWithSprite, if_neg (by simp [hva, hvb])]
  by_cases h₁ : intersectRect b.collisionEdges a.collisionEdges = true
  · have h₂ : ¬ intersectRect (b.clipToFrame b.collisionEdges) (a.clipToFrame a.collisionEdges) =
      true := fun h₂ => h ⟨h₁, h₂⟩
    rw [if_pos h₁, if_pos rfl, if_pos h₂]
  · rw [if_neg h₁]

/-- **Two sprites**: the method is exact exactly when the sprites are. -/
theorem collidesWithSprite_answers_iff (ha : a.Ok) (hb : b.Ok) (hva : a.visible = true)
    (hvb : b.visible = true) :
    Answers (a.collidesWithSprite b true) (Meets a b) ↔ ExactWith a b := by
  by_cases hscan : Scans a b
  · rw [collidesWithSprite_of_scans ha hb hva hvb hscan]
    by_cases hproper : a.framed.Proper ∧ b.framed.Proper
    · -- both rectangles are proper, so both windows are shots of their intersection
      refine ⟨fun _ _ => .inl hproper, fun _ => ?_⟩
      have he := intersection_proper hscan.2 hproper.1 hproper.2
      obtain ⟨hina, hinb⟩ := intersection_inside (e := a.framed) (f := b.framed)
      have hshot := (ha.shot he hina).answers (hb.shot he hinb) he
      have habs := he.natAbs
      simp only [habs.1, habs.2]
      refine hshot.congr ⟨fun ⟨px, py, _, h₁, h₂⟩ => ⟨px, py, h₁, h₂⟩, fun ⟨px, py, h₁, h₂⟩ => ?_⟩
      exact ⟨px, py, intersection_contains.2 ⟨(ha.shows_iff.1 h₁).1, (hb.shows_iff.1 h₂).1⟩, h₁, h₂⟩
    · have hno : ¬ Meets a b := fun h => hproper (h.scans ha hb).2
      rw [doPixelCollision_harmless_iff (by omega) (by omega) hno]
      exact ⟨fun h _ => .inr h, fun h => (h hscan).resolve_left hproper⟩
  · rw [collidesWithSprite_of_not_scans hva hvb hscan, Answers.ok_false]
    exact ⟨fun _ h => absurd h hscan, fun _ h => hscan (h.scans ha hb).1⟩

theorem Scans.symm (h : Scans a b) : Scans b a := by
  obtain ⟨h₁, h₂⟩ := h
  rw [intersectRect_iff] at h₁ h₂
  constructor
  · rw [intersectRect_iff]
    omega
  · rw [intersectRect_iff]
    omega

theorem HarmlessWith.symm (h : HarmlessWith a b) : HarmlessWith b a := by
  obtain ⟨⟨ha, hb⟩, hno⟩ := h
  rw [intersection_comm] at ha hb hno
  refine ⟨⟨hb, ha⟩, ?_⟩
  rintro ⟨dx, dy, hx, hy, h₁, h₂⟩
  exact hno ⟨dx, dy, hx, hy, h₂, h₁⟩

theorem ExactWith.symm (h : ExactWith a b) : ExactWith b a := by
  intro hscan
  rcases h hscan.symm with hproper | hharmless
  · exact .inl ⟨hproper.2, hproper.1⟩
  · exact .inr hharmless.symm

/-- On exact pairs the method is symmetric. -/
theorem collidesWithSprite_comm (ha : a.Ok) (hb : b.Ok) (hva : a.visible = true)
    (hvb : b.visible = true) (h : ExactWith a b) :
    a.collidesWithSprite b true = b.collidesWithSprite a true := by
  have hab := (collidesWithSprite_answers_iff ha hb hva hvb).2 h
  have hba := (collidesWithSprite_answers_iff hb ha hvb hva).2 h.symm
  exact hab.eq (hba.congr meets_comm)

/-! ## A sprite and an image -/

section Images

variable {image : Image} {x y : Int}

/-- Both `intersectRect` tests pass. -/
def ScansImage (a : Sprite) (image : Image) (x y : Int) : Prop :=
  intersectRect (image.edges x y) a.collisionEdges = true ∧
    intersectRect (image.edges x y) a.framed = true

/-- The scanned windows of the sprite and the image are harmless. -/
def HarmlessWithImage (a : Sprite) (image : Image) (x y : Int) : Prop :=
  let e := intersection a.framed (image.edges x y)
  Harmless (a.imageX e) (a.imageY e) (e.left - x) (e.top - y) a.sourceImage
    a.tCurrentTransformation image .none (e.right - e.left).natAbs (e.bottom - e.top).natAbs

/-- When the pixels are scanned, the clipped rectangle of the sprite is neither empty nor inside out,
or else the scanned windows are harmless. -/
def ExactWithImage (a : Sprite) (image : Image) (x y : Int) : Prop :=
  ScansImage a image x y → a.framed.Proper ∨ HarmlessWithImage a image x y

/-- The drawn pixels of the sprite and of an image at `(x, y)` meet. -/
def MeetsImage (a : Sprite) (image : Image) (x y : Int) : Prop :=
  a.drawn.Meets a.x a.y image.drawn x y

theorem shows_edges {px py : Int} (h : image.drawn.Shows x y px py) :
    (image.edges x y).Contains px py := by
  obtain ⟨hx, hy, -⟩ := h
  unfold Edges.Contains Image.edges
  dsimp only [Image.drawn] at hx hy ⊢
  omega

theorem MeetsImage.scans (ha : a.Ok) (h : MeetsImage a image x y) :
    ScansImage a image x y ∧ a.framed.Proper := by
  obtain ⟨px, py, hsa, hsi⟩ := h
  have hpa := (ha.shows_iff.1 hsa).1
  have hpi := shows_edges hsi
  exact ⟨⟨intersectRect_of_contains (collisionEdges_contains hpa) hpi,
    intersectRect_of_contains hpa hpi⟩, hpa.proper⟩

theorem collidesWithImage_of_scans (ha : a.Ok) (hva : a.visible = true)
    (h : ScansImage a image x y) :
    a.collidesWithImage image x y true =
      let e := intersection a.framed (image.edges x y)
      doPixelCollision (a.imageX e) (a.imageY e) (e.left - x) (e.top - y) a.sourceImage
        a.tCurrentTransformation image .none (e.right - e.left).natAbs (e.bottom - e.top).natAbs := by
  rw [collidesWithImage, if_neg (by simp [hva])]
  refine (if_pos h.1).trans ((if_pos rfl).trans ((if_neg (not_not.2 h.2)).trans ?_))
  simp only [(ha.getImageTopLeft _).1, (ha.getImageTopLeft _).2, ok_bind]
  rfl

theorem collidesWithImage_of_not_scans (hva : a.visible = true) (h : ¬ ScansImage a image x y) :
    a.collidesWithImage image x y true = .ok false := by
  rw [collidesWithImage, if_neg (by simp [hva])]
  by_cases h₁ : intersectRect (image.edges x y) a.collisionEdges = true
  · have h₂ : ¬ intersectRect (image.edges x y) (a.clipToFrame a.collisionEdges) = true :=
      fun h₂ => h ⟨h₁, h₂⟩
    exact (if_pos h₁).trans ((if_pos rfl).trans (if_pos h₂))
  · exact if_neg h₁

/-- **A sprite and an image**: the method is exact exactly when the pair is. -/
theorem collidesWithImage_answers_iff (ha : a.Ok) (hva : a.visible = true) :
    Answers (a.collidesWithImage image x y true) (MeetsImage a image x y) ↔
      ExactWithImage a image x y := by
  by_cases hscan : ScansImage a image x y
  · rw [collidesWithImage_of_scans ha hva hscan]
    by_cases hproper : a.framed.Proper
    · refine ⟨fun _ _ => .inl hproper, fun _ => ?_⟩
      have hw := image.width_pos
      have hh := image.height_pos
      have hedges : (image.edges x y).Proper := by
        unfold Edges.Proper Image.edges
        dsimp only
        omega
      have he := intersection_proper hscan.2 hproper hedges
      obtain ⟨hina, hini⟩ := intersection_inside (e := a.framed) (f := image.edges x y)
      have hshot := (ha.shot he hina).answers (image.shot x y he hini) he
      have habs := he.natAbs
      simp only [habs.1, habs.2]
      refine hshot.congr ⟨fun ⟨px, py, _, h₁, h₂⟩ => ⟨px, py, h₁, h₂⟩, fun ⟨px, py, h₁, h₂⟩ => ?_⟩
      exact ⟨px, py, intersection_contains.2 ⟨(ha.shows_iff.1 h₁).1, shows_edges h₂⟩, h₁, h₂⟩
    · have hno : ¬ MeetsImage a image x y := fun h => hproper (h.scans ha).2
      rw [doPixelCollision_harmless_iff (by omega) (by omega) hno]
      exact ⟨fun h _ => .inr h, fun h => (h hscan).resolve_left hproper⟩
  · rw [collidesWithImage_of_not_scans hva hscan, Answers.ok_false]
    exact ⟨fun _ h => absurd h hscan, fun _ h => hscan (h.scans ha).1⟩

end Images

end Sprite

end FroggyKVM.Game
