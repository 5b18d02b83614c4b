/-
# FroggyKVM.M3g.Raster — triangles, and when they stay inside the target (`raster_triangle`).

`raster_triangle` walks the box of a triangle, clamped to the viewport, and hands the covered pixels to
`put_pixel`.  A pixel passes when it lies in the viewport and in the clip rectangle; its index in the
buffers is `y * width + x`.  So a triangle is drawn safely on a bound target when the first and the last
pixel of the common rectangle are pixels of the target: `Fits`.
-/
import FroggyKVM.Lib.Commute
import FroggyKVM.M3g.Target

namespace FroggyKVM.M3g

variable {F : Type} (ops : FloatOps F)

/-! ## Triangles -/

/-- `m3g_vtx_t`: screen coordinates, depth and texture coordinates of a vertex. -/
structure Vtx (F : Type) where
  x : F
  y : F
  z : F
  u : F
  v : F
  culled : Bool

/-- What colours a triangle: the sampler of its texture, if it has one, and the base colour. -/
structure Paint (F : Type) where
  tex : Option (F → F → Nat)
  baseColor : Nat
  mode : PixelMode

/-- The integers from `lo` to `hi`. -/
def interval (lo hi : Int) : List Int := (List.range (hi - lo + 1).toNat).map fun i => lo + (i : Nat)

/-- Twice the signed area of the triangle of three points. -/
def cross (ax ay bx bY cx cy : F) : F :=
  ops.sub (ops.mul (ops.sub bx ax) (ops.sub cy ay)) (ops.mul (ops.sub cx ax) (ops.sub bY ay))

/-- The value at a pixel of what has the values `a`, `b` and `c` at the corners. -/
def interpolate (a b c w0 w1 w2 : F) : F :=
  ops.add (ops.add (ops.mul a w0) (ops.mul b w1)) (ops.mul c w2)

/-- The body of the two loops of `raster_triangle`. -/
def rasterPixel (v0 v1 v2 : Vtx F) (area : F) (paint : Paint F) (y x : Int) (s : M3gCtx) :
    Except MemFault M3gCtx :=
  let px := ops.add (ops.ofInt x) ops.half
  let py := ops.add (ops.ofInt y) ops.half
  let w0 := ops.div (cross ops px py v1.x v1.y v2.x v2.y) area
  let w1 := ops.div (cross ops px py v2.x v2.y v0.x v0.y) area
  let w2 := ops.sub (ops.sub (ops.ofInt 1) w0) w1
  if ops.lt w0 ops.slack || ops.lt w1 ops.slack || ops.lt w2 ops.slack then .ok s
  else
    let z := interpolate ops v0.z v1.z v2.z w0 w1 w2
    let u := interpolate ops v0.u v1.u v2.u w0 w1 w2
    let v := interpolate ops v0.v v1.v v2.v w0 w1 w2
    let rgb := match paint.tex with
      | some sample => sample u v
      | none => paint.baseColor
    putPixel ops paint.mode s ⟨x, y, rgb, z⟩

/-- `raster_triangle`. -/
def rasterTriangle (paint : Paint F) (v0 v1 v2 : Vtx F) (s : M3gCtx) : Except MemFault M3gCtx :=
  let area := cross ops v0.x v0.y v1.x v1.y v2.x v2.y
  if ops.beq area (ops.ofInt 0) then .ok s
  else
    let maxVpX := i32 (i32 (s.vpX + s.vpW) - 1)
    let maxVpY := i32 (i32 (s.vpY + s.vpH) - 1)
    let minx := clampi (ops.floor (ops.fminf (ops.fminf v0.x v1.x) v2.x)) s.vpX maxVpX
    let maxx := clampi (ops.ceil (ops.fmaxf (ops.fmaxf v0.x v1.x) v2.x)) s.vpX maxVpX
    let miny := clampi (ops.floor (ops.fminf (ops.fminf v0.y v1.y) v2.y)) s.vpY maxVpY
    let maxy := clampi (ops.ceil (ops.fmaxf (ops.fmaxf v0.y v1.y) v2.y)) s.vpY maxVpY
    (interval miny maxy).foldlM (fun s y =>
      (interval minx maxx).foldlM (fun s x => rasterPixel ops v0 v1 v2 area paint y x s) s) s

/-! ## A bound target -/

/-- Both buffers are there and have an element for each pixel. -/
structure M3gCtx.Bound (s : M3gCtx) : Prop where
  width : 0 < s.width ∧ s.width ≤ 1024
  height : 0 < s.height ∧ s.height ≤ 1024
  color : s.color.map Buffer.length = some (s.width * s.height).toNat
  depth : s.depth.map Buffer.length = some (s.width * s.height).toNat

/-- The first and the last pixel of the rectangle common to viewport and clip are pixels of the
target, if it has any. -/
def M3gCtx.Fits (s : M3gCtx) : Prop :=
  let x0 := max s.vpX s.clipX
  let x1 := min (i32 (s.vpX + s.vpW)) (i32 (s.clipX + s.clipW))
  let y0 := max s.vpY s.clipY
  let y1 := min (i32 (s.vpY + s.vpH)) (i32 (s.clipY + s.clipH))
  x0 < x1 → y0 < y1 → 0 ≤ y0 * s.width + x0 ∧ (y1 - 1) * s.width + (x1 - 1) < s.width * s.height

theorem SameGeometry.bound {s s' : M3gCtx} (h : SameGeometry s s') (hs : s.Bound) : s'.Bound := by
  have hcolor := h.color
  have hdepth := h.depth
  rw [h.rest]
  exact ⟨hs.width, hs.height, hcolor.trans hs.color, hdepth.trans hs.depth⟩

theorem SameGeometry.fits {s s' : M3gCtx} (h : SameGeometry s s') (hs : s.Fits) : s'.Fits := by
  rw [h.rest]
  exact hs

/-- `Fits` asks for the target exactly what the tests of `put_pixel` leave open. -/
theorem fits_iff {s : M3gCtx} (hs : s.Bound) :
    s.Fits ↔ ∀ x y, s.Visible x y → 0 ≤ y * s.width + x ∧ y * s.width + x < s.width * s.height := by
  constructor
  · intro hfits x y h
    obtain ⟨hvx, hvy, hcx, hcy⟩ := h
    obtain ⟨hfirst, hlast⟩ := hfits (by omega) (by omega)
    have hw := hs.width
    -- the index grows with both coordinates
    have hrow₀ : max s.vpY s.clipY * s.width ≤ y * s.width :=
      Int.mul_le_mul_of_nonneg_right (by omega) hw.1.le
    have hrow₁ : y * s.width ≤
        (min (i32 (s.vpY + s.vpH)) (i32 (s.clipY + s.clipH)) - 1) * s.width :=
      Int.mul_le_mul_of_nonneg_right (by omega) hw.1.le
    lia
  · intro hall hx hy
    have hfirst := hall (max s.vpX s.clipX) (max s.vpY s.clipY) ⟨by lia, by lia, by lia, by lia⟩
    have hlast := hall (min (i32 (s.vpX + s.vpW)) (i32 (s.clipX + s.clipW)) - 1)
      (min (i32 (s.vpY + s.vpH)) (i32 (s.clipY + s.clipH)) - 1)
      ⟨by omega, by omega, by omega, by omega⟩
    exact ⟨hfirst.1, hlast.2⟩

/-- The index of a pixel that passes all tests. -/
theorem pixel_inside {s : M3gCtx} (hs : s.Bound) (hfits : s.Fits) {x y : Int} (h : s.Visible x y) :
    0 ≤ s.pixel x y ∧ s.pixel x y < s.width * s.height := by
  have hrange := (fits_iff hs).1 hfits x y h
  have hsmall : s.width * s.height ≤ 1024 * 1024 :=
    Int.mul_le_mul hs.width.2 hs.height.2 hs.height.1.le (by norm_num)
  unfold M3gCtx.pixel
  rw [i32_of_range (by omega)]
  exact hrange

theorem Bound.inside {s : M3gCtx} {b : Option (Buffer Nat)} {idx : Int}
    (hb : b.map Buffer.length = some (s.width * s.height).toNat)
    (h : 0 ≤ idx ∧ idx < s.width * s.height) : Inside b idx :=
  inside_iff.2 ⟨_, hb, h.1, by omega⟩

/-! ## Drawing inside -/

theorem occluded_ok {s : M3gCtx} {idx : Int} (h : Inside s.depth idx) (mode : PixelMode) (z16 : Nat) :
    ∃ hidden, occluded mode s idx z16 = .ok hidden := by
  unfold occluded
  split
  · rw [readPixel_ok h]
    exact ⟨_, rfl⟩
  · exact ⟨_, rfl⟩

theorem writeDepth_ok {s : M3gCtx} {idx : Int} (h : Inside s.depth idx) (mode : PixelMode)
    (z16 : Nat) : ∃ s', writeDepth mode s idx z16 = .ok s' ∧ s'.color = s.color := by
  unfold writeDepth
  split
  · rw [writePixel_ok h]
    exact ⟨_, rfl, rfl⟩
  · exact ⟨_, rfl, rfl⟩

theorem writeColor_ok {s : M3gCtx} {idx : Int} (h : Inside s.color idx) (mode : PixelMode)
    (rgb : Nat) : ∃ s', writeColor mode s idx rgb = .ok s' := by
  unfold writeColor
  split_ifs
  · exact ⟨_, rfl⟩
  · rw [readPixel_ok h, ok_bind, writePixel_ok h]
    exact ⟨_, rfl⟩
  · rw [writePixel_ok h]
    exact ⟨_, rfl⟩

theorem storePixel_ok {s : M3gCtx} {idx : Int} (hdepth : Inside s.depth idx)
    (hcolor : Inside s.color idx) (mode : PixelMode) (z16 rgb : Nat) :
    ∃ s', storePixel mode s idx z16 rgb = .ok s' := by
  obtain ⟨hidden, hhidden⟩ := occluded_ok hdepth mode z16
  obtain ⟨s₁, hwrite, hsame⟩ := writeDepth_ok hdepth mode z16
  obtain ⟨s₂, hfinal⟩ := writeColor_ok (s := s₁) (hsame ▸ hcolor) mode rgb
  unfold storePixel
  rw [hhidden, ok_bind]
  split
  · exact ⟨_, rfl⟩
  · rw [hwrite, ok_bind]
    exact ⟨s₂, hfinal⟩

/-- One pixel. -/
theorem putPixel_ok {s : M3gCtx} (hs : s.Bound) (hfits : s.Fits) (mode : PixelMode) (f : Fragment F) :
    ∃ s', putPixel ops mode s f = .ok s' := by
  by_cases h : s.Visible f.x f.y
  · have hin := pixel_inside hs hfits h
    rw [putPixel_visible ops h]
    exact storePixel_ok (Bound.inside hs.depth hin) (Bound.inside hs.color hin) mode _ _
  · exact ⟨s, putPixel_hidden ops h mode⟩

/-- What drawing keeps. -/
structure Drawable (s : M3gCtx) : Prop where
  bound : s.Bound
  fits : s.Fits

theorem SameGeometry.drawable {s s' : M3gCtx} (h : SameGeometry s s') (hs : Drawable s) :
    Drawable s' := ⟨h.bound hs.bound, h.fits hs.fits⟩

theorem rasterPixel_ok {s : M3gCtx} (hs : Drawable s) (v0 v1 v2 : Vtx F) (area : F) (paint : Paint F)
    (y x : Int) : Succeeds (rasterPixel ops v0 v1 v2 area paint y x s) (SameGeometry s) := by
  unfold rasterPixel
  dsimp only
  split
  · exact Succeeds.ok (.refl s)
  · obtain ⟨s', h⟩ := putPixel_ok ops hs.bound hs.fits paint.mode _
    exact ⟨s', h, putPixel_geometry ops h⟩

/-- A run of steps that each draw. -/
theorem foldlM_draws {α : Type} {step : M3gCtx → α → Except MemFault M3gCtx}
    (h : ∀ s a, Drawable s → Succeeds (step s a) (SameGeometry s)) :
    ∀ (l : List α) {s : M3gCtx}, Drawable s → Succeeds (l.foldlM step s) (SameGeometry s) := by
  intro l s hs
  refine Succeeds.foldlM (fun s₁ a h₁ => ?_) l (.refl s)
  exact (h s₁ a (h₁.drawable hs)).mono fun s₂ h₂ => h₁.trans h₂

/-- **A triangle on a target that fits is drawn inside it.** -/
theorem rasterTriangle_ok {s : M3gCtx} (hs : Drawable s) (paint : Paint F) (v0 v1 v2 : Vtx F) :
    Succeeds (rasterTriangle ops paint v0 v1 v2 s) (SameGeometry s) := by
  unfold rasterTriangle
  dsimp only
  split
  · exact Succeeds.ok (.refl s)
  · apply foldlM_draws _ _ hs
    intro s₁ y hs₁
    apply foldlM_draws _ _ hs₁
    exact fun s₂ x hs₂ => rasterPixel_ok ops hs₂ v0 v1 v2 _ paint y x

end FroggyKVM.M3g
