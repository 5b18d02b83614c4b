/-
# FroggyKVM.M3g.Target — the render context and its pixels (`platform_gb300/m3g_gb300.c`).

The M3G renderer has one target of 320 by 240 pixels, a colour and a depth buffer, and two rectangles
that the application sets with any values: viewport and clip.  `put_pixel` tests a pixel against the
rectangles only, never against the size of the target.  Floating point is a parameter: nothing here
depends on how it rounds.
-/
import FroggyKVM.Lib.Buffer
import FroggyKVM.Lib.MachineInt
import FroggyKVM.Lib.Returns

namespace FroggyKVM.M3g

/-! ## Floating point -/

/-- The operations on `float` that the rasteriser uses. -/
structure FloatOps (F : Type) where
  ofInt : Int → F
  add : F → F → F
  sub : F → F → F
  mul : F → F → F
  div : F → F → F
  lt : F → F → Bool
  le : F → F → Bool
  beq : F → F → Bool
  fminf : F → F → F
  fmaxf : F → F → F
  /-- `(int)floorf(x)` -/
  floor : F → Int
  /-- `(int)ceilf(x)` -/
  ceil : F → Int
  /-- `(unsigned short)x` -/
  toUShort : F → Nat
  /-- `0.5f` -/
  half : F
  /-- `-0.001f` -/
  slack : F
  /-- `0.0001f` -/
  eye : F

/-- Exact arithmetic. -/
def ratOps : FloatOps Rat where
  ofInt n := n
  add := (· + ·)
  sub := (· - ·)
  mul := (· * ·)
  div := (· / ·)
  lt a b := decide (a < b)
  le a b := decide (a ≤ b)
  beq a b := decide (a = b)
  fminf a b := if a < b then a else b
  fmaxf a b := if a < b then b else a
  floor := Rat.floor
  ceil := Rat.ceil
  toUShort x := (x.floor % 65536).toNat
  half := 1 / 2
  slack := -1 / 1000
  eye := 1 / 10000

/-! ## The context -/

/-- `m3g_ctx_t`, as far as drawing reads it. -/
structure M3gCtx where
  width : Int := 0
  height : Int := 0
  vpX : Int := 0
  vpY : Int := 0
  vpW : Int := 0
  vpH : Int := 0
  clipX : Int := 0
  clipY : Int := 0
  clipW : Int := 0
  clipH : Int := 0
  /-- `0x00RRGGBB` for each pixel; `none` is a null pointer -/
  color : Option (Buffer Nat) := none
  /-- 16 bits for each pixel -/
  depth : Option (Buffer Nat) := none

/-- `calloc`. -/
def calloc (ok : Bool) (n : Nat) : Option (Buffer Nat) := if ok then some ⟨n, fun _ => 0⟩ else none

/-- `m3g_free_targets`. -/
def m3gFreeTargets (s : M3gCtx) : M3gCtx := { s with color := none, depth := none }

/-- `m3g_alloc_targets`; the flags say whether the two allocations succeed. -/
def m3gAllocTargets (okColor okDepth : Bool) (w h : Int) (s : M3gCtx) : M3gCtx × Bool :=
  if w ≤ 0 ∨ h ≤ 0 ∨ w > 1024 ∨ h > 1024 then (s, false)
  else if s.color.isSome ∧ s.depth.isSome ∧ s.width = w ∧ s.height = h then (s, true)
  else
    let n := w.toNat * h.toNat
    let s : M3gCtx := { m3gFreeTargets s with color := calloc okColor n, depth := calloc okDepth n }
    if s.color.isNone ∨ s.depth.isNone then (m3gFreeTargets s, false)
    else ({ s with width := w, height := h }, true)

/-- `nBind`: a new target of 320 by 240 pixels. -/
def nBind (okColor okDepth : Bool) (_ : M3gCtx) : M3gCtx × Int :=
  let w := 320
  let h := 240
  let s : M3gCtx := { width := w, height := h, vpW := w, vpH := h, clipW := w, clipH := h }
  let (s, ok) := m3gAllocTargets okColor okDepth w h s
  if ok then (s, w % 65536 * 65536 + h % 65536) else (s, 0)

/-- `nRelease`. -/
def nRelease (s : M3gCtx) : M3gCtx := m3gFreeTargets s

/-- `nSetViewport`. -/
def nSetViewport (x y w h : Int) (s : M3gCtx) : M3gCtx := { s with vpX := x, vpY := y, vpW := w, vpH := h }

/-- `nSetClipRect`. -/
def nSetClipRect (x y w h : Int) (s : M3gCtx) : M3gCtx :=
  { s with clipX := x, clipY := y, clipW := w, clipH := h }

/-! ## Pixels -/

def readPixel (b : Option (Buffer Nat)) (idx : Int) : Except MemFault Nat :=
  match b with
  | none => .error .outOfRange
  | some b => if 0 ≤ idx then b.get idx.toNat else .error .outOfRange

def writePixel (b : Option (Buffer Nat)) (idx : Int) (v : Nat) : Except MemFault (Option (Buffer Nat)) :=
  match b with
  | none => .error .outOfRange
  | some b => if 0 ≤ idx then some <$> b.set idx.toNat v else .error .outOfRange

def clampi (v lo hi : Int) : Int := if v < lo then lo else if v > hi then hi else v

/-- One channel of a blended pixel: the average (`ALPHA`) or the sum (`ALPHA_ADD`). -/
def blendChannel (blend : Int) (dst src : Nat) : Nat :=
  (clampi (if blend = 1 then (dst + src : Int) / 2 else dst + src) 0 255).toNat

/-- The blended pixel. -/
def blendPixel (blend : Int) (dst rgb : Nat) : Nat :=
  blendChannel blend (dst / 65536 % 256) (rgb / 65536 % 256) * 65536 +
    blendChannel blend (dst / 256 % 256) (rgb / 256 % 256) * 256 +
    blendChannel blend (dst % 256) (rgb % 256)

/-- The last four parameters of `put_pixel`. -/
structure PixelMode where
  blend : Int
  colorWrite : Bool
  depthWrite : Bool
  depthTest : Bool

/-- The other parameters of `put_pixel`. -/
structure Fragment (F : Type) where
  x : Int
  y : Int
  rgb : Nat
  z : F

variable {F : Type} (ops : FloatOps F)

/-- `z`, cut to the range from 0 to 1. -/
def clampUnit (z : F) : F :=
  let z := if ops.lt z (ops.ofInt 0) then ops.ofInt 0 else z
  if ops.lt (ops.ofInt 1) z then ops.ofInt 1 else z

/-- The depth of a fragment, as it is compared and stored. -/
def quantise (z : F) : Nat := ops.toUShort (ops.mul (clampUnit ops z) (ops.ofInt 65535)) % 65536

/-- `idx`. -/
def M3gCtx.pixel (s : M3gCtx) (x y : Int) : Int := i32 (y * s.width + x)

/-- Something closer is there already. -/
def occluded (mode : PixelMode) (s : M3gCtx) (idx : Int) (z16 : Nat) : Except MemFault Bool :=
  if mode.depthTest then (fun d => decide (z16 ≥ d)) <$> readPixel s.depth idx else .ok false

def writeDepth (mode : PixelMode) (s : M3gCtx) (idx : Int) (z16 : Nat) : Except MemFault M3gCtx :=
  if mode.depthWrite then (fun depth => { s with depth }) <$> writePixel s.depth idx z16 else .ok s

def writeColor (mode : PixelMode) (s : M3gCtx) (idx : Int) (rgb : Nat) : Except MemFault M3gCtx :=
  if !mode.colorWrite then .ok s
  else if mode.blend = 1 ∨ mode.blend = 2 then do
    let dst ← readPixel s.color idx
    (fun color => { s with color }) <$> writePixel s.color idx (blendPixel mode.blend dst rgb)
  else (fun color => { s with color }) <$> writePixel s.color idx (rgb % 16777216)

/-- `put_pixel` behind the tests of the coordinates. -/
def storePixel (mode : PixelMode) (s : M3gCtx) (idx : Int) (z16 rgb : Nat) :
    Except MemFault M3gCtx := do
  let hidden ← occluded mode s idx z16
  if hidden then return s
  let s ← writeDepth mode s idx z16
  writeColor mode s idx rgb

/-- `put_pixel`. -/
def putPixel (mode : PixelMode) (s : M3gCtx) (f : Fragment F) : Except MemFault M3gCtx := do
  if f.x < s.vpX ∨ f.x ≥ i32 (s.vpX + s.vpW) then return s
  if f.y < s.vpY ∨ f.y ≥ i32 (s.vpY + s.vpH) then return s
  if f.x < s.clipX ∨ f.x ≥ i32 (s.clipX + s.clipW) then return s
  if f.y < s.clipY ∨ f.y ≥ i32 (s.clipY + s.clipH) then return s
  storePixel mode s (s.pixel f.x f.y) (quantise ops f.z) f.rgb

/-! ## Cells -/

/-- `idx` is the index of an element of `b`. -/
def Inside (b : Option (Buffer Nat)) (idx : Int) : Prop :=
  ∃ m, b = some m ∧ 0 ≤ idx ∧ idx.toNat < m.length

instance (b : Option (Buffer Nat)) (idx : Int) : Decidable (Inside b idx) :=
  match b with
  | none => isFalse fun ⟨_, h, _⟩ => nomatch h
  | some m => decidable_of_iff (0 ≤ idx ∧ idx.toNat < m.length)
      ⟨fun h => ⟨m, rfl, h⟩, fun ⟨_, h, hin⟩ => Option.some.inj h ▸ hin⟩

/-- The element at `idx`. -/
def cell (b : Option (Buffer Nat)) (idx : Int) : Nat := b.elim 0 fun m => m.data idx.toNat

/-- `b` with another element at `idx`. -/
def putCell (b : Option (Buffer Nat)) (idx : Int) (v : Nat) : Option (Buffer Nat) :=
  b.map fun m => { m with data := fun k => if k = idx.toNat then v else m.data k }

theorem readPixel_ok {b : Option (Buffer Nat)} {idx : Int} (h : Inside b idx) :
    readPixel b idx = .ok (cell b idx) := by
  obtain ⟨m, rfl, h₀, hlt⟩ := h
  show (if 0 ≤ idx then m.get idx.toNat else _) = _
  rw [if_pos h₀, Buffer.get_ok hlt]
  rfl

theorem readPixel_error {b : Option (Buffer Nat)} {idx : Int} (h : ¬ Inside b idx) :
    readPixel b idx = .error .outOfRange := by
  cases b with
  | none => rfl
  | some m =>
    show (if 0 ≤ idx then m.get idx.toNat else _) = _
    by_cases h₀ : 0 ≤ idx
    · rw [if_pos h₀]
      exact Buffer.get_error (Nat.not_lt.1 fun hlt => h ⟨m, rfl, h₀, hlt⟩)
    · exact if_neg h₀

theorem writePixel_ok {b : Option (Buffer Nat)} {idx : Int} (h : Inside b idx) (v : Nat) :
    writePixel b idx v = .ok (putCell b idx v) := by
  obtain ⟨m, rfl, h₀, hlt⟩ := h
  show (if 0 ≤ idx then some <$> m.set idx.toNat v else _) = _
  rw [if_pos h₀, Buffer.set_ok hlt]
  rfl

theorem writePixel_error {b : Option (Buffer Nat)} {idx : Int} (h : ¬ Inside b idx) (v : Nat) :
    writePixel b idx v = .error .outOfRange := by
  cases b with
  | none => rfl
  | some m =>
    show (if 0 ≤ idx then some <$> m.set idx.toNat v else _) = _
    by_cases h₀ : 0 ≤ idx
    · have hlong : ¬ idx.toNat + 1 ≤ m.length := fun hlt => h ⟨m, rfl, h₀, hlt⟩
      rw [if_pos h₀, Buffer.set, Buffer.write, if_neg hlong]
      rfl
    · exact if_neg h₀

@[simp] theorem putCell_length (b : Option (Buffer Nat)) (idx : Int) (v : Nat) :
    (putCell b idx v).map Buffer.length = b.map Buffer.length := by
  cases b <;> rfl

/-- Whether an index is inside depends on the length only. -/
theorem inside_iff {b : Option (Buffer Nat)} {idx : Int} :
    Inside b idx ↔ ∃ n, b.map Buffer.length = some n ∧ 0 ≤ idx ∧ idx.toNat < n := by
  constructor
  · rintro ⟨m, rfl, h⟩
    exact ⟨m.length, rfl, h⟩
  · rintro ⟨n, hlen, h⟩
    obtain ⟨m, rfl, rfl⟩ := Option.map_eq_some_iff.1 hlen
    exact ⟨m, rfl, h⟩

@[simp] theorem inside_putCell {b : Option (Buffer Nat)} {i j : Int} {v : Nat} :
    Inside (putCell b i v) j ↔ Inside b j := by
  rw [inside_iff, inside_iff, putCell_length]

theorem cell_putCell_same {b : Option (Buffer Nat)} {idx : Int} (h : Inside b idx) (v : Nat) :
    cell (putCell b idx v) idx = v := by
  obtain ⟨m, rfl, -⟩ := h
  exact if_pos rfl

theorem cell_putCell_other {b : Option (Buffer Nat)} {i j : Int} (h : j.toNat ≠ i.toNat) (v : Nat) :
    cell (putCell b i v) j = cell b j := by
  cases b with
  | none => rfl
  | some m => exact if_neg h

theorem putCell_putCell_same (b : Option (Buffer Nat)) (idx : Int) (v w : Nat) :
    putCell (putCell b idx v) idx w = putCell b idx w := by
  cases b with
  | none => rfl
  | some m =>
    refine congrArg some (congrArg (Buffer.mk m.length) (funext fun k => ?_))
    by_cases hk : k = idx.toNat
    · exact (if_pos hk).trans (if_pos hk).symm
    · exact (if_neg hk).trans ((if_neg hk).trans (if_neg hk).symm)

theorem putCell_putCell_other {b : Option (Buffer Nat)} {i j : Int} (h : i.toNat ≠ j.toNat)
    (v w : Nat) : putCell (putCell b i v) j w = putCell (putCell b j w) i v := by
  cases b with
  | none => rfl
  | some m =>
    refine congrArg some (congrArg (Buffer.mk m.length) (funext fun k => ?_))
    show (if k = j.toNat then w else if k = i.toNat then v else m.data k) =
      if k = i.toNat then v else if k = j.toNat then w else m.data k
    by_cases hj : k = j.toNat
    · rw [if_pos hj, if_neg (by omega), if_pos hj]
    · rw [if_neg hj, if_neg hj]

/-! ## What a pixel leaves alone -/

/-- The pixels that `put_pixel` does not reject. -/
structure M3gCtx.Visible (s : M3gCtx) (x y : Int) : Prop where
  vpX : s.vpX ≤ x ∧ x < i32 (s.vpX + s.vpW)
  vpY : s.vpY ≤ y ∧ y < i32 (s.vpY + s.vpH)
  clipX : s.clipX ≤ x ∧ x < i32 (s.clipX + s.clipW)
  clipY : s.clipY ≤ y ∧ y < i32 (s.clipY + s.clipH)

/-- Everything but the contents of the buffers is the same. -/
structure SameGeometry (s s' : M3gCtx) : Prop where
  rest : s' = { s with color := s'.color, depth := s'.depth }
  color : s'.color.map Buffer.length = s.color.map Buffer.length
  depth : s'.depth.map Buffer.length = s.depth.map Buffer.length

theorem SameGeometry.refl (s : M3gCtx) : SameGeometry s s := ⟨rfl, rfl, rfl⟩

theorem SameGeometry.trans {s₁ s₂ s₃ : M3gCtx} (h₁ : SameGeometry s₁ s₂) (h₂ : SameGeometry s₂ s₃) :
    SameGeometry s₁ s₃ := by
  refine ⟨?_, h₂.color.trans h₁.color, h₂.depth.trans h₁.depth⟩
  rw [h₂.rest, h₁.rest]

theorem SameGeometry.pixel {s s' : M3gCtx} (h : SameGeometry s s') (x y : Int) :
    s'.pixel x y = s.pixel x y := by
  rw [h.rest]
  rfl

theorem SameGeometry.visible {s s' : M3gCtx} (h : SameGeometry s s') {x y : Int} :
    s'.Visible x y ↔ s.Visible x y := by
  rw [h.rest]
  exact ⟨fun ⟨h₁, h₂, h₃, h₄⟩ => ⟨h₁, h₂, h₃, h₄⟩, fun ⟨h₁, h₂, h₃, h₄⟩ => ⟨h₁, h₂, h₃, h₄⟩⟩

theorem writePixel_length {b b' : Option (Buffer Nat)} {idx : Int} {v : Nat}
    (h : writePixel b idx v = .ok b') : b'.map Buffer.length = b.map Buffer.length := by
  by_cases hin : Inside b idx
  · rw [writePixel_ok hin] at h
    obtain rfl := Except.ok.inj h
    exact putCell_length b idx v
  · rw [writePixel_error hin] at h
    cases h

theorem writeDepth_geometry {mode : PixelMode} {s s' : M3gCtx} {idx : Int} {z16 : Nat}
    (h : writeDepth mode s idx z16 = .ok s') : SameGeometry s s' := by
  unfold writeDepth at h
  split at h
  · obtain ⟨depth, hdepth, rfl⟩ := ok_of_map h
    exact ⟨rfl, rfl, writePixel_length hdepth⟩
  · obtain rfl := Except.ok.inj h
    exact .refl s

theorem writeColor_geometry {mode : PixelMode} {s s' : M3gCtx} {idx : Int} {rgb : Nat}
    (h : writeColor mode s idx rgb = .ok s') : SameGeometry s s' := by
  unfold writeColor at h
  split_ifs at h
  · obtain rfl := Except.ok.inj h
    exact .refl s
  · obtain ⟨dst, -, h⟩ := ok_of_bind h
    obtain ⟨color, hcolor, rfl⟩ := ok_of_map h
    exact ⟨rfl, writePixel_length hcolor, rfl⟩
  · obtain ⟨color, hcolor, rfl⟩ := ok_of_map h
    exact ⟨rfl, writePixel_length hcolor, rfl⟩

theorem storePixel_geometry {mode : PixelMode} {s s' : M3gCtx} {idx : Int} {z16 rgb : Nat}
    (h : storePixel mode s idx z16 rgb = .ok s') : SameGeometry s s' := by
  obtain ⟨hidden, -, h⟩ := ok_of_bind h
  split at h
  · obtain rfl := Except.ok.inj h
    exact .refl s
  · obtain ⟨s₁, hdepth, hcolor⟩ := ok_of_bind h
    exact (writeDepth_geometry hdepth).trans (writeColor_geometry hcolor)

theorem putPixel_visible {s : M3gCtx} {f : Fragment F} (h : s.Visible f.x f.y) (mode : PixelMode) :
    putPixel ops mode s f = storePixel mode s (s.pixel f.x f.y) (quantise ops f.z) f.rgb := by
  obtain ⟨h₁, h₂, h₃, h₄⟩ := h
  unfold putPixel
  rw [if_neg (by omega), if_neg (by omega), if_neg (by omega), if_neg (by omega)]

theorem putPixel_hidden {s : M3gCtx} {f : Fragment F} (h : ¬ s.Visible f.x f.y) (mode : PixelMode) :
    putPixel ops mode s f = .ok s := by
  unfold putPixel
  split_ifs with h₁ h₂ h₃ h₄
  · rfl
  · rfl
  · rfl
  · rfl
  · exact absurd ⟨by omega, by omega, by omega, by omega⟩ h

theorem putPixel_geometry {mode : PixelMode} {s s' : M3gCtx} {f : Fragment F}
    (h : putPixel ops mode s f = .ok s') : SameGeometry s s' := by
  by_cases hvisible : s.Visible f.x f.y
  · rw [putPixel_visible ops hvisible] at h
    exact storePixel_geometry h
  · rw [putPixel_hidden ops hvisible] at h
    obtain rfl := Except.ok.inj h
    exact .refl s

end FroggyKVM.M3g
