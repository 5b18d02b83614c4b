/-
# FroggyKVM.M3g.Opaque — opaque fragments may be drawn in any order (`put_pixel`).

With depth test and depth write on, a fragment is drawn exactly when its quantised depth is below the
stored one, and the value compared is the value stored.  Of two fragments on one element of the
buffers the nearer wins in both orders; on two elements they do not meet.  A pixel is an element of
the buffers here: two coordinates with one index are one pixel.
-/
import FroggyKVM.Lib.Commute
import FroggyKVM.M3g.Target

namespace FroggyKVM.M3g

variable {F : Type} (ops : FloatOps F) {mode : PixelMode}

/-! ## One opaque fragment -/

/-- The colour replaces the old one, and depth test and depth write are on. -/
structure PixelMode.Opaque (mode : PixelMode) : Prop where
  replaces : ¬ (mode.blend = 1 ∨ mode.blend = 2)
  tests : mode.depthTest = true
  writes : mode.depthWrite = true

/-- The context with one opaque fragment drawn. -/
def M3gCtx.paint (mode : PixelMode) (s : M3gCtx) (idx : Int) (z16 rgb : Nat) : M3gCtx :=
  { s with
    depth := putCell s.depth idx z16
    color := if mode.colorWrite then putCell s.color idx (rgb % 16777216) else s.color }

/-- The buffers that an opaque fragment at `idx` touches have such an element. -/
def M3gCtx.Reaches (mode : PixelMode) (s : M3gCtx) (idx : Int) : Prop :=
  mode.colorWrite = true → Inside s.color idx

instance (s : M3gCtx) (idx : Int) : Decidable (s.Reaches mode idx) :=
  inferInstanceAs (Decidable (_ → _))

theorem writeColor_replaces (hmode : mode.Opaque) (s : M3gCtx) (idx : Int) (rgb : Nat) :
    writeColor mode s idx rgb =
      if s.Reaches mode idx then
        .ok { s with color := if mode.colorWrite then putCell s.color idx (rgb % 16777216) else s.color }
      else .error .outOfRange := by
  unfold writeColor
  by_cases hcolor : mode.colorWrite = true
  · rw [if_neg (by simp [hcolor]), if_neg hmode.replaces, if_pos hcolor]
    by_cases hin : Inside s.color idx
    · have hreach : s.Reaches mode idx := fun _ => hin
      rw [if_pos hreach, writePixel_ok hin]
      rfl
    · have hreach : ¬ s.Reaches mode idx := fun h => hin (h hcolor)
      rw [if_neg hreach, writePixel_error hin]
      rfl
  · have hreach : s.Reaches mode idx := fun h => absurd h hcolor
    rw [if_pos (by simp [hcolor]), if_pos hreach, if_neg hcolor]

/-- **An opaque fragment is drawn exactly when it is nearer than what is there.** -/
theorem storePixel_nearer (hmode : mode.Opaque) (s : M3gCtx) (idx : Int) (z16 rgb : Nat) :
    storePixel mode s idx z16 rgb =
      if Inside s.depth idx then
        if cell s.depth idx ≤ z16 then .ok s
        else if s.Reaches mode idx then .ok (s.paint mode idx z16 rgb) else .error .outOfRange
      else .error .outOfRange := by
  unfold storePixel occluded
  rw [if_pos hmode.tests]
  by_cases hin : Inside s.depth idx
  · rw [readPixel_ok hin, if_pos hin]
    show (if decide (z16 ≥ cell s.depth idx) = true then _ else _) = _
    by_cases hhidden : cell s.depth idx ≤ z16
    · rw [if_pos hhidden, if_pos (decide_eq_true hhidden)]
      rfl
    · rw [if_neg hhidden, if_neg (mt of_decide_eq_true hhidden)]
      unfold writeDepth
      rw [if_pos hmode.writes, writePixel_ok hin]
      exact writeColor_replaces hmode _ idx rgb
  · rw [readPixel_error hin, if_neg hin]
    rfl

@[simp] theorem inside_paint_depth {s : M3gCtx} {i j : Int} {z16 rgb : Nat} :
    Inside (s.paint mode i z16 rgb).depth j ↔ Inside s.depth j := inside_putCell

@[simp] theorem reaches_paint {s : M3gCtx} {i j : Int} {z16 rgb : Nat} :
    (s.paint mode i z16 rgb).Reaches mode j ↔ s.Reaches mode j := by
  unfold M3gCtx.Reaches M3gCtx.paint
  cases mode.colorWrite with
  | false => exact Iff.rfl
  | true => exact imp_congr Iff.rfl inside_putCell

theorem paint_paint_same (s : M3gCtx) (idx : Int) (z₁ z₂ r₁ r₂ : Nat) :
    (s.paint mode idx z₁ r₁).paint mode idx z₂ r₂ = s.paint mode idx z₂ r₂ := by
  unfold M3gCtx.paint
  cases mode.colorWrite with
  | false => simp [putCell_putCell_same]
  | true => simp [putCell_putCell_same]

theorem paint_paint_other (s : M3gCtx) {i j : Int} (h : i.toNat ≠ j.toNat) (z₁ z₂ r₁ r₂ : Nat) :
    (s.paint mode i z₁ r₁).paint mode j z₂ r₂ = (s.paint mode j z₂ r₂).paint mode i z₁ r₁ := by
  unfold M3gCtx.paint
  cases mode.colorWrite with
  | false => simp [putCell_putCell_other h]
  | true => simp [putCell_putCell_other h]

/-! ## Two opaque fragments -/

/-- A farther fragment behind a nearer one changes nothing. -/
theorem storePixel_behind (hmode : mode.Opaque) (s : M3gCtx) (idx : Int) {z₁ z₂ : Nat}
    (hz : z₁ ≤ z₂) (r₁ r₂ : Nat) :
    (storePixel mode s idx z₁ r₁ >>= fun s => storePixel mode s idx z₂ r₂) =
      storePixel mode s idx z₁ r₁ := by
  rw [storePixel_nearer hmode s idx z₁ r₁]
  by_cases hin : Inside s.depth idx
  · rw [if_pos hin]
    by_cases hhidden : cell s.depth idx ≤ z₁
    · rw [if_pos hhidden, ok_bind, storePixel_nearer hmode, if_pos hin, if_pos (hhidden.trans hz)]
    · rw [if_neg hhidden]
      by_cases hreach : s.Reaches mode idx
      · have hstored : cell (s.paint mode idx z₁ r₁).depth idx = z₁ := cell_putCell_same hin z₁
        rw [if_pos hreach, ok_bind, storePixel_nearer hmode, if_pos (inside_paint_depth.2 hin), hstored,
          if_pos hz]
      · rw [if_neg hreach]
        rfl
  · rw [if_neg hin]
    rfl

/-- A nearer fragment before a farther one replaces it. -/
theorem storePixel_before (hmode : mode.Opaque) (s : M3gCtx) (idx : Int) {z₁ z₂ : Nat}
    (hz : z₁ < z₂) (r₁ r₂ : Nat) :
    (storePixel mode s idx z₂ r₂ >>= fun s => storePixel mode s idx z₁ r₁) =
      storePixel mode s idx z₁ r₁ := by
  rw [storePixel_nearer hmode s idx z₂ r₂]
  by_cases hin : Inside s.depth idx
  · rw [if_pos hin]
    by_cases hhidden : cell s.depth idx ≤ z₂
    · rw [if_pos hhidden, ok_bind]
    · have hdrawn : ¬ cell s.depth idx ≤ z₁ := by omega
      rw [if_neg hhidden, storePixel_nearer hmode s idx z₁ r₁, if_pos hin, if_neg hdrawn]
      by_cases hreach : s.Reaches mode idx
      · have hstored : cell (s.paint mode idx z₂ r₂).depth idx = z₂ := cell_putCell_same hin z₂
        rw [if_pos hreach, if_pos hreach, ok_bind, storePixel_nearer hmode,
          if_pos (inside_paint_depth.2 hin), hstored, if_neg (by omega), if_pos (reaches_paint.2 hreach),
          paint_paint_same]
      · rw [if_neg hreach, if_neg hreach]
        rfl
  · rw [if_neg hin, storePixel_nearer hmode, if_neg hin]
    rfl

/-- What a fragment at one element does, a fragment at another one does not see. -/
theorem storePixel_paint (hmode : mode.Opaque) {s : M3gCtx} {i j : Int} (hij : i ≠ j)
    (hi : Inside s.depth i) (z₁ z₂ r₁ r₂ : Nat) :
    storePixel mode (s.paint mode i z₁ r₁) j z₂ r₂ =
      (fun s => s.paint mode i z₁ r₁) <$> storePixel mode s j z₂ r₂ := by
  rw [storePixel_nearer hmode, storePixel_nearer hmode]
  by_cases hj : Inside s.depth j
  · have hcells : i.toNat ≠ j.toNat := by
      obtain ⟨-, -, hi₀, -⟩ := hi
      obtain ⟨-, -, hj₀, -⟩ := hj
      omega
    have hcell : cell (s.paint mode i z₁ r₁).depth j = cell s.depth j :=
      cell_putCell_other (Ne.symm hcells) z₁
    simp only [inside_paint_depth, reaches_paint, hcell, paint_paint_other s hcells]
    split_ifs
    · rfl
    · rfl
    · rfl
  · rw [if_neg hj, if_neg (mt inside_paint_depth.1 hj)]
    rfl

/-- What one opaque fragment can do. -/
theorem storePixel_cases (hmode : mode.Opaque) (s : M3gCtx) (idx : Int) (z16 rgb : Nat) :
    storePixel mode s idx z16 rgb = .ok s ∨
    (Inside s.depth idx ∧ storePixel mode s idx z16 rgb = .ok (s.paint mode idx z16 rgb)) ∨
    storePixel mode s idx z16 rgb = .error .outOfRange := by
  rw [storePixel_nearer hmode]
  split_ifs with hin hhidden hreach
  · exact .inl rfl
  · exact .inr (.inl ⟨hin, rfl⟩)
  · exact .inr (.inr rfl)
  · exact .inr (.inr rfl)

theorem storePixel_comm_other (hmode : mode.Opaque) (s : M3gCtx) {i j : Int} (hij : i ≠ j)
    (z₁ z₂ r₁ r₂ : Nat) :
    (storePixel mode s i z₁ r₁ >>= fun s => storePixel mode s j z₂ r₂) =
      (storePixel mode s j z₂ r₂ >>= fun s => storePixel mode s i z₁ r₁) := by
  rcases storePixel_cases hmode s i z₁ r₁ with hi | ⟨hin, hi⟩ | hi
  · rw [hi, ok_bind]
    rcases storePixel_cases hmode s j z₂ r₂ with hj | ⟨hjn, hj⟩ | hj
    · rw [hj, ok_bind, hi]
    · rw [hj, ok_bind, storePixel_paint hmode hij.symm hjn, hi]
      rfl
    · rw [hj]
      rfl
  · rw [hi, ok_bind, storePixel_paint hmode hij hin]
    rcases storePixel_cases hmode s j z₂ r₂ with hj | ⟨hjn, hj⟩ | hj
    · rw [hj, ok_bind, hi]
      rfl
    · have hcells : i.toNat ≠ j.toNat := by
        obtain ⟨-, -, hi₀, -⟩ := hin
        obtain ⟨-, -, hj₀, -⟩ := hjn
        omega
      rw [hj, ok_bind, storePixel_paint hmode hij.symm hjn, hi]
      exact congrArg Except.ok (paint_paint_other s hcells.symm z₂ z₁ r₂ r₁)
    · rw [hj]
      rfl
  · rw [hi]
    rcases storePixel_cases hmode s j z₂ r₂ with hj | ⟨hjn, hj⟩ | hj
    · rw [hj, ok_bind, hi]
      rfl
    · rw [hj, ok_bind, storePixel_paint hmode hij.symm hjn, hi]
      rfl
    · rw [hj]
      rfl

/-- **Two opaque fragments commute** unless they have one depth on one element. -/
theorem storePixel_comm (hmode : mode.Opaque) (s : M3gCtx) {i j : Int} {z₁ z₂ : Nat}
    (h : i = j → z₁ ≠ z₂) (r₁ r₂ : Nat) :
    (storePixel mode s i z₁ r₁ >>= fun s => storePixel mode s j z₂ r₂) =
      (storePixel mode s j z₂ r₂ >>= fun s => storePixel mode s i z₁ r₁) := by
  by_cases hij : i = j
  · subst hij
    rcases Nat.lt_or_gt_of_ne (h rfl) with hz | hz
    · rw [storePixel_behind hmode s i hz.le, storePixel_before hmode s i hz]
    · rw [storePixel_behind hmode s i hz.le, storePixel_before hmode s i hz]
  · exact storePixel_comm_other hmode s hij z₁ z₂ r₁ r₂

theorem bind_putPixel {s : M3gCtx} {b : Fragment F} (hb : s.Visible b.x b.y) (idx : Int)
    (z16 rgb : Nat) :
    (storePixel mode s idx z16 rgb >>= fun s => putPixel ops mode s b) =
      (storePixel mode s idx z16 rgb >>= fun s' =>
        storePixel mode s' (s.pixel b.x b.y) (quantise ops b.z) b.rgb) := by
  cases hstep : storePixel mode s idx z16 rgb with
  | error e => rfl
  | ok s' =>
    have hsame := storePixel_geometry hstep
    rw [ok_bind, ok_bind, putPixel_visible ops (hsame.visible.2 hb), hsame.pixel]

theorem putPixel_comm_hidden {s : M3gCtx} {a : Fragment F} (ha : ¬ s.Visible a.x a.y)
    (b : Fragment F) :
    (putPixel ops mode s a >>= fun s => putPixel ops mode s b) =
      (putPixel ops mode s b >>= fun s => putPixel ops mode s a) := by
  rw [putPixel_hidden ops ha, ok_bind]
  cases hstep : putPixel ops mode s b with
  | error e => rfl
  | ok s' => rw [ok_bind, putPixel_hidden ops (mt (putPixel_geometry ops hstep).visible.1 ha)]

/-- Two fragments that `put_pixel` may draw in either order. -/
def Apart (s : M3gCtx) (a b : Fragment F) : Prop :=
  s.pixel a.x a.y = s.pixel b.x b.y → quantise ops a.z ≠ quantise ops b.z

theorem putPixel_comm (hmode : mode.Opaque) {s : M3gCtx} {a b : Fragment F} (h : Apart ops s a b) :
    (putPixel ops mode s a >>= fun s => putPixel ops mode s b) =
      (putPixel ops mode s b >>= fun s => putPixel ops mode s a) := by
  by_cases ha : s.Visible a.x a.y
  · by_cases hb : s.Visible b.x b.y
    · rw [putPixel_visible ops ha, putPixel_visible ops hb, bind_putPixel ops hb, bind_putPixel ops ha]
      exact storePixel_comm hmode s h a.rgb b.rgb
    · exact (putPixel_comm_hidden ops hb a).symm
  · exact putPixel_comm_hidden ops ha b

/-! ## All fragments -/

end FroggyKVM.M3g
