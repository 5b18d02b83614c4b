/-
# FroggyKVM.Graphics.FillExact — when a filled rectangle is the rectangle cut by the clip.
-/
import FroggyKVM.Graphics.Primitives
import FroggyKVM.Graphics.RoundRect

namespace FroggyKVM.Graphics

/-! ## The regions -/

/-- The clip, four shorts, lies in a `W` by `H` buffer. -/
structure Clip.Within (clip : Clip) (W H : Int) : Prop where
  short : clip.x2 ≤ 32767 ∧ clip.y2 ≤ 32767
  x : 0 ≤ clip.x1 ∧ clip.x1 ≤ clip.x2 ∧ clip.x2 ≤ W
  y : 0 ≤ clip.y1 ∧ clip.y1 ≤ clip.y2 ∧ clip.y2 ≤ H

/-- The pixels of the clip. -/
def Clip.Shows (clip : Clip) (px py : Int) : Prop :=
  clip.x1 ≤ px ∧ px < clip.x2 ∧ clip.y1 ≤ py ∧ py < clip.y2

/-- The pixels of a filled rectangle. -/
def InRect (x y width height px py : Int) : Prop :=
  x ≤ px ∧ px < x + width ∧ y ≤ py ∧ py < y + height

/-- The pixels of an outline, which reaches one further. -/
def OnOutline (x y width height px py : Int) : Prop :=
  x ≤ px ∧ px ≤ x + width ∧ y ≤ py ∧ py ≤ y + height ∧
    (px = x ∨ px = x + width ∨ py = y ∨ py = y + height)

/-- `int` values. -/
def IsInt (a : Int) : Prop := -2147483648 ≤ a ∧ a < 2147483648

instance (a : Int) : Decidable (IsInt a) := inferInstanceAs (Decidable (_ ∧ _))

variable {W H : Int} {color : UInt16} {clip : Clip} {x y width height : Int}

/-! ## The full-width path -/

theorem draws_fastPixelSet {count : Int} (hx : 0 ≤ x ∧ x + count ≤ W) (hy : 0 ≤ y ∧ y < H) :
    Draws W H color (fun px py => py = y ∧ x ≤ px ∧ px < x + count)
      (fastPixelSet color (y * W + x) count) := by
  by_cases hc : 0 < count
  · have hrow : Draws W H color _ (storeRun color 1 count.toNat (y * W + x)) :=
      Draws.row (by omega) hy
    exact (hrow.congr fun _ _ _ _ _ _ => by omega).of_eq fun _ _ _ => fastPixelSet_eq hc
  · exact (Draws.nothing fun _ _ _ _ _ _ => by omega).of_eq fun _ _ _ =>
      fastPixelSet_nonpos (by omega)

theorem draws_fastRows {n : Nat} (hx : 0 ≤ x ∧ x + width ≤ W) (hy : 0 ≤ y ∧ y + n ≤ H) :
    Draws W H color (fun px py => y ≤ py ∧ py < y + n ∧ x ≤ px ∧ px < x + width)
      (fastRows color W width n (y * W + x)) := by
  induction n generalizing y with
  | zero => exact .nothing fun _ _ _ _ _ _ => by omega
  | succ n ih =>
    have hrest := ih (y := y + 1) (by omega)
    rw [show (y + 1) * W + x = y * W + x + W by ring] at hrest
    exact ((draws_fastPixelSet hx (by omega)).seq hrest).congr fun _ _ _ _ _ _ => by omega

/-- The additions that `fastFill_rect` makes stay in range. -/
structure FastFits (clip : Clip) (x y width height : Int) : Prop where
  above : y < clip.y1 → -2147483648 ≤ y - clip.y1
  right : x + width < 2147483648
  below : y + height < 2147483648

theorem fastLeft_eq (hx : IsInt x) (hw : 0 ≤ width ∧ width < 2147483648) :
    fastLeft x width = .ok (max x 0, x + width - max x 0) := by
  unfold IsInt at hx
  rw [fastLeft]
  split_ifs
  · rw [checked_ok (by omega), ok_bind, max_eq_right (by omega), Int.sub_zero, Int.add_comm]
  · rw [max_eq_left (by omega), add_sub_cancel_left]

/-- The top edge may be too far away from the clip. -/
theorem fastTop_eq {cliptop : Int} (hh : 0 ≤ height ∧ height < 2147483648)
    (habove : y < cliptop → -2147483648 ≤ y - cliptop) :
    fastTop cliptop y height = .ok (max y cliptop, y + height - max y cliptop) := by
  rw [fastTop]
  split_ifs with h
  · have hfits := habove h
    rw [checked_ok (by lia), ok_bind, checked_ok (by lia), ok_bind, max_eq_right (by lia)]
    congr 2
    omega
  · rw [max_eq_left (by omega), add_sub_cancel_left]

theorem fastTop_error {cliptop : Int} (habove : y < cliptop) (hfar : y - cliptop < -2147483648) :
    fastTop cliptop y height = .error .overflow := by
  rw [fastTop, if_pos habove, checked_error (by omega)]
  rfl

section Fast

variable {sbuf : ScreenBuffer} (hclip : clip.Within sbuf.width sbuf.height) (hx : IsInt x)
  (hw : 0 < width ∧ width < 2147483648) (hh : 0 ≤ height ∧ height < 2147483648)
  (hright : x ≤ sbuf.width) (hbelow : y ≤ sbuf.height)
include hclip hx hw hh hright hbelow

/-- `fastFill_rect` fills the rows that are left. -/
theorem fastFillRect_eq (hy : IsInt y) (hfits : FastFits clip x y width height) :
    fastFillRect color x y width height clip.y1 clip.y2 sbuf =
      fastRows color sbuf.width (min (x + width) sbuf.width - max x 0)
        (min (y + height) clip.y2 - max y clip.y1).toNat
        (max y clip.y1 * sbuf.width + max x 0) sbuf := by
  have hcx := hclip.x
  have hcy := hclip.y
  have hright := hfits.right
  have hbelow := hfits.below
  rw [fastFillRect, if_neg (by omega), fastLeft_eq hx (by omega), ok_bind]
  dsimp only
  rw [fastTop_eq hh hfits.above, ok_bind]
  dsimp only
  unfold IsInt at hx hy
  rw [checked_ok (by omega), ok_bind, checked_ok (by omega), ok_bind]
  congr 1
  · split_ifs <;> omega
  · congr 1
    split_ifs <;> omega

/-- Or an addition overflows. -/
theorem fastFillRect_error (hfits : ¬ FastFits clip x y width height) :
    fastFillRect color x y width height clip.y1 clip.y2 sbuf = .error .overflow := by
  have hcx := hclip.x
  have hcy := hclip.y
  rw [fastFillRect, if_neg (by omega), fastLeft_eq hx (by omega), ok_bind]
  dsimp only
  by_cases habove : y < clip.y1 ∧ y - clip.y1 < -2147483648
  · rw [fastTop_error habove.1 habove.2]
    rfl
  · rw [fastTop_eq hh (by omega), ok_bind]
    dsimp only
    unfold IsInt at hx
    by_cases hr : max x 0 + (x + width - max x 0) < 2147483648
    · have hb : ¬ max y clip.y1 + (y + height - max y clip.y1) < 2147483648 := by
        intro hb
        exact hfits ⟨by omega, by omega, by omega⟩
      rw [checked_ok (by omega), ok_bind, checked_error (by omega)]
      rfl
    · rw [checked_error (by omega)]
      rfl

end Fast

/-! ## The path through `draw_roundrect` -/

theorem limitArc_zero {side : Int} (h : 0 ≤ side) : limitArc 0 side = 0 := by
  have hhalf : side >>> (1 : Nat) = side / 2 := Int.shiftRight_eq_div_pow side 1
  rw [limitArc, if_neg (by omega), if_neg (by omega)]

/-- Without radii a plain rectangle is drawn. -/
theorem drawRoundrect_plain {filled : Bool} {sbuf : ScreenBuffer} (hw : 0 ≤ width)
    (hright : IsInt (x + width)) (hbelow : IsInt (y + height)) (hh : 0 ≤ height) :
    drawRoundrect color clip x y width height filled 0 0 sbuf =
      if x ≥ clip.x1 ∧ x + width < clip.x2 ∧ y ≥ clip.y1 ∧ y + height < clip.y2 then
        if filled then primDrawFilledRect color x y (x + width) (y + height) sbuf
        else primDrawSolidRect color x y (x + width) (y + height) sbuf
      else drawClippedRect color filled clip x y width height sbuf := by
  rw [drawRoundrect, checked_ok hright, ok_bind, checked_ok hbelow, ok_bind, limitArc_zero hw,
    limitArc_zero hh, if_pos (Or.inl rfl)]

theorem drawRoundrect_error {filled : Bool} {sbuf : ScreenBuffer} {arcWidth arcHeight : Int}
    (h : ¬ (IsInt (x + width) ∧ IsInt (y + height))) :
    drawRoundrect color clip x y width height filled arcWidth arcHeight sbuf =
      .error .overflow := by
  rw [drawRoundrect]
  by_cases hright : IsInt (x + width)
  · rw [checked_ok hright, ok_bind, checked_error fun hbelow => h ⟨hright, hbelow⟩]
    rfl
  · rw [checked_error hright]
    rfl

theorem draws_drawClippedRect_filled (hclip : clip.Within W H) (hw : 0 ≤ width) (hh : 0 ≤ height)
    (hright : IsInt (x + width)) (hbelow : IsInt (y + height)) :
    Draws W H color (fun px py => InRect x y width height px py ∧ clip.Shows px py)
      (drawClippedRect color true clip x y width height) := by
  have hcx := hclip.x
  have hcy := hclip.y
  unfold InRect Clip.Shows
  by_cases hempty : clip.x1 = clip.x2 ∨ clip.y1 = clip.y2
  · refine (Draws.nothing fun px py _ _ _ _ => by omega).of_eq fun sbuf _ _ => ?_
    rw [drawClippedRect, if_pos hempty]
  have heq : ∀ sbuf, drawClippedRect color true clip x y width height sbuf =
      if max x clip.x1 > min (x + width) clip.x2 ∨ max y clip.y1 > min (y + height) clip.y2 then
        .ok sbuf
      else primDrawFilledRect color (max x clip.x1) (max y clip.y1) (min (x + width) clip.x2)
        (min (y + height) clip.y2) sbuf := by
    intro sbuf
    rw [drawClippedRect, if_neg hempty, checked_ok hright, ok_bind, checked_ok hbelow, ok_bind]
    rfl
  by_cases hgone : max x clip.x1 > min (x + width) clip.x2 ∨
      max y clip.y1 > min (y + height) clip.y2
  · refine (Draws.nothing fun px py _ _ _ _ => by omega).of_eq fun sbuf _ _ => ?_
    rw [heq, if_pos hgone]
  · have hblock : Draws W H color _ (primDrawFilledRect color (max x clip.x1) (max y clip.y1)
        (min (x + width) clip.x2) (min (y + height) clip.y2)) :=
      draws_block (by lia) (by lia)
    refine (hblock.congr fun px py _ _ _ _ => by lia).of_eq fun sbuf _ _ => ?_
    rw [heq, if_neg hgone]

/-- A filled rectangle is cut by the clip, on whichever path. -/
theorem draws_drawRoundrect_filled (hclip : clip.Within W H) (hw : 0 ≤ width) (hh : 0 ≤ height)
    (hright : IsInt (x + width)) (hbelow : IsInt (y + height)) :
    Draws W H color (fun px py => InRect x y width height px py ∧ clip.Shows px py)
      (drawRoundrect color clip x y width height true 0 0) := by
  have hcx := hclip.x
  have hcy := hclip.y
  by_cases hinside : x ≥ clip.x1 ∧ x + width < clip.x2 ∧ y ≥ clip.y1 ∧ y + height < clip.y2
  · unfold InRect Clip.Shows
    have hblock : Draws W H color _ (primDrawFilledRect color x y (x + width) (y + height)) :=
      draws_block (by omega) (by omega)
    refine (hblock.congr fun px py _ _ _ _ => by omega).of_eq fun sbuf _ _ => ?_
    rw [drawRoundrect_plain hw hright hbelow hh, if_pos hinside]
    rfl
  · refine (draws_drawClippedRect_filled hclip hw hh hright hbelow).of_eq fun sbuf _ _ => ?_
    rw [drawRoundrect_plain hw hright hbelow hh, if_neg hinside]

/-! ## `gx_fill_rect` -/

/-- When `gx_fill_rect` makes no addition that overflows. -/
def FillFits (W H : Int) (clip : Clip) (x y width height : Int) : Prop :=
  if clip.x1 = 0 ∧ clip.x2 = W then
    0 < width ∧ x ≤ W ∧ y ≤ H → FastFits clip x y width height
  else x + width < 2147483648 ∧ y + height < 2147483648

theorem draws_fastFillRect (hclip : clip.Within W H) (hx : IsInt x) (hy : IsInt y)
    (hw : 0 ≤ width ∧ width < 2147483648) (hh : 0 ≤ height ∧ height < 2147483648)
    (hwide : clip.x1 = 0 ∧ clip.x2 = W)
    (hfits : 0 < width ∧ x ≤ W ∧ y ≤ H → FastFits clip x y width height) :
    Draws W H color (fun px py => InRect x y width height px py ∧ clip.Shows px py)
      (fastFillRect color x y width height clip.y1 clip.y2) := by
  have hcx := hclip.x
  have hcy := hclip.y
  unfold InRect Clip.Shows
  by_cases hsome : 0 < width ∧ x ≤ W ∧ y ≤ H
  · have hrows : Draws W H color _ (fastRows color W (min (x + width) W - max x 0)
        (min (y + height) clip.y2 - max y clip.y1).toNat (max y clip.y1 * W + max x 0)) :=
      draws_fastRows (by lia) (by lia)
    refine (hrows.congr fun px py _ _ _ _ => by grind).of_eq fun sbuf hw' hh' => ?_
    subst hw' hh'
    exact fastFillRect_eq hclip hx ⟨hsome.1, hw.2⟩ hh hsome.2.1 hsome.2.2 hy (hfits hsome)
  · refine (Draws.nothing fun px py _ _ _ _ => by lia).of_eq fun sbuf hw' hh' => ?_
    rw [fastFillRect, if_pos (by omega)]

/-- **`gx_fill_rect` paints exactly the rectangle and the clip when no addition overflows.** -/
theorem draws_gxFillRect_iff (hclip : clip.Within W H) (hx : IsInt x) (hy : IsInt y)
    (hw : 0 ≤ width ∧ width < 2147483648) (hh : 0 ≤ height ∧ height < 2147483648) :
    Draws W H color (fun px py => InRect x y width height px py ∧ clip.Shows px py)
      (gxFillRect color clip x y width height) ↔ FillFits W H clip x y width height := by
  have hcx := hclip.x
  have hcy := hclip.y
  unfold FillFits
  by_cases hwide : clip.x1 = 0 ∧ clip.x2 = W
  · have hpath : ∀ sbuf : ScreenBuffer, sbuf.width = W →
        gxFillRect color clip x y width height sbuf =
          fastFillRect color x y width height clip.y1 clip.y2 sbuf := by
      rintro sbuf rfl
      exact if_pos hwide
    rw [if_pos hwide]
    constructor
    · intro hdraws hsome
      by_contra hfits
      refine Draws.not_of_error .overflow (by omega) (by omega) (fun sbuf hw' hh' => ?_) hdraws
      subst hw' hh'
      rw [hpath sbuf rfl]
      exact fastFillRect_error hclip hx ⟨hsome.1, hw.2⟩ hh hsome.2.1 hsome.2.2 hfits
    · intro hfits
      exact (draws_fastFillRect hclip hx hy hw hh hwide hfits).of_eq fun sbuf hw' _ => hpath sbuf hw'
  · have hpath : ∀ sbuf : ScreenBuffer, sbuf.width = W →
        gxFillRect color clip x y width height sbuf =
          drawRoundrect color clip x y width height true 0 0 sbuf := by
      rintro sbuf rfl
      exact if_neg hwide
    rw [if_neg hwide]
    unfold IsInt at hx hy
    constructor
    · intro hdraws
      by_contra hfits
      refine Draws.not_of_error .overflow (by omega) (by omega) (fun sbuf hw' _ => ?_) hdraws
      rw [hpath sbuf hw', drawRoundrect_error fun h => hfits ⟨h.1.2, h.2.2⟩]
    · intro hfits
      exact (draws_drawRoundrect_filled hclip hw.1 hh.1 ⟨by omega, hfits.1⟩
        ⟨by omega, hfits.2⟩).of_eq fun sbuf hw' _ => hpath sbuf hw'

end FroggyKVM.Graphics
