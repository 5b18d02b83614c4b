/-
# FroggyKVM.Graphics.OutlineExact — when the outline of a rectangle is cut by the clip.

Inside the clip the two sides are left out when they are one pixel high.  Otherwise the ends of the
sides are cut at the exclusive bounds of the clip, so a side that reaches a bound is drawn one pixel
too far, unless that pixel is outside the buffer.
-/
import FroggyKVM.Graphics.FillExact

namespace FroggyKVM.Graphics

variable {W H : Int} {color : UInt16} {clip : Clip} {x y width height : Int}

/-! ## Inside the clip -/

/-- The sides are drawn between the rows, if these are at least two apart from each other. -/
theorem draws_primDrawSolidRect {x2 y2 : Int} (hx : 0 ≤ x ∧ x ≤ x2 ∧ x2 < W)
    (hy : 0 ≤ y ∧ y ≤ y2 ∧ y2 < H) (hint : y2 < 2147483647) :
    Draws W H color
      (fun px py => (py = y ∨ py = y2) ∧ x ≤ px ∧ px ≤ x2 ∨
        y2 - 1 > y + 1 ∧ (px = x ∨ px = x2) ∧ y < py ∧ py < y2)
      (primDrawSolidRect color x y x2 y2) := by
  have htop : Draws W H color _ (primDrawHorzLine color x y x2 y) :=
    draws_row (by omega) hx.1 hx.2.1
  have hbottom : Draws W H color _ (primDrawHorzLine color x y2 x2 y2) :=
    draws_row (by omega) hx.1 hx.2.1
  have hsteps : ∀ sbuf, primDrawSolidRect color x y x2 y2 sbuf =
      primDrawHorzLine color x y x2 y sbuf >>= fun sbuf =>
        primDrawHorzLine color x y2 x2 y2 sbuf >>=
          drawIf (y2 - 1 > y + 1) fun sbuf =>
            primDrawVertLine color x (y + 1) x (y2 - 1) sbuf >>=
              primDrawVertLine color x2 (y + 1) x2 (y2 - 1) := by
    intro sbuf
    simp only [primDrawSolidRect, checked_ok (a := y2 - 1) (by omega),
      checked_ok (a := y + 1) (by omega), ok_bind]
    rfl
  have hsides : y2 - 1 > y + 1 → Draws W H color _ fun sbuf =>
      primDrawVertLine color x (y + 1) x (y2 - 1) sbuf >>=
        primDrawVertLine color x2 (y + 1) x2 (y2 - 1) := fun h =>
    (draws_column (by omega) (by omega) (by omega)).seq
      (draws_column (by omega) (by omega) (by omega))
  refine ((htop.seq (hbottom.seq (Draws.when hsides))).congr fun px py _ _ _ _ => ?_).of_eq
    fun sbuf _ _ => hsteps sbuf
  lia

/-- **Inside the clip an outline is exact unless its height is two.** -/
theorem solidRect_iff (hclip : clip.Within W H) (hw : 0 ≤ width) (hh : 0 ≤ height)
    (hinside : x ≥ clip.x1 ∧ x + width < clip.x2 ∧ y ≥ clip.y1 ∧ y + height < clip.y2) :
    Draws W H color (fun px py => OnOutline x y width height px py ∧ clip.Shows px py)
      (primDrawSolidRect color x y (x + width) (y + height)) ↔ height ≠ 2 := by
  have hcx := hclip.x
  have hcy := hclip.y
  have hshort := hclip.short
  have hdraws : Draws W H color _ (primDrawSolidRect color x y (x + width) (y + height)) :=
    draws_primDrawSolidRect (by omega) (by omega) (by omega)
  rw [hdraws.iff (by omega) (by omega)]
  unfold OnOutline Clip.Shows
  constructor
  · rintro hsame rfl
    have hmissing := hsame x (y + 1) (by omega) (by omega) (by omega) (by omega)
    lia
  · intro hne px py _ _ _ _
    omega

/-! ## Across the clip -/

/-- A side at `c`, drawn from `start` to `stop` where the clip ends at `bound`: it is inside the
clip, and so is its end, or the buffer ends where the clip does. -/
def SideFits (c clipEnd size start stop bound extent : Int) : Prop :=
  c < size → c < clipEnd ∧ (stop < bound ∨ bound = extent ∧ start < extent)

/-- What is drawn of a side lies on it and in the clip. -/
theorem sideFits_iff {c c₂ size start stop e e₂ extent : Int}
    (he : 0 ≤ e ∧ e < e₂ ∧ e₂ ≤ extent) (hstart : start ≤ e₂) (hstop : start ≤ stop ∧ e ≤ stop) :
    (∀ q, c < size → 0 ≤ q → q < extent → min (max start e) (extent - 1) ≤ q → q ≤ min stop e₂ →
      c < c₂ ∧ start ≤ q ∧ q ≤ stop ∧ e ≤ q ∧ q < e₂) ↔
    SideFits c c₂ size start stop e₂ extent := by
  unfold SideFits
  constructor
  · intro hdrawn hbuffer
    have hfirst := hdrawn (min (max start e) (extent - 1)) hbuffer (by omega) (by omega)
      (by omega) (by omega)
    refine ⟨hfirst.1, ?_⟩
    by_contra hover
    have hlast := hdrawn (min e₂ (extent - 1)) hbuffer (by omega) (by omega) (by omega) (by omega)
    omega
  · intro hfits q hbuffer _ _ _ _
    have hside := hfits hbuffer
    omega

/-- The sides that are drawn when the rectangle reaches out of the clip, and where they must end. -/
structure SidesFit (W H : Int) (clip : Clip) (x y width height : Int) : Prop where
  left : clip.x1 ≤ x → SideFits x clip.x2 W y (y + height) clip.y2 H
  top : clip.y1 ≤ y → SideFits y clip.y2 H x (x + width) clip.x2 W
  right : x + width ≤ clip.x2 → SideFits (x + width) clip.x2 W y (y + height) clip.y2 H
  bottom : y + height ≤ clip.y2 → SideFits (y + height) clip.y2 H x (x + width) clip.x2 W

/-- Some side is drawn: the rectangle meets the clip and does not run around it. -/
structure Reaches (clip : Clip) (x y width height : Int) : Prop where
  nonempty : clip.x1 < clip.x2 ∧ clip.y1 < clip.y2
  columns : x ≤ clip.x2 ∧ clip.x1 ≤ x + width
  rows : y ≤ clip.y2 ∧ clip.y1 ≤ y + height
  notAround : clip.x1 ≤ x ∨ x + width ≤ clip.x2 ∨ clip.y1 ≤ y ∨ y + height ≤ clip.y2

/-- What is drawn of the four sides. -/
def DrawnSides (W H : Int) (clip : Clip) (x y width height px py : Int) : Prop :=
  (clip.x1 ≤ x ∧ px = x ∧ min (max y clip.y1) (H - 1) ≤ py ∧ py ≤ min (y + height) clip.y2) ∨
  (clip.y1 ≤ y ∧ py = y ∧ min (max x clip.x1) (W - 1) ≤ px ∧ px ≤ min (x + width) clip.x2) ∨
  (x + width ≤ clip.x2 ∧ px = x + width ∧
    min (max y clip.y1) (H - 1) ≤ py ∧ py ≤ min (y + height) clip.y2) ∨
  (y + height ≤ clip.y2 ∧ py = y + height ∧
    min (max x clip.x1) (W - 1) ≤ px ∧ px ≤ min (x + width) clip.x2)

/-- The sides that `drawClippedRect` draws. -/
theorem drawClippedRect_outline {sbuf : ScreenBuffer} (hright : IsInt (x + width))
    (hbelow : IsInt (y + height)) (hnonempty : ¬ (clip.x1 = clip.x2 ∨ clip.y1 = clip.y2)) :
    drawClippedRect color false clip x y width height sbuf =
      if (max x clip.x1 > x ∧ min (x + width) clip.x2 < x + width ∧
          max y clip.y1 > y ∧ min (y + height) clip.y2 < y + height) ∨
          max x clip.x1 > min (x + width) clip.x2 ∨ max y clip.y1 > min (y + height) clip.y2 then
        .ok sbuf
      else
        drawIf (max x clip.x1 = x) (primDrawVertLine color (max x clip.x1) (max y clip.y1)
          (max x clip.x1) (min (y + height) clip.y2)) sbuf >>= fun sbuf =>
        drawIf (max y clip.y1 = y) (primDrawHorzLine color (max x clip.x1) (max y clip.y1)
          (min (x + width) clip.x2) (max y clip.y1)) sbuf >>= fun sbuf =>
        drawIf (min (x + width) clip.x2 = x + width) (primDrawVertLine color
          (min (x + width) clip.x2) (max y clip.y1) (min (x + width) clip.x2)
          (min (y + height) clip.y2)) sbuf >>=
        drawIf (min (y + height) clip.y2 = y + height) (primDrawHorzLine color (max x clip.x1)
          (min (y + height) clip.y2) (min (x + width) clip.x2) (min (y + height) clip.y2)) := by
  rw [drawClippedRect, if_neg hnonempty, checked_ok hright, ok_bind, checked_ok hbelow, ok_bind]
  rfl

/-- A lower coordinate that was not moved. -/
theorem notRaised {a b p : Int} {R : Prop} :
    b ≤ a ∧ p = a ∧ R ↔ max a b = a ∧ p = max a b ∧ R := by
  constructor
  · rintro ⟨hle, hp, hr⟩
    exact ⟨max_eq_left hle, by rw [max_eq_left hle, hp], hr⟩
  · rintro ⟨hmax, hp, hr⟩
    exact ⟨max_eq_left_iff.mp hmax, hp.trans hmax, hr⟩

/-- An upper coordinate that was not moved. -/
theorem notLowered {a b p : Int} {R : Prop} :
    a ≤ b ∧ p = a ∧ R ↔ min a b = a ∧ p = min a b ∧ R := by
  constructor
  · rintro ⟨hle, hp, hr⟩
    exact ⟨min_eq_left hle, by rw [min_eq_left hle, hp], hr⟩
  · rintro ⟨hmin, hp, hr⟩
    exact ⟨min_eq_left_iff.mp hmin, hp.trans hmin, hr⟩

theorem draws_drawClippedRect_outline (hclip : clip.Within W H) (hw : 0 ≤ width) (hh : 0 ≤ height)
    (hright : IsInt (x + width)) (hbelow : IsInt (y + height))
    (hreaches : Reaches clip x y width height) :
    Draws W H color (DrawnSides W H clip x y width height)
      (drawClippedRect color false clip x y width height) := by
  have hcx := hclip.x
  have hcy := hclip.y
  obtain ⟨hnonempty, hcolumns, hrows, hnotAround⟩ := hreaches
  have hcolumn : ∀ c, Draws W H color _ (primDrawVertLine color c (max y clip.y1) c
      (min (y + height) clip.y2)) := fun c => draws_column (by omega) (by omega) (by omega)
  have hrow : ∀ r, Draws W H color _ (primDrawHorzLine color (max x clip.x1) r
      (min (x + width) clip.x2) r) := fun r => draws_row (by omega) (by omega) (by omega)
  have hsides := (Draws.when fun _ : max x clip.x1 = x => hcolumn (max x clip.x1)).seq <|
    (Draws.when fun _ : max y clip.y1 = y => hrow (max y clip.y1)).seq <|
    (Draws.when fun _ : min (x + width) clip.x2 = x + width =>
      hcolumn (min (x + width) clip.x2)).seq
    (Draws.when fun _ : min (y + height) clip.y2 = y + height => hrow (min (y + height) clip.y2))
  refine (hsides.congr fun px py _ _ _ _ => ?_).of_eq fun sbuf _ _ => ?_
  · exact or_congr notRaised (or_congr notRaised (or_congr notLowered notLowered))
  · rw [drawClippedRect_outline hright hbelow (by omega), if_neg (by omega)]

/-- A rectangle that does not reach the clip draws nothing. -/
theorem draws_drawClippedRect_nothing (hclip : clip.Within W H) (hw : 0 ≤ width)
    (hh : 0 ≤ height) (hright : IsInt (x + width)) (hbelow : IsInt (y + height))
    (hreaches : ¬ Reaches clip x y width height) :
    Draws W H color (fun px py => OnOutline x y width height px py ∧ clip.Shows px py)
      (drawClippedRect color false clip x y width height) := by
  have hcx := hclip.x
  have hcy := hclip.y
  refine (Draws.nothing fun px py _ _ _ _ hshown => ?_).of_eq fun sbuf _ _ => ?_
  · unfold OnOutline Clip.Shows at hshown
    exact hreaches ⟨by lia, by lia, by lia, by lia⟩
  · by_cases hempty : clip.x1 = clip.x2 ∨ clip.y1 = clip.y2
    · rw [drawClippedRect, if_pos hempty]
    · rw [drawClippedRect_outline hright hbelow hempty, if_pos]
      by_contra hdrawn
      exact hreaches ⟨by lia, by lia, by lia, by lia⟩

/-- **Across the clip an outline is exact when no side that is drawn ends too far.** -/
theorem drawClippedRect_iff (hclip : clip.Within W H) (hw : 0 ≤ width) (hh : 0 ≤ height)
    (hright : IsInt (x + width)) (hbelow : IsInt (y + height)) :
    Draws W H color (fun px py => OnOutline x y width height px py ∧ clip.Shows px py)
      (drawClippedRect color false clip x y width height) ↔
    (Reaches clip x y width height → SidesFit W H clip x y width height) := by
  have hcx := hclip.x
  have hcy := hclip.y
  by_cases hreaches : Reaches clip x y width height
  · rw [imp_iff_right hreaches,
      (draws_drawClippedRect_outline hclip hw hh hright hbelow hreaches).iff (by omega) (by omega)]
    obtain ⟨hnonempty, hcolumns, hrows, hnotAround⟩ := hreaches
    have hcolumn : ∀ c, SideFits c clip.x2 W y (y + height) clip.y2 H ↔ _ := fun c =>
      (sideFits_iff (e := clip.y1) (by omega) (by omega) (by omega)).symm
    have hrow : ∀ r, SideFits r clip.y2 H x (x + width) clip.x2 W ↔ _ := fun r =>
      (sideFits_iff (e := clip.x1) (by omega) (by omega) (by omega)).symm
    constructor
    · intro hsame
      constructor
      · intro hleft
        refine (hcolumn x).mpr fun q hbuffer hq₀ hq hfirst hlast => ?_
        have hon := (hsame x q (by omega) hbuffer hq₀ hq).mpr (.inl ⟨hleft, rfl, hfirst, hlast⟩)
        unfold OnOutline Clip.Shows at hon
        omega
      · intro htop
        refine (hrow y).mpr fun q hbuffer hq₀ hq hfirst hlast => ?_
        have hon := (hsame q y hq₀ hq (by omega) hbuffer).mpr
          (.inr (.inl ⟨htop, rfl, hfirst, hlast⟩))
        unfold OnOutline Clip.Shows at hon
        omega
      · intro hright
        refine (hcolumn (x + width)).mpr fun q hbuffer hq₀ hq hfirst hlast => ?_
        have hon := (hsame (x + width) q (by omega) hbuffer hq₀ hq).mpr
          (.inr (.inr (.inl ⟨hright, rfl, hfirst, hlast⟩)))
        unfold OnOutline Clip.Shows at hon
        omega
      · intro hbottom
        refine (hrow (y + height)).mpr fun q hbuffer hq₀ hq hfirst hlast => ?_
        have hon := (hsame q (y + height) hq₀ hq (by omega) hbuffer).mpr
          (.inr (.inr (.inr ⟨hbottom, rfl, hfirst, hlast⟩)))
        unfold OnOutline Clip.Shows at hon
        omega
    · intro hfits px py hx₀ hx hy₀ hy
      unfold OnOutline Clip.Shows DrawnSides
      constructor
      · rintro ⟨⟨_, _, _, _, hside⟩, _⟩
        rcases hside with rfl | rfl | rfl | rfl
        · exact .inl (by omega)
        · exact .inr (.inr (.inl (by omega)))
        · exact .inr (.inl (by omega))
        · exact .inr (.inr (.inr (by omega)))
      · rintro (⟨hleft, rfl, hfirst, hlast⟩ | ⟨htop, rfl, hfirst, hlast⟩ |
          ⟨hright, rfl, hfirst, hlast⟩ | ⟨hbottom, rfl, hfirst, hlast⟩)
        · have hside := (hcolumn _).mp (hfits.left hleft) py hx hy₀ hy hfirst hlast
          omega
        · have hside := (hrow _).mp (hfits.top htop) px hy hx₀ hx hfirst hlast
          omega
        · have hside := (hcolumn _).mp (hfits.right hright) py hx hy₀ hy hfirst hlast
          omega
        · have hside := (hrow _).mp (hfits.bottom hbottom) px hy hx₀ hx hfirst hlast
          omega
  · exact iff_of_true (draws_drawClippedRect_nothing hclip hw hh hright hbelow hreaches)
      fun h => absurd h hreaches

/-! ## `gx_draw_rect` -/

/-- When `gx_draw_rect` draws what it should: nothing overflows, an outline inside the clip is not
two pixels high, and across the clip no side ends too far. -/
def OutlineFits (W H : Int) (clip : Clip) (x y width height : Int) : Prop :=
  (x + width < 2147483648 ∧ y + height < 2147483648) ∧
    if x ≥ clip.x1 ∧ x + width < clip.x2 ∧ y ≥ clip.y1 ∧ y + height < clip.y2 then height ≠ 2
    else Reaches clip x y width height → SidesFit W H clip x y width height

theorem draws_gxDrawRect_iff (hclip : clip.Within W H) (hx : IsInt x) (hy : IsInt y)
    (hw : 0 ≤ width) (hh : 0 ≤ height) :
    Draws W H color (fun px py => OnOutline x y width height px py ∧ clip.Shows px py)
      (gxDrawRect color clip x y width height) ↔ OutlineFits W H clip x y width height := by
  have hcx := hclip.x
  have hcy := hclip.y
  unfold IsInt at hx hy
  by_cases hfits : x + width < 2147483648 ∧ y + height < 2147483648
  · have hright : IsInt (x + width) := ⟨by omega, hfits.1⟩
    have hbelow : IsInt (y + height) := ⟨by omega, hfits.2⟩
    have hpath : gxDrawRect color clip x y width height = fun sbuf => _ :=
      funext fun sbuf => drawRoundrect_plain hw hright hbelow hh
    unfold OutlineFits
    rw [hpath, and_iff_right hfits]
    split_ifs with hinside hfilled
    · exact absurd hfilled (by decide)
    · exact solidRect_iff hclip hw hh hinside
    · exact drawClippedRect_iff hclip hw hh hright hbelow
  · refine iff_of_false (Draws.not_of_error .overflow (by omega) (by omega) fun sbuf _ _ => ?_)
      fun h => hfits h.1
    exact drawRoundrect_error fun h => hfits ⟨h.1.2, h.2.2⟩

/-- **When the two calls paint exactly the rectangle, or its outline, and the clip.** -/
theorem rectangles_exact_iff (hclip : clip.Within W H) (hx : IsInt x) (hy : IsInt y)
    (hw : 0 ≤ width ∧ width < 2147483648) (hh : 0 ≤ height ∧ height < 2147483648) :
    (Draws W H color (fun px py => InRect x y width height px py ∧ clip.Shows px py)
        (gxFillRect color clip x y width height) ↔ FillFits W H clip x y width height) ∧
      (Draws W H color (fun px py => OnOutline x y width height px py ∧ clip.Shows px py)
        (gxDrawRect color clip x y width height) ↔ OutlineFits W H clip x y width height) :=
  ⟨draws_gxFillRect_iff hclip hx hy hw hh, draws_gxDrawRect_iff hclip hx hy hw.1 hh.1⟩

/-- The inner part of an 8 by 8 buffer. -/
def innerClip : Clip :=
  { x1 := 1
    y1 := 1
    x2 := 7
    y2 := 7 }

theorem innerClip_within : innerClip.Within 8 8 := ⟨by decide, by decide, by decide⟩

/-- Three pixels high is fine. -/
theorem rectangle_of_three_exact :
    Draws 8 8 0 (fun px py => InRect 2 2 3 3 px py ∧ innerClip.Shows px py)
        (gxFillRect 0 innerClip 2 2 3 3) ∧
      Draws 8 8 0 (fun px py => OnOutline 2 2 3 3 px py ∧ innerClip.Shows px py)
        (gxDrawRect 0 innerClip 2 2 3 3) := by
  have hexact := @rectangles_exact_iff 8 8 0 innerClip 2 2 3 3 innerClip_within (by decide)
    (by decide) (by decide) (by decide)
  refine ⟨hexact.1.mpr ?_, hexact.2.mpr ⟨by decide, ?_⟩⟩
  · rw [FillFits, if_neg (by decide)]
    decide
  · rw [if_pos (by decide)]
    decide

/-- Two pixels high lacks both sides. -/
theorem outline_of_two_not_exact :
    ¬ Draws 8 8 0 (fun px py => OnOutline 2 2 3 2 px py ∧ innerClip.Shows px py)
        (gxDrawRect 0 innerClip 2 2 3 2) := by
  intro hdraws
  have hfits := (draws_gxDrawRect_iff innerClip_within (by decide) (by decide) (by decide)
    (by decide)).mp hdraws
  have hheight := hfits.2
  rw [if_pos (by decide)] at hheight
  exact hheight rfl

end FroggyKVM.Graphics
