/-
# FroggyKVM.Lcdui.Clip — the clip of a graphics context (`Graphics.java`).

`clipRect` and `setClip` translate a rectangle in 32 bits and repair edges that wrapped by the signs
of the corner and of the translation.  The clip always stays inside the drawing area.  **It is the
intersection of the rectangles it was cut by**, in every run in which no cut goes wrong on an axis:
the repair loses a rectangle whose right edge is no `int` where one of the summands of its left edge
is negative, and it takes a left edge below all ints for one on the other side.
-/
import FroggyKVM.Lib.Lts
import FroggyKVM.Lib.MachineInt

namespace FroggyKVM.Lcdui

/-! ## The context -/

structure Graphics where
  transX : Int
  transY : Int
  clipX1 : Int
  clipY1 : Int
  clipX2 : Int
  clipY2 : Int
  clipped : Bool
  maxWidth : Int
  maxHeight : Int

/-- `translatedX1` after the overflow check; `translatedY1` is the same on the other axis. -/
def translated1 (x trans max : Int) : Int :=
  if i32 (x + trans) < 0 then
    if x < 0 ∨ trans < 0 then 0 else max
  else i32 (x + trans)

/-- `translatedX2` after the overflow check of `clipRect`. -/
def translated2 (x trans width x1 max : Int) : Int :=
  if i32 (i32 (x + trans) + width) < 0 then
    if x < 0 ∨ trans < 0 then x1 else max
  else i32 (i32 (x + trans) + width)

/-- `translatedX2` after the overflow check of `setClip`, which also bounds it. -/
def boundedX2 (x trans width x1 max : Int) : Int :=
  if i32 (i32 (x + trans) + width) < 0 then
    if x < 0 ∨ trans < 0 then x1 else max
  else if max < i32 (i32 (x + trans) + width) then max
  else i32 (i32 (x + trans) + width)

namespace Graphics

/-- There is no intersection. -/
def noClip (g : Graphics) : Graphics :=
  { g with clipX1 := 0, clipY1 := 0, clipX2 := 0, clipY2 := 0, clipped := true }

def clipRect (g : Graphics) (x y width height : Int) : Graphics :=
  if width ≤ 0 ∨ height ≤ 0 then g.noClip
  else
    let translatedX1 := translated1 x g.transX g.maxWidth
    let translatedY1 := translated1 y g.transY g.maxHeight
    if g.clipX2 < translatedX1 ∨ g.clipY2 < translatedY1 then g.noClip
    else
      let clipX1 := if g.clipX1 < translatedX1 then i16 (translatedX1 % 32768) else g.clipX1
      let clipY1 := if g.clipY1 < translatedY1 then i16 (translatedY1 % 32768) else g.clipY1
      let translatedX2 := translated2 x g.transX width translatedX1 g.maxWidth
      let translatedY2 := translated2 y g.transY height translatedY1 g.maxHeight
      if translatedX2 < clipX1 ∨ translatedY2 < clipY1 then g.noClip
      else
        let clipX2 := if translatedX2 ≤ g.clipX2 then i16 translatedX2 else g.clipX2
        let clipY2 := if translatedY2 ≤ g.clipY2 then i16 translatedY2 else g.clipY2
        let clipped := g.clipped || g.clipX1 < translatedX1 || g.clipY1 < translatedY1 ||
          translatedX2 ≤ g.clipX2 || translatedY2 ≤ g.clipY2
        let clipX2 := if clipped ∧ clipX2 < clipX1 then clipX1 else clipX2
        let clipY2 := if clipped ∧ clipY2 < clipY1 then clipY1 else clipY2
        { g with clipX1, clipY1, clipX2, clipY2, clipped }

/-- `setClip` without runtime clip enforcement. -/
def setClip (g : Graphics) (x y width height : Int) : Graphics :=
  if width ≤ 0 ∨ height ≤ 0 then g.noClip
  else
    let translatedX1 := translated1 x g.transX g.maxWidth
    let translatedY1 := translated1 y g.transY g.maxHeight
    if g.maxWidth ≤ translatedX1 ∨ g.maxHeight ≤ translatedY1 then g.noClip
    else
      let clipX1 := i16 (translatedX1 % 32768)
      let clipY1 := i16 (translatedY1 % 32768)
      let clipX2 := i16 (boundedX2 x g.transX width translatedX1 g.maxWidth % 32768)
      let clipY2 := i16 (boundedX2 y g.transY height translatedY1 g.maxHeight % 32768)
      let clipped := g.clipped || clipX1 ≠ 0 || clipY1 ≠ 0 || clipX2 ≠ g.maxWidth ||
        clipY2 ≠ g.maxHeight
      { g with clipX1, clipY1, clipX2, clipY2, clipped }

def translate (g : Graphics) (x y : Int) : Graphics :=
  { g with transX := i32 (g.transX + x), transY := i32 (g.transY + y) }

/-- `setDimensions` of a new context. -/
def setDimensions (w h : Int) : Graphics :=
  let maxWidth := i16 (w % 32768)
  let maxHeight := i16 (h % 32768)
  let g : Graphics := ⟨0, 0, 0, 0, 0, 0, false, maxWidth, maxHeight⟩
  g.setClip 0 0 maxWidth maxHeight

/-- The points inside the clip. -/
def area (g : Graphics) : Set (Int × Int) :=
  Set.Ico g.clipX1 g.clipX2 ×ˢ Set.Ico g.clipY1 g.clipY2

/-- **The clip stays inside the drawing area**, whose sides are shorts. -/
structure Bounded (g : Graphics) : Prop where
  clipX : 0 ≤ g.clipX1 ∧ g.clipX1 ≤ g.clipX2 ∧ g.clipX2 ≤ g.maxWidth
  clipY : 0 ≤ g.clipY1 ∧ g.clipY1 ≤ g.clipY2 ∧ g.clipY2 ≤ g.maxHeight
  maxWidth : g.maxWidth ≤ 32767
  maxHeight : g.maxHeight ≤ 32767

end Graphics

/-! ## The calls, and what they mean -/

inductive Call
  | translate (x y : Int)
  | clipRect (x y width height : Int)
  | setClip (x y width height : Int)

def Graphics.call (g : Graphics) : Call → Graphics
  | .translate x y => g.translate x y
  | .clipRect x y width height => g.clipRect x y width height
  | .setClip x y width height => g.setClip x y width height

def IsInt (x : Int) : Prop := -2147483648 ≤ x ∧ x < 2147483648

instance (x : Int) : Decidable (IsInt x) := inferInstanceAs (Decidable (_ ∧ _))

/-- The arguments are ints, and a translation adds up to one. -/
def Call.Fits (g : Graphics) : Call → Prop
  | .translate x y => IsInt (g.transX + x) ∧ IsInt (g.transY + y)
  | .clipRect x y width height | .setClip x y width height =>
    IsInt x ∧ IsInt y ∧ IsInt width ∧ IsInt height

instance (g : Graphics) : (c : Call) → Decidable (c.Fits g)
  | .translate _ _ => inferInstanceAs (Decidable (_ ∧ _))
  | .clipRect _ _ _ _ => inferInstanceAs (Decidable (_ ∧ _))
  | .setClip _ _ _ _ => inferInstanceAs (Decidable (_ ∧ _))

/-- One call on a context. -/
def Graphics.Step (g : Graphics) (c : Call) (g' : Graphics) : Prop := c.Fits g ∧ g' = g.call c

/-- The points of a rectangle. -/
def rect (x y width height : Int) : Set (Int × Int) :=
  Set.Ico x (x + width) ×ˢ Set.Ico y (y + height)

/-- The exact translation, and the rectangles since the last `setClip`. -/
structure History where
  transX : Int
  transY : Int
  rects : List (Set (Int × Int))

def History.call (r : History) : Call → History
  | .translate x y => { r with transX := r.transX + x, transY := r.transY + y }
  | .clipRect x y width height =>
    { r with rects := rect (x + r.transX) (y + r.transY) width height :: r.rects }
  | .setClip x y width height =>
    { r with rects := [rect (x + r.transX) (y + r.transY) width height] }

def history (calls : List Call) : History := calls.foldl History.call ⟨0, 0, []⟩

/-- The points of the drawing area that are in all the rectangles. -/
def History.area (r : History) (maxWidth maxHeight : Int) : Set (Int × Int) :=
  {p | p ∈ rect 0 0 maxWidth maxHeight ∧ ∀ s ∈ r.rects, p ∈ s}

/-! ## One axis -/

section Axis
variable {x trans width c₁ c₂ max : Int}

/-- The side of a rectangle meets the clip. -/
def Meets (x trans width c₁ c₂ : Int) : Prop := c₁ ⊔ (x + trans) < c₂ ⊓ (x + trans + width)

/-- The right edge is no `int`, and the repair puts it on the left one. -/
def Lost (x trans width : Int) : Prop :=
  (x < 0 ∨ trans < 0) ∧ 0 ≤ x + trans ∧ 2147483648 ≤ x + trans + width

/-- The left edge is below all ints, and the side that it wraps to meets the clip. -/
def Gained (x trans width c₁ c₂ : Int) : Prop :=
  x + trans < -2147483648 ∧ x + 4294967296 + trans + width < 2147483648 ∧
    Meets (x + 4294967296) trans width c₁ c₂

/-- The code keeps points on this axis. -/
def Shown (x trans width c₁ c₂ : Int) : Prop :=
  Meets x trans width c₁ c₂ ∧ ¬ Lost x trans width ∨ Gained x trans width c₁ c₂

instance : Decidable (Meets x trans width c₁ c₂) := inferInstanceAs (Decidable (_ < _))

instance : Decidable (Shown x trans width c₁ c₂) :=
  inferInstanceAs (Decidable (_ ∧ ¬ (_ ∧ _ ∧ _) ∨ _ ∧ _ ∧ _))

theorem i32_sum {z : Int} (h : -4294967296 ≤ z ∧ z < 6442450944) :
    i32 z = z ∧ -2147483648 ≤ z ∧ z < 2147483648 ∨
      i32 z = z + 4294967296 ∧ z < -2147483648 ∨ i32 z = z - 4294967296 ∧ 2147483648 ≤ z := by
  have hrange := i32_range z
  unfold i32 Int.bmod at *
  simp only at *
  split <;> lia

/-- The left edge, for every place of it. -/
theorem translated1_cases (hx : IsInt x) (ht : IsInt trans) :
    (x + trans < -2147483648 ∧ translated1 x trans max = x + trans + 4294967296) ∨
    (-2147483648 ≤ x + trans ∧ x + trans < 0 ∧ translated1 x trans max = 0) ∨
    (0 ≤ x + trans ∧ x + trans < 2147483648 ∧ translated1 x trans max = x + trans) ∨
    (2147483648 ≤ x + trans ∧ translated1 x trans max = max) := by
  unfold IsInt at hx ht
  unfold translated1
  obtain ⟨h, hrange⟩ | ⟨h, hrange⟩ | ⟨h, hrange⟩ := @i32_sum (x + trans) (by omega)
  all_goals
    rw [h]
    split_ifs <;> lia

/-- The right edge, when the left one is `x₁`. -/
theorem translated2_cases {x₁ : Int} (hx : IsInt x) (ht : IsInt trans)
    (hw : 0 < width ∧ width < 2147483648) :
    (x + trans + width < -2147483648 ∧
      translated2 x trans width x₁ max = x + trans + width + 4294967296) ∨
    (-2147483648 ≤ x + trans + width ∧ x + trans + width < 0 ∧
      translated2 x trans width x₁ max = x₁) ∨
    (0 ≤ x + trans + width ∧ x + trans + width < 2147483648 ∧
      translated2 x trans width x₁ max = x + trans + width) ∨
    (2147483648 ≤ x + trans + width ∧ x + trans + width < 4294967296 ∧ (x < 0 ∨ trans < 0) ∧
      translated2 x trans width x₁ max = x₁) ∨
    (2147483648 ≤ x + trans + width ∧ x + trans + width < 4294967296 ∧ ¬ (x < 0 ∨ trans < 0) ∧
      translated2 x trans width x₁ max = max) ∨
    (4294967296 ≤ x + trans + width ∧ 0 ≤ translated2 x trans width x₁ max) := by
  unfold IsInt at hx ht
  unfold translated2
  rw [i32_i32_add]
  obtain ⟨h, hrange⟩ | ⟨h, hrange⟩ | ⟨h, hrange⟩ := @i32_sum (x + trans + width) (by omega)
  all_goals rw [h]
  · by_cases hz : x + trans + width < 0
    · -- one of the summands is negative
      rw [if_pos hz, if_pos (by omega)]
      exact .inr (.inl ⟨hrange.1, hz, rfl⟩)
    · rw [if_neg hz]
      exact .inr (.inr (.inl ⟨by omega, hrange.2, rfl⟩))
  · rw [if_neg (by omega)]
    exact .inl ⟨hrange, rfl⟩
  · by_cases hz : x + trans + width < 4294967296
    · rw [if_pos (by omega)]
      by_cases hneg : x < 0 ∨ trans < 0
      · rw [if_pos hneg]
        exact .inr (.inr (.inr (.inl ⟨hrange, hz, hneg, rfl⟩)))
      · rw [if_neg hneg]
        exact .inr (.inr (.inr (.inr (.inl ⟨hrange, hz, hneg, rfl⟩))))
    · -- the sum wraps all the way round
      rw [if_neg (by omega)]
      exact .inr (.inr (.inr (.inr (.inr ⟨by omega, by omega⟩))))

variable {x₁ x₂ : Int}

/-- What a clip on this axis is. -/
structure Interval (c₁ c₂ max : Int) : Prop where
  nonneg : 0 ≤ c₁
  le : c₁ ≤ c₂
  le_max : c₂ ≤ max
  short : max ≤ 32767

theorem Interval.max_nonneg (h : Interval c₁ c₂ max) : 0 ≤ max :=
  h.nonneg.trans (h.le.trans h.le_max)

/-- A side that is shown is not lost. -/
theorem Shown.not_lost (h : Shown x trans width c₁ c₂) : ¬ Lost x trans width := by
  rcases h with ⟨-, hlost⟩ | ⟨hleft, -, -⟩
  · exact hlost
  · unfold Lost
    omega

theorem meets_iff (hw : 0 < width) : Meets x trans width c₁ c₂ ↔
    (c₁ < c₂ ∧ c₁ < x + trans + width) ∧ x + trans < c₂ := by
  unfold Meets
  rw [max_lt_iff, lt_min_iff, lt_min_iff, and_iff_left (show x + trans < x + trans + width by omega)]

/-- A rectangle that is not lost is cut exactly. -/
theorem cut_exact (hx : IsInt x) (ht : IsInt trans) (hw : 0 < width ∧ width < 2147483648)
    (hc : Interval c₁ c₂ max) (hmeets : Meets x trans width c₁ c₂)
    (hlost : ¬ Lost x trans width) (h₁ : x₁ = translated1 x trans max)
    (h₂ : x₂ = translated2 x trans width x₁ max) :
    c₁ ⊔ x₁ = c₁ ⊔ (x + trans) ∧ c₂ ⊓ x₂ = c₂ ⊓ (x + trans + width) := by
  obtain ⟨h₀, hle, hmax, hshort⟩ := hc
  obtain ⟨⟨-, hmeets₂⟩, hmeets₁⟩ := (meets_iff hw.1).1 hmeets
  unfold Lost at hlost
  have hleft := @translated1_cases x trans max hx ht
  have hright := @translated2_cases x trans width max x₁ hx ht hw
  rw [← h₁] at hleft
  rw [← h₂] at hright
  clear h₁ h₂ hx ht hmeets
  constructor
  · rcases hleft with ⟨h, -⟩ | ⟨-, hneg, h⟩ | ⟨-, -, h⟩ | ⟨h, -⟩
    · -- the left edge is below the clip by more than the width can make up for
      omega
    · rw [h, max_eq_left h₀, max_eq_left (by omega)]
    · rw [h]
    · -- the left edge is behind the clip
      omega
  · rcases hright with ⟨h, -⟩ | ⟨-, h, -⟩ | ⟨-, -, h⟩ | ⟨h, -, hneg, -⟩ | ⟨hlarge, -, -, h⟩ | ⟨h, -⟩
    · omega
    · omega
    · rw [h]
    · -- it would be lost
      omega
    · rw [h, min_eq_left hmax, min_eq_left (by omega)]
    · omega

/-- **The code keeps points on an axis** if the rectangle meets the clip and is not lost, or if its
left edge wraps to a side that meets the clip. -/
theorem shown_iff (hx : IsInt x) (ht : IsInt trans) (hw : 0 < width ∧ width < 2147483648)
    (hc : Interval c₁ c₂ max) (h₁ : x₁ = translated1 x trans max)
    (h₂ : x₂ = translated2 x trans width x₁ max) :
    c₁ ⊔ x₁ < c₂ ⊓ x₂ ↔ Shown x trans width c₁ c₂ := by
  obtain ⟨h₀, hle, hmax, hshort⟩ := hc
  unfold Shown Lost Gained
  rw [meets_iff hw.1, meets_iff hw.1, max_lt_iff, lt_min_iff, lt_min_iff]
  have hleft := @translated1_cases x trans max hx ht
  have hright := @translated2_cases x trans width max x₁ hx ht hw
  rw [← h₁] at hleft
  rw [← h₂] at hright
  unfold IsInt at hx ht
  clear h₁ h₂
  rcases hleft with h | h | h | h <;>
    rcases hright with h' | h' | h' | h' | h' | h' <;> lia

end Axis

/-! ## One cut -/

section Cut
variable {x y width height trans max x₁ x₂ c₁ c₂ : Int} {g g' : Graphics}

theorem i16_mod {t : Int} (h₀ : 0 ≤ t) (h : t ≤ 32767) : i16 (t % 32768) = t := by
  rw [Int.emod_eq_of_lt h₀ (by omega)]
  exact Int.bmod_eq_of_le (by omega) (by omega)

theorem i16_of_short {t : Int} (h₀ : 0 ≤ t) (h : t ≤ 32767) : i16 t = t :=
  Int.bmod_eq_of_le (by omega) (by omega)

theorem translated1_nonneg (hmax : 0 ≤ max) :
    0 ≤ translated1 x trans max := by
  unfold translated1
  split_ifs <;> omega

/-- The edges are in order, unless the left one is behind the border. -/
theorem translated1_le (hx : IsInt x) (ht : IsInt trans) (hw : 0 < width ∧ width < 2147483648)
    (h₁ : x₁ = translated1 x trans max) (hmax : x₁ < max) : x₁ ≤ translated2 x trans width x₁ max := by
  have hleft := @translated1_cases x trans max hx ht
  have hright := @translated2_cases x trans width max x₁ hx ht hw
  rw [← h₁] at hleft
  unfold IsInt at hx ht
  clear h₁
  rcases hleft with h | h | h | h <;>
    rcases hright with h' | h' | h' | h' | h' | h' <;> omega

theorem boundedX2_eq (h : x₁ ≤ max) :
    boundedX2 x trans width x₁ max = max ⊓ translated2 x trans width x₁ max := by
  unfold boundedX2 translated2
  split_ifs <;> omega

/-- `g'` is `g` with the clip `[c₁, c₂) × [d₁, d₂)` cut to a rectangle with these edges. -/
structure Graphics.Cut (g : Graphics) (c₁ c₂ d₁ d₂ x₁ x₂ y₁ y₂ : Int) (g' : Graphics) : Prop where
  trans : g'.transX = g.transX ∧ g'.transY = g.transY
  max : g'.maxWidth = g.maxWidth ∧ g'.maxHeight = g.maxHeight
  clip : ((g'.clipX1 = c₁ ⊔ x₁ ∧ g'.clipX2 = c₂ ⊓ x₂ ∧ g'.clipX1 ≤ g'.clipX2) ∧
      g'.clipY1 = d₁ ⊔ y₁ ∧ g'.clipY2 = d₂ ⊓ y₂ ∧ g'.clipY1 ≤ g'.clipY2) ∨
    ((g'.clipX1 = 0 ∧ g'.clipX2 = 0 ∧ g'.clipY1 = 0 ∧ g'.clipY2 = 0) ∧
      (c₂ ⊓ x₂ ≤ c₁ ⊔ x₁ ∨ d₂ ⊓ y₂ ≤ d₁ ⊔ y₁))

theorem Graphics.Cut.noClip {d₁ d₂ y₁ y₂ : Int} (h : c₂ ⊓ x₂ ≤ c₁ ⊔ x₁ ∨ d₂ ⊓ y₂ ≤ d₁ ⊔ y₁) :
    g.Cut c₁ c₂ d₁ d₂ x₁ x₂ y₁ y₂ g.noClip :=
  ⟨⟨rfl, rfl⟩, ⟨rfl, rfl⟩, .inr ⟨⟨rfl, rfl, rfl, rfl⟩, h⟩⟩

theorem left_of_cut (hc : Interval c₁ c₂ max) (h₁ : 0 ≤ x₁) (hleft : x₁ ≤ c₂) :
    (if c₁ < x₁ then i16 (x₁ % 32768) else c₁) = c₁ ⊔ x₁ := by
  obtain ⟨h₀, hle, hmax, hshort⟩ := hc
  rw [i16_mod h₁ (by omega)]
  split_ifs <;> omega

theorem right_of_cut {clipped : Prop} [Decidable clipped] (hc : Interval c₁ c₂ max)
    (hleft : x₁ ≤ c₂) (hright : c₁ ⊔ x₁ ≤ x₂) :
    (if clipped ∧ (if x₂ ≤ c₂ then i16 x₂ else c₂) < c₁ ⊔ x₁ then c₁ ⊔ x₁
      else if x₂ ≤ c₂ then i16 x₂ else c₂) = c₂ ⊓ x₂ := by
  obtain ⟨h₀, hle, hmax, hshort⟩ := hc
  have hx₂ : x₂ ≤ c₂ → i16 x₂ = x₂ := fun h => i16_of_short (by omega) (by omega)
  split_ifs <;> omega

/-- The sides of the clip are intervals. -/
theorem Graphics.Bounded.sides (h : g.Bounded) : Interval g.clipX1 g.clipX2 g.maxWidth ∧
    Interval g.clipY1 g.clipY2 g.maxHeight :=
  ⟨⟨h.clipX.1, h.clipX.2.1, h.clipX.2.2, h.maxWidth⟩, ⟨h.clipY.1, h.clipY.2.1, h.clipY.2.2, h.maxHeight⟩⟩

/-- **`clipRect` cuts the clip**, to the edges as it computes them. -/
theorem Graphics.clipRect_cut (h : g.Bounded) (hw : 0 < width) (hh : 0 < height) {y₁ y₂ : Int}
    (hx₁ : x₁ = translated1 x g.transX g.maxWidth)
    (hx₂ : x₂ = translated2 x g.transX width x₁ g.maxWidth)
    (hy₁ : y₁ = translated1 y g.transY g.maxHeight)
    (hy₂ : y₂ = translated2 y g.transY height y₁ g.maxHeight) :
    g.Cut g.clipX1 g.clipX2 g.clipY1 g.clipY2 x₁ x₂ y₁ y₂ (g.clipRect x y width height) := by
  obtain ⟨hX, hY⟩ := h.sides
  have hx₀ : 0 ≤ x₁ := hx₁ ▸ translated1_nonneg hX.max_nonneg
  have hy₀ : 0 ≤ y₁ := hy₁ ▸ translated1_nonneg hY.max_nonneg
  unfold clipRect
  rw [if_neg (by omega)]
  dsimp only
  rw [← hx₁, ← hx₂, ← hy₁, ← hy₂]
  split
  · -- the rectangle is right of the clip or below it
    apply Cut.noClip
    lia
  next hin =>
  rw [left_of_cut hX hx₀ (by lia), left_of_cut hY hy₀ (by lia)]
  split
  · -- it is left of the clip or above it
    apply Cut.noClip
    lia
  next hin' =>
  rw [right_of_cut hX (by lia) (by lia), right_of_cut hY (by lia) (by lia)]
  have hleX := hX.le
  have hleY := hY.le
  exact ⟨⟨rfl, rfl⟩, ⟨rfl, rfl⟩, .inl ⟨⟨rfl, rfl, by dsimp only; omega⟩, rfl, rfl, by dsimp only; omega⟩⟩

/-- **`setClip` cuts the drawing area.** -/
theorem Graphics.setClip_cut (h : g.Bounded) (hx : IsInt x) (hy : IsInt y) (htX : IsInt g.transX)
    (htY : IsInt g.transY) (hw : 0 < width ∧ width < 2147483648)
    (hh : 0 < height ∧ height < 2147483648) {y₁ y₂ : Int}
    (hx₁ : x₁ = translated1 x g.transX g.maxWidth)
    (hx₂ : x₂ = translated2 x g.transX width x₁ g.maxWidth)
    (hy₁ : y₁ = translated1 y g.transY g.maxHeight)
    (hy₂ : y₂ = translated2 y g.transY height y₁ g.maxHeight) :
    g.Cut 0 g.maxWidth 0 g.maxHeight x₁ x₂ y₁ y₂ (g.setClip x y width height) := by
  obtain ⟨hX, hY⟩ := h.sides
  have hx₀ : 0 ≤ x₁ := hx₁ ▸ translated1_nonneg hX.max_nonneg
  have hy₀ : 0 ≤ y₁ := hy₁ ▸ translated1_nonneg hY.max_nonneg
  have hshortX := hX.short
  have hshortY := hY.short
  unfold setClip
  rw [if_neg (by omega)]
  dsimp only
  rw [← hx₁, ← hy₁]
  split
  · apply Cut.noClip
    lia
  next hin =>
  have hleX : x₁ ≤ x₂ := hx₂ ▸ translated1_le hx htX hw hx₁ (by omega)
  have hleY : y₁ ≤ y₂ := hy₂ ▸ translated1_le hy htY hh hy₁ (by omega)
  rw [boundedX2_eq (show x₁ ≤ g.maxWidth by lia), boundedX2_eq (show y₁ ≤ g.maxHeight by lia),
    ← hx₂, ← hy₂, i16_mod hx₀ (by lia), i16_mod hy₀ (by lia), i16_mod (by lia) (by lia),
    i16_mod (by lia) (by lia)]
  refine ⟨⟨rfl, rfl⟩, ⟨rfl, rfl⟩, .inl ⟨⟨?_, rfl, ?_⟩, ?_, rfl, ?_⟩⟩ <;> dsimp only <;> omega

/-- A cut clip stays inside the drawing area. -/
theorem Graphics.Cut.bounded {d₁ d₂ y₁ y₂ : Int} (h : g.Cut c₁ c₂ d₁ d₂ x₁ x₂ y₁ y₂ g')
    (hX : Interval c₁ c₂ g.maxWidth) (hY : Interval d₁ d₂ g.maxHeight) : g'.Bounded := by
  obtain ⟨-, ⟨hmaxX, hmaxY⟩, hclip⟩ := h
  have hX₀ := hX.max_nonneg
  have hY₀ := hY.max_nonneg
  obtain ⟨h₀, hle, hmax, hshort⟩ := hX
  obtain ⟨h₀', hle', hmax', hshort'⟩ := hY
  constructor <;> lia

/-- **The new clip is the intersection exactly if the axes show what they should.** -/
theorem Graphics.Cut.area_iff {d₁ d₂ y₁ y₂ : Int} (h : g.Cut c₁ c₂ d₁ d₂ x₁ x₂ y₁ y₂ g')
    (hX : Interval c₁ c₂ g.maxWidth) (hY : Interval d₁ d₂ g.maxHeight) (hx : IsInt x) (hy : IsInt y)
    (htX : IsInt g.transX) (htY : IsInt g.transY) (hw : 0 < width ∧ width < 2147483648)
    (hh : 0 < height ∧ height < 2147483648)
    (hx₁ : x₁ = translated1 x g.transX g.maxWidth)
    (hx₂ : x₂ = translated2 x g.transX width x₁ g.maxWidth)
    (hy₁ : y₁ = translated1 y g.transY g.maxHeight)
    (hy₂ : y₂ = translated2 y g.transY height y₁ g.maxHeight) :
    g'.area = (Set.Ico c₁ c₂ ×ˢ Set.Ico d₁ d₂) ∩ rect (x + g.transX) (y + g.transY) width height ↔
      (Meets x g.transX width c₁ c₂ ∧ Meets y g.transY height d₁ d₂ ↔
        Shown x g.transX width c₁ c₂ ∧ Shown y g.transY height d₁ d₂) := by
  have harea : g'.area = Set.Ico (c₁ ⊔ x₁) (c₂ ⊓ x₂) ×ˢ Set.Ico (d₁ ⊔ y₁) (d₂ ⊓ y₂) := by
    unfold area
    rcases h.clip with ⟨⟨h₁, h₂, -⟩, h₃, h₄, -⟩ | ⟨⟨h₁, h₂, h₃, h₄⟩, hempty⟩
    · rw [h₁, h₂, h₃, h₄]
    · rw [h₁, h₂, h₃, h₄, Set.Ico_self, Set.empty_prod]
      rcases hempty with hempty | hempty
      · rw [Set.Ico_eq_empty (by omega), Set.empty_prod]
      · rw [Set.Ico_eq_empty (a := d₁ ⊔ y₁) (by omega), Set.prod_empty]
  have hshownX := shown_iff hx htX hw hX hx₁ hx₂
  have hshownY := shown_iff hy htY hh hY hy₁ hy₂
  rw [harea, rect, Set.prod_inter_prod, Set.Ico_inter_Ico, Set.Ico_inter_Ico, ← hshownX, ← hshownY]
  constructor
  · intro heq
    have hne := congrArg Set.Nonempty heq
    simp only [Set.prod_nonempty_iff, Set.nonempty_Ico, eq_iff_iff] at hne
    exact hne.symm
  · intro hiff
    by_cases hmeets : Meets x g.transX width c₁ c₂ ∧ Meets y g.transY height d₁ d₂
    · obtain ⟨hX', hY'⟩ := hiff.1 hmeets
      obtain ⟨hXl, hXr⟩ := cut_exact hx htX hw hX hmeets.1 (hshownX.1 hX').not_lost hx₁ hx₂
      obtain ⟨hYl, hYr⟩ := cut_exact hy htY hh hY hmeets.2 (hshownY.1 hY').not_lost hy₁ hy₂
      rw [hXl, hXr, hYl, hYr]
    · have hnot : ¬ (c₁ ⊔ x₁ < c₂ ⊓ x₂ ∧ d₁ ⊔ y₁ < d₂ ⊓ y₂) := fun h => hmeets (hiff.2 h)
      have hempty : ∀ {a b c d : Int}, ¬ (a < b ∧ c < d) → Set.Ico a b ×ˢ Set.Ico c d = ∅ := by
        intro a b c d hno
        rw [← Set.not_nonempty_iff_eq_empty, Set.prod_nonempty_iff, Set.nonempty_Ico, Set.nonempty_Ico]
        exact hno
      rw [hempty hnot]
      exact (hempty hmeets).symm

end Cut

/-! ## Runs -/

/-- A cut shows points on both axes exactly if the rectangle meets the clip on both. -/
def RightCut (g : Graphics) (x y width height c₁ c₂ d₁ d₂ : Int) : Prop :=
  0 < width → 0 < height →
    (Meets x g.transX width c₁ c₂ ∧ Meets y g.transY height d₁ d₂ ↔
      Shown x g.transX width c₁ c₂ ∧ Shown y g.transY height d₁ d₂)

instance {g : Graphics} {x y width height c₁ c₂ d₁ d₂ : Int} :
    Decidable (RightCut g x y width height c₁ c₂ d₁ d₂) := inferInstanceAs (Decidable (_ → _ → _))

/-- The call does not cut the clip wrong. -/
def Graphics.CutsRight (g : Graphics) : Call → Prop
  | .translate _ _ => True
  | .clipRect x y width height =>
    RightCut g x y width height g.clipX1 g.clipX2 g.clipY1 g.clipY2
  | .setClip x y width height => RightCut g x y width height 0 g.maxWidth 0 g.maxHeight

instance (g : Graphics) : (c : Call) → Decidable (g.CutsRight c)
  | .translate _ _ => inferInstanceAs (Decidable True)
  | .clipRect _ _ _ _ => inferInstanceAs (Decidable (RightCut ..))
  | .setClip _ _ _ _ => inferInstanceAs (Decidable (RightCut ..))

/-- The state between two calls on a context of `w` by `h` points. -/
structure Consistent (w h : Int) (g : Graphics) : Prop where
  bounded : g.Bounded
  dims : g.maxWidth = w ∧ g.maxHeight = h
  trans : IsInt g.transX ∧ IsInt g.transY

/-- The clip is the intersection that the history asks for. -/
structure Agrees (w h : Int) (g : Graphics) (r : History) : Prop where
  trans : g.transX = r.transX ∧ g.transY = r.transY
  area : g.area = r.area w h

section Runs
variable {w h : Int} {g g' : Graphics} {r : History}

theorem History.area_cons {s : Set (Int × Int)} {x y : Int} {l : List (Set (Int × Int))} :
    (⟨x, y, s :: l⟩ : History).area w h = (⟨x, y, l⟩ : History).area w h ∩ s := by
  ext p
  simp only [History.area, List.mem_cons, forall_eq_or_imp, Set.mem_ofPred_eq, Set.mem_inter_iff]
  tauto

theorem History.area_nil {x y : Int} : (⟨x, y, []⟩ : History).area w h = rect 0 0 w h := by
  ext p
  simp [History.area]

theorem rect_empty {x y width height : Int} (hno : width ≤ 0 ∨ height ≤ 0) :
    rect x y width height = ∅ := by
  unfold rect
  rcases hno with hno | hno
  · rw [Set.Ico_eq_empty (by omega), Set.empty_prod]
  · rw [Set.Ico_eq_empty (a := y) (by omega), Set.prod_empty]

theorem noClip_area : g.noClip.area = ∅ := by
  simp [Graphics.area, Graphics.noClip]

theorem noClip_consistent (hg : Consistent w h g) : Consistent w h g.noClip := by
  obtain ⟨hX, hY⟩ := hg.bounded.sides
  exact ⟨⟨⟨le_rfl, le_rfl, hX.max_nonneg⟩, ⟨le_rfl, le_rfl, hY.max_nonneg⟩, hX.short, hY.short⟩,
    hg.dims, hg.trans⟩

/-- The translation and the dimensions stay as they are when the clip is cut. -/
theorem Consistent.cut {c₁ c₂ d₁ d₂ x₁ x₂ y₁ y₂ : Int} (hg : Consistent w h g)
    (hcut : g.Cut c₁ c₂ d₁ d₂ x₁ x₂ y₁ y₂ g') (hX : Interval c₁ c₂ g.maxWidth)
    (hY : Interval d₁ d₂ g.maxHeight) : Consistent w h g' := by
  refine ⟨hcut.bounded hX hY, ?_, ?_⟩
  · rw [hcut.max.1, hcut.max.2]
    exact hg.dims
  · rw [hcut.trans.1, hcut.trans.2]
    exact hg.trans

/-- **One call** keeps the clip inside the drawing area, and in step with the history if it does not
cut wrong. -/
theorem Consistent.step {c : Call} (hg : Consistent w h g) (hs : g.Step c g') :
    Consistent w h g' ∧ (g.CutsRight c → Agrees w h g r → Agrees w h g' (r.call c)) := by
  obtain ⟨hfits, rfl⟩ := hs
  obtain ⟨hX, hY⟩ := hg.bounded.sides
  have hX' : Interval 0 g.maxWidth g.maxWidth := ⟨le_rfl, hX.max_nonneg, le_rfl, hX.short⟩
  have hY' : Interval 0 g.maxHeight g.maxHeight := ⟨le_rfl, hY.max_nonneg, le_rfl, hY.short⟩
  have hdrawing : rect 0 0 w h = Set.Ico 0 g.maxWidth ×ˢ Set.Ico 0 g.maxHeight := by
    rw [rect, hg.dims.1, hg.dims.2, Int.zero_add, Int.zero_add]
  cases c with
  | translate x y =>
    obtain ⟨hx, hy⟩ := hfits
    have hx' : i32 (g.transX + x) = g.transX + x := i32_of_range hx
    have hy' : i32 (g.transY + y) = g.transY + y := i32_of_range hy
    refine ⟨⟨⟨hg.bounded.clipX, hg.bounded.clipY, hX.short, hY.short⟩, hg.dims, ?_⟩, ?_⟩
    · show IsInt (i32 _) ∧ IsInt (i32 _)
      rw [hx', hy']
      exact ⟨hx, hy⟩
    · rintro - ⟨⟨htX, htY⟩, harea⟩
      refine ⟨⟨?_, ?_⟩, harea⟩
      · show i32 _ = _
        rw [hx', htX]
        rfl
      · show i32 _ = _
        rw [hy', htY]
        rfl
  | clipRect x y width height =>
    obtain ⟨hx, hy, hw, hh⟩ := hfits
    by_cases hno : width ≤ 0 ∨ height ≤ 0
    · have hcall : g.call (.clipRect x y width height) = g.noClip := if_pos hno
      rw [hcall]
      refine ⟨noClip_consistent hg, fun _ hr => ⟨hr.trans, ?_⟩⟩
      rw [noClip_area, History.call, History.area_cons, rect_empty hno, Set.inter_empty]
    · have hw' : 0 < width ∧ width < 2147483648 := ⟨by omega, hw.2⟩
      have hh' : 0 < height ∧ height < 2147483648 := ⟨by omega, hh.2⟩
      have hcut := @Graphics.clipRect_cut x y width height _ _ g hg.bounded hw'.1 hh'.1 _ _ rfl rfl
        rfl rfl
      refine ⟨hg.cut hcut hX hY, fun hright hr => ⟨?_, ?_⟩⟩
      · show (g.clipRect x y width height).transX = _ ∧ (g.clipRect x y width height).transY = _
        rw [hcut.trans.1, hcut.trans.2]
        exact hr.trans
      · rw [History.call, History.area_cons, ← hr.trans.1, ← hr.trans.2]
        show (g.clipRect x y width height).area = r.area w h ∩ _
        rw [← hr.area]
        exact (hcut.area_iff hX hY hx hy hg.trans.1 hg.trans.2 hw' hh' rfl rfl rfl rfl).2
          (hright hw'.1 hh'.1)
  | setClip x y width height =>
    obtain ⟨hx, hy, hw, hh⟩ := hfits
    by_cases hno : width ≤ 0 ∨ height ≤ 0
    · have hcall : g.call (.setClip x y width height) = g.noClip := if_pos hno
      rw [hcall]
      refine ⟨noClip_consistent hg, fun _ hr => ⟨hr.trans, ?_⟩⟩
      rw [noClip_area, History.call, History.area_cons, rect_empty hno, Set.inter_empty]
    · have hw' : 0 < width ∧ width < 2147483648 := ⟨by omega, hw.2⟩
      have hh' : 0 < height ∧ height < 2147483648 := ⟨by omega, hh.2⟩
      have hcut := Graphics.setClip_cut hg.bounded hx hy hg.trans.1 hg.trans.2 hw' hh' rfl rfl
        rfl rfl
      refine ⟨hg.cut hcut hX' hY', fun hright hr => ⟨?_, ?_⟩⟩
      · show (g.setClip x y width height).transX = _ ∧ (g.setClip x y width height).transY = _
        rw [hcut.trans.1, hcut.trans.2]
        exact hr.trans
      · rw [History.call, History.area_cons, History.area_nil, ← hr.trans.1, ← hr.trans.2, hdrawing]
        exact (hcut.area_iff hX' hY' hx hy hg.trans.1 hg.trans.2 hw' hh' rfl rfl rfl rfl).2
          (hright hw'.1 hh'.1)

/-- A new context shows the whole drawing area. -/
theorem setDimensions_eq (hw : 1 ≤ w ∧ w ≤ 32767) (hh : 1 ≤ h ∧ h ≤ 32767) :
    ∃ clipped, Graphics.setDimensions w h = ⟨0, 0, 0, 0, w, h, clipped, w, h⟩ := by
  have hmodW : i16 (w % 32768) = w := i16_mod (by omega) (by omega)
  have hmodH : i16 (h % 32768) = h := i16_mod (by omega) (by omega)
  have hzero : i32 0 = 0 := rfl
  have hw32 : i32 w = w := i32_of_range (by omega)
  have hh32 : i32 h = h := i32_of_range (by omega)
  unfold Graphics.setDimensions
  rw [hmodW, hmodH]
  unfold Graphics.setClip
  rw [if_neg (show ¬ (w ≤ 0 ∨ h ≤ 0) by omega)]
  simp only [translated1, boundedX2, Int.add_zero, hzero, Int.zero_add, hw32, hh32, lt_irrefl,
    if_false, if_neg (show ¬ (w ≤ 0 ∨ h ≤ 0) by omega), if_neg (show ¬ w < 0 by omega),
    if_neg (show ¬ h < 0 by omega), hmodW, hmodH]
  exact ⟨_, rfl⟩

theorem start_consistent (hw : 1 ≤ w ∧ w ≤ 32767) (hh : 1 ≤ h ∧ h ≤ 32767) :
    Consistent w h (Graphics.setDimensions w h) ∧ Agrees w h (Graphics.setDimensions w h) ⟨0, 0, []⟩ := by
  obtain ⟨clipped, heq⟩ := setDimensions_eq hw hh
  rw [heq]
  refine ⟨⟨⟨by dsimp only; omega, by dsimp only; omega, hw.2, hh.2⟩, ⟨rfl, rfl⟩, by simp [IsInt]⟩,
    ⟨rfl, rfl⟩, ?_⟩
  rw [History.area_nil, Graphics.area, rect, Int.zero_add, Int.zero_add]

/-- What runs keep. -/
theorem run_keeps {calls : List Call} (hrun : Lts.Run Graphics.Step g calls g')
    (hg : Consistent w h g) : Consistent w h g' :=
  hrun.invariant (fun _ _ _ hg hs => (hg.step (r := ⟨0, 0, []⟩) hs).1) hg

theorem run_agrees {calls : List Call}
    (hrun : Lts.Run (Lts.Guarded Graphics.Step Graphics.CutsRight) g calls g')
    (hg : Consistent w h g) (hr : Agrees w h g r) : Agrees w h g' (calls.foldl History.call r) := by
  induction hrun generalizing r with
  | nil => exact hr
  | cons hs _ ih =>
    obtain ⟨hg', hr'⟩ := hg.step hs.2
    exact ih hg' (hr' hs.1 hr)

/-- **The clip stays inside the drawing area in every run, and it is the intersection of the drawing
area with the rectangles since the last `setClip`** in every run without a wrong cut. -/
theorem clip_exact (hw : 1 ≤ w ∧ w ≤ 32767) (hh : 1 ≤ h ∧ h ≤ 32767) {calls : List Call} :
    (Lts.Run Graphics.Step (.setDimensions w h) calls g →
      g.Bounded ∧ g.maxWidth = w ∧ g.maxHeight = h) ∧
    (Lts.Run (Lts.Guarded Graphics.Step Graphics.CutsRight) (.setDimensions w h) calls g →
      g.area = (history calls).area w h) := by
  obtain ⟨hg, hr⟩ := start_consistent hw hh
  constructor
  · intro hrun
    have hg' := run_keeps hrun hg
    exact ⟨hg'.bounded, hg'.dims⟩
  · intro hrun
    exact (run_agrees hrun hg hr).area

end Runs

/-- A translation, and a cut that sticks out of the drawing area on both sides. -/
theorem clip_exact_translated :
    let g := ((Graphics.setDimensions 100 100).translate 10 0).clipRect (-30) 5 2147483647 50
    (g.Bounded ∧ g.maxWidth = 100 ∧ g.maxHeight = 100) ∧
      g.area = (history [.translate 10 0, .clipRect (-30) 5 2147483647 50]).area 100 100 := by
  have hexact := @clip_exact 100 100
    (((Graphics.setDimensions 100 100).translate 10 0).clipRect (-30) 5 2147483647 50)
    (by decide) (by decide) [.translate 10 0, .clipRect (-30) 5 2147483647 50]
  have hfits : (Call.translate 10 0).Fits (.setDimensions 100 100) ∧
      (Call.clipRect (-30) 5 2147483647 50).Fits ((Graphics.setDimensions 100 100).translate 10 0) := by
    decide +kernel
  have hright : ((Graphics.setDimensions 100 100).translate 10 0).CutsRight
      (.clipRect (-30) 5 2147483647 50) := by decide +kernel
  exact ⟨hexact.1 (.cons ⟨hfits.1, rfl⟩ (.cons ⟨hfits.2, rfl⟩ (.nil _))),
    hexact.2 (.cons ⟨trivial, hfits.1, rfl⟩ (.cons ⟨hright, hfits.2, rfl⟩ (.nil _)))⟩

/-- A rectangle whose right edge is no `int` is lost, although it contains most of the area. -/
theorem clip_lost :
    ¬ ∀ (w h : Int) (calls : List Call) (g : Graphics), 1 ≤ w ∧ w ≤ 32767 → 1 ≤ h ∧ h ≤ 32767 →
      Lts.Run Graphics.Step (.setDimensions w h) calls g →
      g.area = (history calls).area w h := by
  intro hall
  have hrun : Lts.Run Graphics.Step (.setDimensions 100 100)
      [.translate 10 0, .setClip (-5) 0 2147483647 50]
      (((Graphics.setDimensions 100 100).translate 10 0).setClip (-5) 0 2147483647 50) :=
    .cons ⟨by decide +kernel, rfl⟩ (.cons ⟨by decide +kernel, rfl⟩ (.nil _))
  have harea := hall 100 100 _ _ (by decide) (by decide) hrun
  have hpoint : ((50, 10) : Int × Int) ∈ (history [.translate 10 0,
      .setClip (-5) 0 2147483647 50]).area 100 100 := by
    simp [history, History.call, History.area, rect]
  rw [← harea] at hpoint
  have hempty : (((Graphics.setDimensions 100 100).translate 10 0).setClip (-5) 0 2147483647 50).clipX2
      = 5 := by decide +kernel
  have hright := hpoint.1.2
  rw [hempty] at hright
  exact absurd hright (by decide)

end FroggyKVM.Lcdui
