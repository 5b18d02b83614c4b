/-
# FroggyKVM.Graphics.PixelPaths — when the two paths of the Nokia pixel drawing agree.

The path without alpha takes or leaves a row as a whole, under an end test of its own, and reads the
source pixel after pixel whatever the source increment is.  **For each place of the image the two
paths agree on all opaque images, and stay inside the destination, exactly if no sum of the code
overflows, no pixel lies before the destination, no row is cut by the end test, and rows are not
read across**; one exception is a row that is hidden behind another.
-/
import FroggyKVM.Graphics.DrawPixels

namespace FroggyKVM.Graphics

/-! ## Where the image is placed -/

namespace PixelCall

/-- The number of rows, and that of columns before it is cut at the right border. -/
def rows (c : PixelCall) : Int := if c.inverted then c.nWidth else c.nHeight

def columns (c : PixelCall) : Int := if c.inverted then c.nHeight else c.nWidth

/-- Rows are drawn upwards, and columns from right to left. -/
def upwards (c : PixelCall) : Bool := c.inverted ^^ c.yFlip

def leftwards (c : PixelCall) : Bool := c.inverted ^^ c.xFlip

/-- The column that is cut at the right border. -/
def corner (c : PixelCall) : Int :=
  if c.inverted then c.nXOriginDest + (c.columns - 1) else c.nXOriginDest

/-- The number of columns drawn. -/
def width (c : PixelCall) (W : Int) : Int :=
  if W ≤ c.corner + c.columns then W - c.corner else c.columns

def firstRow (c : PixelCall) : Int :=
  if c.upwards then c.nYOriginDest + (c.rows - 1) else c.nYOriginDest

def firstColumn (c : PixelCall) (W : Int) : Int :=
  if c.xFlip then
    if c.inverted then c.corner - (c.width W - 1) else c.corner + (c.width W - 1)
  else c.corner

/-- The place of the image, in exact integers. -/
def place (c : PixelCall) (W H : Int) : PixelSetup where
  tWidth := c.width W
  tHeight := c.rows
  dest := c.firstRow * W + c.firstColumn W
  src := c.nYOriginSrc * c.nScanLen + c.nXOriginSrc
  xDestIncr := if c.leftwards then -1 else 1
  yDestIncr := if c.upwards then -W else W
  xSrcIncr := if c.inverted then c.nScanLen else 1
  ySrcIncr := if c.inverted then 1 else c.nScanLen
  limit := W * H

/-- The sums and products in front of the loops. -/
def SetupFits (c : PixelCall) (size W H : Int) : Prop :=
  (c.inverted = true → (IsInt32 (c.rows - 1) ∧ IsInt32 (c.nYOriginDest + (c.rows - 1))) ∧
    IsInt32 (c.columns - 1) ∧ IsInt32 c.corner) ∧
  (c.yFlip = true → IsInt32 (c.rows - 1) ∧
    (if c.inverted then IsInt32 (-(c.rows - 1)) else True) ∧ IsInt32 c.firstRow) ∧
  IsInt32 (c.corner + c.columns) ∧
  (W ≤ c.corner + c.columns → IsInt32 (W - c.corner)) ∧
  (c.xFlip = true → IsInt32 (c.width W - 1) ∧
    (if c.inverted then IsInt32 (-(c.width W - 1)) else True) ∧ IsInt32 (c.firstColumn W)) ∧
  IsInt32 (if c.upwards then -W else W) ∧ IsInt32 ((if c.upwards then -W else W) * 2) ∧
  IsInt32 ((if c.inverted then c.nScanLen else 1) * size) ∧
  IsInt32 ((if c.inverted then 1 else c.nScanLen) * size) ∧
  IsInt32 (c.width W * ((if c.leftwards then -1 else 1) * 2)) ∧
  IsInt32 (c.width W * ((if c.inverted then c.nScanLen else 1) * size)) ∧
  IsInt32 (c.firstRow * W) ∧ IsInt32 (c.firstRow * W + c.firstColumn W) ∧
  IsInt32 ((c.firstRow * W + c.firstColumn W) * 2) ∧
  IsInt32 (c.nYOriginSrc * c.nScanLen) ∧ IsInt32 (c.nYOriginSrc * c.nScanLen + c.nXOriginSrc) ∧
  IsInt32 (W * H) ∧ IsInt32 (W * H * 2)

end PixelCall

section Setup
variable {size W H : Int} {c : PixelCall} {s : PixelSetup}

theorem checked_bind_eq_ok {β : Type} {a : Int} {f : Int → Except DrawFault β} {r : β} :
    (checked a >>= f) = .ok r ↔ IsInt32 a ∧ f a = .ok r := by
  by_cases h : IsInt32 a
  · rw [checked_ok h, ok_bind]
    exact (and_iff_right h).symm
  · rw [checked_error h]
    exact iff_of_false (fun hr => by cases hr) fun hr => h hr.1

theorem checkedIf_eq_ok {β : Type} {p : Prop} [Decidable p] {a b : Int}
    {f : Int → Except DrawFault β} {r : β} :
    (if p then checked a >>= f else pure b >>= f) = .ok r ↔
      (p → IsInt32 a) ∧ f (if p then a else b) = .ok r := by
  by_cases hp : p
  · rw [if_pos hp, if_pos hp, checked_bind_eq_ok, imp_iff_right hp]
  · rw [if_neg hp, if_neg hp, pure_eq_ok, ok_bind]
    exact (and_iff_right fun h => absurd h hp).symm

/-- The operations of `turn`. -/
def PixelCall.TurnFits (x n incr : Int) : Prop :=
  IsInt32 (n - 1) ∧ IsInt32 ((n - 1) * incr) ∧ IsInt32 (x + (n - 1) * incr)

theorem turnIf_eq_ok {β : Type} {b : Bool} {x n incr : Int} {f : Int × Int → Except DrawFault β}
    {r : β} : (if b then PixelCall.turn x n incr >>= f else pure (x, incr) >>= f) = .ok r ↔
      (b = true → PixelCall.TurnFits x n incr) ∧
        f (if b then x + (n - 1) * incr else x, if b then -incr else incr) = .ok r := by
  cases b
  · simp only [Bool.false_eq_true, if_false, pure_eq_ok, ok_bind, false_imp_iff, true_and]
  · simp only [if_true, PixelCall.turn, PixelCall.TurnFits, bind_assoc, checked_bind_eq_ok,
      pure_eq_ok, ok_bind, and_assoc, true_imp_iff]

/-- The way through the rows and columns after the first turn. -/
def PixelCall.incr (c : PixelCall) : Int := if c.inverted then -1 else 1

/-- Where the first turn of the rows ends. -/
def PixelCall.turnedRow (c : PixelCall) : Int :=
  if c.inverted then c.nYOriginDest + (c.rows - 1) else c.nYOriginDest

theorem turnFits_one {x n : Int} :
    PixelCall.TurnFits x n 1 ↔ IsInt32 (n - 1) ∧ IsInt32 (x + (n - 1)) := by
  simp only [PixelCall.TurnFits, mul_one, and_self_left]

theorem turnFits_incr {x n : Int} : PixelCall.TurnFits x n c.incr ↔ IsInt32 (n - 1) ∧
    (if c.inverted then IsInt32 (-(n - 1)) else True) ∧ IsInt32 (x + (n - 1) * c.incr) := by
  unfold PixelCall.TurnFits PixelCall.incr
  cases c.inverted
  · simp only [Bool.false_eq_true, if_false, mul_one, and_self_left, true_and]
  · simp only [if_true, mul_neg, mul_one]

theorem firstRow_eq :
    (if c.yFlip then c.turnedRow + (c.rows - 1) * c.incr else c.turnedRow) = c.firstRow := by
  unfold PixelCall.turnedRow PixelCall.firstRow PixelCall.upwards PixelCall.incr
  cases c.inverted <;> cases c.yFlip <;>
    simp only [Bool.false_eq_true, if_true, if_false, Bool.xor_false, Bool.xor_true, Bool.not_true,
      Bool.not_false, mul_one, mul_neg, add_neg_cancel_right]

theorem firstColumn_eq : (if c.xFlip then c.corner + (c.width W - 1) * c.incr else c.corner) =
    c.firstColumn W := by
  unfold PixelCall.firstColumn PixelCall.incr
  cases c.inverted <;> simp [sub_eq_add_neg]

theorem upwards_eq : (if c.yFlip then -c.incr else c.incr) * W = if c.upwards then -W else W := by
  unfold PixelCall.upwards PixelCall.incr
  cases c.inverted <;> cases c.yFlip <;> simp

theorem leftwards_eq : (if c.xFlip then -c.incr else c.incr) = if c.leftwards then -1 else 1 := by
  unfold PixelCall.leftwards PixelCall.incr
  cases c.inverted <;> cases c.xFlip <;> rfl

theorem yFlip_fits : (c.yFlip = true → PixelCall.TurnFits c.turnedRow c.rows c.incr) ↔
    (c.yFlip = true → IsInt32 (c.rows - 1) ∧
      (if c.inverted then IsInt32 (-(c.rows - 1)) else True) ∧ IsInt32 c.firstRow) := by
  refine forall_congr' fun hy => ?_
  rw [turnFits_incr, ← firstRow_eq, if_pos hy]

theorem xFlip_fits : (c.xFlip = true → PixelCall.TurnFits c.corner (c.width W) c.incr) ↔
    (c.xFlip = true → IsInt32 (c.width W - 1) ∧
      (if c.inverted then IsInt32 (-(c.width W - 1)) else True) ∧ IsInt32 (c.firstColumn W)) := by
  refine forall_congr' fun hx => ?_
  rw [turnFits_incr, ← firstColumn_eq, if_pos hx]

/-- One operation in front of others. -/
theorem and_step {P Q A B E : Prop} (h : P ↔ A ∧ Q) (hQ : Q ↔ B ∧ E) : P ↔ (A ∧ B) ∧ E := by
  rw [h, hQ, and_assoc]

/-- **The code in front of the loops computes the place**, unless one of its sums overflows. -/
theorem setup_eq_ok : c.setup size W H = .ok s ↔ c.SetupFits size W H ∧ s = c.place W H := by
  have hrows : (if c.inverted then c.nWidth else c.nHeight) = c.rows := rfl
  have hcolumns : (if c.inverted then c.nHeight else c.nWidth) = c.columns := rfl
  have hturned : (if c.inverted then c.nYOriginDest + (c.rows - 1) else c.nYOriginDest) =
      c.turnedRow := rfl
  have hcorner : (if c.inverted then c.nXOriginDest + (c.columns - 1) else c.nXOriginDest) =
      c.corner := rfl
  have hincr : (if c.inverted then -1 else 1) = c.incr := rfl
  have hwidth : (if W ≤ c.corner + c.columns then W - c.corner else c.columns) = c.width W := rfl
  unfold PixelCall.setup PixelCall.SetupFits
  -- the two turns of an inverted image
  refine turnIf_eq_ok.trans ((and_congr_right' turnIf_eq_ok).trans ?_)
  rw [mul_one, mul_one, hrows, hcolumns, hturned, hcorner, hincr, ← and_assoc]
  refine and_step (and_congr_left' ?_) ?_
  · rw [← imp_and, turnFits_one, turnFits_one]
    exact forall_congr' fun hi => by rw [PixelCall.corner, if_pos hi]
  -- the flips, with the cut at the right border between them
  refine and_step (turnIf_eq_ok.trans (and_congr_left' yFlip_fits)) ?_
  rw [firstRow_eq]
  refine and_step checked_bind_eq_ok (and_step checkedIf_eq_ok ?_)
  rw [hwidth]
  refine and_step (turnIf_eq_ok.trans (and_congr_left' xFlip_fits)) ?_
  rw [firstColumn_eq, leftwards_eq]
  -- the increments
  refine (checked_bind_eq_ok).trans ?_
  rw [upwards_eq, and_assoc]
  refine and_congr_right' ?_
  refine and_step checked_bind_eq_ok (and_step checked_bind_eq_ok (and_step checked_bind_eq_ok
    (and_step checked_bind_eq_ok (and_step checked_bind_eq_ok ?_))))
  -- the pointers
  refine and_step checked_bind_eq_ok (and_step checked_bind_eq_ok (and_step checked_bind_eq_ok
    (and_step checked_bind_eq_ok (and_step checked_bind_eq_ok (and_step checked_bind_eq_ok
    (checked_bind_eq_ok.trans (and_congr_right' ?_)))))))
  exact ⟨fun h => (Except.ok.inj h).symm, fun h => by rw [h]; rfl⟩

end Setup

/-! ## Last rows -/

section LastRow

/-- `j` is the last of `n` rows with `A`. -/
structure LastRow (n : Nat) (A : Nat → Prop) (j : Nat) : Prop where
  lt : j < n
  holds : A j
  last : ∀ j', j < j' → j' < n → ¬ A j'

variable {n j : Nat} {A B : Nat → Prop}

theorem exists_lastRow (h : ∃ j < n, A j) : ∃ j, LastRow n A j := by
  induction n with
  | zero =>
    obtain ⟨j, hj, -⟩ := h
    exact absurd hj (Nat.not_lt_zero j)
  | succ n ih =>
    by_cases hn : A n
    · exact ⟨n, Nat.lt_succ_self n, hn, fun j' h₁ h₂ => by omega⟩
    · obtain ⟨j, hj, hA⟩ := h
      have hjn : j ≠ n := by
        rintro rfl
        exact hn hA
      obtain ⟨k, hk, hA', hlast⟩ := ih ⟨j, by omega, hA⟩
      refine ⟨k, by omega, hA', fun j' h₁ h₂ => ?_⟩
      rcases Nat.lt_or_eq_of_le (Nat.le_of_lt_succ h₂) with hlt | rfl
      · exact hlast j' h₁ hlt
      · exact hn

theorem LastRow.unique {k : Nat} (h : LastRow n A j) (h' : LastRow n A k) : j = k := by
  rcases Nat.lt_trichotomy j k with hlt | heq | hlt
  · exact absurd h'.holds (h.last k hlt h'.lt)
  · exact heq
  · exact absurd h.holds (h'.last j hlt h.lt)

theorem LastRow.congr (h : LastRow n A j) (hAB : ∀ j < n, A j ↔ B j) : LastRow n B j :=
  ⟨h.lt, (hAB j h.lt).1 h.holds, fun j' h₁ h₂ hB => h.last j' h₁ h₂ ((hAB j' h₂).2 hB)⟩

end LastRow

/-! ## The last writes of the two paths -/

namespace PixelSetup

/-- `destBitsPtr` at the beginning of a row. -/
def row (s : PixelSetup) (j : Nat) : Int := s.dest + j * s.yDestIncr

/-- The pixel is `(x - row j) * xDestIncr` columns behind the beginning of the row. -/
def Covers (s : PixelSetup) (x : Int) (j : Nat) : Prop :=
  0 ≤ (x - s.row j) * s.xDestIncr ∧ (x - s.row j) * s.xDestIncr < s.tWidth.toNat

/-- The path with alpha writes the pixel in this row. -/
def Blends (s : PixelSetup) (x : Int) (j : Nat) : Prop := x < s.limit ∧ s.Covers x j

/-- The path without alpha writes the pixel in this row. -/
def Copies (s : PixelSetup) (x : Int) (j : Nat) : Prop :=
  (s.row j < s.limit ∧ s.row j + s.tWidth * s.xDestIncr < s.limit) ∧ s.Covers x j

/-- The source pixel that is stored there, for an increment of the source. -/
def source (s : PixelSetup) (incr x : Int) (j : Nat) : Int :=
  s.src + j * s.ySrcIncr + (x - s.row j) * s.xDestIncr * incr

end PixelSetup

section LastWrites
variable {s : PixelSetup} {x r p q dx incr : Int} {cell : Int → Int → List (Int × Int)} {n : Nat}

/-- One row, from what each of its pixels writes. -/
theorem lastWrite_row {C : Prop} (hcell : ∀ p q r, lastWrite x (cell p q) = some r ↔ p = x ∧ q = r ∧ C)
    (hdx : dx = 1 ∨ dx = -1) : lastWrite x (along cell dx incr n p q) = some r ↔
      C ∧ (0 ≤ (x - p) * dx ∧ (x - p) * dx < n) ∧ r = q + (x - p) * dx * incr := by
  have hone : dx * dx = 1 := by rcases hdx with rfl | rfl <;> rfl
  have hplace : ∀ k : Int, p + k * dx = x → (x - p) * dx = k := by
    rintro k rfl
    rw [add_sub_cancel_left, mul_assoc, hone, mul_one]
  rw [lastWrite_along]
  simp only [hcell]
  constructor
  · rintro ⟨k, hk, ⟨hx, hr, hC⟩, -⟩
    rw [hplace k hx]
    exact ⟨hC, by omega, hr.symm⟩
  · rintro ⟨hC, ⟨h₀, hlt⟩, hr⟩
    obtain ⟨k, hk⟩ := Int.eq_ofNat_of_zero_le h₀
    have hx : p + k * dx = x := by
      rw [← hk, mul_assoc, hone, mul_one, add_sub_cancel]
    rw [hk] at hlt hr
    refine ⟨k, by omega, ⟨hx, hr.symm, hC⟩, fun k' hk' _ => ?_⟩
    -- no later pixel of the row is at the same place
    rw [Option.eq_none_iff_forall_ne_some]
    intro r' hr'
    have := hplace k' ((hcell _ _ _).1 hr').1
    omega

/-- All rows, from what each of them writes. -/
theorem lastWrite_rows {row : Int → Int → List (Int × Int)} {A : Nat → Prop} {g : Nat → Int}
    {dp dq : Int} (hrow : ∀ (j : Nat) (r : Int),
      lastWrite x (row (p + j * dp) (q + j * dq)) = some r ↔ A j ∧ r = g j) :
    lastWrite x (along row dp dq n p q) = some r ↔ ∃ j, LastRow n A j ∧ r = g j := by
  rw [lastWrite_along]
  constructor
  · rintro ⟨j, hj, hr, hlast⟩
    obtain ⟨hA, rfl⟩ := (hrow j r).1 hr
    refine ⟨j, ⟨hj, hA, fun j' h₁ h₂ hA' => ?_⟩, rfl⟩
    have hnone := hlast j' h₁ h₂
    rw [(hrow j' (g j')).2 ⟨hA', rfl⟩] at hnone
    cases hnone
  · rintro ⟨j, hlast, rfl⟩
    refine ⟨j, hlast.lt, (hrow j _).2 ⟨hlast.holds, rfl⟩, fun j' h₁ h₂ => ?_⟩
    rw [Option.eq_none_iff_forall_ne_some]
    intro r hr
    exact hlast.last j' h₁ h₂ ((hrow j' r).1 hr).1

theorem lastWrite_alpha (hdx : s.xDestIncr = 1 ∨ s.xDestIncr = -1) :
    lastWrite x (alphaWrites s) = some r ↔
      ∃ j, LastRow s.tHeight.toNat (s.Blends x) j ∧ r = s.source s.xSrcIncr x j := by
  refine lastWrite_rows fun j r => ?_
  have hcell : ∀ p q r, lastWrite x (pixelWrite s.limit p q) = some r ↔
      p = x ∧ q = r ∧ x < s.limit := by
    intro p q r
    unfold pixelWrite
    split
    · next hlt =>
      rw [lastWrite_singleton]
      constructor
      · rintro ⟨rfl, rfl⟩
        exact ⟨rfl, rfl, hlt⟩
      · rintro ⟨rfl, rfl, -⟩
        exact ⟨rfl, rfl⟩
    · next hlt =>
      refine iff_of_false (fun h => by cases h) ?_
      rintro ⟨rfl, -, hlt'⟩
      exact hlt hlt'
  rw [lastWrite_row hcell hdx, ← and_assoc]
  rfl

theorem lastWrite_copied (hdx : s.xDestIncr = 1 ∨ s.xDestIncr = -1) :
    lastWrite x (opaqueWrites s) = some r ↔
      ∃ j, LastRow s.tHeight.toNat (s.Copies x) j ∧ r = s.source 1 x j := by
  refine lastWrite_rows fun j r => ?_
  have hcell : ∀ p q r : Int, lastWrite x [(p, q)] = some r ↔ p = x ∧ q = r ∧ True := by
    intro p q r
    rw [lastWrite_singleton, and_true]
  have hsign : (if 0 < s.xDestIncr then (1 : Int) else -1) = s.xDestIncr := by
    rcases hdx with h | h <;> rw [h] <;> rfl
  unfold rowWrites
  rw [hsign]
  split
  · next hin =>
    rw [lastWrite_row hcell hdx, true_and]
    exact ⟨fun h => ⟨⟨hin, h.1⟩, h.2⟩, fun h => ⟨h.1.2, h.2⟩⟩
  · next hout => exact iff_of_false (fun h => by cases h) fun h => hout h.1.1

end LastWrites

/-! ## When the last writes are the same -/

namespace PixelSetup

/-- The source is read row by row, as the path without alpha does it. -/
def ReadsRows (s : PixelSetup) : Prop :=
  s.xSrcIncr = 1 ∨ s.tWidth = 1 ∨ ∀ j < s.tHeight.toNat, s.limit ≤ s.row j

/-- A row ends with the last pixel of the destination, and what a later row puts over it comes from
the same places. -/
def Hidden (s : PixelSetup) : Prop :=
  (∃ j < s.tHeight.toNat, s.row j = s.limit - 1) ∧ s.xSrcIncr = 1 ∧
    (s.yDestIncr ≤ 0 ∨ s.ySrcIncr = -s.yDestIncr)

/-- No row is cut by the end test, and the source is read row by row; from right to left, the
pixels that are cut off may be hidden. -/
def RowsAgree (s : PixelSetup) : Prop :=
  if s.xDestIncr = 1 then
    (∀ j < s.tHeight.toNat, s.row j + s.tWidth < s.limit ∨ s.limit ≤ s.row j) ∧ s.ReadsRows
  else
    ((∀ j < s.tHeight.toNat, s.row j < s.limit ∨ s.limit + s.tWidth ≤ s.row j + 1) ∧ s.ReadsRows) ∨
      s.Hidden

/-- The last writes of both paths are the same everywhere. -/
def SameLast (s : PixelSetup) : Prop := ∀ x, lastWrite x (alphaWrites s) = lastWrite x (opaqueWrites s)

variable {s : PixelSetup} {x : Int} {i j : Nat}

theorem covers_right (hdx : s.xDestIncr = 1) :
    s.Covers x j ↔ s.row j ≤ x ∧ x < s.row j + s.tWidth.toNat := by
  unfold Covers
  rw [hdx]
  omega

theorem covers_left (hdx : s.xDestIncr = -1) :
    s.Covers x j ↔ x ≤ s.row j ∧ s.row j < x + s.tWidth.toNat := by
  unfold Covers
  rw [hdx]
  omega

/-- Rows that are written alike, from the same places. -/
theorem SameLast.of_rows (hdx : s.xDestIncr = 1 ∨ s.xDestIncr = -1)
    (hrows : ∀ x, ∀ j < s.tHeight.toNat, s.Blends x j ↔ s.Copies x j) (hreads : s.ReadsRows) :
    s.SameLast := by
  intro x
  have hsource : ∀ j < s.tHeight.toNat, s.Copies x j → s.source s.xSrcIncr x j = s.source 1 x j := by
    intro j hj hcopies
    unfold source
    rcases hreads with hone | hone | hout
    · rw [hone]
    · -- a single column
      have hzero : (x - s.row j) * s.xDestIncr = 0 := by
        have hcovers := hcopies.2
        unfold Covers at hcovers
        omega
      rw [hzero, zero_mul, zero_mul]
    · exact absurd hcopies.1.1 (by have := hout j hj; omega)
  ext r
  rw [lastWrite_alpha hdx, lastWrite_copied hdx]
  constructor
  · rintro ⟨j, hj, rfl⟩
    have hj' := hj.congr (hrows x)
    exact ⟨j, hj', hsource j hj.lt hj'.holds⟩
  · rintro ⟨j, hj, rfl⟩
    exact ⟨j, hj.congr fun j' hj' => (hrows x j' hj').symm, (hsource j hj.lt hj.holds).symm⟩

/-- The place that a pixel comes from does not depend on the row that covers it. -/
theorem source_eq (hdx : s.xDestIncr = -1) (hsy : s.ySrcIncr = -(s.yDestIncr * s.xSrcIncr)) :
    s.source s.xSrcIncr x j = s.src + (s.dest - x) * s.xSrcIncr := by
  unfold source row
  rw [hdx, hsy]
  ring

theorem row_lt_row (h : 0 < s.yDestIncr) (hij : i < j) : s.row i < s.row j := by
  unfold row
  have : (i : Int) * s.yDestIncr < j * s.yDestIncr := mul_lt_mul_of_pos_right (by omega) h
  omega

theorem row_le_row (h : s.yDestIncr ≤ 0) (hij : i ≤ j) : s.row j ≤ s.row i := by
  unfold row
  have : (j : Int) * s.yDestIncr ≤ i * s.yDestIncr := mul_le_mul_of_nonpos_right (by omega) h
  omega

/-- **What is cut off is hidden.** -/
theorem Hidden.same (hdx : s.xDestIncr = -1) (hw : 0 < s.tWidth) (h : s.Hidden) : s.SameLast := by
  obtain ⟨⟨i, hi, hrow⟩, hsx, hy⟩ := h
  have hcopies : ∀ {x j}, s.Copies x j ↔ s.row j < s.limit ∧ s.Covers x j := by
    intro x j
    unfold Copies
    rw [hdx]
    have : s.row j + s.tWidth * -1 < s.limit ↔ s.row j < s.limit + s.tWidth := by omega
    rw [this]
    constructor
    · rintro ⟨⟨h₁, -⟩, h₂⟩
      exact ⟨h₁, h₂⟩
    · rintro ⟨h₁, h₂⟩
      exact ⟨⟨h₁, by omega⟩, h₂⟩
  have hsub : ∀ {x j}, s.Copies x j → s.Blends x j := by
    intro x j hc
    obtain ⟨hlt, hcov⟩ := hcopies.1 hc
    have := (covers_left hdx).1 hcov
    exact ⟨by omega, hcov⟩
  intro x
  ext r
  rw [lastWrite_alpha (.inr hdx), lastWrite_copied (.inr hdx), hsx]
  -- a row that sticks out covers nothing in front of the limit that row `i` does not cover
  have hinner : ∀ {j}, s.Blends x j → ¬ s.row j < s.limit → s.Copies x i := by
    intro j hb hout
    have hcov := (covers_left hdx).1 hb.2
    have := hb.1
    exact hcopies.2 ⟨by omega, (covers_left hdx).2 (by omega)⟩
  rcases hy with hy | hy
  · -- upwards: the rows behind row `i` do not stick out
    have hlast : ∀ j, LastRow s.tHeight.toNat (s.Blends x) j → s.Copies x j := by
      intro j hj
      by_cases hout : s.row j < s.limit
      · exact hcopies.2 ⟨hout, hj.holds.2⟩
      · have hij : ¬ i ≤ j := fun hij => by
          have := row_le_row hy hij
          omega
        have := hj.last i (by omega) hi
        exact absurd (hsub (hinner hj.holds hout)) this
    constructor
    · rintro ⟨j, hj, rfl⟩
      exact ⟨j, ⟨hj.lt, hlast j hj, fun j' h₁ h₂ hc => hj.last j' h₁ h₂ (hsub hc)⟩, rfl⟩
    · rintro ⟨j, hj, rfl⟩
      obtain ⟨k, hk⟩ := exists_lastRow ⟨j, hj.lt, hsub hj.holds⟩
      have hkj : LastRow s.tHeight.toNat (s.Copies x) k :=
        ⟨hk.lt, hlast k hk, fun j' h₁ h₂ hc => hk.last j' h₁ h₂ (hsub hc)⟩
      obtain rfl := hkj.unique hj
      exact ⟨k, hk, rfl⟩
  · -- downwards: all rows take the pixel from the same place
    have hsource : ∀ j, s.source 1 x j = s.src + (s.dest - x) := by
      intro j
      have := @source_eq s x j hdx (by rw [hsx, mul_one]; exact hy)
      rwa [hsx, mul_one] at this
    constructor
    · rintro ⟨j, hj, rfl⟩
      have hcopied : ∃ k < s.tHeight.toNat, s.Copies x k := by
        by_cases hout : s.row j < s.limit
        · exact ⟨j, hj.lt, hcopies.2 ⟨hout, hj.holds.2⟩⟩
        · exact ⟨i, hi, hinner hj.holds hout⟩
      obtain ⟨k, hk⟩ := exists_lastRow hcopied
      exact ⟨k, hk, by rw [hsource, hsource]⟩
    · rintro ⟨j, hj, rfl⟩
      obtain ⟨k, hk⟩ := exists_lastRow ⟨j, hj.lt, hsub hj.holds⟩
      exact ⟨k, hk, by rw [hsource, hsource]⟩

/-- **The condition is enough.** -/
theorem RowsAgree.same (hdx : s.xDestIncr = 1 ∨ s.xDestIncr = -1) (hw : 0 < s.tWidth)
    (h : s.RowsAgree) : s.SameLast := by
  unfold RowsAgree at h
  split at h
  · next hright =>
    refine SameLast.of_rows hdx (fun x j hj => ?_) h.2
    have hrow := h.1 j hj
    unfold Blends Copies
    rw [covers_right hright, hright, mul_one]
    omega
  · next hleft =>
    have hdx' := hdx.resolve_left hleft
    rcases h with ⟨hrows, hreads⟩ | hhidden
    · refine SameLast.of_rows hdx (fun x j hj => ?_) hreads
      have hrow := hrows j hj
      unfold Blends Copies
      rw [covers_left hdx', hdx']
      omega
    · exact hhidden.same hdx' hw

theorem SameLast.copied (hdx : s.xDestIncr = 1 ∨ s.xDestIncr = -1) (h : s.SameLast)
    (hj : LastRow s.tHeight.toNat (s.Blends x) j) : ∃ k, LastRow s.tHeight.toNat (s.Copies x) k ∧
      s.source s.xSrcIncr x j = s.source 1 x k :=
  (lastWrite_copied hdx).1 ((h x).symm.trans ((lastWrite_alpha hdx).2 ⟨j, hj, rfl⟩))

theorem blends_left (hdx : s.xDestIncr = -1) :
    s.Blends x j ↔ x < s.limit ∧ x ≤ s.row j ∧ s.row j < x + s.tWidth.toNat :=
  and_congr_right fun _ => covers_left hdx

theorem copies_left (hdx : s.xDestIncr = -1) : s.Copies x j ↔
    (s.row j < s.limit ∧ s.row j - s.tWidth < s.limit) ∧ x ≤ s.row j ∧
      s.row j < x + s.tWidth.toNat := by
  unfold Copies
  rw [covers_left hdx, hdx, mul_neg_one, ← sub_eq_add_neg]

/-- The second pixel of a row that is the last one to write it. -/
theorem SameLast.step_one (hdx : s.xDestIncr = 1 ∨ s.xDestIncr = -1) (h : s.SameLast)
    (hb : LastRow s.tHeight.toNat (s.Blends (s.row j + s.xDestIncr)) j)
    (hc : LastRow s.tHeight.toNat (s.Copies (s.row j + s.xDestIncr)) j) : s.xSrcIncr = 1 := by
  obtain ⟨k, hk, heq⟩ := h.copied hdx hb
  obtain rfl := hk.unique hc
  have hone : s.xDestIncr * s.xDestIncr = 1 := by rcases hdx with h | h <;> rw [h] <;> rfl
  unfold source at heq
  rw [add_sub_cancel_left, hone, one_mul, one_mul] at heq
  omega

/-- Where rows are written alike, they are read row by row. -/
theorem SameLast.readsRows (hdx : s.xDestIncr = 1 ∨ s.xDestIncr = -1) (hw : 0 < s.tWidth)
    (h : s.SameLast) (hrows : ∀ x, ∀ j < s.tHeight.toNat, s.Blends x j ↔ s.Copies x j) :
    s.ReadsRows := by
  by_contra hno
  unfold ReadsRows at hno
  push Not at hno
  obtain ⟨hsx, hwide, hin⟩ := hno
  obtain ⟨j, hj⟩ := exists_lastRow hin
  have hrow := hj.holds
  -- the whole row is copied, because its first pixel is blended
  have hfirst : s.Copies (s.row j) j := (hrows _ j hj.lt).1 ⟨hrow, by
    unfold Covers
    rw [sub_self, zero_mul]
    omega⟩
  have hend := hfirst.1
  have hb : s.Blends (s.row j + s.xDestIncr) j := by
    unfold Blends Covers
    rw [add_sub_cancel_left]
    rcases hdx with hdx | hdx <;> rw [hdx] at hend ⊢ <;> omega
  have hlast : LastRow s.tHeight.toNat (s.Blends (s.row j + s.xDestIncr)) j :=
    ⟨hj.lt, hb, fun j' h₁ h₂ hb' => hj.last j' h₁ h₂ ((hrows _ j' h₂).1 hb').1.1⟩
  exact hsx (h.step_one hdx hlast (hlast.congr (hrows _)))

/-- **The condition is needed.** -/
theorem SameLast.rowsAgree (hdx : s.xDestIncr = 1 ∨ s.xDestIncr = -1) (hw : 0 < s.tWidth)
    (h : s.SameLast) : s.RowsAgree := by
  unfold RowsAgree
  split
  · next hright =>
    have hcut : ∀ j < s.tHeight.toNat, s.row j + s.tWidth < s.limit ∨ s.limit ≤ s.row j := by
      intro j hj
      by_contra hno
      -- the last pixel of the destination is blended, and no row that is copied reaches it
      have hb : s.Blends (s.limit - 1) j := ⟨by omega, (covers_right hright).2 (by omega)⟩
      obtain ⟨j', hj'⟩ := exists_lastRow ⟨j, hj, hb⟩
      obtain ⟨k, hk, -⟩ := h.copied hdx hj'
      have hend := hk.holds.1.2
      have hcov := (covers_right hright).1 hk.holds.2
      rw [hright, mul_one] at hend
      omega
    refine ⟨hcut, h.readsRows hdx hw fun x j hj => ?_⟩
    have hrow := hcut j hj
    unfold Blends Copies
    rw [covers_right hright, hright, mul_one]
    omega
  · next hleft =>
    have hdx' := hdx.resolve_left hleft
    by_cases hcut : ∀ j < s.tHeight.toNat, s.row j < s.limit ∨ s.limit + s.tWidth ≤ s.row j + 1
    · refine .inl ⟨hcut, h.readsRows hdx hw fun x j hj => ?_⟩
      have hrow := hcut j hj
      rw [blends_left hdx', copies_left hdx']
      omega
    · right
      push Not at hcut
      obtain ⟨j, hj, hout, hshort⟩ := hcut
      -- the last pixel of the destination is blended, so a row that ends with it is copied
      have hb : s.Blends (s.limit - 1) j := (blends_left hdx').2 (by omega)
      obtain ⟨j', hj'⟩ := exists_lastRow ⟨j, hj, hb⟩
      obtain ⟨i, hi, hsource⟩ := h.copied hdx hj'
      have hcov := (copies_left hdx').1 hi.holds
      have hrow : s.row i = s.limit - 1 := by omega
      refine ⟨⟨i, hi.lt, hrow⟩, ?_⟩
      rcases Int.le_total s.yDestIncr 0 with hy | hy
      · -- upwards: the last row of all shows the increment
        refine ⟨?_, .inl hy⟩
        have hrows : 0 < s.tHeight.toNat := by omega
        have hle := @row_le_row s i (s.tHeight.toNat - 1) hy (by have := hi.lt; omega)
        apply h.step_one hdx (j := s.tHeight.toNat - 1)
        · exact ⟨by omega, by rw [blends_left hdx', hdx']; omega, fun j' h₁ h₂ => by omega⟩
        · exact ⟨by omega, by rw [copies_left hdx', hdx']; omega, fun j' h₁ h₂ => by omega⟩
      · rcases Int.lt_or_eq_of_le hy with hy | hy
        · have hij : i < j' := by
            by_contra hno
            have hjj : ¬ j' < j := fun hlt => hj'.last j hlt hj hb
            rcases Nat.lt_or_eq_of_le (show j ≤ i by omega) with hlt | heq
            · have := row_lt_row hy hlt
              omega
            · rw [heq, hrow] at hout
              omega
          have hsy : s.ySrcIncr = -(s.yDestIncr * s.xSrcIncr) := by
            -- both rows take the last pixel from the same place
            have hj'' : s.row j' = s.row i + (j' - i : Int) * s.yDestIncr := by
              unfold row
              ring
            have hpos : (0 : Int) < j' - i := by omega
            unfold source at hsource
            rw [hj'', hrow, hdx'] at hsource
            have hprod : (j' - i : Int) * (s.ySrcIncr + s.yDestIncr * s.xSrcIncr) = 0 := by
              linear_combination hsource
            rcases mul_eq_zero.1 hprod with h | h <;> omega
          have hbi : s.Blends (s.row i + s.xDestIncr) i := by
            rw [blends_left hdx', hdx']
            omega
          have hci : LastRow s.tHeight.toNat (s.Copies (s.row i + s.xDestIncr)) i := by
            refine ⟨hi.lt, by rw [copies_left hdx', hdx']; omega, fun k h₁ h₂ hc => ?_⟩
            have := row_lt_row hy h₁
            have := ((copies_left hdx').1 hc).1
            omega
          obtain ⟨k, hk⟩ := exists_lastRow ⟨i, hi.lt, hbi⟩
          obtain ⟨i', hi', heq⟩ := h.copied hdx hk
          obtain rfl := hi'.unique hci
          rw [source_eq hdx' hsy, ← @source_eq s _ i' hdx' hsy] at heq
          have hone : s.xSrcIncr = 1 := by
            unfold source at heq
            rw [add_sub_cancel_left, hdx'] at heq
            omega
          exact ⟨hone, .inr (by rw [hsy, hone, mul_one])⟩
        · -- a row that sticks out is no other row than row `i`
          have hsame : s.row j = s.row i := by
            unfold row
            rw [← hy, mul_zero, mul_zero]
          omega

end PixelSetup

/-! ## Bounds -/

namespace PixelSetup

/-- No pixel of the image lies before the destination. -/
def NotBefore (s : PixelSetup) : Prop :=
  ∀ j < s.tHeight.toNat, 0 ≤ s.row j ∧ 0 ≤ s.row j + (s.tWidth - 1) * s.xDestIncr

variable {s : PixelSetup}

theorem mem_alphaWrites {e : Int × Int} : e ∈ alphaWrites s ↔ ∃ j < s.tHeight.toNat,
    ∃ k < s.tWidth.toNat, e.1 < s.limit ∧ e.1 = s.row j + k * s.xDestIncr ∧
      e.2 = s.src + j * s.ySrcIncr + k * s.xSrcIncr := by
  unfold alphaWrites pixelWrite row
  simp only [mem_along]
  constructor
  · rintro ⟨j, hj, k, hk, he⟩
    split_ifs at he with hlt
    · rw [List.mem_singleton] at he
      subst he
      exact ⟨j, hj, k, hk, hlt, rfl, rfl⟩
    · cases he
  · rintro ⟨j, hj, k, hk, hlt, h₁, h₂⟩
    refine ⟨j, hj, k, hk, ?_⟩
    rw [if_pos (by rw [← h₁]; exact hlt), List.mem_singleton]
    exact Prod.ext h₁ h₂

/-- **The writes with alpha are inside exactly if no pixel lies before the destination.** -/
theorem inside_alphaWrites (hdx : s.xDestIncr = 1 ∨ s.xDestIncr = -1) (hw : 0 < s.tWidth)
    (hlimit : 0 ≤ s.limit) : Inside s.limit (alphaWrites s) ↔ s.NotBefore := by
  constructor
  · intro h j hj
    have hwrite : ∀ k < s.tWidth.toNat, 0 ≤ s.row j + k * s.xDestIncr := by
      intro k hk
      by_contra hneg
      have hin := h (s.row j + k * s.xDestIncr, s.src + j * s.ySrcIncr + k * s.xSrcIncr)
        (mem_alphaWrites.2 ⟨j, hj, k, hk, by omega, rfl, rfl⟩)
      exact hneg hin.1
    have hfirst := hwrite 0 (by omega)
    have hlast := hwrite (s.tWidth.toNat - 1) (by omega)
    have hcast : ((s.tWidth.toNat - 1 : Nat) : Int) = s.tWidth - 1 := by omega
    rw [hcast] at hlast
    simp only [Nat.cast_zero, zero_mul, add_zero] at hfirst
    exact ⟨hfirst, hlast⟩
  · intro h e he
    obtain ⟨j, hj, k, hk, hlt, hplace, -⟩ := mem_alphaWrites.1 he
    have hrow := h j hj
    refine ⟨?_, hlt⟩
    rcases hdx with hdx | hdx <;> rw [hdx] at hrow hplace <;> omega

/-- A row that is copied is inside then, too. -/
theorem inside_opaqueWrites (hdx : s.xDestIncr = 1 ∨ s.xDestIncr = -1) (h : s.NotBefore) :
    Inside s.limit (opaqueWrites s) := by
  intro e he
  obtain ⟨j, hj, hrow⟩ := mem_along.1 he
  have hbefore := h j hj
  unfold row at hbefore
  unfold rowWrites at hrow
  split_ifs at hrow with hin hsign
  · obtain ⟨k, hk, hpixel⟩ := mem_along.1 hrow
    obtain rfl := List.mem_singleton.1 hpixel
    have hdx' : s.xDestIncr = 1 := by omega
    rw [hdx'] at hin hbefore
    dsimp only
    omega
  · obtain ⟨k, hk, hpixel⟩ := mem_along.1 hrow
    obtain rfl := List.mem_singleton.1 hpixel
    have hdx' : s.xDestIncr = -1 := by omega
    rw [hdx'] at hin hbefore
    dsimp only
    omega
  · cases hrow

end PixelSetup

/-! ## When the paths agree -/

section Agree
variable {α : Type} {fmt : PixelFormat α} {c : PixelCall}

/-- Both paths draw the same inside a destination of this size, whatever is in it and whatever
opaque image is drawn. -/
def PathsAgree (fmt : PixelFormat α) (c : PixelCall) (W H : Nat) : Prop :=
  ∀ data : Int → α, (∀ q, fmt.alpha (data q) = fmt.full) → ∀ sbuf : ScreenBuffer, sbuf.width = W →
    sbuf.height = H → sbuf.pixelData.length = W * H →
    ∃ r, drawPixels fmt c data false sbuf = .ok r ∧ drawPixels fmt c data true sbuf = .ok r

/-- No sum of the code overflows; and if there is something to draw, no pixel lies before the
destination and the rows agree. -/
def PixelCall.Agrees (c : PixelCall) (size : Int) (W H : Nat) : Prop :=
  c.SetupFits size W H ∧ (c.rows ≤ 0 ∨ RowFits size (c.place W H) ∧
    (c.width W ≤ 0 ∨ (c.place W H).NotBefore ∧ (c.place W H).RowsAgree))

theorem place_xDestIncr (c : PixelCall) (W H : Int) :
    (c.place W H).xDestIncr = 1 ∨ (c.place W H).xDestIncr = -1 := by
  unfold PixelCall.place
  dsimp only
  split
  · exact .inr rfl
  · exact .inl rfl

/-- A width or a height that is not positive leaves nothing to write. -/
theorem writes_nil {s : PixelSetup} (h : s.tWidth ≤ 0 ∨ s.tHeight ≤ 0) :
    alphaWrites s = [] ∧ opaqueWrites s = [] := by
  unfold alphaWrites opaqueWrites rowWrites
  rcases h with h | h
  · have hzero : s.tWidth.toNat = 0 := Int.toNat_of_nonpos h
    rw [hzero]
    exact ⟨along_empty fun _ _ => rfl, along_empty fun p q => by simp [along]⟩
  · have hzero : s.tHeight.toNat = 0 := Int.toNat_of_nonpos h
    rw [hzero]
    exact ⟨rfl, rfl⟩

section Runs
variable {s : PixelSetup} {data : Int → α}

theorem drawPixels_copied (sbuf : ScreenBuffer)
    (hsetup : c.setup fmt.size sbuf.width sbuf.height = .ok s) :
    drawPixels fmt c data false sbuf =
      storeAll (fun q => fmt.convert (data q)) (opaqueWrites s) sbuf := by
  unfold drawPixels
  rw [hsetup, ok_bind, if_neg Bool.false_ne_true]
  exact copyRows_eq

theorem drawPixels_alpha (sbuf : ScreenBuffer)
    (hsetup : c.setup fmt.size sbuf.width sbuf.height = .ok s) :
    drawPixels fmt c data true sbuf =
      blendRows fmt data s s.tHeight.toNat s.dest s.src sbuf := by
  unfold drawPixels
  rw [hsetup, ok_bind, if_pos rfl]

/-- Outside there is no write. -/
theorem lastWrite_outside {l : List (Int × Int)} {n x : Int} (h : Inside n l) (hx : x < 0) :
    lastWrite x l = none := by
  rw [Option.eq_none_iff_forall_ne_some]
  intro r hr
  have := (h _ (mem_of_lastWrite hr)).1
  omega

/-- Runs that agree whatever is drawn end with the same writes. -/
theorem lastWrite_of_runs {W H : Nat} (hsep : ∃ a b, fmt.alpha a = fmt.full ∧
    fmt.alpha b = fmt.full ∧ fmt.convert a ≠ fmt.convert b) {l l' : List (Int × Int)}
    (hl : Inside (W * H : Nat) l) (hl' : Inside (W * H : Nat) l')
    (hruns : ∀ data : Int → α, (∀ q, fmt.alpha (data q) = fmt.full) → ∀ pixels,
      ∃ r, storeAll (fun q => fmt.convert (data q)) l' ⟨W, H, 0, ⟨W * H, pixels⟩⟩ = .ok r ∧
        storeAll (fun q => fmt.convert (data q)) l ⟨W, H, 0, ⟨W * H, pixels⟩⟩ = .ok r) (x : Int) :
    lastWrite x l = lastWrite x l' := by
  obtain ⟨white, black, hwhite, hblack, hne⟩ := hsep
  have : Nontrivial UInt16 := ⟨0, 1, by decide⟩
  refine (@writeAll_eq_iff Int Int UInt16 _ _ (fun f => ∃ data : Int → α,
    (∀ q, fmt.alpha (data q) = fmt.full) ∧ f = fun q => fmt.convert (data q)) ?_ ?_ l l').1 ?_ x
  · exact ⟨_, fun _ => white, fun _ => hwhite, rfl⟩
  · intro k k' hkk
    refine ⟨_, ⟨fun q => if q = k then white else black, fun q => ?_, rfl⟩, ?_⟩
    · dsimp only
      split
      · exact hwhite
      · exact hblack
    · dsimp only
      rwa [if_pos rfl, if_neg hkk.symm]
  · rintro _ ⟨data, hdata, rfl⟩ m
    funext p
    rw [writeAll_apply, writeAll_apply]
    rcases Int.lt_or_le p 0 with hp | hp
    · rw [lastWrite_outside hl hp, lastWrite_outside hl' hp]
    · obtain ⟨r, h₁, h₂⟩ := hruns data hdata fun k => m k
      rw [storeAll_eq hl'] at h₁
      rw [storeAll_eq hl] at h₂
      have hr := Except.ok.inj (h₂.trans h₁.symm)
      have hdata' := congrFun (congrArg (fun sbuf => sbuf.pixelData.data) hr) p.toNat
      simpa only [ScreenBuffer.after, Int.toNat_of_nonneg hp] using hdata'

end Runs

/-- **What agreeing paths need.** -/
theorem PathsAgree.agrees (hsep : ∃ a b, fmt.alpha a = fmt.full ∧ fmt.alpha b = fmt.full ∧
    fmt.convert a ≠ fmt.convert b) {W H : Nat} (h : PathsAgree fmt c W H) :
    c.Agrees fmt.size W H := by
  obtain ⟨white, black, hwhite, -, -⟩ := id hsep
  have hsome := h (fun _ => white) (fun _ => hwhite) ⟨W, H, 0, ⟨W * H, fun _ => 0⟩⟩ rfl rfl rfl
  have hfits : c.SetupFits fmt.size W H := by
    obtain ⟨r, hr, -⟩ := hsome
    unfold drawPixels at hr
    cases hsetup : c.setup fmt.size W H with
    | ok s' => exact (setup_eq_ok.1 hsetup).1
    | error e =>
      dsimp only at hr
      rw [hsetup] at hr
      cases hr
  have hsetup : c.setup fmt.size W H = .ok (c.place W H) := setup_eq_ok.2 ⟨hfits, rfl⟩
  refine ⟨hfits, ?_⟩
  by_cases hheight : c.rows ≤ 0
  · exact .inl hheight
  right
  have hrow : RowFits fmt.size (c.place W H) := by
    by_contra hno
    obtain ⟨r, -, hr⟩ := hsome
    rw [drawPixels_alpha ⟨W, H, 0, ⟨W * H, fun _ => 0⟩⟩ hsetup] at hr
    exact blendRows_overflow (fun _ => hwhite) hno (show 0 < c.rows.toNat by omega) hr
  refine ⟨hrow, ?_⟩
  by_cases hwidth : c.width W ≤ 0
  · exact .inl hwidth
  right
  have hw : 0 < (c.place W H).tWidth := show 0 < c.width W by omega
  have hdx := place_xDestIncr c W H
  have hlimit : (c.place W H).limit = (W * H : Nat) := (Nat.cast_mul W H).symm
  have hruns : ∀ data : Int → α, (∀ q, fmt.alpha (data q) = fmt.full) → ∀ pixels,
      ∃ r, storeAll (fun q => fmt.convert (data q)) (opaqueWrites (c.place W H))
          ⟨W, H, 0, ⟨W * H, pixels⟩⟩ = .ok r ∧
        storeAll (fun q => fmt.convert (data q)) (alphaWrites (c.place W H))
          ⟨W, H, 0, ⟨W * H, pixels⟩⟩ = .ok r := by
    intro data hdata pixels
    obtain ⟨r, h₁, h₂⟩ := h data hdata ⟨W, H, 0, ⟨W * H, pixels⟩⟩ rfl rfl rfl
    rw [drawPixels_copied ⟨W, H, 0, ⟨W * H, pixels⟩⟩ hsetup] at h₁
    rw [drawPixels_alpha ⟨W, H, 0, ⟨W * H, pixels⟩⟩ hsetup, blendRows_eq hdata hrow] at h₂
    exact ⟨r, h₁, h₂⟩
  have hbefore : (c.place W H).NotBefore := by
    rw [← PixelSetup.inside_alphaWrites hdx hw (by omega), hlimit]
    by_contra hno
    obtain ⟨r, -, hr⟩ := hruns (fun _ => white) (fun _ => hwhite) fun _ => 0
    rw [storeAll_error hno] at hr
    cases hr
  have hinA := (PixelSetup.inside_alphaWrites hdx hw (by omega)).2 hbefore
  have hinO := PixelSetup.inside_opaqueWrites hdx hbefore
  rw [hlimit] at hinA hinO
  exact ⟨hbefore, PixelSetup.SameLast.rowsAgree hdx hw (lastWrite_of_runs hsep hinA hinO hruns)⟩

/-- **What is enough for the paths to agree.** -/
theorem PixelCall.Agrees.paths {W H : Nat} (h : c.Agrees fmt.size W H) : PathsAgree fmt c W H := by
  obtain ⟨hfits, h⟩ := h
  intro data hdata sbuf hW hH hlen
  have hsetup : c.setup fmt.size sbuf.width sbuf.height = .ok (c.place W H) := by
    rw [hW, hH]
    exact setup_eq_ok.2 ⟨hfits, rfl⟩
  rw [drawPixels_copied sbuf hsetup, drawPixels_alpha sbuf hsetup]
  rcases h with hheight | ⟨hrow, h⟩
  · rw [(writes_nil (.inr hheight)).2, show (c.place W H).tHeight.toNat = 0 from
      Int.toNat_of_nonpos hheight]
    exact ⟨sbuf, rfl, rfl⟩
  rw [blendRows_eq hdata hrow]
  show ∃ r, _ ∧ storeAll _ (alphaWrites (c.place W H)) sbuf = .ok r
  rcases h with hwidth | ⟨hbefore, hrows⟩
  · rw [(writes_nil (.inl hwidth)).1, (writes_nil (.inl hwidth)).2]
    exact ⟨sbuf, rfl, rfl⟩
  rcases Int.lt_or_le 0 (c.width W) with hw | hw
  · have hdx := place_xDestIncr c W H
    have hlimit : (c.place W H).limit = (W * H : Nat) := (Nat.cast_mul W H).symm
    have hinA := (PixelSetup.inside_alphaWrites hdx hw (by omega)).2 hbefore
    have hinO := PixelSetup.inside_opaqueWrites hdx hbefore
    rw [hlimit, ← hlen] at hinA hinO
    refine ⟨_, storeAll_eq hinO, ?_⟩
    rw [storeAll_eq hinA]
    have hsame := hrows.same hdx hw
    unfold ScreenBuffer.after
    simp only [hsame _]
  · rw [(writes_nil (.inl hw)).1, (writes_nil (.inl hw)).2]
    exact ⟨sbuf, rfl, rfl⟩

end Agree

/-- **When the paths of the two drawing functions agree**: for every size of the destination and
every place of the image. -/
theorem pixel_paths_agree_iff (bigEndian : Bool) (c : PixelCall) (W H : Nat) :
    (PathsAgree (format4444 bigEndian) c W H ↔ c.Agrees 2 W H) ∧
    (PathsAgree (format8888 bigEndian) c W H ↔ c.Agrees 4 W H) := by
  have hsep4444 : ∃ a b, (format4444 bigEndian).alpha a = (format4444 bigEndian).full ∧
      (format4444 bigEndian).alpha b = (format4444 bigEndian).full ∧
      (format4444 bigEndian).convert a ≠ (format4444 bigEndian).convert b :=
    ⟨0xFFFF, 0xF000, by cases bigEndian <;> decide⟩
  have hsep8888 : ∃ a b, (format8888 bigEndian).alpha a = (format8888 bigEndian).full ∧
      (format8888 bigEndian).alpha b = (format8888 bigEndian).full ∧
      (format8888 bigEndian).convert a ≠ (format8888 bigEndian).convert b :=
    ⟨0xFFFFFFFF, 0xFF000000, by cases bigEndian <;> decide⟩
  exact ⟨⟨fun h => h.agrees hsep4444, fun h => h.paths⟩, ⟨fun h => h.agrees hsep8888, fun h => h.paths⟩⟩

/-- An image of two pixels that fills the destination: without alpha nothing is drawn. -/
theorem pixel_paths_differ : ¬ ∀ (bigEndian : Bool) (c : PixelCall) (W H : Nat),
    PathsAgree (format4444 bigEndian) c W H ∧ PathsAgree (format8888 bigEndian) c W H := by
  intro h
  obtain ⟨r, h₁, h₂⟩ := (h false ⟨0, 0, 2, 0, 0, 2, 1, 0⟩ 2 1).2 (fun _ => 0xFFFFFFFF)
    (fun _ => by decide) ⟨2, 1, 0, ⟨2, fun _ => 0⟩⟩ rfl rfl rfl
  have hpixel : ∀ processAlpha, ((drawPixels (format8888 false) ⟨0, 0, 2, 0, 0, 2, 1, 0⟩
      (fun _ => 0xFFFFFFFF) processAlpha ⟨2, 1, 0, ⟨2, fun _ => 0⟩⟩).toOption.map
        fun r => r.pixelData.data 0) = some (if processAlpha then 0xFFFF else 0) := by
    decide +kernel
  have hcopied := hpixel false
  have halpha := hpixel true
  rw [h₁] at hcopied
  rw [h₂] at halpha
  exact absurd (hcopied.symm.trans halpha) (by decide)

end FroggyKVM.Graphics
