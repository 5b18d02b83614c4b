/-
# FroggyKVM.Lib.Raster — pictures on an integer grid, their symmetries, and where two of them meet.

A raster is a width, a height and a pixel for each column and row.  `mirror` reflects it about its
vertical centre and `rotate` turns it a quarter clockwise; the eight symmetries of a rectangle are
compositions of the two.  A raster of conditions painted at a position shows at the points of the
plane where its pixel holds, and two painted rasters meet when both show at some point.
-/
import Mathlib

namespace FroggyKVM

/-- A picture of `width` columns and `height` rows. -/
structure Raster (α : Type*) where
  width : Int
  height : Int
  pixel : Int → Int → α

namespace Raster

variable {α : Type*}

/-- The reflection about the vertical centre. -/
def mirror (r : Raster α) : Raster α where
  width := r.width
  height := r.height
  pixel x y := r.pixel (r.width - 1 - x) y

/-- The clockwise quarter turn: the left column becomes the top row. -/
def rotate (r : Raster α) : Raster α where
  width := r.height
  height := r.width
  pixel x y := r.pixel y (r.height - 1 - x)

/-! ## Painting -/

/-- The raster painted with its top left corner at `(x, y)` covers the point and shows there. -/
def Shows (r : Raster Prop) (x y px py : Int) : Prop :=
  (0 ≤ px - x ∧ px - x < r.width) ∧ (0 ≤ py - y ∧ py - y < r.height) ∧ r.pixel (px - x) (py - y)

/-- Two painted rasters both show at some point. -/
def Meets (r : Raster Prop) (x y : Int) (r' : Raster Prop) (x' y' : Int) : Prop :=
  ∃ px py, r.Shows x y px py ∧ r'.Shows x' y' px py

theorem Meets.symm {r r' : Raster Prop} {x y x' y' : Int} (h : r.Meets x y r' x' y') :
    r'.Meets x' y' r x y := by
  obtain ⟨px, py, h₁, h₂⟩ := h
  exact ⟨px, py, h₂, h₁⟩

end Raster

/-! ## Row-major storage

A block of pixels is written to a linear memory row by row, `scan` cells from one row to the next.
-/

section Storage

variable {α : Type*}

/-- Write `n` cells of a row from address `a` on. -/
def writeRow (row : Int → α) (a : Int) : Nat → (Int → α) → Int → α
  | 0, data, k => data k
  | n + 1, data, k => if k = a + n then row n else writeRow row a n data k

/-- Write `m` rows of `n` cells from address `a` on. -/
def writeRows (pixel : Int → Int → α) (a scan : Int) (n : Nat) : Nat → (Int → α) → Int → α
  | 0, data => data
  | m + 1, data => writeRow (fun c => pixel c m) (a + m * scan) n (writeRows pixel a scan n m data)

theorem writeRow_hit (row : Int → α) (a : Int) (data : Int → α) {n : Nat} {c : Int} (h₀ : 0 ≤ c)
    (h : c < n) : writeRow row a n data (a + c) = row c := by
  induction n with
  | zero => omega
  | succ n ih =>
    rw [writeRow]
    by_cases hc : c = n
    · subst hc
      rw [if_pos rfl]
    · rw [if_neg (by omega), ih (by omega)]

theorem writeRow_miss (row : Int → α) (a : Int) (data : Int → α) {n : Nat} {k : Int}
    (h : k < a ∨ a + n ≤ k) : writeRow row a n data k = data k := by
  induction n with
  | zero => rfl
  | succ n ih => rw [writeRow, if_neg (by omega), ih (by omega)]

/-- A cell of the block holds its pixel: a later row does not reach back. -/
theorem writeRows_hit (pixel : Int → Int → α) (a : Int) (data : Int → α) {scan : Int} {n m : Nat}
    (hscan : (n : Int) ≤ scan) {c r : Int} (hc₀ : 0 ≤ c) (hc : c < n) (hr₀ : 0 ≤ r) (hr : r < m) :
    writeRows pixel a scan n m data (a + c + r * scan) = pixel c r := by
  induction m with
  | zero => omega
  | succ m ih =>
    rw [writeRows]
    by_cases hlast : r = m
    · subst hlast
      rw [show a + c + (m : Int) * scan = a + m * scan + c by ring, writeRow_hit _ _ _ hc₀ hc]
    · have hstep : r * scan + scan ≤ m * scan := by
        have h := Int.mul_le_mul_of_nonneg_right (show r + 1 ≤ m by omega)
          (show 0 ≤ scan by omega)
        linarith
      rw [writeRow_miss _ _ _ (.inl (by omega)), ih (by omega)]

end Storage

end FroggyKVM
