/-
# FroggyKVM.Game.Image — images, Java integer arrays, and `Image.getRGB`.

An image is its size and the ARGB value `imgj_get_argb` computes for each pixel.  `getRGB` checks the
region against the image and the target array, then copies the region row by row.
-/
import FroggyKVM.Lib.Raster
import FroggyKVM.Lib.Buffer

namespace FroggyKVM.Game

/-- The exceptions the game classes throw. -/
inductive Throwable where
  | illegalArgument
  | indexOutOfBounds
  | arrayIndexOutOfBounds
  deriving DecidableEq, Repr

/-- A Java `int[]`. -/
structure IntArray where
  length : Int
  data : Int → BitVec 32

namespace IntArray

/-- `new int[length]`. -/
def new (length : Int) : IntArray where
  length := length
  data _ := 0

/-- `array[i]`. -/
def get (array : IntArray) (i : Int) : Except Throwable (BitVec 32) :=
  if 0 ≤ i ∧ i < array.length then .ok (array.data i) else .error .arrayIndexOutOfBounds

theorem get_ok {array : IntArray} {i : Int} (h : 0 ≤ i ∧ i < array.length) :
    array.get i = .ok (array.data i) := if_pos h

end IntArray

/-- An image: no image is empty. -/
structure Image where
  width : Int
  height : Int
  argb : Int → Int → BitVec 32
  width_pos : 0 < width
  height_pos : 0 < height

/-- `ALPHA_BITMASK` and `FULLY_OPAQUE_ALPHA`. -/
def alphaBitmask : BitVec 32 := 0xff000000

/-- The test of `doPixelCollision` on one ARGB value. -/
def isOpaque (argb : BitVec 32) : Bool := argb &&& alphaBitmask == alphaBitmask

/-- The alpha byte of an ARGB value. -/
def alpha (argb : BitVec 32) : Nat := argb.toNat / 2 ^ 24

/-- The mask selects exactly the alpha byte. -/
theorem isOpaque_iff (argb : BitVec 32) : isOpaque argb = true ↔ alpha argb = 255 := by
  have hlt : argb.toNat >>> 24 < 2 ^ 8 := by
    have h := argb.isLt
    rw [Nat.shiftRight_eq_div_pow]
    omega
  have hmask : (4278190080 : Nat) = 255 <<< 24 := rfl
  have hnat : isOpaque argb = true ↔ argb.toNat &&& 4278190080 = 4278190080 := by
    rw [isOpaque, beq_iff_eq, ← BitVec.toNat_inj, BitVec.toNat_and]
    rfl
  rw [hnat, alpha, ← Nat.shiftRight_eq_div_pow]
  constructor
  · intro h
    have hs := congrArg (· >>> 24) h
    simp only [hmask, Nat.shiftRight_and_distrib, Nat.shiftLeft_shiftRight] at hs
    rwa [show (255 : Nat) = 2 ^ 8 - 1 from rfl, Nat.and_two_pow_sub_one_eq_mod,
      Nat.mod_eq_of_lt hlt] at hs
  · intro h
    rw [hmask]
    apply Nat.eq_of_testBit_eq
    intro i
    rw [Nat.testBit_and, Nat.testBit_shiftLeft]
    by_cases hi : 24 ≤ i
    · have hbit : argb.toNat.testBit i = (argb.toNat >>> 24).testBit (i - 24) := by
        rw [Nat.testBit_shiftRight]
        congr 1
        omega
      rw [hbit, h]
      simp [hi]
    · simp [hi]

namespace Image

/-- `imgj_get_argb`: the pixels of the region, row by row. -/
def imgjGetArgb (image : Image) (rgbBuffer : Int → BitVec 32)
    (offset scanlength x y width height : Int) : Int → BitVec 32 :=
  writeRows (fun a b => image.argb (x + a) (y + b)) offset scanlength width.toNat height.toNat
    rgbBuffer

/-- `Image.getRGB`. -/
def getRGB (image : Image) (rgbData : IntArray) (offset scanlength x y width height : Int) :
    Except Throwable IntArray :=
  if 0 ≤ scanlength ∧ scanlength < width then
    .error .illegalArgument
  else if scanlength < 0 ∧ 0 - scanlength < width then
    .error .illegalArgument
  else if y < 0 ∨ x < 0 ∨ x + width > image.width ∨ y + height > image.height then
    .error .illegalArgument
  else if height < 0 ∨ width < 0 then
    -- the specification says that nothing happens
    .ok rgbData
  else if offset < 0 ∨ offset + (height - 1) * scanlength + width > rgbData.length ∨
      offset + (height - 1) * scanlength < 0 then
    .error .arrayIndexOutOfBounds
  else
    .ok { rgbData with
      data := image.imgjGetArgb rgbData.data offset scanlength x y width height }

/-- A region `getRGB` reads without an exception into an array of its own size.  A region of no rows
is refused, unless it also has no columns: the last row would start before the array. -/
def Readable (image : Image) (x y width height : Int) : Prop :=
  0 ≤ x ∧ 0 ≤ y ∧ x + width ≤ image.width ∧ y + height ≤ image.height ∧ (height = 0 → width = 0)

instance (image : Image) (x y width height : Int) : Decidable (image.Readable x y width height) :=
  inferInstanceAs (Decidable (_ ∧ _))

/-- The pixel at `(x, y)` is fully opaque. -/
def OpaqueAt (image : Image) (x y : Int) : Prop := alpha (image.argb x y) = 255

variable {image : Image} {x y width height : Int}

/-- **What `getRGB` reads**: into an array of exactly the region's size, with the region's width as
scan length, every pixel lands in row-major order. -/
theorem getRGB_of_readable (h : image.Readable x y width height) (hw : 0 ≤ width) (hh : 0 ≤ height)
    {n : Int} (hn : n = width * height) :
    ∃ array, image.getRGB (IntArray.new n) 0 width x y width height = .ok array ∧
      array.length = n ∧
      ∀ a b, 0 ≤ a → a < width → 0 ≤ b → b < height →
        array.data (a + b * width) = image.argb (x + a) (y + b) := by
  subst hn
  obtain ⟨hx, hy, hright, hbottom, hempty⟩ := h
  have hregion : ¬ (y < 0 ∨ x < 0 ∨ x + width > image.width ∨ y + height > image.height) := by
    omega
  have hlast : (height - 1) * width + width = width * height := by ring
  have hstart : 0 ≤ (height - 1) * width := by
    rcases hh.eq_or_lt with h | h
    · rw [hempty h.symm, Int.mul_zero]
    · exact Int.mul_nonneg (by lia) hw
  rw [getRGB, if_neg (by omega), if_neg (by omega), if_neg hregion, if_neg (by omega),
    if_neg (by simp only [IntArray.new]; omega)]
  refine ⟨_, rfl, rfl, fun a b ha₀ ha hb₀ hb => ?_⟩
  rw [show a + b * width = 0 + a + b * width by ring]
  exact writeRows_hit (fun a b => image.argb (x + a) (y + b)) 0 _ (by omega) ha₀ (by omega) hb₀
    (by omega)

/-- Other regions are refused. -/
theorem getRGB_of_not_readable (h : ¬ image.Readable x y width height) (hw : 0 ≤ width)
    (hh : 0 ≤ height) (n : Int) :
    ∃ e, image.getRGB (IntArray.new n) 0 width x y width height = .error e := by
  rw [getRGB, if_neg (by omega), if_neg (by omega)]
  by_cases hregion : y < 0 ∨ x < 0 ∨ x + width > image.width ∨ y + height > image.height
  · rw [if_pos hregion]
    exact ⟨_, rfl⟩
  · -- the region lies inside, so it has columns but no rows
    have hempty : height = 0 ∧ 0 < width := by
      unfold Readable at h
      omega
    rw [if_neg hregion, if_neg (by omega), if_pos (by rw [hempty.1]; omega)]
    exact ⟨_, rfl⟩

end Image

end FroggyKVM.Game
