/-
# FroggyKVM.Graphics.Primitives — what the primitive drawings paint.

However a run of pixels is split up, it is one run.  A run along a row, down a column or over whole
rows paints the pixels of a rectangle, so every primitive paints its line or block.
-/
import FroggyKVM.Lib.Returns
import FroggyKVM.Graphics.Screen

namespace FroggyKVM.Graphics

open View

/-! ## Runs in parts -/

section Runs

variable {color : UInt16} {stride : Int} {n m : Nat} {pPtr count : Int} {sbuf : ScreenBuffer}

theorem storeRun_one : storeRun color stride 1 pPtr sbuf = store color pPtr sbuf := by
  rw [storeRun]
  cases store color pPtr sbuf <;> rfl

theorem storeRun_add (n : Nat) :
    storeRun color stride (n + m) pPtr sbuf =
      storeRun color stride n pPtr sbuf >>= storeRun color stride m (pPtr + n * stride) := by
  induction n generalizing pPtr sbuf with
  | zero =>
    rw [Nat.zero_add, storeRun, ok_bind]
    simp
  | succ n ih =>
    have hptr : pPtr + stride + n * stride = pPtr + (n + 1 : Nat) * stride := by
      push_cast
      ring
    rw [Nat.succ_add, storeRun, storeRun]
    cases store color pPtr sbuf with
    | error e => rfl
    | ok sbuf' =>
      rw [ok_bind, ok_bind, ih, hptr]

/-- The rest that is left to store makes up the run. -/
structure Splits (color : UInt16) (stride pPtr count : Int) (sbuf : ScreenBuffer)
    (x : Except DrawFault (Int × Int × ScreenBuffer)) : Prop where
  nonneg : Returns x fun r => 0 ≤ r.2.1
  run : ∀ e : Nat, (x >>= fun r => storeRun color stride (r.2.1 + e).toNat r.1 r.2.2) =
    storeRun color stride (count + e).toNat pPtr sbuf

theorem Splits.rest (h : 0 ≤ count) :
    Splits color stride pPtr count sbuf (.ok (pPtr, count, sbuf)) :=
  ⟨Returns.ok h, fun _ => rfl⟩

/-- A first part of `n` pixels. -/
theorem Splits.part (h : n ≤ count) {f : ScreenBuffer → Except DrawFault (Int × Int × ScreenBuffer)}
    (hf : ∀ s, Splits color stride (pPtr + n * stride) (count - n) s (f s)) :
    Splits color stride pPtr count sbuf (storeRun color stride n pPtr sbuf >>= f) := by
  constructor
  · exact Returns.bind_any fun s => (hf s).nonneg
  · intro e
    have hcount : (count + e).toNat = n + (count - n + e).toNat := by omega
    rw [hcount, storeRun_add]
    cases storeRun color stride n pPtr sbuf with
    | error e => rfl
    | ok s => exact (hf s).run e

theorem Splits.bind {x : Except DrawFault (Int × Int × ScreenBuffer)}
    {f : Int × Int × ScreenBuffer → Except DrawFault (Int × Int × ScreenBuffer)}
    (hx : Splits color stride pPtr count sbuf x)
    (hf : ∀ r, 0 ≤ r.2.1 → Splits color stride r.1 r.2.1 r.2.2 (f r)) :
    Splits color stride pPtr count sbuf (x >>= f) := by
  constructor
  · exact hx.nonneg.bind fun r hr => (hf r hr).nonneg
  · intro e
    rw [← hx.run e]
    cases hr : x with
    | error e => rfl
    | ok r => exact (hf r (hx.nonneg r hr)).run e

/-- The run is stored in full. -/
theorem Splits.done {x : Except DrawFault (Int × Int × ScreenBuffer)}
    (h : Splits color stride pPtr count sbuf x) :
    (x >>= fun r => storeRun color stride r.2.1.toNat r.1 r.2.2) =
      storeRun color stride count.toNat pPtr sbuf := by
  have hrun := h.run 0
  simpa only [Nat.cast_zero, Int.add_zero] using hrun

theorem storeBlocks_splits {block : Nat} (h : 0 ≤ count) :
    Splits color stride pPtr count sbuf (storeBlocks color stride block pPtr count sbuf) := by
  induction pPtr, count, sbuf using storeBlocks.induct stride block with
  | case1 pPtr count sbuf hblock ih =>
    rw [storeBlocks, if_pos hblock]
    exact Splits.part hblock.2 fun s => ih s (by omega)
  | case2 pPtr count sbuf hblock =>
    rw [storeBlocks, if_neg hblock]
    exact Splits.rest h

theorem storeBlock_splits {block : Nat} (h : 0 ≤ count) :
    Splits color 1 pPtr count sbuf (storeBlock color block pPtr count sbuf) := by
  unfold storeBlock
  split
  · next hblock =>
    refine Splits.part hblock fun s => ?_
    rw [Int.mul_one]
    exact Splits.rest (by omega)
  · exact Splits.rest h

theorem storeUnaligned_splits (h : 0 ≤ count) :
    Splits color 1 pPtr count sbuf (storeUnaligned color pPtr count sbuf) := by
  unfold storeUnaligned
  split
  · next hcount =>
    have hrest : ∀ s, Splits color 1 (pPtr + (1 : Nat) * 1) (count - (1 : Nat)) s
        (.ok (pPtr + 1, count - 1, s)) := fun s => Splits.rest (by omega)
    have hpart : Splits color 1 pPtr count sbuf (storeRun color 1 1 pPtr sbuf >>= _) :=
      Splits.part (by omega) hrest
    rw [storeRun_one] at hpart
    exact hpart
  · exact Splits.rest h

theorem storeWide_splits (h : 0 ≤ count) :
    Splits color 1 pPtr count sbuf (storeWide color pPtr count sbuf) := by
  refine (storeUnaligned_splits h).bind fun r hr => ?_
  refine (storeBlocks_splits hr).bind fun r hr => ?_
  exact (storeBlock_splits hr).bind fun r hr => storeBlock_splits hr

end Runs

/-! ## Pixels -/

/-- The pixels of a `W` by `H` buffer. -/
def Pixel (W H : Int) : Type := {p : Int × Int // 0 ≤ p.1 ∧ p.1 < W ∧ 0 ≤ p.2 ∧ p.2 < H}

/-- What a buffer of this size shows. -/
def screen (W H : Int) : View ScreenBuffer (Pixel W H) UInt16 where
  Ok := fun sbuf => sbuf.width = W ∧ sbuf.height = H ∧ (sbuf.pixelData.length : Int) = W * H
  look := fun sbuf p => sbuf.pixelData.data (p.val.2 * W + p.val.1).toNat

def region (W H : Int) (P : Int → Int → Prop) : Set (Pixel W H) := {p | P p.val.1 p.val.2}

/-- **On every buffer of this size, `op` sets exactly the pixels of `P`.** -/
def Draws (W H : Int) (color : UInt16) (P : Int → Int → Prop) (op : Draw) : Prop :=
  (screen W H).Paints color (region W H P) op

theorem index_range {W H x y : Int} (hx : 0 ≤ x ∧ x < W) (hy : 0 ≤ y ∧ y < H) :
    0 ≤ y * W + x ∧ y * W + x < W * H := by
  constructor
  · have := Int.mul_nonneg hy.1 (by omega : 0 ≤ W)
    omega
  · have hrow : (y + 1) * W ≤ H * W := Int.mul_le_mul_of_nonneg_right (by omega) (by omega)
    rw [Int.add_mul, Int.one_mul, Int.mul_comm H W] at hrow
    omega

/-- The row and the column can be read off the index. -/
theorem index_inj {W x y x' y' : Int} (hx : 0 ≤ x ∧ x < W) (hx' : 0 ≤ x' ∧ x' < W) :
    y * W + x = y' * W + x' ↔ x = x' ∧ y = y' := by
  constructor
  · intro h
    have hdiv : ∀ {a b : Int}, 0 ≤ b ∧ b < W → (a * W + b) / W = a := by
      intro a b hb
      rw [Int.add_comm, Int.add_mul_ediv_right _ _ (by omega), Int.ediv_eq_zero_of_lt hb.1 hb.2,
        Int.zero_add]
    have hy : y = y' := by rw [← hdiv (a := y) hx, ← hdiv (a := y') hx', h]
    subst hy
    exact ⟨by omega, rfl⟩
  · rintro ⟨rfl, rfl⟩
    rfl

/-- A buffer of one colour. -/
def blankScreen (W H : Int) (color : UInt16) : ScreenBuffer :=
  { width := W
    height := H
    address := 0
    pixelData := { length := (W * H).toNat, data := fun _ => color } }

theorem blankScreen_ok {W H : Int} (hW : 0 ≤ W) (hH : 0 ≤ H) (color : UInt16) :
    (screen W H).Ok (blankScreen W H color) :=
  ⟨rfl, rfl, Int.toNat_of_nonneg (Int.mul_nonneg hW hH)⟩

namespace Draws

variable {W H : Int} {color : UInt16} {P Q : Int → Int → Prop} {f g : Draw}

theorem seq (hf : Draws W H color P f) (hg : Draws W H color Q g) :
    Draws W H color (fun x y => P x y ∨ Q x y) fun sbuf => f sbuf >>= g :=
  Paints.seq hf hg

/-- Only the pixels of the buffer count. -/
theorem congr (hf : Draws W H color P f)
    (h : ∀ x y, 0 ≤ x → x < W → 0 ≤ y → y < H → (Q x y ↔ P x y)) : Draws W H color Q f :=
  Paints.of_set hf fun p => h _ _ p.property.1 p.property.2.1 p.property.2.2.1 p.property.2.2.2

theorem nothing (h : ∀ x y, 0 ≤ x → x < W → 0 ≤ y → y < H → ¬ P x y) :
    Draws W H color P .ok :=
  (Paints.nothing (screen W H) color).of_set fun p =>
    iff_false_intro (h _ _ p.property.1 p.property.2.1 p.property.2.2.1 p.property.2.2.2)

theorem of_eq (hg : Draws W H color P g)
    (h : ∀ sbuf, sbuf.width = W → sbuf.height = H → f sbuf = g sbuf) : Draws W H color P f :=
  Paints.of_eq hg fun sbuf hsbuf => h sbuf hsbuf.1 hsbuf.2.1

theorem unique (hP : Draws W H color P f) (hQ : Draws W H color Q f) (hW : 0 ≤ W) (hH : 0 ≤ H)
    {x y : Int} (hx : 0 ≤ x ∧ x < W) (hy : 0 ≤ y ∧ y < H) : P x y ↔ Q x y := by
  have hblank : ∀ p, (screen W H).look (blankScreen W H (color + 1)) p ≠ color := by
    intro p h
    have hsucc : color + 1 = color := h
    simp at hsucc
  exact Paints.unique (blankScreen_ok hW hH _) hblank hP hQ ⟨(x, y), hx.1, hx.2, hy.1, hy.2⟩

/-- An operation that faults on the buffers of this size draws no region. -/
theorem not_of_error (e : DrawFault) (hW : 0 ≤ W) (hH : 0 ≤ H)
    (he : ∀ sbuf, sbuf.width = W → sbuf.height = H → f sbuf = .error e) : ¬ Draws W H color P f :=
  Paints.not_of_error (blankScreen_ok hW hH 0) (he _ rfl rfl)

/-- A drawing under a condition. -/
theorem when {c : Prop} [Decidable c] (hf : c → Draws W H color P f) :
    Draws W H color (fun x y => c ∧ P x y) (drawIf c f) := by
  by_cases hc : c
  · exact ((hf hc).congr fun _ _ _ _ _ _ => and_iff_right hc).of_eq fun _ _ _ => if_pos hc
  · exact (nothing fun _ _ _ _ _ _ h => hc h.1).of_eq fun _ _ _ => if_neg hc

/-- **What an operation sets is the region it draws, and no other.** -/
theorem iff (hP : Draws W H color P f) (hW : 0 ≤ W) (hH : 0 ≤ H) :
    Draws W H color Q f ↔ ∀ x y, 0 ≤ x → x < W → 0 ≤ y → y < H → (Q x y ↔ P x y) := by
  constructor
  · intro hQ x y hx₀ hx hy₀ hy
    exact hQ.unique hP hW hH ⟨hx₀, hx⟩ ⟨hy₀, hy⟩
  · exact hP.congr

theorem store {x y : Int} (hx : 0 ≤ x ∧ x < W) (hy : 0 ≤ y ∧ y < H) :
    Draws W H color (fun px py => px = x ∧ py = y) (store color (y * W + x)) := by
  rintro sbuf ⟨hw, hh, hlength⟩
  have hrange := index_range hx hy
  refine ⟨_, if_pos ⟨hrange.1, by rw [hlength]; exact hrange.2⟩, ⟨hw, hh, hlength⟩, ?_, ?_⟩
  · rintro ⟨⟨px, py⟩, hp⟩ ⟨hpx, hpy⟩
    dsimp only at hpx hpy
    subst hpx hpy
    exact if_pos rfl
  · rintro ⟨⟨px, py⟩, hp⟩ hne
    dsimp only at hp
    have hindex := index_range ⟨hp.1, hp.2.1⟩ hp.2.2
    have hother : (py * W + px).toNat ≠ (y * W + x).toNat := by
      intro h
      have heq : py * W + px = y * W + x := by omega
      exact hne ((index_inj ⟨hp.1, hp.2.1⟩ hx).mp heq)
    exact if_neg hother

/-- A run along a row. -/
theorem row {n : Nat} {x y : Int} (hx : 0 ≤ x ∧ x + n ≤ W) (hy : 0 ≤ y ∧ y < H) :
    Draws W H color (fun px py => py = y ∧ x ≤ px ∧ px < x + n)
      (storeRun color 1 n (y * W + x)) := by
  induction n generalizing x with
  | zero => exact .nothing fun _ _ _ _ _ _ => by omega
  | succ n ih =>
    have hrest := ih (x := x + 1) (by omega)
    rw [← Int.add_assoc] at hrest
    exact ((store ⟨hx.1, by omega⟩ hy).seq hrest).congr fun _ _ _ _ _ _ => by omega

/-- A run down a column. -/
theorem column {n : Nat} {x y : Int} (hx : 0 ≤ x ∧ x < W) (hy : 0 ≤ y ∧ y + n ≤ H) :
    Draws W H color (fun px py => px = x ∧ y ≤ py ∧ py < y + n)
      (storeRun color W n (y * W + x)) := by
  induction n generalizing y with
  | zero => exact .nothing fun _ _ _ _ _ _ => by omega
  | succ n ih =>
    have hrest := ih (y := y + 1) (by omega)
    rw [show (y + 1) * W + x = y * W + x + W by ring] at hrest
    exact ((store hx ⟨hy.1, by omega⟩).seq hrest).congr fun _ _ _ _ _ _ => by omega

/-- A run over whole rows. -/
theorem rows {k : Nat} {y : Int} (hW : 0 ≤ W) (hy : 0 ≤ y ∧ y + k ≤ H) :
    Draws W H color (fun _ py => y ≤ py ∧ py < y + k)
      (storeRun color 1 (k * W.toNat) (y * W)) := by
  induction k generalizing y with
  | zero =>
    rw [Nat.zero_mul]
    exact .nothing fun _ _ _ _ _ _ => by omega
  | succ k ih =>
    have hfirst : Draws W H color _ (storeRun color 1 W.toNat (y * W + 0)) :=
      row (by omega) (by omega)
    have hrest := ih (y := y + 1) (by omega)
    have hptr : (y + 1) * W = y * W + 0 + W.toNat * 1 := by
      rw [Int.toNat_of_nonneg hW]
      ring
    rw [hptr] at hrest
    refine ((hfirst.seq hrest).congr fun _ _ _ _ _ _ => by omega).of_eq fun sbuf _ _ => ?_
    rw [Nat.succ_mul, Nat.add_comm, storeRun_add, Int.add_zero]

end Draws

/-! ## The primitives -/

variable {W H : Int} {color : UInt16}

theorem clampInto_range {size : Int} (h : 0 < size) (a : Int) :
    0 ≤ clampInto size a ∧ clampInto size a < size := by
  unfold clampInto
  split_ifs <;> omega

/-- The primitives put the two ends of a line in order. -/
theorem inOrder (a b : Int) :
    (if b - a < 0 then (b, -(b - a)) else (a, b - a)) = (min a b, max a b - min a b) := by
  split_ifs
  · rw [min_eq_right (by omega), max_eq_left (by omega), Int.neg_sub]
  · rw [min_eq_left (by omega), max_eq_right (by omega)]

theorem primDrawHorzLine_eq {x1 y1 x2 y2 a b : Int} {sbuf : ScreenBuffer}
    (hy : 0 ≤ y1 ∧ y1 < sbuf.height) (ha : clampInto sbuf.width x1 = a)
    (hb : clampInto sbuf.width x2 = b) :
    primDrawHorzLine color x1 y1 x2 y2 sbuf =
      storeRun color 1 (max a b - min a b + 1).toNat (y1 * sbuf.width + min a b) sbuf := by
  have hcount : 0 ≤ max a b - min a b := by omega
  rw [primDrawHorzLine, if_neg (by omega)]
  simp only [ha, hb, inOrder]
  exact (storeWide_splits hcount).run 1

theorem primDrawVertLine_eq {x1 y1 x2 y2 a b : Int} {sbuf : ScreenBuffer}
    (hx : 0 ≤ x1 ∧ x1 < sbuf.width) (ha : clampInto sbuf.height y1 = a)
    (hb : clampInto sbuf.height y2 = b) :
    primDrawVertLine color x1 y1 x2 y2 sbuf =
      storeRun color sbuf.width (max a b - min a b + 1).toNat (min a b * sbuf.width + x1) sbuf := by
  have hcount : 0 ≤ max a b - min a b := by omega
  rw [primDrawVertLine, if_neg (by omega)]
  simp only [ha, hb, inOrder]
  exact (storeBlocks_splits hcount).run 1

/-- **A horizontal line**, with its ends moved into the buffer. -/
theorem draws_primDrawHorzLine {x1 y1 x2 y2 : Int} (hW : 0 < W) :
    Draws W H color
      (fun px py => py = y1 ∧ min (clampInto W x1) (clampInto W x2) ≤ px ∧
        px ≤ max (clampInto W x1) (clampInto W x2))
      (primDrawHorzLine color x1 y1 x2 y2) := by
  have h₁ := clampInto_range hW x1
  have h₂ := clampInto_range hW x2
  generalize ha : clampInto W x1 = a at *
  generalize hb : clampInto W x2 = b at *
  by_cases hy : 0 ≤ y1 ∧ y1 < H
  · have hrow : Draws W H color _
        (storeRun color 1 (max a b - min a b + 1).toNat (y1 * W + min a b)) :=
      Draws.row (by omega) hy
    refine (hrow.congr fun _ _ _ _ _ _ => by omega).of_eq fun sbuf hw hh => ?_
    subst hw hh
    exact primDrawHorzLine_eq hy ha hb
  · refine (Draws.nothing fun _ _ _ _ _ _ => by omega).of_eq fun sbuf _ hh => ?_
    rw [primDrawHorzLine, if_pos (by omega)]

/-- **A vertical line**, with its ends moved into the buffer. -/
theorem draws_primDrawVertLine {x1 y1 x2 y2 : Int} (hH : 0 < H) :
    Draws W H color
      (fun px py => px = x1 ∧ min (clampInto H y1) (clampInto H y2) ≤ py ∧
        py ≤ max (clampInto H y1) (clampInto H y2))
      (primDrawVertLine color x1 y1 x2 y2) := by
  have h₁ := clampInto_range hH y1
  have h₂ := clampInto_range hH y2
  generalize ha : clampInto H y1 = a at *
  generalize hb : clampInto H y2 = b at *
  by_cases hx : 0 ≤ x1 ∧ x1 < W
  · have hcolumn : Draws W H color _
        (storeRun color W (max a b - min a b + 1).toNat (min a b * W + x1)) :=
      Draws.column hx (by omega)
    refine (hcolumn.congr fun _ _ _ _ _ _ => by lia).of_eq fun sbuf hw hh => ?_
    subst hw hh
    exact primDrawVertLine_eq hx ha hb
  · refine (Draws.nothing fun _ _ _ _ _ _ => by omega).of_eq fun sbuf hw _ => ?_
    rw [primDrawVertLine, if_pos (by omega)]

theorem clampInto_of_nonneg {size a : Int} (h : 0 ≤ a) : clampInto size a = min a (size - 1) := by
  rw [clampInto, if_neg (by omega)]
  split_ifs <;> omega

/-- A horizontal line that may reach over the right edge. -/
theorem draws_row {x1 y1 x2 y2 : Int} (hW : 0 < W) (h₁ : 0 ≤ x1) (h₂ : x1 ≤ x2) :
    Draws W H color (fun px py => py = y1 ∧ min x1 (W - 1) ≤ px ∧ px ≤ x2)
      (primDrawHorzLine color x1 y1 x2 y2) := by
  have hline : Draws W H color _ (primDrawHorzLine color x1 y1 x2 y2) := draws_primDrawHorzLine hW
  rw [clampInto_of_nonneg h₁, clampInto_of_nonneg (by omega)] at hline
  exact hline.congr fun _ _ _ _ _ _ => by lia

/-- A vertical line that may reach over the lower edge. -/
theorem draws_column {x1 y1 x2 y2 : Int} (hH : 0 < H) (h₁ : 0 ≤ y1) (h₂ : y1 ≤ y2) :
    Draws W H color (fun px py => px = x1 ∧ min y1 (H - 1) ≤ py ∧ py ≤ y2)
      (primDrawVertLine color x1 y1 x2 y2) := by
  have hline : Draws W H color _ (primDrawVertLine color x1 y1 x2 y2) := draws_primDrawVertLine hH
  rw [clampInto_of_nonneg h₁, clampInto_of_nonneg (by omega)] at hline
  exact hline.congr fun _ _ _ _ _ _ => by omega

/-! ## Blocks -/

theorem clampTo_range {bound : Int} (h : 0 ≤ bound) (a : Int) :
    0 ≤ clampTo bound a ∧ clampTo bound a ≤ bound := by
  unfold clampTo
  split_ifs <;> omega

theorem clampTo_of_range {bound a : Int} (h : 0 ≤ a ∧ a ≤ bound) : clampTo bound a = a := by
  rw [clampTo, if_neg (by omega), if_neg (by omega)]

section Rows

variable {sbuf : ScreenBuffer} {width rowCount pPtr lPtr count : Int} {n : Nat}

/-- Without pixels nothing is stored. -/
theorem storeWide_nonpos (h : count ≤ 0) :
    storeWide color pPtr count sbuf = .ok (pPtr, count, sbuf) := by
  rw [storeWide, storeUnaligned, if_neg (by omega), ok_bind]
  dsimp only
  rw [storeBlocks, if_neg (by omega), ok_bind]
  dsimp only
  rw [storeBlock, if_neg (by omega), ok_bind]
  dsimp only
  rw [storeBlock, if_neg (by omega)]

theorem filledRow_nonpos (h : count ≤ 0) : filledRow color pPtr count sbuf = .ok sbuf := by
  rw [filledRow, storeWide_nonpos h, ok_bind]
  dsimp only
  rw [Int.toNat_of_nonpos h, storeRun]

theorem filledRow_eq (h : 0 ≤ count) :
    filledRow color pPtr count sbuf = storeRun color 1 count.toNat pPtr sbuf :=
  (storeWide_splits h).done

theorem fastPixelSet_nonpos (h : count ≤ 0) : fastPixelSet color pPtr count sbuf = .ok sbuf :=
  if_pos h

theorem fastPixelSet_eq (h : 0 < count) :
    fastPixelSet color pPtr count sbuf = storeRun color 1 count.toNat pPtr sbuf := by
  have hsplits : Splits color 1 pPtr count sbuf (do
      let r ← storeUnaligned color pPtr count sbuf
      let r ← storeBlocks color 1 16 r.1 r.2.1 r.2.2
      storeBlocks color 1 2 r.1 r.2.1 r.2.2) :=
    (storeUnaligned_splits (by omega)).bind fun r hr =>
      (storeBlocks_splits hr).bind fun r hr => storeBlocks_splits hr
  rw [fastPixelSet, if_neg (by omega), ← hsplits.done]
  simp only [bind_assoc]

end Rows

/-- Rows of the same extent. -/
theorem draws_filledRows {n : Nat} {x y count : Int} (hx : 0 ≤ x ∧ x + count ≤ W) (hc : 0 ≤ count)
    (hy : 0 ≤ y ∧ y + n ≤ H) :
    Draws W H color (fun px py => y ≤ py ∧ py < y + n ∧ x ≤ px ∧ px < x + count)
      (filledRows color W count n (y * W + x) count) := by
  induction n generalizing y with
  | zero => exact .nothing fun _ _ _ _ _ _ => by omega
  | succ n ih =>
    have hrow : Draws W H color _ (storeRun color 1 count.toNat (y * W + x)) :=
      Draws.row (by omega) (by omega)
    have hfirst : Draws W H color _ (filledRow color (y * W + x) count) :=
      hrow.of_eq fun sbuf _ _ => filledRow_eq hc
    have hrest := ih (y := y + 1) (by omega)
    rw [show (y + 1) * W + x = y * W + x + W by ring] at hrest
    exact (hfirst.seq hrest).congr fun _ _ _ _ _ _ => by omega

/-- The two corners of a block are put in order. -/
theorem cornersInOrder (a b : Int) :
    (if b - a < 0 then (b, a, -(b - a)) else (a, b, b - a)) =
      (min a b, max a b, max a b - min a b) := by
  split_ifs
  · rw [min_eq_right (by omega), max_eq_left (by omega), Int.neg_sub]
  · rw [min_eq_left (by omega), max_eq_right (by omega)]

/-- **A block**, with its corners moved to the edges of the buffer. -/
theorem draws_primDrawFilledRect {x1 y1 x2 y2 : Int} (hW : 0 ≤ W) (hH : 0 ≤ H) :
    Draws W H color
      (fun px py => clampTo H y1 ≤ py ∧ py < clampTo H y2 ∧
        min (clampTo W x1) (clampTo W x2) ≤ px ∧ px < max (clampTo W x1) (clampTo W x2))
      (primDrawFilledRect color x1 y1 x2 y2) := by
  have hx₁ := clampTo_range hW x1
  have hx₂ := clampTo_range hW x2
  have hy₁ := clampTo_range hH y1
  have hy₂ := clampTo_range hH y2
  generalize ha : clampTo W x1 = a at *
  generalize hb : clampTo W x2 = b at *
  generalize hc : clampTo H y1 = c at *
  generalize hd : clampTo H y2 = d at *
  have hrows : ∀ sbuf, sbuf.width = W → sbuf.height = H →
      primDrawFilledRect color x1 y1 x2 y2 sbuf =
        if min a b = 0 ∧ max a b = W then
          filledRows color W (max a b - min a b) 1 (c * W + min a b) (W * (d - c)) sbuf
        else filledRows color W (max a b - min a b) (d - c).toNat (c * W + min a b)
          (max a b - min a b) sbuf := by
    rintro sbuf rfl rfl
    rw [primDrawFilledRect]
    simp only [ha, hb, hc, hd, cornersInOrder]
  by_cases hwide : min a b = 0 ∧ max a b = W
  · have hone : ∀ r sbuf, filledRows color W r 1 (c * W) (W * (d - c)) sbuf =
        filledRow color (c * W) (W * (d - c)) sbuf := by
      intro r sbuf
      rw [filledRows]
      cases filledRow color (c * W) (W * (d - c)) sbuf <;> rfl
    by_cases hcd : c ≤ d
    · have hall : Draws W H color _ (storeRun color 1 ((d - c).toNat * W.toNat) (c * W)) :=
        Draws.rows hW (by omega)
      refine (hall.congr fun _ _ _ _ _ _ => by lia).of_eq fun sbuf hw hh => ?_
      rw [hrows sbuf hw hh, if_pos hwide, hwide.1, Int.add_zero, hone,
        filledRow_eq (Int.mul_nonneg hW (by omega)), Int.mul_comm,
        Int.toNat_mul (by omega) hW]
    · refine (Draws.nothing fun _ _ _ _ _ _ => by omega).of_eq fun sbuf hw hh => ?_
      rw [hrows sbuf hw hh, if_pos hwide, hwide.1, Int.add_zero, hone,
        filledRow_nonpos (Int.mul_nonpos_of_nonneg_of_nonpos hW (by lia))]
  · have hblock : Draws W H color _ (filledRows color W (max a b - min a b) (d - c).toNat
        (c * W + min a b) (max a b - min a b)) :=
      draws_filledRows (by lia) (by lia) (by lia)
    refine (hblock.congr fun _ _ _ _ _ _ => by omega).of_eq fun sbuf hw hh => ?_
    rw [hrows sbuf hw hh, if_neg hwide]

/-- A block inside the buffer. -/
theorem draws_block {x1 y1 x2 y2 : Int} (hx : 0 ≤ x1 ∧ x1 ≤ x2 ∧ x2 ≤ W)
    (hy : 0 ≤ y1 ∧ y1 ≤ y2 ∧ y2 ≤ H) :
    Draws W H color (fun px py => x1 ≤ px ∧ px < x2 ∧ y1 ≤ py ∧ py < y2)
      (primDrawFilledRect color x1 y1 x2 y2) := by
  have hblock : Draws W H color _ (primDrawFilledRect color x1 y1 x2 y2) :=
    draws_primDrawFilledRect (by omega) (by omega)
  rw [clampTo_of_range (by omega), clampTo_of_range (by omega), clampTo_of_range (by omega),
    clampTo_of_range (by omega)] at hblock
  exact hblock.congr fun _ _ _ _ _ _ => by omega

end FroggyKVM.Graphics
