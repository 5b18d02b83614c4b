/-
# FroggyKVM.Lib.CountingDecode — canonical codes from the counts of their lengths.

With the symbols sorted by the lengths of their codewords, the words of one length stand for
consecutive symbols.  A decoder takes one bit after the other and compares what it has with the first
codeword of that length: either the codeword is there, and its distance from the first one tells the
symbol, or every codeword at the place is longer.
-/
import FroggyKVM.Lib.Deflate

namespace FroggyKVM.Canonical

open Deflate (Symbol nextSymbol)

variable (lens : List Nat)

/-- The number of symbols whose codewords are shorter. -/
def offset : Nat → Nat
  | 0 => 0
  | l + 1 => offset l + if l = 0 then 0 else lens.count l

/-- The number of symbols before `s` with codewords of the same length. -/
def rank (s : Nat) : Nat := (lens.take s).count (len lens s)

/-- The place of a symbol among the symbols sorted by the lengths of their codewords. -/
def place (s : Nat) : Nat := offset lens (len lens s) + rank lens s

variable {lens}

theorem offset_mono {k l : Nat} (h : k ≤ l) : offset lens k ≤ offset lens l := by
  induction h with
  | refl => exact Nat.le_refl _
  | step _ ih => exact ih.trans (Nat.le_add_right _ _)

theorem offset_succ {l : Nat} (hl : l ≠ 0) : offset lens (l + 1) = offset lens l + lens.count l := by
  rw [offset, if_neg hl]

/-- The lengths below `l` occur no more often than there are symbols. -/
theorem offset_add_count_le (l : Nat) :
    offset lens l + (lens.filter (l ≤ ·)).length ≤ lens.length := by
  induction l with
  | zero => simp [offset]
  | succ l ih =>
    have hsplit : (lens.filter (l ≤ ·)).length =
        lens.count l + (lens.filter (l + 1 ≤ ·)).length := by
      rw [List.count_eq_length_filter]
      clear ih
      induction lens with
      | nil => rfl
      | cons x xs ih =>
        simp only [List.filter_cons, decide_eq_true_eq, beq_iff_eq]
        by_cases hlt : l < x
        · rw [if_pos (by omega), if_neg (by omega), if_pos (by omega), List.length_cons,
            List.length_cons, ih, Nat.add_assoc]
        · by_cases heq : x = l
          · rw [if_pos (by omega), if_pos heq, if_neg (by omega), List.length_cons,
              List.length_cons, ih]
            omega
          · rw [if_neg (by omega), if_neg heq, if_neg (by omega), ih]
    rw [offset]
    split <;> omega

theorem offset_le (l : Nat) : offset lens l ≤ lens.length :=
  (Nat.le_add_right _ _).trans (offset_add_count_le l)

theorem place_lt_offset {s : Nat} (hs : len lens s ≠ 0) :
    place lens s < offset lens (len lens s + 1) := by
  rw [place, offset_succ hs]
  exact Nat.add_lt_add_left (rank_lt_count hs) _

theorem place_lt {s : Nat} (hs : len lens s ≠ 0) : place lens s < lens.length :=
  (place_lt_offset hs).trans_le (offset_le _)

/-- **No two symbols have one place.** -/
theorem place_ne {s t : Nat} (hs : len lens s ≠ 0) (ht : len lens t ≠ 0) (hne : s ≠ t) :
    place lens s ≠ place lens t := by
  have hless : ∀ {a b : Nat}, len lens a ≠ 0 → len lens a < len lens b →
      place lens a < place lens b := by
    intro a b ha hlen
    calc place lens a < offset lens (len lens a + 1) := place_lt_offset ha
      _ ≤ offset lens (len lens b) := offset_mono hlen
      _ ≤ place lens b := Nat.le_add_right _ _
  have hsame : ∀ {a b : Nat}, len lens a ≠ 0 → a < b → len lens a = len lens b →
      place lens a < place lens b := by
    intro a b ha hab hlen
    have hrank := rank_lt ha hab hlen
    rw [place, place, rank, rank, hlen]
    rw [hlen] at hrank
    exact Nat.add_lt_add_left hrank _
  rcases Nat.lt_trichotomy (len lens s) (len lens t) with hlt | heq | hgt
  · exact (hless hs hlt).ne
  · rcases Nat.lt_or_gt_of_ne hne with hlt | hgt
    · exact (hsame hs hlt heq).ne
    · exact (hsame ht hgt heq.symm).ne'
  · exact (hless ht hgt).ne'

/-- The symbols with codewords of one length are numbered without gaps. -/
theorem exists_rank {l r : Nat} (hr : r < lens.count l) : ∃ s, len lens s = l ∧ rank lens s = r := by
  induction lens generalizing r with
  | nil => exact absurd hr (Nat.not_lt_zero r)
  | cons x xs ih =>
    rw [List.count_cons] at hr
    have hshift : ∀ s, len (x :: xs) (s + 1) = len xs s := fun s => rfl
    have hrank : ∀ s, rank (x :: xs) (s + 1) = rank xs s + if x == len xs s then 1 else 0 := by
      intro s
      rw [rank, hshift, List.take_succ_cons, List.count_cons]
      rfl
    by_cases hx : x = l
    · cases r with
      | zero => exact ⟨0, hx, rfl⟩
      | succ r =>
        obtain ⟨s, hlen, hs⟩ := ih (r := r) (by rw [hx, beq_self_eq_true, if_pos rfl] at hr; omega)
        refine ⟨s + 1, hlen, ?_⟩
        rw [hrank, hs, hlen, hx, beq_self_eq_true, if_pos rfl]
    · have hbeq : (x == l) = false := beq_eq_false_iff_ne.2 hx
      obtain ⟨s, hlen, hs⟩ := ih (r := r) (by rw [hbeq] at hr; exact hr)
      refine ⟨s + 1, hlen, ?_⟩
      rw [hrank, hs, hlen, hbeq]
      rfl

/-- The codewords fit by the bound on the last ones. -/
theorem kraft_eq (hle : ∀ l ∈ lens, l ≤ 15) : kraft 15 lens = nextCode lens 15 + lens.count 15 := by
  rw [← first_eq_kraft hle, first_succ (by decide), first_eq (Nat.le_refl 15), Nat.sub_self,
    Nat.pow_zero, Nat.mul_one, Nat.mul_one]

/-! ## One bit after the other -/

section

variable {bit : Nat → Bool} {p l : Nat}

/-- The codeword is there. -/
theorem symbol_of_lt (hl : l ≠ 0) (hle : nextCode lens l ≤ msbBitsAt bit p l)
    (hlt : msbBitsAt bit p l < nextCode lens l + lens.count l) :
    ∃ s, Symbol bit lens p s ∧ len lens s = l ∧
      place lens s = offset lens l + (msbBitsAt bit p l - nextCode lens l) := by
  obtain ⟨s, hlen, hrank⟩ : ∃ s, len lens s = l ∧
      rank lens s = msbBitsAt bit p l - nextCode lens l := exists_rank (by omega)
  refine ⟨s, ⟨by rw [hlen]; exact hl, ?_⟩, hlen, by rw [place, hlen, hrank]⟩
  rw [code, hlen]
  rw [rank, hlen] at hrank
  omega

/-- No codeword of the length is there. -/
theorem not_symbol_of_le (hle : nextCode lens l + lens.count l ≤ msbBitsAt bit p l) {s : Nat}
    (hlen : len lens s = l) : ¬ Symbol bit lens p s := by
  rintro ⟨hs, hcode⟩
  have hrank := rank_lt_count hs
  rw [hlen] at hrank hcode
  rw [code, hlen] at hcode
  omega

theorem nextSymbol_eq_none (h : ∀ s, ¬ Symbol bit lens p s) : nextSymbol bit lens p = none := by
  rw [nextSymbol, List.find?_eq_none.2 fun s _ => by simpa using h s]
  rfl

end

end FroggyKVM.Canonical
