/-
# FroggyKVM.Puff.Construct — the arrays of a canonical code.

`construct` counts the lengths, checks that the codewords fit and sorts the symbols by length.  The
number that it returns is negative when the codewords do not fit, and 0 when no bit string is left
over or no symbol has a codeword; unless it is negative, the arrays hold the code.
-/
import FroggyKVM.Puff.Decode

namespace FroggyKVM.Puff

open Canonical

/-- The array has the lengths from `start` on. -/
def Holds (length : Shorts) (start : Nat) (lens : List Nat) : Prop :=
  ∀ i (hi : i < lens.length), start + i < length.length ∧ length.data (start + i) = some lens[i]

/-- The codewords do not fit. -/
def Oversubscribed (lens : List Nat) : Prop := 2 ^ 15 < nextCode lens 15 + lens.count 15

instance (lens : List Nat) : Decidable (Oversubscribed lens) := inferInstanceAs (Decidable (_ < _))

/-- No bit string is left over, or there is no codeword. -/
def Complete (lens : List Nat) : Prop :=
  lens.count 0 = lens.length ∨ nextCode lens 15 + lens.count 15 = 2 ^ 15

instance (lens : List Nat) : Decidable (Complete lens) := inferInstanceAs (Decidable (_ ∨ _))

/-- The array with one element written. -/
def put (a : Shorts) (i x : Nat) : Shorts :=
  { a with data := fun k => if k = i then some x else a.data k }

theorem put_self (a : Shorts) (i x : Nat) : (put a i x).data i = some x := if_pos rfl

theorem put_ne (a : Shorts) {i j : Nat} (x : Nat) (h : j ≠ i) : (put a i x).data j = a.data j :=
  if_neg h

theorem setShort_eq {a : Shorts} {i : Nat} (hi : i < a.length) (x : Nat) :
    setShort a i x = .ok (put a i x) := by
  rw [setShort, if_neg (by omega), Int.toNat_natCast, Buffer.set_ok hi]
  rfl

section

variable {length count : Shorts} {start : Nat} {lens : List Nat}

/-! ## Counting -/

/-- The counts of the first `j` lengths. -/
structure Counts (size : Nat) (lens : List Nat) (j : Nat) (count : Shorts) : Prop where
  length : count.length = size
  data : ∀ l, l < 16 → count.data l = some ((lens.take j).count l)

theorem count_take_succ {j : Nat} (hj : j < lens.length) (l : Nat) :
    (lens.take (j + 1)).count l = (lens.take j).count l + if lens[j] = l then 1 else 0 := by
  rw [List.take_add_one, List.count_append, List.getElem?_eq_getElem hj, Option.toList_some,
    List.count_singleton]
  simp only [beq_iff_eq]

theorem clear_eq (lens : List Nat) {size : Nat} (hsize : 16 ≤ size) (hcount : count.length = size) :
    ∃ count', forRange (fun len count => setShort count len 0) 16 0 count = .ok count' ∧
      Counts size lens 0 count' := by
  have hstep : ∀ j (count : Shorts), 0 ≤ j → j < 0 + 16 →
      (count.length = size ∧ ∀ l, l < j → count.data l = some 0) →
      ∃ count', setShort count j 0 = .ok count' ∧
        (count'.length = size ∧ ∀ l, l < j + 1 → count'.data l = some 0) := by
    intro j count _ hj h
    refine ⟨put count j 0, setShort_eq (by omega) 0, h.1, fun l hl => ?_⟩
    by_cases hne : l = j
    · rw [hne, put_self]
    · rw [put_ne _ _ hne, h.2 l (by omega)]
  obtain ⟨count', hrun, hlength, hdata⟩ := forRange_invariant
    (f := fun len count => setShort count len 0) hstep
    ⟨hcount, fun l hl => absurd hl (Nat.not_lt_zero l)⟩
  exact ⟨count', hrun, hlength, hdata⟩

theorem countSymbols_eq {size : Nat} (hsize : 16 ≤ size) (hlens : Holds length start lens)
    (hle : ∀ l ∈ lens, l ≤ 15) (hcount : Counts size lens 0 count) :
    ∃ count', forRange (countSymbol length start) lens.length 0 count = .ok count' ∧
      Counts size lens lens.length count' := by
  have hstep : ∀ j (count : Shorts), 0 ≤ j → j < 0 + lens.length → Counts size lens j count →
      ∃ count', countSymbol length start j count = .ok count' ∧ Counts size lens (j + 1) count' := by
    intro j count _ hlt h
    have hj : j < lens.length := by omega
    have hlen : lens[j] ≤ 15 := hle _ (List.getElem_mem hj)
    have hbound : lens[j] < count.length := by
      rw [h.length]
      omega
    have hread : short length (start + (j : Int)) = .ok lens[j] :=
      short_eq (hlens j hj).1 (hlens j hj).2
    have hold : short count lens[j] = .ok ((lens.take j).count lens[j]) :=
      short_eq hbound (h.data _ (by omega))
    refine ⟨put count lens[j] ((lens.take j).count lens[j] + 1), ?_, h.length, fun l hl => ?_⟩
    · rw [countSymbol, hread, ok_bind, hold, ok_bind, setShort_eq hbound]
    · rw [count_take_succ hj]
      by_cases heq : lens[j] = l
      · rw [← heq, put_self, if_pos rfl]
      · rw [put_ne _ _ (Ne.symm heq), if_neg heq]
        exact h.data l hl
  obtain ⟨count', hrun, h⟩ := forRange_invariant hstep hcount
  rw [Nat.zero_add] at h
  exact ⟨count', hrun, h⟩

/-! ## Bit strings left over -/

/-- A length whose codewords do not fit leaves no room for longer ones. -/
theorem oversubscribed_of_lt {l : Nat} (hl : l ≤ 15) (hl0 : l ≠ 0)
    (h : 2 ^ l < nextCode lens l + lens.count l) : Oversubscribed lens := by
  obtain ⟨n, hn⟩ := Nat.exists_eq_add_of_le hl
  induction n generalizing l with
  | zero =>
    obtain rfl : l = 15 := by omega
    exact h
  | succ n ih =>
    refine ih (l := l + 1) (by omega) (Nat.succ_ne_zero l) ?_ (by omega)
    rw [nextCode, if_neg hl0, Nat.pow_succ]
    omega

/-- **The loop that checks the lengths**, from the length `l + 1` on. -/
theorem leftOver_eq (hlength : 16 ≤ count.length)
    (hcount : ∀ l, l < 16 → count.data l = some (lens.count l)) {n l : Nat} {left : Int}
    (hl : l + n = 15) (hleft : 2 * left = 2 ^ (l + 1) - nextCode lens (l + 1)) (h0 : 0 ≤ left) :
    ∃ r, leftOver count n (l + 1) left = .ok r ∧ (r < 0 ↔ Oversubscribed lens) ∧
      (0 ≤ r → r = 2 ^ 15 - (nextCode lens 15 + lens.count 15)) := by
  induction n generalizing l left with
  | zero =>
    obtain rfl : l = 15 := by omega
    have hnext : nextCode lens (15 + 1) = 2 * (nextCode lens 15 + lens.count 15) := rfl
    refine ⟨left, rfl, ?_, fun _ => ?_⟩
    · rw [Oversubscribed]
      omega
    · omega
  | succ n ih =>
    have hread : short count (l + 1 : Nat) = .ok (lens.count (l + 1)) :=
      short_eq (by omega) (hcount _ (by omega))
    have hnext : nextCode lens (l + 1 + 1) = 2 * (nextCode lens (l + 1) + lens.count (l + 1)) := rfl
    rw [leftOver, hread, ok_bind]
    dsimp only
    by_cases hneg : 2 * left - (lens.count (l + 1) : Nat) < 0
    · have hover : Oversubscribed lens := by
        refine oversubscribed_of_lt (l := l + 1) (by omega) (Nat.succ_ne_zero l) ?_
        have hpow : ((2 ^ (l + 1) : Nat) : Int) = 2 ^ (l + 1) := by norm_cast
        omega
      rw [if_pos hneg]
      exact ⟨_, rfl, ⟨fun _ => hover, fun _ => hneg⟩, fun h => absurd hneg (Int.not_lt.2 h)⟩
    · rw [if_neg hneg]
      refine ih (by omega) ?_ (Int.not_lt.1 hneg)
      rw [hnext, pow_succ]
      push_cast
      omega

/-! ## Sorting -/

theorem offsets_eq (hlength : 16 ≤ count.length)
    (hcount : ∀ l, l < 16 → count.data l = some (lens.count l)) :
    ∃ offs, forRange (nextOffset count) 14 1 (put (shorts 16) 1 0) = .ok offs ∧ offs.length = 16 ∧
      ∀ l, 0 < l → l < 16 → offs.data l = some (offset lens l) := by
  have hstep : ∀ (j : Nat) (offs : Shorts), 1 ≤ j → j < 1 + 14 →
      (offs.length = 16 ∧ ∀ l, 0 < l → l < j + 1 → offs.data l = some (offset lens l)) →
      ∃ offs', nextOffset count j offs = .ok offs' ∧
        (offs'.length = 16 ∧ ∀ l, 0 < l → l < j + 1 + 1 → offs'.data l = some (offset lens l)) := by
    intro j offs hj hlt h
    have hold : short offs j = .ok (offset lens j) :=
      short_eq (by omega) (h.2 j hj (Nat.lt_succ_self j))
    have hread : short count j = .ok (lens.count j) := short_eq (by omega) (hcount j (by omega))
    have hwrite : setShort offs ((j : Int) + 1) (offset lens j + lens.count j) =
        .ok (put offs (j + 1) (offset lens j + lens.count j)) :=
      setShort_eq (i := j + 1) (by omega) _
    refine ⟨put offs (j + 1) (offset lens j + lens.count j), ?_, h.1, fun l hl hle => ?_⟩
    · rw [nextOffset, hold, ok_bind, hread, ok_bind, hwrite]
    · by_cases heq : l = j + 1
      · rw [heq, put_self, offset_succ (by omega)]
      · rw [put_ne _ _ heq]
        exact h.2 l hl (by omega)
  have hfirst : ∀ l, 0 < l → l < 1 + 1 → (put (shorts 16) 1 0).data l = some (offset lens l) := by
    intro l hl hle
    obtain rfl : l = 1 := by omega
    rfl
  exact forRange_invariant hstep ⟨rfl, hfirst⟩

/-- The arrays when the first `j` symbols are in the table. -/
structure Sorted (size : Nat) (lens : List Nat) (j : Nat) (arrays : Shorts × Shorts) : Prop where
  length_offs : arrays.1.length = 16
  offs : ∀ l, 0 < l → l < 16 →
    arrays.1.data l = some (offset lens l + (lens.take j).count l)
  length_table : arrays.2.length = size
  table : ∀ s, s < j → len lens s ≠ 0 → arrays.2.data (place lens s) = some s

theorem sortSymbols_eq {size : Nat} (hsize : lens.length ≤ size) (hlens : Holds length start lens)
    (hle : ∀ l ∈ lens, l ≤ 15) {arrays : Shorts × Shorts} (h : Sorted size lens 0 arrays) :
    ∃ arrays', forRange (sortSymbol length start) lens.length 0 arrays = .ok arrays' ∧
      Sorted size lens lens.length arrays' := by
  have hstep : ∀ j (arrays : Shorts × Shorts), 0 ≤ j → j < 0 + lens.length → Sorted size lens j arrays →
      ∃ arrays', sortSymbol length start j arrays = .ok arrays' ∧
        Sorted size lens (j + 1) arrays' := by
    intro j arrays _ hlt h
    have hj : j < lens.length := by omega
    have hread : short length (start + (j : Int)) = .ok lens[j] :=
      short_eq (hlens j hj).1 (hlens j hj).2
    have hlenj : len lens j = lens[j] := List.getD_eq_getElem _ _ hj
    have hlen : lens[j] ≤ 15 := hle _ (List.getElem_mem hj)
    by_cases hzero : lens[j] = 0
    · -- a symbol without a codeword
      refine ⟨arrays, ?_, h.length_offs, fun l hl hl16 => ?_, h.length_table, fun s hs hs0 => ?_⟩
      · rw [sortSymbol, hread, ok_bind, if_pos hzero]
        rfl
      · rw [count_take_succ hj, if_neg (by omega)]
        exact h.offs l hl hl16
      · rcases Nat.lt_succ_iff_lt_or_eq.1 hs with hs | rfl
        · exact h.table s hs hs0
        · exact absurd (hlenj.trans hzero) hs0
    · have hj0 : len lens j ≠ 0 := by rwa [hlenj]
      have hplace : place lens j = offset lens lens[j] + (lens.take j).count lens[j] := by
        rw [place, rank, hlenj]
      have hold : short arrays.1 lens[j] = .ok (place lens j) := by
        rw [hplace]
        exact short_eq (by have := h.length_offs; omega) (h.offs _ (by omega) (by omega))
      have hin : place lens j < arrays.2.length := by
        have := place_lt hj0
        have := h.length_table
        omega
      refine ⟨(put arrays.1 lens[j] (place lens j + 1), put arrays.2 (place lens j) j), ?_,
        h.length_offs, fun l hl hl16 => ?_, h.length_table, fun s hs hs0 => ?_⟩
      · rw [sortSymbol, hread, ok_bind, if_neg hzero, hold, ok_bind, Int.toNat_natCast,
          setShort_eq hin, ok_bind, setShort_eq (by have := h.length_offs; omega)]
        rfl
      · rw [count_take_succ hj]
        by_cases heq : lens[j] = l
        · rw [← heq, put_self, if_pos rfl, hplace, Nat.add_assoc]
        · rw [put_ne _ _ (Ne.symm heq), if_neg heq]
          exact h.offs l hl hl16
      · rcases Nat.lt_succ_iff_lt_or_eq.1 hs with hs | rfl
        · rw [put_ne _ _ (place_ne hs0 hj0 hs.ne)]
          exact h.table s hs hs0
        · exact put_self ..
  obtain ⟨arrays', hrun, h'⟩ := forRange_invariant hstep h
  rw [Nat.zero_add] at h'
  exact ⟨arrays', hrun, h'⟩

/-! ## The whole function -/

/-- Without codewords everything fits. -/
theorem nextCode_eq_zero (h : lens.count 0 = lens.length) {l : Nat} :
    nextCode lens l = 0 ∧ (l ≠ 0 → lens.count l = 0) := by
  have hall : ∀ x ∈ lens, 0 = x := List.count_eq_length.1 h
  have hcount : ∀ l, l ≠ 0 → lens.count l = 0 := fun l hl =>
    List.count_eq_zero.2 fun hmem => hl (hall l hmem).symm
  refine ⟨?_, hcount l⟩
  induction l with
  | zero => rfl
  | succ l ih =>
    rw [nextCode, ih]
    split
    next => rfl
    next hl => rw [hcount l hl]

/-- **`construct` stores the code** of the lengths, unless its codewords do not fit. -/
theorem construct_eq {h : Huffman} (hcount : 16 ≤ h.count.length)
    (hsymbol : lens.length ≤ h.symbol.length) (hlens : Holds length start lens)
    (hle : ∀ l ∈ lens, l ≤ 15) :
    ∃ left h', construct h length start lens.length = .ok (left, h') ∧
      (left < 0 ↔ Oversubscribed lens) ∧ (left = 0 ↔ Complete lens) ∧
      (0 ≤ left → h'.Stores lens) ∧
      h'.count.length = h.count.length ∧ h'.symbol.length = h.symbol.length := by
  obtain ⟨zeros, hclear, hzeros⟩ := clear_eq lens hcount rfl
  obtain ⟨count, hrun, hcounts⟩ := countSymbols_eq hcount hlens hle hzeros
  have hdata : ∀ l, l < 16 → count.data l = some (lens.count l) := fun l hl => by
    rw [hcounts.data l hl, List.take_length]
  have hlength : 16 ≤ count.length := hcounts.length ▸ hcount
  have hzero : short count 0 = .ok (lens.count 0) := short_eq (i := 0) (by omega) (hdata 0 (by omega))
  rw [construct, hclear, ok_bind, hrun, ok_bind, hzero, ok_bind]
  by_cases hall : lens.count 0 = lens.length
  · have hsum : nextCode lens 15 + lens.count 15 = 0 := by
      rw [(nextCode_eq_zero hall).1, (nextCode_eq_zero hall).2 (by omega)]
    refine ⟨0, { h with count := count }, if_pos hall, ?_, ⟨fun _ => .inl hall, fun _ => rfl⟩,
      fun _ => ⟨⟨hle, by omega⟩, hlength, hdata, hsymbol, fun s hs => ?_⟩, hcounts.length, rfl⟩
    · rw [Oversubscribed]
      omega
    · exact absurd (List.count_eq_length.1 hall _ (len_mem hs).1).symm hs
  · obtain ⟨left, hleft, hneg, hrest⟩ : ∃ left, leftOver count 15 1 1 = .ok left ∧
        (left < 0 ↔ Oversubscribed lens) ∧
        (0 ≤ left → left = 2 ^ 15 - (nextCode lens 15 + lens.count 15)) :=
      leftOver_eq hlength hdata (Nat.zero_add 15) (by simp [nextCode]) (by omega)
    rw [if_neg hall, hleft, ok_bind]
    by_cases hover : left < 0
    · refine ⟨left, { h with count := count }, if_pos hover, hneg, ⟨fun h => by omega, fun hc => ?_⟩,
        fun h => by omega, hcounts.length, rfl⟩
      have hlarge := hneg.1 hover
      rw [Oversubscribed] at hlarge
      have hfull := hc.resolve_left hall
      omega
    · obtain ⟨offs, hoffs, hlen, hoffset⟩ := offsets_eq hlength hdata
      have hsorted : Sorted h.symbol.length lens 0 (offs, h.symbol) :=
        ⟨hlen, fun l hl hl16 => by rw [hoffset l hl hl16]; rfl, rfl, fun s hs => by omega⟩
      obtain ⟨arrays, hsort, hfinal⟩ := sortSymbols_eq hsymbol hlens hle hsorted
      have hfits : nextCode lens 15 + lens.count 15 ≤ 2 ^ 15 := by
        have := fun h => hover (hneg.2 h)
        rw [Oversubscribed] at this
        omega
      have hvalue := hrest (by omega)
      have hstart : setShort (shorts 16) 1 0 = .ok (put (shorts 16) 1 0) :=
        setShort_eq (i := 1) (by decide) 0
      rw [if_neg hover, hstart, ok_bind, hoffs, ok_bind, hsort, ok_bind]
      refine ⟨left, ⟨count, arrays.2⟩, rfl, hneg, ⟨fun h => .inr (by lia), fun hc => ?_⟩,
        fun _ => ⟨⟨hle, hfits⟩, hlength, hdata, by rw [hfinal.length_table]; exact hsymbol,
          fun s hs => hfinal.table s (len_mem hs).2 hs⟩, hcounts.length, hfinal.length_table⟩
      have := hc.resolve_left hall
      omega

end

end FroggyKVM.Puff
