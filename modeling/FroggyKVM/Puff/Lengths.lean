/-
# FroggyKVM.Puff.Lengths — the code lengths of a block.

Arrays of lengths are written from the front, so that they hold a list that grows.  The fixed codes
are written by counting loops; the lengths of a dynamic block are read with a code whose own lengths
come in an order of their own.
-/
import FroggyKVM.Puff.Codes

namespace FroggyKVM.Puff

open Canonical Deflate Outcome

/-! ## Arrays that grow -/

section

variable {a : Shorts} {xs : List Nat}

theorem holds_nil (a : Shorts) : Holds a 0 [] := fun i hi => absurd hi (Nat.not_lt_zero i)

/-- One length more. -/
theorem Holds.append (h : Holds a 0 xs) (hlt : xs.length < a.length) (x : Nat) :
    Holds (put a xs.length x) 0 (xs ++ [x]) := by
  intro i hi
  rw [List.length_append, List.length_singleton] at hi
  rw [Nat.zero_add]
  refine ⟨by show i < a.length; omega, ?_⟩
  rcases Nat.lt_succ_iff_lt_or_eq.1 hi with hlt' | rfl
  · have hold := (h i hlt').2
    rw [Nat.zero_add] at hold
    rw [put_ne _ _ hlt'.ne, hold, List.getElem_append_left hlt']
  · rw [put_self, List.getElem_append_right (Nat.le_refl _)]
    simp

theorem Holds.take {start n : Nat} (h : Holds a start xs) : Holds a start (xs.take n) := by
  intro i hi
  rw [List.length_take] at hi
  rw [List.getElem_take]
  exact h i (by omega)

theorem Holds.drop {n : Nat} (h : Holds a 0 xs) : Holds a n (xs.drop n) := by
  intro i hi
  rw [List.length_drop] at hi
  rw [List.getElem_drop]
  have := h (n + i) (by omega)
  rwa [Nat.zero_add] at this

/-- A run of one length. -/
theorem fillLengths_eq {n : Nat} (h : Holds a 0 xs) (hle : xs.length + n ≤ a.length) (x : Nat) :
    ∃ a', fillLengths xs.length (xs.length + n) x a = .ok a' ∧
      Holds a' 0 (xs ++ List.replicate n x) ∧ a'.length = a.length := by
  have hstep : ∀ (j : Nat) (b : Shorts), xs.length ≤ j → j < xs.length + n →
      (b.length = a.length ∧ Holds b 0 (xs ++ List.replicate (j - xs.length) x)) →
      ∃ b', setShort b j x = .ok b' ∧
        (b'.length = a.length ∧ Holds b' 0 (xs ++ List.replicate (j + 1 - xs.length) x)) := by
    intro j b hj hlt hb
    have hlength : (xs ++ List.replicate (j - xs.length) x).length = j := by
      rw [List.length_append, List.length_replicate]
      omega
    refine ⟨put b j x, setShort_eq (by omega) x, hb.1, ?_⟩
    have happend := hb.2.append (by omega) x
    rwa [hlength, List.append_assoc, ← List.replicate_succ', ← Nat.sub_add_comm hj] at happend
  have hcount : xs.length + n - xs.length = n := Nat.add_sub_cancel_left ..
  obtain ⟨a', hrun, hlength, hholds⟩ := forRange_invariant
    (f := fun (symbol : Int) (lengths : Shorts) => setShort lengths symbol x) hstep
    ⟨rfl, by rw [Nat.sub_self, List.replicate_zero, List.append_nil]; exact h⟩
  rw [hcount] at hholds
  refine ⟨a', ?_, hholds, hlength⟩
  rw [fillLengths, hcount]
  exact hrun

end

/-! ## Fixed codes -/

/-- The code of the distances has 30 symbols here. -/
def distLens30 : List Nat := List.replicate 30 5

theorem fixedLengths_eq : ∃ lit dist, fixedLengths = .ok (lit, dist) ∧
    Holds lit 0 fixedLitLens ∧ Holds dist 0 distLens30 := by
  obtain ⟨a₁, h₁, hold₁, len₁⟩ := fillLengths_eq (n := 144) (holds_nil (shorts 288)) (by decide) 8
  obtain ⟨a₂, h₂, hold₂, len₂⟩ := fillLengths_eq (n := 112) hold₁
    (by simp only [len₁, List.length_append, List.length_replicate]; decide) 9
  obtain ⟨a₃, h₃, hold₃, len₃⟩ := fillLengths_eq (n := 24) hold₂
    (by simp only [len₂, len₁, List.length_append, List.length_replicate]; decide) 7
  obtain ⟨a₄, h₄, hold₄, -⟩ := fillLengths_eq (n := 8) hold₃
    (by simp only [len₃, len₂, len₁, List.length_append, List.length_replicate]; decide) 8
  obtain ⟨b, h₅, hold₅, -⟩ := fillLengths_eq (n := 30) (holds_nil (shorts 30)) (by decide) 5
  refine ⟨a₄, b, ?_, hold₄, hold₅⟩
  simp only [List.length_append, List.length_replicate, List.length_nil, Nat.reduceAdd] at *
  rw [fixedLengths, h₁, ok_bind, h₂, ok_bind, h₃, ok_bind, h₄, ok_bind, h₅]
  rfl

theorem len_replicate {n s : Nat} : len (List.replicate n 5) s = if s < n then 5 else 0 := by
  rw [len, List.getD_eq_getElem?_getD, List.getElem?_replicate]
  split <;> rfl

/-- In a code of 5 bits the symbols are the codewords. -/
theorem symbol_replicate {bit : Nat → Bool} {n p s : Nat} :
    Symbol bit (List.replicate n 5) p s ↔ s < n ∧ msbBitsAt bit p 5 = s := by
  have hnext : nextCode (List.replicate n 5) 5 = 0 := by
    simp [nextCode, List.count_replicate]
  rw [Deflate.Symbol, code, len_replicate]
  by_cases hs : s < n
  · rw [if_pos hs, hnext, List.take_replicate, List.count_replicate_self, Nat.zero_add,
      Nat.min_eq_left hs.le]
    simp [hs]
  · rw [if_neg hs]
    simp [hs]

theorem nextSymbol_replicate {bit : Nat → Bool} {n p : Nat} (hn : n ≤ 32) :
    nextSymbol bit (List.replicate n 5) p =
      if msbBitsAt bit p 5 < n then some (msbBitsAt bit p 5, p + 5) else none := by
  have hfits : Fits 15 (List.replicate n 5) := by
    refine fits_of_kraft (by omega) (fun l hl => ?_) ?_
    · rw [List.eq_of_mem_replicate hl]
      omega
    · rw [kraft, List.map_replicate, List.sum_replicate]
      show n * 2 ^ 10 ≤ 2 ^ 15
      omega
  split
  next hlt =>
    rw [nextSymbol_eq bit hfits (symbol_replicate.2 ⟨hlt, rfl⟩), len_replicate, if_pos hlt]
  next hge =>
    refine nextSymbol_eq_none fun s hs => ?_
    obtain ⟨hlt, heq⟩ := symbol_replicate.1 hs
    omega

theorem bind_distance {γ : Type} {bit : Nat → Bool} (q : Nat)
    (f : Nat × Nat → Nat × Nat → Option γ) :
    ((nextSymbol bit fixedDistLens q).bind fun t => (distances[t.1]?).bind fun d => f t d) =
      (nextSymbol bit distLens30 q).bind fun t => (distances[t.1]?).bind fun d => f t d := by
  rw [fixedDistLens, distLens30, nextSymbol_replicate (Nat.le_refl 32),
    nextSymbol_replicate (by omega)]
  by_cases h30 : msbBitsAt bit q 5 < 30
  · rw [if_pos h30, if_pos (by omega)]
  · have hnone : distances[msbBitsAt bit q 5]? = none := List.getElem?_eq_none (Nat.not_lt.1 h30)
    rw [if_neg h30]
    split
    · rw [Option.bind_some, hnone]
      rfl
    · rfl

/-- **The two distances that have no meaning make no difference.** -/
theorem compressedBytes_distLens30 {bit : Nat → Bool} {litLens : List Nat} {fuel p : Nat}
    {xs : List UInt8} : compressedBytes rules bit litLens fixedDistLens fuel p xs =
      compressedBytes rules bit litLens distLens30 fuel p xs := by
  induction fuel generalizing p xs with
  | zero => rfl
  | succ fuel ih =>
    rw [compressedBytes, compressedBytes]
    simp only [Option.bind_eq_bind, ih, bind_distance]

section

variable {c : Call} {p : Nat} {xs : List UInt8}

theorem fixedLitLens_le : ∀ l ∈ fixedLitLens, l ≤ 15 := by
  intro l hl
  simp only [fixedLitLens, List.mem_append, List.mem_replicate] at hl
  omega

theorem complete_fixedLitLens : Complete fixedLitLens := by
  refine .inr ((kraft_eq fixedLitLens_le).symm.trans ?_)
  simp only [kraft, fixedLitLens, List.map_append, List.map_replicate, List.sum_append,
    List.sum_replicate]
  rfl

theorem distLens30_le : ∀ l ∈ distLens30, l ≤ 15 := fun l hl => by
  rw [List.eq_of_mem_replicate hl]
  omega

theorem not_oversubscribed_distLens30 : ¬ Oversubscribed distLens30 := by
  rw [Oversubscribed, ← kraft_eq distLens30_le]
  simp only [kraft, distLens30, List.map_replicate, List.sum_replicate]
  exact Nat.not_lt.2 (by decide)

theorem fixed_meets (hc : c.Small) {fuel : Nat} (hp : p ≤ c.limit) (hfuel : c.limit < p + fuel)
    (hroom : c.Room xs) :
    Meets c (compressedBytes rules c.bit fixedLitLens fixedDistLens fuel p xs)
      (fixed fuel (c.stateAt p xs)) := by
  obtain ⟨lit, dist, hlengths, hlit, hdist⟩ := fixedLengths_eq
  have hlength : fixedLitLens.length = 288 := by
    simp only [fixedLitLens, List.length_append, List.length_replicate]
  have hlength' : distLens30.length = 30 := List.length_replicate ..
  obtain ⟨left, lencode, hconstruct, -, hzero, hstores, -⟩ := construct_eq
    (h := ⟨shorts 16, shorts 288⟩) (Nat.le_refl 16) hlength.le hlit fixedLitLens_le
  obtain rfl := hzero.2 complete_fixedLitLens
  obtain ⟨left, distcode, hconstruct', hneg, -, hstores', -⟩ := construct_eq
    (h := ⟨shorts 16, shorts 30⟩) (Nat.le_refl 16) hlength'.le hdist distLens30_le
  have hleft : ¬ left < 0 := fun h => not_oversubscribed_distLens30 (hneg.1 h)
  rw [hlength] at hconstruct
  rw [hlength'] at hconstruct'
  rw [compressedBytes_distLens30, fixed, bind_lift hlengths]
  dsimp only
  rw [bind_lift hconstruct]
  dsimp only
  rw [run_ite, if_neg (fun h => h rfl), bind_lift hconstruct']
  dsimp only
  rw [run_ite, if_neg hleft]
  exact codes_meets hc (hstores (Int.le_refl 0)) (hstores' (Int.not_lt.1 hleft))
    hlength'.le hp hfuel hroom

/-! ## The code of the lengths -/

/-- The first `j` lengths of the code of the lengths are written, as far as there are `n` of them. -/
structure Ordered (bit : Nat → Bool) (p n j : Nat) (a : Shorts) : Prop where
  length : a.length = 316
  data : ∀ i s, i < j → order[i]? = some s →
    a.data s = some (if i < n then bitsAt bit (p + 3 * i) 3 else 0)

theorem order_lt {i s : Nat} (h : order[i]? = some s) : s < 19 := by
  have hall : ∀ s ∈ order, s < 19 := by decide
  exact hall s (List.mem_of_getElem? h)

/-- The next length in order. -/
theorem Ordered.succ {bit : Nat → Bool} {q n j s : Nat} {a : Shorts} (h : Ordered bit q n j a)
    (hs : order[j]? = some s) :
    Ordered bit q n (j + 1) (put a s (if j < n then bitsAt bit (q + 3 * j) 3 else 0)) := by
  refine ⟨h.length, fun i t hi ht => ?_⟩
  by_cases heq : t = s
  · have hij : i = j := by
      have hnodup : order.Nodup := by decide
      subst heq
      exact List.getElem?_inj (List.getElem?_eq_some_iff.1 ht).1 hnodup |>.1 (ht.trans hs.symm)
    rw [heq, put_self, hij]
  · have hij : i ≠ j := fun hij => heq (Option.some.inj (ht.symm.trans (hij ▸ hs)))
    rw [put_ne _ _ heq]
    exact h.data i t (by omega) ht

theorem order_some {j : Nat} (hj : j < 19) : ∃ s, order[j]? = some s :=
  ⟨_, List.getElem?_eq_getElem (show j < order.length from hj)⟩

/-- **The loop over the lengths that are there**, or the end of the input. -/
theorem readOrder_cases (xs : List UInt8) (hc : c.Small) {q n j m : Nat} {a : Shorts}
    (h : Ordered c.bit q n j a) (hn : j + m = n) (h19 : n ≤ 19) (hq : q + 3 * j ≤ c.limit) :
    (q + 3 * n ≤ c.limit ∧ ∃ a',
      readOrder m j a (c.stateAt (q + 3 * j) xs) = (.ok a', c.stateAt (q + 3 * n) xs) ∧
      Ordered c.bit q n n a') ∨
    (c.limit < q + 3 * n ∧ Stops (readOrder m j a (c.stateAt (q + 3 * j) xs))) := by
  induction m generalizing j a with
  | zero =>
    obtain rfl : j = n := by omega
    exact .inl ⟨hq, a, rfl, h⟩
  | succ m ih =>
    obtain ⟨s, hs⟩ := order_some (show j < 19 by omega)
    rw [readOrder]
    by_cases hbits : q + 3 * j + 3 ≤ c.limit
    · have hnext := h.succ hs
      rw [if_pos (show j < n by omega)] at hnext
      have hwrite : setShort a (s : Nat) (bitsAt c.bit (q + 3 * j) 3) =
          .ok (put a s (bitsAt c.bit (q + 3 * j) 3)) :=
        setShort_eq (by have := order_lt hs; have := h.length; omega) _
      rw [bind_ok (bits_eq hc hbits), bind_lift (entry_eq hs), bind_lift hwrite]
      exact ih hnext (by lia) (by lia)
    · exact .inr ⟨by omega, (bits_stops hc hq (Nat.not_le.1 hbits)).bind⟩

/-- **The other lengths are 0**, and the array holds the lengths of the code. -/
theorem clearOrder_eq {bit : Nat → Bool} {q n : Nat} {a : Shorts} (h : Ordered bit q n n a)
    (h19 : n ≤ 19) : ∃ a', clearOrder n a = .ok a' ∧ a'.length = 316 ∧
      Holds a' 0 (codeLengthLens bit q n) := by
  have hstep : ∀ (j : Nat) (b : Shorts), n ≤ j → j < n + (19 - n) → Ordered bit q n j b →
      ∃ b', (do
        let i ← entry order (j : Int)
        setShort b i 0) = .ok b' ∧ Ordered bit q n (j + 1) b' := by
    intro j b hj hlt hb
    obtain ⟨s, hs⟩ := order_some (show j < 19 by omega)
    have hnext := hb.succ hs
    rw [if_neg (show ¬ j < n by omega)] at hnext
    refine ⟨_, ?_, hnext⟩
    rw [entry_eq hs, ok_bind, setShort_eq (by have := order_lt hs; have := hb.length; omega)]
  obtain ⟨a', hrun, h'⟩ := forRange_invariant (f := fun (index : Int) (lengths : Shorts) => do
    let i ← entry order index
    setShort lengths i 0) hstep h
  rw [Nat.add_sub_of_le h19] at h'
  refine ⟨a', hrun, h'.length, fun s hs => ?_⟩
  rw [codeLengthLens, List.length_map, List.length_range] at hs
  have hplace : order[codeLengthOrder.idxOf s]? = some s ∧ codeLengthOrder.idxOf s < 19 := by
    have hall : ∀ s, s < 19 → order[codeLengthOrder.idxOf s]? = some s ∧
      codeLengthOrder.idxOf s < 19 := by decide
    exact hall s hs
  rw [Nat.zero_add]
  refine ⟨by have := h'.length; omega, ?_⟩
  rw [h'.data _ s hplace.2 hplace.1]
  simp [codeLengthLens]

/-! ## Code lengths -/

section

variable {zs : List Nat} {a : Shorts} {s q : Nat}

/-- A repetition is a read of extra bits. -/
theorem repetition_bits (ha : Holds a 0 zs) {bit : Nat → Bool} {x n e : Nat}
    (hr : repeatAt bit s q zs = some (x, n, e)) : ∃ base, n = base + bitsAt bit q e ∧
      ∀ σ, repetition s zs.length a σ = (do
        let y ← bits e
        return some (x, base + y) : Run (Option (Nat × Nat))) σ := by
  rw [repeatAt] at hr
  split at hr
  next h16 =>
    obtain ⟨y, hy, heq⟩ := Option.map_eq_some_iff.1 hr
    simp only [Prod.mk.injEq] at heq
    obtain ⟨rfl, rfl, rfl⟩ := heq
    rw [List.getLast?_eq_getElem?] at hy
    obtain ⟨hlt, hget⟩ := List.getElem?_eq_some_iff.1 hy
    have hdata := ha (zs.length - 1) hlt
    rw [Nat.zero_add, hget] at hdata
    have hread : short a ((zs.length : Int) - 1) = .ok y := by
      rw [show (zs.length : Int) - 1 = (zs.length - 1 : Nat) by omega]
      exact short_eq hdata.1 hdata.2
    refine ⟨3, rfl, fun σ => ?_⟩
    rw [repetition, run_ite, if_pos (by omega), run_ite, if_neg (by omega), bind_lift hread]
  next h16 =>
    split at hr
    next h17 =>
      simp only [Option.some.injEq, Prod.mk.injEq] at hr
      obtain ⟨rfl, rfl, rfl⟩ := hr
      refine ⟨3, rfl, fun σ => ?_⟩
      rw [repetition, run_ite, if_neg (by omega), run_ite, if_pos (by omega)]
    next h17 =>
      simp only [Option.some.injEq, Prod.mk.injEq] at hr
      obtain ⟨rfl, rfl, rfl⟩ := hr
      refine ⟨11, rfl, fun σ => ?_⟩
      rw [repetition, run_ite, if_neg (by omega), run_ite, if_neg (by omega)]

/-- Nothing to repeat. -/
theorem repetition_none (hr : repeatAt c.bit s q zs = none) :
    repetition s zs.length a (c.stateAt q xs) = (.ok none, c.stateAt q xs) := by
  rw [repeatAt] at hr
  split at hr
  next h16 =>
    rw [Option.map_eq_none_iff, List.getLast?_eq_none_iff] at hr
    rw [repetition, run_ite, if_pos (by omega), run_ite, if_pos (by rw [hr]; rfl)]
    rfl
  next h16 => split at hr <;> cases hr

/-- The lengths are refused, or the input has ended. -/
def Refuses (r : Except Stop (Int ⊕ Shorts) × State) : Prop :=
  Stops r ∨ ∃ err, err ≠ 0 ∧ r.1 = .ok (.inl err)

/-- **The loop over the code lengths**, behind the lengths `zs`. -/
theorem readLengths_eq (xs : List UInt8) (hc : c.Small) {lencode : Huffman} {ccode : List Nat}
    (hh : lencode.Stores ccode) {total fuel : Nat} (ha : Holds a 0 zs) (hlength : a.length = 316)
    (htotal : total ≤ 316) (hzs : zs.length ≤ total) (hfuel : total < zs.length + fuel)
    (hp : p ≤ c.limit) :
    (∃ q ws a', codeLengths c.bit ccode total fuel p zs = some (q, ws) ∧ q ≤ c.limit ∧
      readLengths lencode total fuel zs.length a (c.stateAt p xs) =
        (.ok (.inr a'), c.stateAt q xs) ∧ Holds a' 0 ws ∧ a'.length = 316) ∨
    ((∀ q ws, codeLengths c.bit ccode total fuel p zs = some (q, ws) → c.limit < q) ∧
      Refuses (readLengths lencode total fuel zs.length a (c.stateAt p xs))) := by
  induction fuel generalizing p zs a with
  | zero => omega
  | succ fuel ih =>
    rw [readLengths, run_ite]
    by_cases hdone : zs.length = total
    · refine .inl ⟨p, zs, a, ?_, hp, ?_, ha, hlength⟩
      · rw [codeLengths, if_pos hdone]
      · rw [if_neg hdone.ge.not_gt]
        rfl
    · have hlt : zs.length < total := by omega
      rw [if_pos hlt, codeLengths_succ hlt]
      rcases decode_cases xs hc hh hp with ⟨s, q, hs, hq, hdecode⟩ | ⟨hnone, hmiss⟩
      case inr =>
        refine .inr ⟨fun q ws h => ?_, ?_⟩
        · obtain ⟨⟨s, q'⟩, hs, h⟩ := Option.bind_eq_some_iff.1 h
          have hbeyond := hnone s q' hs
          dsimp only at h
          split at h
          · exact hbeyond.trans_le (codeLengths_spec h).1
          · obtain ⟨r, -, h⟩ := Option.bind_eq_some_iff.1 h
            have := (codeLengths_spec h).1
            omega
        · rcases hmiss with hstop | hmiss
          · exact .inl (Stops.bind hstop)
          · refine .inr ⟨-10, by decide, ?_⟩
            rw [bind_ok (Prod.ext hmiss rfl)]
            rfl
      case inl =>
        rw [hs, Option.bind_some, bind_ok hdecode, run_ite,
          if_neg (show ¬ ((s : Nat) : Int) < 0 by omega), run_ite]
        dsimp only
        by_cases h16 : s < 16
        · rw [if_pos h16, if_pos (by omega), Int.toNat_natCast, bind_lift (setShort_eq (by omega) s)]
          have hnext := ih (p := q) (ha.append (by omega) s) hlength
            (by rw [List.length_append, List.length_singleton]; omega)
            (by rw [List.length_append, List.length_singleton]; omega) hq
          rwa [List.length_append, List.length_singleton] at hnext
        · rw [if_neg h16, if_neg (by omega)]
          cases hr : repeatAt c.bit s q zs with
          | none =>
            refine .inr ⟨fun q ws h => (Option.some_ne_none _ h.symm).elim, .inr ⟨-5, by decide, ?_⟩⟩
            rw [bind_ok (repetition_none hr)]
            rfl
          | some r =>
            obtain ⟨x, n, e⟩ := r
            obtain ⟨base, hn, hbits⟩ := repetition_bits (s := s) (q := q) ha hr
            rw [Option.bind_some]
            dsimp only
            by_cases he : q + e ≤ c.limit
            · have hrun : repetition s zs.length a (c.stateAt q xs) =
                  (.ok (some (x, n)), c.stateAt (q + e) xs) := by
                rw [hbits, bind_ok (bits_eq hc he), hn]
                rfl
              rw [bind_ok hrun]
              dsimp only
              rw [run_ite]
              by_cases hlong : total < zs.length + n
              · rw [if_pos hlong, codeLengths_long (by
                  rw [List.length_append, List.length_replicate]
                  exact hlong)]
                exact .inr ⟨fun q ws h => (Option.some_ne_none _ h.symm).elim, .inr ⟨-6, by decide, rfl⟩⟩
              · obtain ⟨a', hfill, ha', hlength'⟩ := fillLengths_eq ha (n := n) (by omega) x
                have hpos := (repeatAt_cases hr).1
                rw [if_neg hlong, bind_lift hfill]
                have hnext := ih (p := q + e) ha' (hlength'.trans hlength)
                  (by rw [List.length_append, List.length_replicate]; omega)
                  (by rw [List.length_append, List.length_replicate]; omega) he
                rwa [List.length_append, List.length_replicate] at hnext
            · refine .inr ⟨fun q' ws h => ?_, .inl (Stops.bind ?_)⟩
              · have := (codeLengths_spec h).1
                omega
              · rw [hbits]
                exact (bits_stops hc hq (Nat.not_le.1 he)).bind

end

end

end FroggyKVM.Puff
