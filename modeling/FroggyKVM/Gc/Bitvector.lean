/-
# FroggyKVM.Gc.Bitvector — the bit vector of `ObjectHeap`, and the loop over its bits.

Addresses are word indices: an `OopDesc**` that is stepped by one word is stepped by one here, and
the bit of the word at `p` is bit `p % 32` of the bit vector's word `p / 32`.
-/
import FroggyKVM.Lib.BitMask

namespace FroggyKVM.Gc

/-- A write at or past the end of the marking stack, or the end of a loop's fuel. -/
inductive Fault where
  | stackOverrun
  | outOfFuel
  deriving DecidableEq, Repr

/-- The words of the bit vector. -/
abbrev Bitvector := Nat → BitVec 32

namespace Bitvector

/-- `test_bit_for`. -/
def testBitFor (bv : Bitvector) (p : Nat) : Bool := (bv (p / 32)).getLsbD (p % 32)

/-- `set_bit_for`. -/
def setBitFor (bv : Bitvector) (p : Nat) : Bitvector :=
  Function.update bv (p / 32) (bv (p / 32) ||| BitVec.twoPow 32 (p % 32))

theorem testBitFor_setBitFor (bv : Bitvector) (p q : Nat) :
    (bv.setBitFor p).testBitFor q = (decide (q = p) || bv.testBitFor q) := by
  unfold testBitFor setBitFor
  by_cases hword : q / 32 = p / 32
  · have heq : q = p ↔ p % 32 = q % 32 := by omega
    have hlt : p % 32 < 32 := Nat.mod_lt _ (by decide)
    rw [hword, Function.update_self, BitVec.getLsbD_or, BitVec.getLsbD_twoPow, Bool.or_comm]
    simp [heq, hlt]
  · have hne : q ≠ p := fun heq => hword (by rw [heq])
    rw [Function.update_of_ne hword]
    simp [hne]

end Bitvector

/-! ## Finding the next set bit -/

/-- `if ((bitword & mask) == 0) { bitword >>= n; p += n; }` with the mask of the low `n` bits. -/
def skipBits (n : Nat) (x : BitVec 32 × Nat) : BitVec 32 × Nat :=
  if x.1 &&& (BitVec.twoPow 32 n - 1) = 0 then (x.1 >>> n, x.2 + n) else x

/-- The five tests at the start of the loop's body. -/
def nextBit (x : BitVec 32 × Nat) : BitVec 32 × Nat :=
  skipBits 1 (skipBits 2 (skipBits 4 (skipBits 8 (skipBits 16 x))))

/-- `y` is `x` after skipping zeros, with a set bit among the low `n`. -/
structure Skips (n : Nat) (x y : BitVec 32 × Nat) : Prop where
  shift : ∃ k, y = (x.1 >>> k, x.2 + k) ∧ ∀ j < k, x.1.getLsbD j = false
  low : ∃ i < n, y.1.getLsbD i = true

/-- One test halves the range of the first set bit. -/
theorem Skips.half {n : Nat} {x y : BitVec 32 × Nat} (hn : n < 32) (h : Skips (2 * n) x y) :
    Skips n x (skipBits n y) := by
  obtain ⟨⟨k, rfl, hk⟩, i, hi, hbit⟩ := h
  unfold skipBits
  split
  case isTrue hzero =>
    rw [and_mask_eq_zero hn] at hzero
    refine ⟨⟨k + n, ?_, ?_⟩, i - n, ?_, ?_⟩
    · simp only [BitVec.shiftRight_add, Nat.add_assoc]
    · intro j hj
      by_cases hjk : j < k
      · exact hk j hjk
      · have := hzero (j - k) (by omega)
        rwa [BitVec.getLsbD_ushiftRight, Nat.add_sub_of_le (by omega)] at this
    · have : ¬ i < n := fun hlt => by
        have := hzero i hlt
        rw [hbit] at this
        cases this
      omega
    · have : ¬ i < n := fun hlt => by
        have := hzero i hlt
        rw [hbit] at this
        cases this
      rw [BitVec.getLsbD_ushiftRight, Nat.add_sub_of_le (by omega)]
      exact hbit
  case isFalse hzero =>
    rw [and_mask_eq_zero hn] at hzero
    simp only [not_forall, Bool.not_eq_false] at hzero
    obtain ⟨j, hj, hbit⟩ := hzero
    exact ⟨⟨k, rfl, hk⟩, j, hj, hbit⟩

/-- **The tests find the first set bit.** -/
theorem nextBit_eq {w : BitVec 32} {p : Nat} (hw : w ≠ 0) :
    ∃ k, nextBit (w, p) = (w >>> k, p + k) ∧ w.getLsbD k = true ∧
      ∀ j < k, w.getLsbD j = false := by
  have hany : ∃ i < 32, w.getLsbD i = true := by
    by_contra hnone
    apply hw
    apply BitVec.eq_of_getLsbD_eq
    intro i hi
    have : w.getLsbD i ≠ true := fun hbit => hnone ⟨i, hi, hbit⟩
    simpa using this
  have hstart : Skips (2 * 16) (w, p) (w, p) := ⟨⟨0, by simp, by simp⟩, hany⟩
  have hend := ((((hstart.half (by decide)).half (n := 8) (by decide)).half (n := 4)
    (by decide)).half (n := 2) (by decide)).half (n := 1) (by decide)
  obtain ⟨⟨k, hk, hzero⟩, i, hi, hbit⟩ := hend
  refine ⟨k, hk, ?_, hzero⟩
  obtain rfl : i = 0 := by omega
  rw [hk] at hbit
  simpa [BitVec.getLsbD_ushiftRight] using hbit

/-! ## The loop over a range of the bit vector -/

section Loop

variable {σ : Type*} (bits : σ → Bitvector) (body : Nat → σ → Except Fault σ)

/-- The inner loop of `WRITE_BARRIER_OOPS_LOOP_BEGIN`: the body for every set bit of a word. -/
def bitsLoop : Nat → BitVec 32 → Nat → σ → Except Fault σ
  | 0, _, _, _ => .error .outOfFuel
  | fuel + 1, bitword, p, s =>
    if bitword = 0 then .ok s
    else
      let x := nextBit (bitword, p)
      match body x.2 s with
      | .error e => .error e
      | .ok s => bitsLoop fuel (x.1 >>> 1) (x.2 + 1) s

/-- The outer loop of `WRITE_BARRIER_OOPS_LOOP_BEGIN`, at the word `ptr` with what is left of it in
`bitword`.  A word is read when the loop comes to it; the last one only up to `stop`. -/
def wordsLoop (stop : Nat) : Nat → Nat → BitVec 32 → σ → Except Fault σ
  | 0, _, _, _ => .error .outOfFuel
  | fuel + 1, ptr, bitword, s =>
    let last := stop / 32
    if ptr ≤ last ∧ bitword = 0 then wordsLoop stop fuel (ptr + 1) (bits s (ptr + 1)) s
    else
      let p := 32 * ptr
      if ptr < last then
        match bitsLoop body 33 bitword p s with
        | .error e => .error e
        | .ok s => wordsLoop stop fuel ptr 0 s
      else if ptr = last then
        match bitsLoop body 33 (bitword &&& (BitVec.twoPow 32 (stop - p) - 1)) p s with
        | .error e => .error e
        | .ok s => wordsLoop stop fuel ptr 0 s
      else .ok s

/-- `WRITE_BARRIER_OOPS_LOOP_BEGIN(start, end, p)` … `WRITE_BARRIER_OOPS_LOOP_END`. -/
def writeBarrierOopsLoop (start stop : Nat) (s : σ) : Except Fault σ :=
  let ptr := start / 32
  let bitword := bits s ptr &&& ~~~(BitVec.twoPow 32 (start - 32 * ptr) - 1)
  wordsLoop bits body stop (2 * (stop / 32 + 1 - ptr) + 2) ptr bitword s

/-! ## What the loop does -/

variable {bits body}

/-- What the body owes: it relates its states by `R`, keeps `Ok`, and sees to its position. -/
structure BodySpec (bits : σ → Bitvector) (body : Nat → σ → Except Fault σ) (start stop : Nat)
    (R : σ → σ → Prop) (Ok : σ → Prop) (Done : Nat → σ → Prop) : Prop where
  refl : ∀ s, R s s
  trans : ∀ s s' s'', R s s' → R s' s'' → R s s''
  keeps : ∀ s s' p, R s s' → (bits s).testBitFor p = true → (bits s').testBitFor p = true
  done : ∀ s s' p, R s s' → Done p s → Done p s'
  step : ∀ p s, Ok s → start ≤ p → p < stop → (bits s).testBitFor p = true →
    ∃ s', body p s = .ok s' ∧ R s s' ∧ Ok s' ∧ Done p s'

variable {start stop : Nat} {R : σ → σ → Prop} {Ok : σ → Prop} {Done : Nat → σ → Prop}

/-- The bits of a word that the loop has read come one after the other; those below `j` are done. -/
theorem bitsLoop_spec (h : BodySpec bits body start stop R Ok Done) {w : BitVec 32} {b : Nat}
    (hrange : ∀ i, w.getLsbD i = true → start ≤ b + i ∧ b + i < stop) :
    ∀ (fuel j : Nat) (s : σ), Ok s → 32 < fuel + j → j ≤ 32 →
      (∀ i, w.getLsbD i = true → (bits s).testBitFor (b + i) = true) →
      ∃ s', bitsLoop body fuel (w >>> j) (b + j) s = .ok s' ∧ R s s' ∧ Ok s' ∧
        ∀ i, j ≤ i → w.getLsbD i = true → Done (b + i) s'
  | 0, j, _, _, hfuel, hj, _ => by omega
  | fuel + 1, j, s, hok, hfuel, hj, hset => by
    unfold bitsLoop
    split
    case isTrue hzero =>
      refine ⟨s, rfl, h.refl s, hok, fun i hi hbit => ?_⟩
      have : (w >>> j).getLsbD (i - j) = false := by
        rw [hzero]
        exact BitVec.getLsbD_zero
      rw [BitVec.getLsbD_ushiftRight, Nat.add_sub_of_le hi, hbit] at this
      cases this
    case isFalse hne =>
      obtain ⟨k, hk, hbit, hbelow⟩ := nextBit_eq (p := b + j) hne
      rw [BitVec.getLsbD_ushiftRight] at hbit
      have hlt : j + k < 32 := BitVec.lt_of_getLsbD hbit
      obtain ⟨hstart, hstop⟩ := hrange (j + k) hbit
      obtain ⟨s₁, hbody, hR, hok₁, hdone⟩ := h.step (b + j + k) s hok (by omega) (by omega)
        (by rw [Nat.add_assoc]; exact hset _ hbit)
      obtain ⟨s₂, hloop, hR', hok₂, hrest⟩ := bitsLoop_spec h hrange fuel (j + k + 1) s₁ hok₁
        (by omega) (by omega) fun i hi => h.keeps s s₁ _ hR (hset i hi)
      refine ⟨s₂, ?_, h.trans s s₁ s₂ hR hR', hok₂, fun i hi hbit' => ?_⟩
      · rw [hk]
        simp only [hbody]
        rw [← BitVec.shiftRight_add, ← BitVec.shiftRight_add]
        simpa only [Nat.add_assoc] using hloop
      · rcases Nat.lt_trichotomy i (j + k) with hlt' | rfl | hgt
        · have := hbelow (i - j) (by omega)
          rw [BitVec.getLsbD_ushiftRight, Nat.add_sub_of_le hi, hbit'] at this
          cases this
        · rw [← Nat.add_assoc]
          exact h.done s₁ s₂ _ hR' hdone
        · exact hrest i hgt hbit'

/-- A word that is read whole, or up to `stop`. -/
theorem getLsbD_keep {w : BitVec 32} {n i : Nat} (hn : n < 32) :
    (w &&& (BitVec.twoPow 32 n - 1)).getLsbD i = (w.getLsbD i && decide (i < n)) := by
  rw [BitVec.getLsbD_and, getLsbD_mask hn]

theorem testBitFor_word (bv : Bitvector) {ptr i : Nat} (hi : i < 32) :
    bv.testBitFor (32 * ptr + i) = (bv ptr).getLsbD i := by
  have hdiv : (32 * ptr + i) / 32 = ptr := by omega
  have hmod : (32 * ptr + i) % 32 = i := by omega
  rw [Bitvector.testBitFor, hdiv, hmod]

/-- The loop from the word `ptr` on: what is left of the word, and the words behind it. -/
theorem wordsLoop_spec (h : BodySpec bits body start stop R Ok Done) :
    ∀ (fuel ptr : Nat) (bitword : BitVec 32) (s : σ), Ok s →
      2 * (stop / 32 + 1 - ptr) + (if bitword = 0 then 0 else 1) < fuel →
      start ≤ 32 * (ptr + 1) →
      (∀ i, bitword.getLsbD i = true →
        start ≤ 32 * ptr + i ∧ (bits s).testBitFor (32 * ptr + i) = true) →
      ∃ s', wordsLoop bits body stop fuel ptr bitword s = .ok s' ∧ R s s' ∧ Ok s' ∧
        (∀ i, bitword.getLsbD i = true → 32 * ptr + i < stop → Done (32 * ptr + i) s') ∧
        ∀ p, 32 * (ptr + 1) ≤ p → p < stop → (bits s).testBitFor p = true → Done p s'
  | 0, _, _, _, _, hfuel, _, _ => by omega
  | fuel + 1, ptr, bitword, s, hok, hfuel, hstart, hset => by
    have hzero : ∀ i, (0 : BitVec 32).getLsbD i = true → False := fun i hi => by
      rw [show (0 : BitVec 32).getLsbD i = false from BitVec.getLsbD_zero] at hi
      cases hi
    rw [wordsLoop]
    dsimp only
    by_cases hskip : ptr ≤ stop / 32 ∧ bitword = 0
    · rw [if_pos hskip]
      obtain ⟨hle, rfl⟩ := hskip
      have hnext : ∀ i, (bits s (ptr + 1)).getLsbD i = true →
          start ≤ 32 * (ptr + 1) + i ∧ (bits s).testBitFor (32 * (ptr + 1) + i) = true := by
        intro i hi
        rw [testBitFor_word _ (BitVec.lt_of_getLsbD hi)]
        exact ⟨by omega, hi⟩
      have hfuel' : 2 * (stop / 32 + 1 - (ptr + 1)) +
          (if bits s (ptr + 1) = 0 then 0 else 1) < fuel := by
        rw [if_pos rfl] at hfuel
        split <;> omega
      obtain ⟨s', hloop, hR, hok', hword, hrest⟩ := wordsLoop_spec h fuel (ptr + 1)
        (bits s (ptr + 1)) s hok hfuel' (by omega) hnext
      refine ⟨s', hloop, hR, hok', fun i hi => (hzero i hi).elim, fun p hp hlt hbit => ?_⟩
      by_cases hin : p < 32 * (ptr + 2)
      · obtain ⟨i, rfl⟩ : ∃ i, p = 32 * (ptr + 1) + i := ⟨p - 32 * (ptr + 1), by omega⟩
        rw [testBitFor_word _ (by omega)] at hbit
        exact hword i hbit hlt
      · exact hrest p (by omega) hlt hbit
    · rw [if_neg hskip]
      -- the rest of the loop, once the word `ptr` is done
      have hrest : ∀ s₁, R s s₁ → Ok s₁ → ptr ≤ stop / 32 →
          (∀ i, bitword.getLsbD i = true → 32 * ptr + i < stop → Done (32 * ptr + i) s₁) →
          ∃ s', wordsLoop bits body stop fuel ptr 0 s₁ = .ok s' ∧ R s s' ∧ Ok s' ∧
            (∀ i, bitword.getLsbD i = true → 32 * ptr + i < stop → Done (32 * ptr + i) s') ∧
            ∀ p, 32 * (ptr + 1) ≤ p → p < stop → (bits s).testBitFor p = true → Done p s' := by
        intro s₁ hR hok₁ hle hdone
        have hne : bitword ≠ 0 := fun heq => hskip ⟨hle, heq⟩
        rw [if_neg hne] at hfuel
        obtain ⟨s', hloop, hR', hok', -, hlater⟩ := wordsLoop_spec h fuel ptr 0 s₁ hok₁
          (by rw [if_pos rfl]; omega) hstart fun i hi => (hzero i hi).elim
        exact ⟨s', hloop, h.trans _ _ _ hR hR', hok',
          fun i hi hlt => h.done _ _ _ hR' (hdone i hi hlt),
          fun p hp hlt hbit => hlater p hp hlt (h.keeps _ _ _ hR hbit)⟩
      split_ifs with hlt heq
      · obtain ⟨s₁, hbits, hR, hok₁, hdone⟩ := bitsLoop_spec h (w := bitword) (b := 32 * ptr)
          (fun i hi => ⟨(hset i hi).1, by have := BitVec.lt_of_getLsbD hi; omega⟩) 33 0 s hok
          (by omega) (by omega) fun i hi => (hset i hi).2
        rw [BitVec.ushiftRight_zero, Nat.add_zero] at hbits
        rw [hbits]
        exact hrest s₁ hR hok₁ (by omega) fun i hi _ => hdone i (Nat.zero_le i) hi
      · have hkeep : stop - 32 * ptr < 32 := by omega
        obtain ⟨s₁, hbits, hR, hok₁, hdone⟩ := bitsLoop_spec h
          (w := bitword &&& (BitVec.twoPow 32 (stop - 32 * ptr) - 1)) (b := 32 * ptr)
          (fun i hi => by
            rw [getLsbD_keep hkeep, Bool.and_eq_true, decide_eq_true_eq] at hi
            exact ⟨(hset i hi.1).1, by omega⟩) 33 0 s hok (by omega) (by omega)
          fun i hi => by
            rw [getLsbD_keep hkeep, Bool.and_eq_true] at hi
            exact (hset i hi.1).2
        rw [BitVec.ushiftRight_zero, Nat.add_zero] at hbits
        rw [hbits]
        refine hrest s₁ hR hok₁ (by omega) fun i hi hlt' => hdone i (Nat.zero_le i) ?_
        rw [getLsbD_keep hkeep, hi, Bool.true_and, decide_eq_true_eq]
        omega
      · exact ⟨s, rfl, h.refl s, hok, fun i _ hi => by omega, fun p hp hp' _ => by omega⟩

/-- **The loop** sees to every position of the range whose bit is set when the loop starts. -/
theorem writeBarrierOopsLoop_spec (h : BodySpec bits body start stop R Ok Done)
    {s : σ} (hok : Ok s) :
    ∃ s', writeBarrierOopsLoop bits body start stop s = .ok s' ∧ R s s' ∧ Ok s' ∧
      ∀ p, start ≤ p → p < stop → (bits s).testBitFor p = true → Done p s' := by
  have hmask : start - 32 * (start / 32) < 32 := by omega
  have hfirst : ∀ i, (bits s (start / 32) &&&
      ~~~(BitVec.twoPow 32 (start - 32 * (start / 32)) - 1)).getLsbD i = true ↔
      start ≤ 32 * (start / 32) + i ∧ (bits s (start / 32)).getLsbD i = true := by
    intro i
    rw [BitVec.getLsbD_and, BitVec.getLsbD_not, getLsbD_mask hmask]
    constructor
    · intro hi
      simp only [Bool.and_eq_true, Bool.not_eq_true', decide_eq_true_eq, decide_eq_false_iff_not]
        at hi
      exact ⟨by omega, hi.1⟩
    · rintro ⟨hle, hbit⟩
      have := BitVec.lt_of_getLsbD hbit
      simp only [Bool.and_eq_true, Bool.not_eq_true', decide_eq_true_eq, decide_eq_false_iff_not]
      exact ⟨hbit, by omega, by omega⟩
  obtain ⟨s', hloop, hR, hok', hword, hrest⟩ := wordsLoop_spec h
    (2 * (stop / 32 + 1 - start / 32) + 2) (start / 32) (bits s (start / 32) &&&
      ~~~(BitVec.twoPow 32 (start - 32 * (start / 32)) - 1)) s hok (by split <;> omega) (by omega)
    fun i hi => by
      obtain ⟨hle, hbit⟩ := (hfirst i).1 hi
      rw [testBitFor_word _ (BitVec.lt_of_getLsbD hbit)]
      exact ⟨hle, hbit⟩
  refine ⟨s', hloop, hR, hok', fun p hp hlt hbit => ?_⟩
  by_cases hin : p < 32 * (start / 32 + 1)
  · obtain ⟨i, rfl⟩ : ∃ i, p = 32 * (start / 32) + i := ⟨p - 32 * (start / 32), by omega⟩
    rw [testBitFor_word _ (by omega)] at hbit
    exact hword i ((hfirst i).2 ⟨hp, hbit⟩) hlt
  · exact hrest p (by omega) hlt hbit

end Loop

end FroggyKVM.Gc
