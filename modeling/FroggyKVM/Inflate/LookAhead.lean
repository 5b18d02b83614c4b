/-
# FroggyKVM.Inflate.LookAhead — the input that an iteration of `inflate_huffman` looks at.

An iteration checks once that there is a byte in front of the margin of `EXTRA_INPUT_BYTES`; it then
asks for bits three times.  **The margin is enough for a literal and for every pair of a length and a
distance, but for a pair at the last byte in front of the margin whose codes and length bits are 28
bits or more longer than what is at hand** (`iterationInside_iff`).
-/
import FroggyKVM.Inflate.Window

namespace FroggyKVM.Inflate

open Deflate Canonical

/-! ## What lies ahead -/

namespace In

/-- The bits at hand, and behind them those of the array. -/
def ahead (i : In) (data : Nat → UInt8) (p : Nat) : Bool :=
  if p < i.inDataSize then i.inData.testBit p
  else byteBits data (8 * i.inOffset + (p - i.inDataSize))

theorem holds_ahead {i : In} (h : i.Small) (data : Nat → UInt8) : i.Holds (i.ahead data) 0 := by
  have hbits : bitsAt (i.ahead data) 0 i.inDataSize = bitsAt i.inData.testBit 0 i.inDataSize := by
    apply bitsAt_congr
    intro k hk
    exact if_pos (by omega)
  unfold Holds
  rw [hbits, bitsAt_testBit, Nat.mod_eq_of_lt h]

/-- `i` comes from `i₀`: `p` bits have been dumped and `m` bytes taken. -/
structure From (i₀ : In) (data : Nat → UInt8) (i : In) (p m : Nat) : Prop where
  holds : i.Holds (i₀.ahead data) p
  inOffset : i.inOffset = i₀.inOffset + m
  size : p + i.inDataSize = i₀.inDataSize + 8 * m

variable {i₀ i : In} {b : Buffer UInt8} {p m : Nat}

theorem From.refl (h : i₀.Small) (data : Nat → UInt8) : From i₀ data i₀ 0 0 :=
  ⟨holds_ahead h data, rfl, Nat.add_comm 0 _⟩

theorem From.dumpBits {data : Nat → UInt8} (h : From i₀ data i p m) {j : Nat}
    (hj : j ≤ i.inDataSize) : From i₀ data (i.dumpBits j) (p + j) m := by
  refine ⟨h.holds.dumpBits hj, h.inOffset, ?_⟩
  show p + j + (i.inDataSize - j) = i₀.inDataSize + 8 * m
  have hsize := h.size
  omega

theorem From.take {data : Nat → UInt8} (h : From i₀ data i p m) (n : Nat) :
    From i₀ data (i.take data n) p (m + n) := by
  obtain ⟨hholds, hoffset, hsize⟩ := h
  refine ⟨hholds.take ?_, ?_, ?_⟩
  · apply bitsAt_congr
    intro k _
    unfold ahead
    rw [if_neg (by lia)]
    congr 1
    omega
  · show i.inOffset + n = i₀.inOffset + (m + n)
    lia
  · show p + (i.inDataSize + 8 * n) = i₀.inDataSize + 8 * (m + n)
    omega

/-- The bytes taken when `j` bits are asked for. -/
def bytesAfter (i₀ : In) (p m j : Nat) : Nat := max m ((p + j - i₀.inDataSize + 7) / 8)

theorem bytesAfter_le {i₀ : In} {p m j n : Nat} (hm : i₀.inOffset + m ≤ n)
    (h : i₀.inOffset + (p + j - i₀.inDataSize + 7) / 8 ≤ n) :
    i₀.inOffset + bytesAfter i₀ p m j ≤ n := by
  unfold bytesAfter
  rw [← Nat.add_max_add_left]
  exact max_le hm h

theorem le_bytesAfter (i₀ : In) (p m j : Nat) :
    (p + j - i₀.inDataSize + 7) / 8 ≤ bytesAfter i₀ p m j := le_max_right ..

/-- **Asking for bits**: the bytes taken up to then tell whether all are in the array. -/
theorem From.needBits (h : From i₀ b.data i p m) {j : Nat} (hj : j ≤ 24)
    (hin : i₀.inOffset + m ≤ b.length) :
    if i₀.inOffset + bytesAfter i₀ p m j ≤ b.length
      then ∃ i', i.needBits b j = .ok i' ∧ From i₀ b.data i' p (bytesAfter i₀ p m j) ∧
        j ≤ i'.inDataSize
      else i.needBits b j = .error .outOfRange := by
  have hoffset := h.inOffset
  have hsize := h.size
  have hbytes : bytesAfter i₀ p m j = m + bytesFor i.inDataSize j := by
    unfold bytesAfter bytesFor
    lia
  rw [hbytes, In.needBits_eq h.holds.small (.inl (by omega))]
  split
  case isTrue hroom =>
    refine ⟨_, if_neg (by omega), h.take _, ?_⟩
    show j ≤ i.inDataSize + 8 * bytesFor i.inDataSize j
    unfold bytesFor
    lia
  case isFalse hroom =>
    have hsome : i.inDataSize < j := by
      by_contra hall
      have hnone : bytesFor i.inDataSize j = 0 := by
        unfold bytesFor
        lia
      omega
    exact if_pos ⟨hsome, by omega⟩

theorem From.needBits_ok (h : From i₀ b.data i p m) {j : Nat} (hj : j ≤ 24)
    (hroom : i₀.inOffset + bytesAfter i₀ p m j ≤ b.length) :
    ∃ i', i.needBits b j = .ok i' ∧ From i₀ b.data i' p (bytesAfter i₀ p m j) ∧
      j ≤ i'.inDataSize := by
  have hmono : m ≤ bytesAfter i₀ p m j := Nat.le_max_left _ _
  have hneed := h.needBits hj (by omega)
  rw [if_pos hroom] at hneed
  exact hneed

end In

/-! ## An iteration -/

/-- The number of extra bits of a length symbol. -/
def lengthExtra (s : Nat) : Nat := (lengths.getD (s - 257) (0, 0)).2

theorem lengthExtra_le (s : Nat) : lengthExtra s ≤ 5 := by
  unfold lengthExtra
  by_cases hs : s - 257 < lengths.length
  · have hall : ∀ k, k < lengths.length → (lengths.getD k (0, 0)).2 ≤ 5 := by decide
    exact hall _ hs
  · rw [List.getD_eq_default _ _ (Nat.not_lt.1 hs)]
    exact Nat.zero_le 5

/-- The table of the code. -/
theorem llExtraBits_eq {s : Nat} (hlow : 257 ≤ s) (hhigh : s ≤ 285) :
    lookup llExtraBits (s - LITXLEN_BASE) = .ok (lengthExtra s) := by
  have hall : ∀ k, k < 29 → lookup llExtraBits k = .ok (lengths.getD k (0, 0)).2 := by decide
  exact hall _ (by unfold LITXLEN_BASE; omega)

namespace Inflater

/-- Every `NEEDBITS` of an iteration finds its bytes in the array `b`. -/
def IterationInside (f : Inflater) (fixed : Bool) (i : In) (b : Buffer UInt8) : Prop :=
  ∃ i₁, i.needBits b (MAX_BITS + MAX_ZIP_EXTRA_LENGTH_BITS) = .ok i₁ ∧
    ∀ litxlen i₂ moreBits, f.nextLitxlen fixed i₁ = .ok (some (litxlen, i₂)) →
      257 ≤ litxlen → litxlen ≤ 285 →
      lookup llExtraBits (litxlen - LITXLEN_BASE) = .ok moreBits →
      ∃ i₃, (i₂.dumpBits moreBits).needBits b MAX_BITS = .ok i₃ ∧
        ∀ d0 i₄, f.nextDistance fixed i₃ = .ok (some (d0, i₄)) → d0 ≤ MAX_ZIP_DISTANCE_CODE →
          ∃ i₅, i₄.needBits b MAX_ZIP_EXTRA_DISTANCE_BITS = .ok i₅

/-- The tables of a dynamic block decode its codes. -/
structure Coded (f : Inflater) : Prop where
  lengths : ∃ table, f.lengthBuffer = some table ∧ Fits 15 f.track.litLens ∧
    Decodes f.track.litLens table
  distances : ∃ table, f.distanceBuffer = some table ∧ Fits 15 f.track.distLens ∧
    Decodes f.track.distLens table

/-- At the last byte in front of the margin begins, with what is at hand, a pair whose codes and
length bits are 28 bits or more longer than that. -/
def LongPair (f : Inflater) (i : In) (b : Buffer UInt8) : Prop :=
  i.inOffset + 1 = i.inLength ∧ ∃ s t, 257 ≤ s ∧ s ≤ 285 ∧ t ≤ 29 ∧
    Symbol (i.ahead b.data) f.track.litLens 0 s ∧
    Symbol (i.ahead b.data) f.track.distLens (len f.track.litLens s + lengthExtra s) t ∧
    i.inDataSize + 28 ≤ len f.track.litLens s + lengthExtra s + len f.track.distLens t

variable {f : Inflater} {i₀ i : In} {b : Buffer UInt8} {p m : Nat}

/-- The next literal or length of a dynamic block. -/
theorem Coded.nextLitxlen (hc : f.Coded) (h : In.From i₀ b.data i p m) (hsize : 15 ≤ i.inDataSize) :
    (∀ s, Symbol (i₀.ahead b.data) f.track.litLens p s → f.nextLitxlen false i =
      .ok (some (s, i.dumpBits (len f.track.litLens s)))) ∧
      ((∀ s, ¬ Symbol (i₀.ahead b.data) f.track.litLens p s) → f.nextLitxlen false i = .ok none) := by
  obtain ⟨table, htable, hfits, hd⟩ := hc.lengths
  have hnext : f.nextLitxlen false i = i.getEntry table := by
    unfold Inflater.nextLitxlen
    rw [htable]
    rfl
  rw [hnext]
  exact h.holds.getEntry hfits hd hsize

/-- The next distance of a dynamic block. -/
theorem Coded.nextDistance (hc : f.Coded) (h : In.From i₀ b.data i p m)
    (hsize : 15 ≤ i.inDataSize) :
    (∀ t, Symbol (i₀.ahead b.data) f.track.distLens p t → f.nextDistance false i =
      .ok (some (t, i.dumpBits (len f.track.distLens t)))) ∧
      ((∀ t, ¬ Symbol (i₀.ahead b.data) f.track.distLens p t) →
        f.nextDistance false i = .ok none) := by
  obtain ⟨table, htable, hfits, hd⟩ := hc.distances
  have hnext : f.nextDistance false i = i.getEntry table := by
    unfold Inflater.nextDistance
    rw [htable]
    rfl
  rw [hnext]
  exact h.holds.getEntry hfits hd hsize

/-- An iteration in which a pair's codes and length bits are `most` bits at the most. -/
theorem iterationInside_of_bits {fixed : Bool} (hsmall : i₀.Small) (most : Nat)
    (hlit : ∀ i s i', In.From i₀ b.data i 0 (i₀.bytesAfter 0 0 20) → 20 ≤ i.inDataSize →
      f.nextLitxlen fixed i = .ok (some (s, i')) → ∃ l, l ≤ 15 ∧ i' = i.dumpBits l ∧
        ∀ i₁ t i₂ m, In.From i₀ b.data i₁ (l + lengthExtra s) m → 15 ≤ i₁.inDataSize →
          257 ≤ s → s ≤ 285 → t ≤ 29 → f.nextDistance fixed i₁ = .ok (some (t, i₂)) →
          ∃ l', l' ≤ 15 ∧ i₂ = i₁.dumpBits l' ∧ l + lengthExtra s + l' ≤ most)
    (hroom : i₀.inOffset + (most + 13 - i₀.inDataSize + 7) / 8 ≤ b.length)
    (hfive : i₀.inOffset + 5 ≤ b.length) : f.IterationInside fixed i₀ b := by
  have hstart := In.From.refl hsmall b.data
  have hroom₁ : i₀.inOffset + i₀.bytesAfter 0 0 20 ≤ b.length :=
    In.bytesAfter_le (by lia) (by lia)
  obtain ⟨i₁, hneed₁, hfrom₁, hsize₁⟩ := @In.From.needBits_ok i₀ i₀ b 0 0 hstart 20 (by decide) hroom₁
  refine ⟨i₁, hneed₁, fun s i₂ moreBits hnext hlow hhigh hmore => ?_⟩
  obtain rfl : lengthExtra s = moreBits := Except.ok.inj ((llExtraBits_eq hlow hhigh).symm.trans hmore)
  have hextra := lengthExtra_le s
  obtain ⟨l, hl, rfl, hdist⟩ := hlit i₁ s i₂ hfrom₁ hsize₁ hnext
  have hfrom₂ := hfrom₁.dumpBits (show l ≤ i₁.inDataSize by omega)
  have hleft : (i₁.dumpBits l).inDataSize = i₁.inDataSize - l := rfl
  have hfrom₃ := hfrom₂.dumpBits (show lengthExtra s ≤ (i₁.dumpBits l).inDataSize by lia)
  rw [Nat.zero_add] at hfrom₃
  have hroom₂ := In.bytesAfter_le hroom₁
    (show i₀.inOffset + (l + lengthExtra s + 15 - i₀.inDataSize + 7) / 8 ≤ b.length by omega)
  obtain ⟨i₃, hneed₃, hfrom₄, hsize₃⟩ := @In.From.needBits_ok i₀ _ b _ _ hfrom₃ 15 (by decide) hroom₂
  refine ⟨i₃, hneed₃, fun t i₄ hnext' ht => ?_⟩
  obtain ⟨l', hl', rfl, hbits⟩ := hdist i₃ t i₄ _ hfrom₄ hsize₃ hlow hhigh ht hnext'
  have hfrom₅ := hfrom₄.dumpBits (show l' ≤ i₃.inDataSize by omega)
  have hroom₃ := In.bytesAfter_le hroom₂
    (show i₀.inOffset + (l + lengthExtra s + l' + 13 - i₀.inDataSize + 7) / 8 ≤ b.length by lia)
  obtain ⟨i₅, hneed₅, -⟩ := @In.From.needBits_ok i₀ _ b _ _ hfrom₅ 13 (by decide) hroom₃
  exact ⟨i₅, hneed₅⟩

theorem fixedLitxlen_bits (code : Nat) : (fixedLitxlen code).2 ≤ 9 := by
  unfold fixedLitxlen
  split
  · show 7 ≤ 9
    decide
  · split
    · show 8 ≤ 9
      decide
    · split
      · show 8 ≤ 9
        decide
      · show 9 ≤ 9
        decide

/-- **Fixed codes are short enough.** -/
theorem iterationInside_fixed (hsmall : i₀.Small) (hfive : i₀.inOffset + 5 ≤ b.length) :
    f.IterationInside true i₀ b := by
  apply iterationInside_of_bits hsmall 19
  · intro i s i' hfrom hsize hnext
    unfold nextLitxlen at hnext
    rw [if_pos rfl] at hnext
    obtain ⟨code, -, hnext⟩ := ok_of_bind hnext
    obtain ⟨rfl, rfl⟩ := Prod.mk.inj (Option.some.inj (Except.ok.inj hnext))
    have hbits := fixedLitxlen_bits code
    refine ⟨_, by omega, rfl, fun i₁ t i₂ m _ _ _ _ _ hnext' => ?_⟩
    unfold nextDistance at hnext'
    rw [if_pos rfl] at hnext'
    obtain ⟨d0, -, hnext'⟩ := ok_of_bind hnext'
    obtain ⟨rfl, rfl⟩ := Prod.mk.inj (Option.some.inj (Except.ok.inj hnext'))
    have hextra := lengthExtra_le (fixedLitxlen code).1
    exact ⟨5, by decide, rfl, by omega⟩
  · omega
  · exact hfive

/-- A result of a table is a symbol with its length. -/
theorem Coded.litxlen_symbol (hc : f.Coded) (h : In.From i₀ b.data i p m) (hsize : 15 ≤ i.inDataSize)
    {s : Nat} {i' : In} (hnext : f.nextLitxlen false i = .ok (some (s, i'))) :
    Symbol (i₀.ahead b.data) f.track.litLens p s ∧ i' = i.dumpBits (len f.track.litLens s) := by
  obtain ⟨hsome, hnone⟩ := hc.nextLitxlen h hsize
  by_cases hs : ∃ s', Symbol (i₀.ahead b.data) f.track.litLens p s'
  · obtain ⟨s', hs'⟩ := hs
    obtain ⟨rfl, rfl⟩ := Prod.mk.inj (Option.some.inj (Except.ok.inj ((hsome s' hs').symm.trans hnext)))
    exact ⟨hs', rfl⟩
  · exact nomatch (hnone fun s' hs' => hs ⟨s', hs'⟩).symm.trans hnext

theorem Coded.distance_symbol (hc : f.Coded) (h : In.From i₀ b.data i p m)
    (hsize : 15 ≤ i.inDataSize) {t : Nat} {i' : In}
    (hnext : f.nextDistance false i = .ok (some (t, i'))) :
    Symbol (i₀.ahead b.data) f.track.distLens p t ∧ i' = i.dumpBits (len f.track.distLens t) := by
  obtain ⟨hsome, hnone⟩ := hc.nextDistance h hsize
  by_cases ht : ∃ t', Symbol (i₀.ahead b.data) f.track.distLens p t'
  · obtain ⟨t', ht'⟩ := ht
    obtain ⟨rfl, rfl⟩ := Prod.mk.inj (Option.some.inj (Except.ok.inj ((hsome t' ht').symm.trans hnext)))
    exact ⟨ht', rfl⟩
  · exact nomatch (hnone fun t' ht' => ht ⟨t', ht'⟩).symm.trans hnext

/-- **Dynamic codes**: all that an iteration asks for is in the array, unless a long pair begins. -/
theorem iterationInside_iff (hc : f.Coded) (hsmall : i₀.Small)
    (hbefore : i₀.inOffset < i₀.inLength) (hlength : i₀.inLength + 4 = b.length) :
    f.IterationInside false i₀ b ↔ ¬ f.LongPair i₀ b := by
  obtain ⟨-, -, hfits, -⟩ := hc.lengths
  obtain ⟨-, -, hfits', -⟩ := hc.distances
  constructor
  · rintro ⟨i₁, hneed₁, hinside⟩ ⟨hlast, s, t, hlow, hhigh, ht, hs, hdist, hlong⟩
    have hextra := lengthExtra_le s
    have hlen := hfits.len_le s
    have hlen' := hfits'.len_le t
    have hroom₁ : i₀.inOffset + i₀.bytesAfter 0 0 20 ≤ b.length :=
      In.bytesAfter_le (by omega) (by omega)
    obtain ⟨i, hneed, hfrom₁, hsize₁⟩ := @In.From.needBits_ok i₀ i₀ b 0 0
      (In.From.refl hsmall b.data) 20 (by decide) hroom₁
    obtain rfl : i = i₁ := Except.ok.inj (hneed.symm.trans hneed₁)
    obtain ⟨i₃, hneed₃, hinside'⟩ := hinside s _ _
      ((hc.nextLitxlen hfrom₁ (by omega)).1 s hs) hlow hhigh (llExtraBits_eq hlow hhigh)
    have hfrom₂ := hfrom₁.dumpBits (show len f.track.litLens s ≤ i.inDataSize by omega)
    have hleft : (i.dumpBits (len f.track.litLens s)).inDataSize =
        i.inDataSize - len f.track.litLens s := rfl
    have hfrom₃ := hfrom₂.dumpBits (show lengthExtra s ≤ _ by omega)
    rw [Nat.zero_add] at hfrom₃
    have hroom₂ := In.bytesAfter_le hroom₁ (show i₀.inOffset +
      (len f.track.litLens s + lengthExtra s + 15 - i₀.inDataSize + 7) / 8 ≤ b.length by omega)
    obtain ⟨i', hneed', hfrom₄, hsize₃⟩ :=
      @In.From.needBits_ok i₀ _ b _ _ hfrom₃ 15 (by decide) hroom₂
    obtain rfl : i' = i₃ := Except.ok.inj (hneed'.symm.trans hneed₃)
    obtain ⟨i₅, hneed₅⟩ := hinside' t _ ((hc.nextDistance hfrom₄ hsize₃).1 t hdist) ht
    have hfrom₅ := hfrom₄.dumpBits (show len f.track.distLens t ≤ i'.inDataSize by omega)
    have hneed := @In.From.needBits i₀ _ b _ _ hfrom₅ 13 (by decide) hroom₂
    -- the sixth byte is outside
    have hbytes := In.le_bytesAfter i₀ (len f.track.litLens s + lengthExtra s + len f.track.distLens t)
      (i₀.bytesAfter (len f.track.litLens s + lengthExtra s) (i₀.bytesAfter 0 0 20) 15) 13
    rw [if_neg (by omega)] at hneed
    exact nomatch hneed.symm.trans hneed₅
  · intro hshort
    obtain ⟨most, hmost⟩ : ∃ most, most = if i₀.inOffset + 1 = i₀.inLength
        then min 35 (i₀.inDataSize + 27) else 35 := ⟨_, rfl⟩
    apply iterationInside_of_bits hsmall most
    · intro i s i' hfrom hsize hnext
      obtain ⟨hs, rfl⟩ := hc.litxlen_symbol hfrom (by omega) hnext
      have hextra := lengthExtra_le s
      have hlen := hfits.len_le s
      refine ⟨_, hlen, rfl, fun i₁ t i₂ m hfrom' hsize' hlow hhigh ht hnext' => ?_⟩
      obtain ⟨hdist, rfl⟩ := hc.distance_symbol hfrom' hsize' hnext'
      have hlen' := hfits'.len_le t
      refine ⟨_, hlen', rfl, ?_⟩
      rw [hmost]
      split
      · case isTrue hlast =>
        have hbits : ¬ i₀.inDataSize + 28 ≤
            len f.track.litLens s + lengthExtra s + len f.track.distLens t := fun hlong =>
          hshort ⟨hlast, s, t, hlow, hhigh, ht, hs, hdist, hlong⟩
        omega
      · omega
    · rw [hmost]
      split
      · omega
      · omega
    · omega

end Inflater

end FroggyKVM.Inflate
