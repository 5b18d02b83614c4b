/-
# FroggyKVM.Lib.DeflateBytes — the bytes that compressed data stands for.

The functions walk through a stream as those of `Lib.Deflate` do, with the bytes instead of their
number.  Decoders differ in what they ask of the codes of a block, and of a distance that reaches
back behind the first byte; that is a parameter here.  A decoder that asks for less finds the same
bytes in every stream that a stricter one accepts.
-/
import FroggyKVM.Lib.Deflate

namespace FroggyKVM.Deflate

open Canonical

/-- What is asked of the code of the lengths, of the two codes of a block, and of a distance at a
number of bytes. -/
structure Rules where
  lengthCode : List Nat → Bool
  code : List Nat → Bool
  distance : Nat → Nat → Bool

/-- What the format asks for; the code of the lengths has no bit string left over. -/
def strict : Rules where
  lengthCode lens := decide (kraft 15 lens = 2 ^ 15)
  code lens := decide (IsCode lens)
  distance distance size := decide (distance ≤ size)

variable (rules : Rules) (bit : Nat → Bool)

/-! ## Compressed data -/

/-- The byte at a distance from the end, 0 in front of the first one. -/
def back (xs : List UInt8) (distance : Nat) : UInt8 :=
  if xs.length < distance then 0 else xs.getD (xs.length - distance) 0

/-- `n` bytes more, each of them the one at the distance. -/
def copyBack (distance : Nat) : Nat → List UInt8 → List UInt8
  | 0, xs => xs
  | n + 1, xs => copyBack distance n (xs ++ [back xs distance])

/-- The data of a block at `p`, behind the bytes there are. -/
def compressedBytes (litLens distLens : List Nat) :
    Nat → Nat → List UInt8 → Option (Nat × List UInt8)
  | 0, _, _ => none
  | fuel + 1, p, xs => do
    let (s, p) ← nextSymbol bit litLens p
    if s < 256 then compressedBytes litLens distLens fuel p (xs ++ [UInt8.ofNat s])
    else if s = 256 then return (p, xs)
    else
      let (length, extra) ← lengths[s - 257]?
      let length := length + bitsAt bit p extra
      let (t, p) ← nextSymbol bit distLens (p + extra)
      let (distance, extra) ← distances[t]?
      let distance := distance + bitsAt bit p extra
      if rules.distance distance xs.length then
        compressedBytes litLens distLens fuel (p + extra) (copyBack distance length xs)
      else none

/-! ## Blocks and streams -/

/-- A block whose codes are given. -/
def dynamicBytes (fuel p : Nat) (xs : List UInt8) : Option (Nat × List UInt8) := do
  let hlit := 257 + bitsAt bit p 5
  let hdist := 1 + bitsAt bit (p + 5) 5
  let hclen := 4 + bitsAt bit (p + 10) 4
  let ccode := codeLengthLens bit (p + 14) hclen
  let total := hlit + hdist
  if hlit ≤ 286 ∧ hdist ≤ 30 ∧ rules.lengthCode ccode = true then
    let (p, lens) ← codeLengths bit ccode total (total + 1) (p + 14 + 3 * hclen) []
    if rules.code (lens.take hlit) = true ∧ rules.code (lens.drop hlit) = true then
      compressedBytes rules bit (lens.take hlit) (lens.drop hlit) fuel p xs
    else none
  else none

/-- The `n` bytes at `p`. -/
def bytesFrom (p n : Nat) : List UInt8 :=
  (List.range n).map fun i => UInt8.ofNat (bitsAt bit (p + 8 * i) 8)

def storedBytes (p : Nat) (xs : List UInt8) : Option (Nat × List UInt8) :=
  let p := 8 * ((p + 7) / 8)
  let length := bitsAt bit p 16
  if length + bitsAt bit (p + 16) 16 = 65535 then
    some (p + 32 + 8 * length, xs ++ bytesFrom bit (p + 32) length)
  else none

def blockBytes (fuel p : Nat) (xs : List UInt8) : Option (Nat × List UInt8) :=
  match bitsAt bit (p + 1) 2 with
  | 0 => storedBytes bit (p + 3) xs
  | 1 => compressedBytes rules bit fixedLitLens fixedDistLens fuel (p + 3) xs
  | 2 => dynamicBytes rules bit fuel (p + 3) xs
  | _ => none

/-- The blocks up to the last one. -/
def blocksBytes (fuel : Nat) : Nat → Nat → List UInt8 → Option (Nat × List UInt8)
  | 0, _, _ => none
  | k + 1, p, xs => do
    let (p', xs') ← blockBytes rules bit fuel p xs
    if bit p then return (p', xs') else blocksBytes fuel k p' xs'

/-- The bits of a list of bytes. -/
def listBits (c : List UInt8) : Nat → Bool := byteBits fun i => c.getD i 0

/-- A stream at the front of `c` stands for the bytes `u` and ends at the bit `p`. -/
def Stream (c : List UInt8) (p : Nat) (u : List UInt8) : Prop :=
  blocksBytes rules (listBits c) (8 * c.length + 1) (8 * c.length + 1) 0 [] = some (p, u) ∧
    p ≤ 8 * c.length

/-- `c` is a stream for the bytes `u`. -/
def Inflates (c u : List UInt8) : Prop := ∃ p, Stream rules c p u ∧ (p + 7) / 8 = c.length

/-! ## Longer and longer -/

variable {rules bit} {litLens distLens : List Nat} {fuel p q : Nat} {xs ys : List UInt8}

theorem nextSymbol_spec {lens : List Nat} {s : Nat} (h : nextSymbol bit lens p = some (s, q)) :
    Symbol bit lens p s ∧ q = p + len lens s := by
  obtain ⟨t, ht, heq⟩ := Option.map_eq_some_iff.1 h
  obtain ⟨rfl, rfl⟩ := Prod.mk.inj heq
  exact ⟨by simpa using List.find?_some ht, rfl⟩

theorem nextSymbol_lt {lens : List Nat} {s : Nat} (h : nextSymbol bit lens p = some (s, q)) :
    p < q := by
  obtain ⟨hs, rfl⟩ := nextSymbol_spec h
  exact Nat.lt_add_of_pos_right (Nat.pos_of_ne_zero hs.1)

theorem length_copyBack (distance n : Nat) (xs : List UInt8) :
    (copyBack distance n xs).length = xs.length + n := by
  induction n generalizing xs with
  | zero => rfl
  | succ n ih =>
    rw [copyBack, ih, List.length_append, List.length_singleton]
    omega

theorem prefix_copyBack (distance n : Nat) (xs : List UInt8) : xs <+: copyBack distance n xs := by
  induction n generalizing xs with
  | zero => exact List.prefix_refl xs
  | succ n ih => exact (List.prefix_append xs _).trans (ih _)

section

variable {s : Nat}

theorem compressedBytes_literal (h : nextSymbol bit litLens p = some (s, q)) (hs : s < 256) :
    compressedBytes rules bit litLens distLens (fuel + 1) p xs =
      compressedBytes rules bit litLens distLens fuel q (xs ++ [UInt8.ofNat s]) := by
  rw [compressedBytes, h]
  exact if_pos hs

theorem compressedBytes_end (h : nextSymbol bit litLens p = some (256, q)) :
    compressedBytes rules bit litLens distLens (fuel + 1) p xs = some (q, xs) := by
  rw [compressedBytes, h]
  rfl

theorem compressedBytes_pair {length extra t q' distance extra' : Nat}
    (h : nextSymbol bit litLens p = some (s, q)) (hs : 256 < s)
    (hlength : lengths[s - 257]? = some (length, extra))
    (ht : nextSymbol bit distLens (q + extra) = some (t, q'))
    (hdistance : distances[t]? = some (distance, extra'))
    (hrule : rules.distance (distance + bitsAt bit q' extra') xs.length = true) :
    compressedBytes rules bit litLens distLens (fuel + 1) p xs =
      compressedBytes rules bit litLens distLens fuel (q' + extra')
        (copyBack (distance + bitsAt bit q' extra') (length + bitsAt bit q extra) xs) := by
  rw [compressedBytes, h]
  simp only [Option.bind_eq_bind, Option.bind_some, if_neg (show ¬ s < 256 by omega),
    if_neg (show s ≠ 256 by omega), hlength, ht, hdistance, if_pos hrule]

end

/-- The turns of a walk that is not at its end. -/
inductive Turn (rules : Rules) (bit : Nat → Bool) (litLens distLens : List Nat) (p : Nat)
    (xs : List UInt8) : Nat → List UInt8 → Prop
  | literal {s q : Nat} (h : nextSymbol bit litLens p = some (s, q)) (hs : s < 256) :
      Turn rules bit litLens distLens p xs q (xs ++ [UInt8.ofNat s])
  | pair {s q length extra t q' distance extra' : Nat}
      (h : nextSymbol bit litLens p = some (s, q)) (hs : 256 < s)
      (hlength : lengths[s - 257]? = some (length, extra))
      (ht : nextSymbol bit distLens (q + extra) = some (t, q'))
      (hdistance : distances[t]? = some (distance, extra'))
      (hrule : rules.distance (distance + bitsAt bit q' extra') xs.length = true) :
      Turn rules bit litLens distLens p xs (q' + extra')
        (copyBack (distance + bitsAt bit q' extra') (length + bitsAt bit q extra) xs)

theorem Turn.eq {rules : Rules} {q : Nat} {ys : List UInt8}
    (h : Turn rules bit litLens distLens p xs q ys) :
    compressedBytes rules bit litLens distLens (fuel + 1) p xs =
      compressedBytes rules bit litLens distLens fuel q ys := by
  cases h with
  | literal h hs => exact compressedBytes_literal h hs
  | pair h hs hlength ht hdistance hrule =>
    exact compressedBytes_pair h hs hlength ht hdistance hrule

/-- A turn consumes a bit at least. -/
theorem Turn.lt {rules : Rules} {q : Nat} {ys : List UInt8}
    (h : Turn rules bit litLens distLens p xs q ys) : p < q ∧ xs <+: ys := by
  cases h with
  | literal h hs => exact ⟨nextSymbol_lt h, List.prefix_append ..⟩
  | pair h hs hlength ht hdistance hrule =>
    have hlt := nextSymbol_lt h
    have hlt' := nextSymbol_lt ht
    exact ⟨by omega, prefix_copyBack ..⟩

/-- A decoder that asks for less takes the turn as well. -/
theorem Turn.mono {rules rules' : Rules} {q : Nat} {ys : List UInt8}
    (hle : ∀ d n, rules.distance d n = true → rules'.distance d n = true)
    (h : Turn rules bit litLens distLens p xs q ys) : Turn rules' bit litLens distLens p xs q ys := by
  cases h with
  | literal h hs => exact .literal h hs
  | pair h hs hlength ht hdistance hrule => exact .pair h hs hlength ht hdistance (hle _ _ hrule)

/-- **A walk that succeeds** is at the end of the block or takes a turn. -/
theorem compressedBytes_cases {r : Nat × List UInt8}
    (h : compressedBytes rules bit litLens distLens (fuel + 1) p xs = some r) :
    (nextSymbol bit litLens p = some (256, r.1) ∧ r.2 = xs) ∨
    ∃ q ys, Turn rules bit litLens distLens p xs q ys ∧
      compressedBytes rules bit litLens distLens fuel q ys = some r := by
  rw [compressedBytes] at h
  obtain ⟨⟨s, q⟩, hs, h⟩ := Option.bind_eq_some_iff.1 h
  dsimp only at h
  split at h
  next hlt => exact .inr ⟨q, _, .literal hs hlt, h⟩
  next hge =>
    split at h
    next heq =>
      subst heq
      obtain rfl := Option.some.inj h
      exact .inl ⟨hs, rfl⟩
    next hne =>
      obtain ⟨⟨length, extra⟩, hlength, h⟩ := Option.bind_eq_some_iff.1 h
      obtain ⟨⟨t, q'⟩, ht, h⟩ := Option.bind_eq_some_iff.1 h
      obtain ⟨⟨distance, extra'⟩, hdistance, h⟩ := Option.bind_eq_some_iff.1 h
      dsimp only at ht h
      split at h
      next hrule => exact .inr ⟨_, _, .pair hs (by omega) hlength ht hdistance hrule, h⟩
      next => cases h

/-- The walk goes on and on, and what it has found stays. -/
theorem compressedBytes_le (h : compressedBytes rules bit litLens distLens fuel p xs = some (q, ys)) :
    p < q ∧ xs <+: ys := by
  induction fuel generalizing p xs with
  | zero => cases h
  | succ fuel ih =>
    rcases compressedBytes_cases h with ⟨hend, rfl⟩ | ⟨q', ys', hturn, h⟩
    · exact ⟨nextSymbol_lt hend, List.prefix_refl _⟩
    · have hfirst := hturn.lt
      have hrest := ih h
      exact ⟨hfirst.1.trans hrest.1, hfirst.2.trans hrest.2⟩

/-! ## Code lengths -/

theorem codeLengthLens_le {n : Nat} : ∀ l ∈ codeLengthLens bit q n, l ≤ 15 := by
  intro l hl
  obtain ⟨s, -, rfl⟩ := List.mem_map.1 hl
  dsimp only
  split
  · have := bitsAt_lt bit (q + 3 * codeLengthOrder.idxOf s) 3
    omega
  · exact Nat.zero_le _

/-- What a symbol from 16 on repeats, how often, and its number of extra bits. -/
def repeatAt (bit : Nat → Bool) (s q : Nat) (zs : List Nat) : Option (Nat × Nat × Nat) :=
  if s = 16 then zs.getLast?.map fun x => (x, 3 + bitsAt bit q 2, 2)
  else if s = 17 then some (0, 3 + bitsAt bit q 3, 3)
  else some (0, 11 + bitsAt bit q 7, 7)

section

variable {ccode zs : List Nat} {total s : Nat}

theorem codeLengths_succ (hne : zs.length < total) :
    codeLengths bit ccode total (fuel + 1) p zs = (nextSymbol bit ccode p).bind fun sq =>
      if sq.1 < 16 then codeLengths bit ccode total fuel sq.2 (zs ++ [sq.1])
      else (repeatAt bit sq.1 sq.2 zs).bind fun r =>
        codeLengths bit ccode total fuel (sq.2 + r.2.2) (zs ++ List.replicate r.2.1 r.1) := by
  rw [codeLengths, if_neg hne.ne, if_neg hne.le.not_gt]
  congr 1
  funext sq
  dsimp only
  split
  · rfl
  · rw [repeatAt]
    split
    · rw [Option.bind_map]
      rfl
    · split <;> rfl

/-- A list that is too long is no list of code lengths. -/
theorem codeLengths_long (h : total < zs.length) : codeLengths bit ccode total fuel p zs = none := by
  cases fuel with
  | zero => rfl
  | succ fuel => rw [codeLengths, if_neg h.ne', if_pos h]

/-- What is repeated is the last length or 0. -/
theorem repeatAt_cases {x n e : Nat} (h : repeatAt bit s q zs = some (x, n, e)) :
    0 < n ∧ (x ∈ zs ∨ x = 0) := by
  rw [repeatAt] at h
  split at h
  · obtain ⟨y, hy, heq⟩ := Option.map_eq_some_iff.1 h
    simp only [Prod.mk.injEq] at heq
    obtain ⟨rfl, rfl, -⟩ := heq
    exact ⟨by omega, .inl (List.mem_of_getLast? hy)⟩
  · split at h <;>
    · simp only [Option.some.injEq, Prod.mk.injEq] at h
      obtain ⟨rfl, rfl, -⟩ := h
      exact ⟨by omega, .inr rfl⟩

/-- **As many code lengths as asked for**, none of them above 15. -/
theorem codeLengths_spec {ws : List Nat} (h : codeLengths bit ccode total fuel p zs = some (q, ws)) :
    p ≤ q ∧ ws.length = total ∧ ((∀ z ∈ zs, z ≤ 15) → ∀ w ∈ ws, w ≤ 15) := by
  induction fuel generalizing p zs with
  | zero => cases h
  | succ fuel ih =>
    rcases Nat.lt_trichotomy zs.length total with hlt | heq | hgt
    · rw [codeLengths_succ hlt] at h
      obtain ⟨⟨s, p'⟩, hs, h⟩ := Option.bind_eq_some_iff.1 h
      have hfirst := nextSymbol_lt hs
      dsimp only at h
      split at h
      · obtain ⟨hle, hlength, h15⟩ := ih h
        refine ⟨by omega, hlength, fun hzs => h15 fun z hz => ?_⟩
        rcases List.mem_append.1 hz with hz | hz
        · exact hzs z hz
        · rw [List.mem_singleton.1 hz]
          omega
      · obtain ⟨⟨x, n, e⟩, hr, h⟩ := Option.bind_eq_some_iff.1 h
        obtain ⟨hle, hlength, h15⟩ := ih h
        refine ⟨by omega, hlength, fun hzs => h15 fun z hz => ?_⟩
        rcases List.mem_append.1 hz with hz | hz
        · exact hzs z hz
        · rw [List.eq_of_mem_replicate hz]
          rcases (repeatAt_cases hr).2 with hx | rfl
          · exact hzs x hx
          · exact Nat.zero_le _
    · rw [codeLengths, if_pos heq] at h
      obtain ⟨rfl, rfl⟩ := Prod.mk.inj (Option.some.inj h)
      exact ⟨Nat.le_refl _, heq, id⟩
    · rw [codeLengths_long hgt] at h
      cases h

end

/-! ## Blocks -/

/-- The data of a dynamic block is behind the lengths of the code of the lengths. -/
theorem dynamicBytes_le (h : dynamicBytes rules bit fuel p xs = some (q, ys)) :
    p + 14 + 3 * (4 + bitsAt bit (p + 10) 4) < q ∧ xs <+: ys := by
  rw [dynamicBytes] at h
  obtain ⟨-, h⟩ := Option.ite_none_right_eq_some.1 h
  obtain ⟨⟨p', lens⟩, hlens, h⟩ := Option.bind_eq_some_iff.1 h
  have hle := (codeLengths_spec hlens).1
  have hdata := compressedBytes_le (Option.ite_none_right_eq_some.1 h).2
  exact ⟨by omega, hdata.2⟩

theorem storedBytes_le (h : storedBytes bit p xs = some (q, ys)) : p < q ∧ xs <+: ys := by
  rw [storedBytes] at h
  split at h
  · obtain ⟨rfl, rfl⟩ := Prod.mk.inj (Option.some.inj h)
    exact ⟨by omega, List.prefix_append ..⟩
  · cases h

theorem blockBytes_le (h : blockBytes rules bit fuel p xs = some (q, ys)) :
    p + 3 < q ∧ xs <+: ys := by
  rw [blockBytes] at h
  split at h
  · exact storedBytes_le h
  · exact compressedBytes_le h
  · have hle := dynamicBytes_le h
    exact ⟨by omega, hle.2⟩
  · cases h

theorem blocksBytes_le {k : Nat} (h : blocksBytes rules bit fuel k p xs = some (q, ys)) :
    p + 3 < q ∧ xs <+: ys := by
  induction k generalizing p xs with
  | zero => cases h
  | succ k ih =>
    rw [blocksBytes] at h
    obtain ⟨⟨p', xs'⟩, hblock, h⟩ := Option.bind_eq_some_iff.1 h
    have hfirst := blockBytes_le hblock
    dsimp only at h
    split at h
    · obtain ⟨rfl, rfl⟩ := Prod.mk.inj (Option.some.inj h)
      exact hfirst
    · have hrest := ih h
      exact ⟨by omega, hfirst.2.trans hrest.2⟩

/-! ## Decoders that ask for less -/

/-- `rules'` asks for no more than `rules`. -/
structure Rules.Le (rules rules' : Rules) : Prop where
  lengthCode : ∀ lens, (∀ l ∈ lens, l ≤ 15) → rules.lengthCode lens = true →
    rules'.lengthCode lens = true
  code : ∀ lens, (∀ l ∈ lens, l ≤ 15) → rules.code lens = true → rules'.code lens = true
  distance : ∀ d n, rules.distance d n = true → rules'.distance d n = true

section

variable {rules' : Rules} {r : Nat × List UInt8}

theorem compressedBytes_mono (hle : rules.Le rules')
    (h : compressedBytes rules bit litLens distLens fuel p xs = some r) :
    compressedBytes rules' bit litLens distLens fuel p xs = some r := by
  induction fuel generalizing p xs with
  | zero => cases h
  | succ fuel ih =>
    rcases compressedBytes_cases h with ⟨hend, hr⟩ | ⟨q', ys', hturn, h⟩
    · rw [compressedBytes_end hend, ← hr]
    · rw [(hturn.mono hle.distance).eq]
      exact ih h

theorem blockBytes_mono (hle : rules.Le rules') (h : blockBytes rules bit fuel p xs = some r) :
    blockBytes rules' bit fuel p xs = some r := by
  rw [blockBytes] at h ⊢
  split at h
  · exact h
  · exact compressedBytes_mono hle h
  · rw [dynamicBytes] at h ⊢
    dsimp only at h ⊢
    split at h
    next hcode =>
      obtain ⟨⟨p', lens⟩, hlens, h⟩ := Option.bind_eq_some_iff.1 h
      dsimp only at h
      split at h
      next hcodes =>
        have h15 := (codeLengths_spec hlens).2.2 fun z hz => absurd hz List.not_mem_nil
        rw [if_pos ⟨hcode.1, hcode.2.1, hle.lengthCode _ codeLengthLens_le hcode.2.2⟩, hlens]
        dsimp only [Option.bind_eq_bind, Option.bind_some]
        rw [if_pos ⟨hle.code _ (fun l hl => h15 l (List.mem_of_mem_take hl)) hcodes.1,
          hle.code _ (fun l hl => h15 l (List.mem_of_mem_drop hl)) hcodes.2⟩]
        exact compressedBytes_mono hle h
      next => cases h
    next => cases h
  · cases h

theorem blocksBytes_mono (hle : rules.Le rules') {k : Nat}
    (h : blocksBytes rules bit fuel k p xs = some r) :
    blocksBytes rules' bit fuel k p xs = some r := by
  induction k generalizing p xs with
  | zero => cases h
  | succ k ih =>
    rw [blocksBytes] at h ⊢
    obtain ⟨⟨p', xs'⟩, hblock, h⟩ := Option.bind_eq_some_iff.1 h
    rw [blockBytes_mono hle hblock]
    dsimp only [Option.bind_eq_bind, Option.bind_some] at h ⊢
    split at h
    next hlast => rw [if_pos hlast, h]
    next hlast => rw [if_neg hlast, ih h]

/-- **A stream for a stricter decoder stands for the same bytes.** -/
theorem Stream.mono (hle : rules.Le rules') {c u : List UInt8} (h : Stream rules c p u) :
    Stream rules' c p u := ⟨blocksBytes_mono hle h.1, h.2⟩

end

end FroggyKVM.Deflate
