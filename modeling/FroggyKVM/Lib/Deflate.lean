/-
# FroggyKVM.Lib.Deflate — the format of compressed data.

A stream is a sequence of bits.  A block begins with its mark for the last block and its type; the
codes of a dynamic block are given by their lengths, which are themselves compressed.  The functions
here walk through a stream, with the position and the number of bytes that the stream stands for;
they find nothing where the stream is malformed.
-/
import FroggyKVM.Lib.Canonical

namespace FroggyKVM.Deflate

open Canonical

variable (bit : Nat → Bool)

/-! ## Symbols -/

/-- The codeword of `s` is at `p`, with its first bit most significant. -/
def Symbol (lens : List Nat) (p s : Nat) : Prop :=
  len lens s ≠ 0 ∧ msbBitsAt bit p (len lens s) = code lens s

instance (lens : List Nat) (p s : Nat) : Decidable (Symbol bit lens p s) :=
  inferInstanceAs (Decidable (_ ∧ _))

/-- The symbol at `p`, and the position behind it. -/
def nextSymbol (lens : List Nat) (p : Nat) : Option (Nat × Nat) :=
  ((List.range lens.length).find? fun s => Symbol bit lens p s).map fun s => (s, p + len lens s)

theorem Symbol.lt {bit : Nat → Bool} {lens : List Nat} {p s : Nat} (h : Symbol bit lens p s) :
    s < lens.length := (len_mem h.1).2

/-- In a number that holds the bits from `p` on, the codeword is spelt. -/
theorem symbol_iff_spells {lens : List Nat} (h : Fits 15 lens) {p n s : Nat}
    (hn : 15 ≤ n) : Symbol bit lens p s ↔ Spells lens s (bitsAt bit p n) := by
  have hmod := bitsAt_mod bit p (Nat.le_trans (h.len_le s) hn)
  have hrev := reverseBits_msbBitsAt bit p (len lens s)
  constructor
  · rintro ⟨hs, hcode⟩
    refine ⟨hs, ?_⟩
    rw [hmod, ← hrev, hcode]
  · rintro ⟨hs, hlow⟩
    refine ⟨hs, ?_⟩
    rw [hmod, ← hrev] at hlow
    rw [← reverseBits_of_lt (msbBitsAt_lt bit p _), hlow, reverseBits_of_lt (code_lt h hs)]

/-- Where the lengths fit, no other symbol is at the place. -/
theorem nextSymbol_eq {lens : List Nat} (h : Fits 15 lens) {p s : Nat} (hs : Symbol bit lens p s) :
    nextSymbol bit lens p = some (s, p + len lens s) := by
  have hfind : (List.range lens.length).find? (fun s => Symbol bit lens p s) = some s := by
    rw [List.find?_range_eq_some]
    refine ⟨by simpa using hs, by simpa using hs.lt, ?_⟩
    intro t ht
    simp only [Bool.not_eq_true', decide_eq_false_iff_not]
    intro hsame
    have heq := Spells.unique h ((symbol_iff_spells bit h (Nat.le_refl 15)).1 hsame)
      ((symbol_iff_spells bit h (Nat.le_refl 15)).1 hs)
    omega
  rw [nextSymbol, hfind]
  rfl

/-! ## Compressed data -/

/-- The lengths 3 to 258 of the symbols 257 to 285, with their numbers of extra bits. -/
def lengths : List (Nat × Nat) :=
  [(3, 0), (4, 0), (5, 0), (6, 0), (7, 0), (8, 0), (9, 0), (10, 0), (11, 1), (13, 1), (15, 1),
   (17, 1), (19, 2), (23, 2), (27, 2), (31, 2), (35, 3), (43, 3), (51, 3), (59, 3), (67, 4), (83, 4),
   (99, 4), (115, 4), (131, 5), (163, 5), (195, 5), (227, 5), (258, 0)]

/-- The distances 1 to 32768 of the symbols 0 to 29, with their numbers of extra bits. -/
def distances : List (Nat × Nat) :=
  [(1, 0), (2, 0), (3, 0), (4, 0), (5, 1), (7, 1), (9, 2), (13, 2), (17, 3), (25, 3), (33, 4),
   (49, 4), (65, 5), (97, 5), (129, 6), (193, 6), (257, 7), (385, 7), (513, 8), (769, 8), (1025, 9),
   (1537, 9), (2049, 10), (3073, 10), (4097, 11), (6145, 11), (8193, 12), (12289, 12), (16385, 13),
   (24577, 13)]

/-- The data of a block at `p`, `n` bytes into the output: behind the end of the block, and the
number of bytes. -/
def compressed (litLens distLens : List Nat) : Nat → Nat → Nat → Option (Nat × Nat)
  | 0, _, _ => none
  | fuel + 1, p, n => do
    let (s, p) ← nextSymbol bit litLens p
    if s < 256 then compressed litLens distLens fuel p (n + 1)
    else if s = 256 then return (p, n)
    else
      let (length, extra) ← lengths[s - 257]?
      let length := length + bitsAt bit p extra
      let (t, p) ← nextSymbol bit distLens (p + extra)
      let (distance, extra) ← distances[t]?
      let distance := distance + bitsAt bit p extra
      if distance ≤ n then compressed litLens distLens fuel (p + extra) (n + length) else none

section

variable {litLens distLens : List Nat} {fuel p p' n s : Nat}

theorem compressed_literal (h : nextSymbol bit litLens p = some (s, p')) (hs : s < 256) :
    compressed bit litLens distLens (fuel + 1) p n = compressed bit litLens distLens fuel p' (n + 1) := by
  rw [compressed, h]
  exact if_pos hs

theorem compressed_end (h : nextSymbol bit litLens p = some (256, p')) :
    compressed bit litLens distLens (fuel + 1) p n = some (p', n) := by
  rw [compressed, h]
  rfl

theorem compressed_pair {length extra t q distance extra' : Nat}
    (h : nextSymbol bit litLens p = some (s, p')) (hs : 256 < s)
    (hlength : lengths[s - 257]? = some (length, extra))
    (ht : nextSymbol bit distLens (p' + extra) = some (t, q))
    (hdistance : distances[t]? = some (distance, extra'))
    (hle : distance + bitsAt bit q extra' ≤ n) :
    compressed bit litLens distLens (fuel + 1) p n =
      compressed bit litLens distLens fuel (q + extra') (n + (length + bitsAt bit p' extra)) := by
  rw [compressed, h]
  simp only [Option.bind_eq_bind, Option.bind_some, if_neg (show ¬ s < 256 by omega),
    if_neg (show s ≠ 256 by omega), hlength, ht, hdistance, if_pos hle]

end

/-! ## Blocks -/

/-- A code of a block: no bit string is left over, but for a code with one codeword of one bit or
none. -/
def IsCode (lens : List Nat) : Prop :=
  kraft 15 lens = 2 ^ 15 ∨ (∀ l ∈ lens, l ≤ 1) ∧ lens.count 1 ≤ 1

instance (lens : List Nat) : Decidable (IsCode lens) := inferInstanceAs (Decidable (_ ∨ _))

def fixedLitLens : List Nat :=
  List.replicate 144 8 ++ List.replicate 112 9 ++ List.replicate 24 7 ++ List.replicate 8 8

def fixedDistLens : List Nat := List.replicate 32 5

/-- The order in which the lengths of the code of the lengths are given. -/
def codeLengthOrder : List Nat := [16, 17, 18, 0, 8, 7, 9, 6, 10, 5, 11, 4, 12, 3, 13, 2, 14, 1, 15]

/-- The lengths of the code of the lengths. -/
def codeLengthLens (p hclen : Nat) : List Nat :=
  (List.range 19).map fun s =>
    let k := codeLengthOrder.idxOf s
    if k < hclen then bitsAt bit (p + 3 * k) 3 else 0

/-- `total` code lengths at `p`, behind those there are. -/
def codeLengths (lens : List Nat) (total : Nat) : Nat → Nat → List Nat → Option (Nat × List Nat)
  | 0, _, _ => none
  | fuel + 1, p, xs =>
    if xs.length = total then some (p, xs)
    else if total < xs.length then none
    else do
      let (s, p) ← nextSymbol bit lens p
      if s < 16 then codeLengths lens total fuel p (xs ++ [s])
      else if s = 16 then
        let x ← xs.getLast?
        codeLengths lens total fuel (p + 2) (xs ++ List.replicate (3 + bitsAt bit p 2) x)
      else if s = 17 then
        codeLengths lens total fuel (p + 3) (xs ++ List.replicate (3 + bitsAt bit p 3) 0)
      else codeLengths lens total fuel (p + 7) (xs ++ List.replicate (11 + bitsAt bit p 7) 0)

/-- A block whose codes are given. -/
def dynamic (fuel p n : Nat) : Option (Nat × Nat) := do
  let hlit := 257 + bitsAt bit p 5
  let hdist := 1 + bitsAt bit (p + 5) 5
  let hclen := 4 + bitsAt bit (p + 10) 4
  let ccode := codeLengthLens bit (p + 14) hclen
  let total := hlit + hdist
  let (p, xs) ← codeLengths bit ccode total (total + 1) (p + 14 + 3 * hclen) []
  if IsCode ccode ∧ IsCode (xs.take hlit) ∧ IsCode (xs.drop hlit) ∧ hlit ≤ 286 ∧ hdist ≤ 30 then
    compressed bit (xs.take hlit) (xs.drop hlit) fuel p n
  else none

theorem dynamic_eq {fuel p n q hlit hdist hclen : Nat} {ccode litLens distLens : List Nat}
    (h₁ : 257 + bitsAt bit p 5 = hlit) (h₂ : 1 + bitsAt bit (p + 5) 5 = hdist)
    (h₃ : 4 + bitsAt bit (p + 10) 4 = hclen) (hccode : codeLengthLens bit (p + 14) hclen = ccode)
    (hlens : codeLengths bit ccode (hlit + hdist) (hlit + hdist + 1) (p + 14 + 3 * hclen) [] =
      some (q, litLens ++ distLens)) (hlength : litLens.length = hlit)
    (hcode : IsCode ccode ∧ IsCode litLens ∧ IsCode distLens ∧ hlit ≤ 286 ∧ hdist ≤ 30) :
    dynamic bit fuel p n = compressed bit litLens distLens fuel q n := by
  have htake : (litLens ++ distLens).take hlit = litLens := List.take_left' hlength
  have hdrop : (litLens ++ distLens).drop hlit = distLens := List.drop_left' hlength
  rw [dynamic]
  simp only [h₁, h₂, h₃, hccode, hlens, Option.bind_eq_bind, Option.bind_some, htake, hdrop,
    if_pos hcode]

/-- A stored block: its length, and the length again with all bits inverted, at a byte. -/
def stored (p n : Nat) : Option (Nat × Nat) :=
  let p := 8 * ((p + 7) / 8)
  let length := bitsAt bit p 16
  if length + bitsAt bit (p + 16) 16 = 65535 then some (p + 32 + 8 * length, n + length) else none

def block (fuel p n : Nat) : Option (Nat × Nat) :=
  match bitsAt bit (p + 1) 2 with
  | 0 => stored bit (p + 3) n
  | 1 => compressed bit fixedLitLens fixedDistLens fuel (p + 3) n
  | 2 => dynamic bit fuel (p + 3) n
  | _ => none

/-- The blocks up to the last one; each step takes a bit at least, so `fuel` is their number. -/
def blocks (fuel : Nat) : Nat → Nat → Nat → Option (Nat × Nat)
  | 0, _, _ => none
  | k + 1, p, n => do
    let (p', n') ← block bit fuel p n
    if bit p then return (p', n') else blocks fuel k p' n'

theorem blocks_last {fuel k p n q m : Nat} (h : block bit fuel p n = some (q, m))
    (hlast : bit p = true) : blocks bit fuel (k + 1) p n = some (q, m) := by
  rw [blocks, h]
  exact if_pos hlast

theorem blocks_next {fuel k p n q m : Nat} (h : block bit fuel p n = some (q, m))
    (hlast : bit p = false) : blocks bit fuel (k + 1) p n = blocks bit fuel k q m := by
  rw [blocks, h]
  exact if_neg (Bool.eq_false_iff.1 hlast)

/-- The first `length` bytes are a stream for `size` bytes. -/
def Valid (byte : Nat → UInt8) (length size : Nat) : Prop :=
  ∃ p, blocks (byteBits byte) (8 * length) (8 * length) 0 0 = some (p, size) ∧ (p + 7) / 8 = length

end FroggyKVM.Deflate
