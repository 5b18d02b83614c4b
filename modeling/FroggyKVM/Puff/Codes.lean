/-
# FroggyKVM.Puff.Codes — compressed blocks.

`codes` goes through the symbols of a block as the format does, with the tables of lengths and
distances split in two.  A symbol, the bits behind it or the second symbol may be missing; the input
then ends before the block does.
-/
import FroggyKVM.Puff.Construct

namespace FroggyKVM.Puff

open Canonical Deflate Outcome

/-- What `puff` asks of a stream. -/
def rules : Rules where
  lengthCode lens := decide (Complete lens)
  code lens := decide (¬ Oversubscribed lens)
  distance _ _ := true

/-! ## What a block needs -/

section

variable {bit : Nat → Bool} {litLens distLens : List Nat} {fuel p q s : Nat} {xs : List UInt8}
  {r : Nat × List UInt8}

/-- A walk that succeeds has a symbol to begin with. -/
theorem compressedBytes_symbol
    (h : compressedBytes rules bit litLens distLens (fuel + 1) p xs = some r) :
    ∃ s q, nextSymbol bit litLens p = some (s, q) ∧ q ≤ r.1 := by
  rcases compressedBytes_cases h with ⟨hend, -⟩ | ⟨q, ys, hturn, h⟩
  · exact ⟨256, _, hend, Nat.le_refl _⟩
  · have hrest := (compressedBytes_le (p := q) h).1
    cases hturn with
    | literal hs _ => exact ⟨_, _, hs, hrest.le⟩
    | pair hs _ _ ht _ _ =>
      have hlt := nextSymbol_lt ht
      exact ⟨_, _, hs, by omega⟩

/-- Behind the symbol of a length everything that belongs to it is there. -/
theorem compressedBytes_length (hs : nextSymbol bit litLens p = some (s, q)) (hlt : 256 < s)
    (h : compressedBytes rules bit litLens distLens (fuel + 1) p xs = some r) :
    ∃ l, lengths[s - 257]? = some l ∧ ∃ t q' d, nextSymbol bit distLens (q + l.2) = some (t, q') ∧
      distances[t]? = some d ∧ q' + d.2 < r.1 := by
  rcases compressedBytes_cases h with ⟨hend, -⟩ | ⟨q₁, ys, hturn, h⟩
  · obtain ⟨rfl, -⟩ := Prod.mk.inj (Option.some.inj (hs.symm.trans hend))
    exact absurd hlt (lt_irrefl _)
  · have hrest := (compressedBytes_le (p := q₁) h).1
    cases hturn with
    | literal hs' hlt' =>
      obtain ⟨rfl, -⟩ := Prod.mk.inj (Option.some.inj (hs.symm.trans hs'))
      omega
    | pair hs' _ hlength ht hdistance _ =>
      obtain ⟨rfl, rfl⟩ := Prod.mk.inj (Option.some.inj (hs.symm.trans hs'))
      exact ⟨_, hlength, _, _, _, ht, hdistance, hrest⟩

end

/-! ## Extra bits -/

variable {c : Call} {p : Nat} {xs : List UInt8}

theorem Misses.fails {r : Except Stop Int × State} (h : Misses r) : Fails r := by
  rcases h with h | h
  · exact Stops.fails h
  · rw [Fails, h]
    decide

/-- A part of the decoder that begins with a symbol that is not there. -/
theorem Misses.bind {x : Run Int} {f : Int → Run Int} {s : State} (h : Misses (x s))
    (hf : ∀ s', f (-10) s' = (.ok (-10), s')) : Misses ((x >>= f) s) := by
  rcases h with h | h
  · exact .inl (Stops.bind h)
  · have hr : x s = (.ok (-10), (x s).2) := Prod.ext h rfl
    rw [bind_ok hr, hf]
    exact .inr rfl

theorem entry_eq {table : List Nat} {i x : Nat} (h : table[i]? = some x) : entry table i = .ok x := by
  rw [entry, if_neg (by omega), Int.toNat_natCast, h]

theorem length_lengths : lengths.length = 29 := rfl

theorem zip_lens : lens.zip lext = lengths := rfl

theorem zip_dists : dists.zip dext = distances := rfl

theorem withExtra_eq (hc : c.Small) {base extra : List Nat} {i b e : Nat}
    (hi : (base.zip extra)[i]? = some (b, e)) (he : p + e ≤ c.limit) :
    withExtra base extra i (c.stateAt p xs) =
      (.ok (b + bitsAt c.bit p e), c.stateAt (p + e) xs) := by
  obtain ⟨hbase, hextra⟩ := List.getElem?_zip_eq_some.1 hi
  rw [withExtra, bind_lift (entry_eq hbase), bind_lift (entry_eq hextra), bind_ok (bits_eq hc he)]
  rfl

theorem withExtra_stops (hc : c.Small) {base extra : List Nat} {i b e : Nat}
    (hi : (base.zip extra)[i]? = some (b, e)) (hp : p ≤ c.limit) (he : c.limit < p + e) :
    Stops (withExtra base extra i (c.stateAt p xs)) := by
  obtain ⟨hbase, hextra⟩ := List.getElem?_zip_eq_some.1 hi
  rw [withExtra, bind_lift (entry_eq hbase), bind_lift (entry_eq hextra)]
  exact (bits_stops hc hp he).bind

/-! ## The loop -/

section

variable {lencode distcode : Huffman} {fuel s q : Nat}

/-- What is left of a turn behind a length and a distance. -/
def copyTurn (lencode distcode : Huffman) (fuel len dist : Nat) : Run Int :=
  writeTurn (fun s => s.outlen < ulong (s.outcnt + len))
    (fun s => { s with outcnt := ulong (s.outcnt + len) })
    (do
      copyOut dist len
      codes lencode distcode fuel)
    (codes lencode distcode fuel)

/-- What is left of a turn behind the symbol of a length. -/
def lengthTurn (lencode distcode : Huffman) (fuel : Nat) (symbol : Int) : Run Int := do
  let len ← withExtra lens lext symbol
  let symbol ← decode distcode
  if symbol < 0 then return symbol
  else do
    let dist ← withExtra dists dext symbol
    copyTurn lencode distcode fuel len dist

theorem codes_length (hs : decode lencode (c.stateAt p xs) = (.ok (s : Nat), c.stateAt q xs))
    (hlt : 256 < s) {i : Nat} (hi : s - 257 = i) (h29 : i < 29) :
    codes lencode distcode (fuel + 1) (c.stateAt p xs) =
      lengthTurn lencode distcode fuel i (c.stateAt q xs) := by
  have hcast : ((s : Nat) : Int) - 257 = i := by omega
  rw [codes, bind_ok hs, run_ite, if_neg (by omega), run_ite, if_neg (by omega), run_ite,
    if_pos (by omega), run_ite, if_neg (by omega), hcast]
  rfl

end

/-- Every distance is at least 1. -/
theorem distances_pos {t distance extra : Nat} (h : distances[t]? = some (distance, extra)) :
    0 < distance := by
  have hall : ∀ d ∈ distances, 0 < d.1 := by decide
  exact hall _ (List.mem_of_getElem? h)

/-- No length is above 258. -/
theorem lengths_lt {i length extra : Nat} (h : lengths[i]? = some (length, extra)) (bit : Nat → Bool)
    (p : Nat) : length + bitsAt bit p extra < 65536 := by
  have hall : ∀ d ∈ lengths, d.1 + 2 ^ d.2 < 65536 := by decide
  have hle := hall _ (List.mem_of_getElem? h)
  have hbits := bitsAt_lt bit p extra
  dsimp only at hle
  omega

/-- **The loop of `codes`**, by induction on the turns that the input has bits for. -/
theorem codes_meets (hc : c.Small) {lencode distcode : Huffman} {litLens distLens : List Nat}
    (hlit : lencode.Stores litLens) (hdist : distcode.Stores distLens) (h30 : distLens.length ≤ 30)
    {fuel : Nat} (hp : p ≤ c.limit) (hfuel : c.limit < p + fuel) (hroom : c.Room xs) :
    Meets c (compressedBytes rules c.bit litLens distLens fuel p xs)
      (codes lencode distcode fuel (c.stateAt p xs)) := by
  induction fuel generalizing p xs with
  | zero => omega
  | succ fuel ih =>
    rcases decode_cases xs hc hlit hp with ⟨s, q, hs, hq, hdecode⟩ | ⟨hnone, hmiss⟩
    case inr =>
      -- no symbol, or not all of it
      refine Meets.of_fails (fun q ys h => ?_) (Misses.fails ?_)
      · obtain ⟨s, q', hs, hle⟩ := compressedBytes_symbol h
        exact (hnone s q' hs).trans_le hle
      · rw [codes]
        exact Misses.bind hmiss fun s' => rfl
    case inl =>
      have hpq := nextSymbol_lt hs
      rcases Nat.lt_trichotomy s 256 with hlt | rfl | hgt
      · have hlength : (xs ++ [UInt8.ofNat s]).length = xs.length + 1 := List.length_append
        have hnext : c.Room (xs ++ [UInt8.ofNat s]) → _ := ih hq (by omega)
        rw [compressedBytes_literal hs hlt, codes, bind_ok hdecode, run_ite, if_neg (by omega), run_ite,
          if_pos (by omega), Int.toNat_natCast]
        show Meets c _ (writeTurn (fun s => s.outcnt = s.outlen)
          (fun s => { s with outcnt := ulong (s.outcnt + 1) })
          (do
            putByte (UInt8.ofNat s)
            codes lencode distcode fuel)
          (codes lencode distcode fuel) (c.stateAt q xs))
        refine Meets.write hroom (fun b hb hfit => ?_) (fun q' ys h => (compressedBytes_le h).2)
          (fun hb => ?_) (fun b hb hfit => ?_) hnext
        · show ulong xs.length = c.destlen ↔ _
          rw [hc.outcnt hb hfit, hlength]
          omega
        · rw [Call.state_none hb, Call.stateAt, Call.state_count hb hlength]
          rfl
        · exact bind_ok (putByte_eq hc hb (by omega)) _
      · rw [compressedBytes_end hs]
        refine Meets.of_exact hq hroom ?_
        rw [codes, bind_ok hdecode]
        rfl
      · -- what is missing of a length and a distance lies behind the end of the input
        have hinside : ∀ q' ys, compressedBytes rules c.bit litLens distLens (fuel + 1) p xs =
            some (q', ys) → _ := fun q' ys h => compressedBytes_length hs hgt h
        obtain ⟨i, hi⟩ : ∃ i, s - 257 = i := ⟨_, rfl⟩
        rw [hi] at hinside
        by_cases h29 : i < 29
        case neg =>
          refine Meets.of_fails (fun q' ys h => ?_) ?_
          · obtain ⟨d, hlength, -⟩ := hinside q' ys h
            rw [List.getElem?_eq_none (length_lengths ▸ Nat.not_lt.1 h29)] at hlength
            exact absurd hlength (Option.some_ne_none _).symm
          · rw [codes, bind_ok hdecode, run_ite, if_neg (by omega), run_ite, if_neg (by omega),
              run_ite, if_pos (by omega), run_ite, if_pos (by omega)]
            exact fails_ok (by decide)
        obtain ⟨⟨length, extra⟩, hlength⟩ : ∃ d, lengths[i]? = some d :=
          ⟨_, List.getElem?_eq_getElem (length_lengths ▸ h29)⟩
        have htable : (lens.zip lext)[i]? = some (length, extra) := by rw [zip_lens, hlength]
        simp only [hlength, Option.some.injEq, exists_eq_left'] at hinside
        rw [codes_length hdecode hgt hi h29, lengthTurn]
        by_cases hextra : q + extra ≤ c.limit
        case neg =>
          have hstops : Stops (withExtra lens lext i (c.stateAt q xs)) :=
            withExtra_stops hc htable hq (Nat.not_le.1 hextra)
          refine Meets.of_fails (fun q' ys h => ?_) (Stops.fails hstops.bind)
          obtain ⟨t, q₁, d, ht, -, hle⟩ := hinside q' ys h
          have := nextSymbol_lt ht
          omega
        rw [bind_ok (withExtra_eq hc htable hextra)]
        rcases decode_cases xs hc hdist hextra with ⟨t, q₁, ht, hq₁, hdecode₁⟩ | ⟨hnone, hmiss⟩
        case inr =>
          refine Meets.of_fails (fun q' ys h => ?_) (Misses.fails (Misses.bind hmiss fun s' => rfl))
          obtain ⟨t, q₁, d, ht, -, hle⟩ := hinside q' ys h
          have := hnone t q₁ ht
          omega
        have hlt := nextSymbol_lt ht
        obtain ⟨⟨distance, extra₁⟩, hdistance⟩ : ∃ d, distances[t]? = some d :=
          ⟨_, List.getElem?_eq_getElem (show t < 30 from (nextSymbol_spec ht).1.lt.trans_le h30)⟩
        have htable : (dists.zip dext)[t]? = some (distance, extra₁) := by rw [zip_dists, hdistance]
        rw [bind_ok hdecode₁, run_ite, if_neg (by omega)]
        by_cases hextra₁ : q₁ + extra₁ ≤ c.limit
        · have hpos : 0 < distance + bitsAt c.bit q₁ extra₁ :=
            Nat.add_pos_left (distances_pos hdistance) _
          rw [bind_ok (withExtra_eq hc htable hextra₁),
            compressedBytes_pair hs hgt (hi ▸ hlength) ht hdistance rfl]
          have hlen := lengths_lt hlength c.bit q
          have hlength := length_copyBack (distance + bitsAt c.bit q₁ extra₁)
            (length + bitsAt c.bit q extra) xs
          have hnext : c.Room (copyBack (distance + bitsAt c.bit q₁ extra₁)
            (length + bitsAt c.bit q extra) xs) → _ := ih hextra₁ (by omega)
          refine Meets.write hroom (fun b hb hfit => ?_) (fun q' ys h => (compressedBytes_le h).2)
            (fun hb => ?_) (fun b hb hfit => ?_) hnext
          · have hdest := (hc.dest b hb).2
            show c.destlen < (ulong xs.length + (length + bitsAt c.bit q extra)) % 4294967296 ↔ _
            rw [hc.outcnt hb hfit, hlength]
            omega
          · rw [Call.state_none hb, Call.stateAt, Call.state_count hb hlength]
            rfl
          · exact bind_ok (copyOut_eq hc hb hpos (hlength ▸ hfit)) _
        · refine Meets.of_fails (fun q' ys h => ?_) (Stops.fails
            (withExtra_stops hc htable hq₁ (Nat.not_le.1 hextra₁)).bind)
          obtain ⟨t', q₂, d, ht', hd, hle⟩ := hinside q' ys h
          obtain ⟨rfl, rfl⟩ := Prod.mk.inj (Option.some.inj (ht.symm.trans ht'))
          obtain rfl := Option.some.inj (hdistance.symm.trans hd)
          exact (Nat.not_le.1 hextra₁).trans hle

end FroggyKVM.Puff
