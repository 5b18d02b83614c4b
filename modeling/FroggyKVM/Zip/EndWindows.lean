/-
# FroggyKVM.Zip.EndWindows — the two windows in which the launcher looks for the end record.

`gb300_read_jar_entry` searches the last 2048 bytes of a file, and the last 65558 bytes if there is
no end record in them.  A record with the longest comment begins 65557 bytes before the end, so the
second window is one byte too long.  **The two searches find what one search over 65557 bytes finds,
unless the last signature of the file stands in that byte.**
-/
import FroggyKVM.Zip.ReadEntry

namespace FroggyKVM.Zip

/-! ## The searches -/

/-- Offsets in a file that the reader takes: it has room for an end record, and its size is a
`long`. -/
def offsetIn (file : List UInt8) (offset : Option Nat) : Option Nat :=
  if file.length < 22 ∨ 2147483648 ≤ file.length then none else offset

/-- Where the reader finds the end record. -/
def twoPhaseEnd (mallocOk : Nat → Bool) (file : List UInt8) : Option Nat :=
  offsetIn file ((findEnd mallocOk file).map fun (searchBuf, i) =>
    file.length - searchBuf.length + i)

/-- One search back over the last `n` bytes. -/
def endInLast (file : List UInt8) (n : Nat) : Option Nat :=
  let searchLen := min file.length n
  (searchEnd (bytesAt file (file.length - searchLen) searchLen) (searchLen - 22 + 1)).map fun i =>
    file.length - searchLen + i

def onePhaseEnd (n : Nat) (file : List UInt8) : Option Nat := offsetIn file (endInLast file n)

/-! ## What a search finds -/

/-- The last signature of the file that an end record can have is at `p`, among the last `n` bytes. -/
structure EndAt (file : List UInt8) (n p : Nat) : Prop where
  room : p + 22 ≤ file.length
  near : file.length ≤ p + n
  sig : isSig file p 5 6 = true
  last : ∀ q, p < q → q + 22 ≤ file.length → isSig file q 5 6 = false

section Search
variable {file b : List UInt8} {n m i p : Nat}

theorem EndAt.mono (h : EndAt file n p) (hnm : n ≤ m) : EndAt file m p :=
  { h with near := by have := h.near; omega }

theorem EndAt.unique {q : Nat} (h : EndAt file n p) (h' : EndAt file m q) : p = q := by
  by_contra hne
  rcases Nat.lt_or_gt_of_ne hne with hlt | hlt
  · exact Bool.false_ne_true ((h.last q hlt h'.room).symm.trans h'.sig)
  · exact Bool.false_ne_true ((h'.last p hlt h.room).symm.trans h.sig)

theorem isSig_drop (file : List UInt8) (k i c d : Nat) :
    isSig (file.drop k) i c d = isSig file (k + i) c d := by
  have hch : ∀ j, ch (file.drop k) j = ch file (k + j) := by
    intro j
    simp only [ch, List.getD_eq_getElem?_getD, List.getElem?_drop]
  simp only [isSig, hch, Nat.add_assoc]

theorem searchEnd_eq_some_iff : searchEnd b n = some i ↔
    i < n ∧ isSig b i 5 6 = true ∧ ∀ j, i < j → j < n → isSig b j 5 6 = false := by
  constructor
  · induction n with
    | zero =>
      intro h
      cases h
    | succ n ih =>
      rw [searchEnd]
      split
      · next hsig =>
        intro h
        obtain rfl := Option.some.inj h
        exact ⟨Nat.lt_succ_self n, hsig, fun j hj hjn => by omega⟩
      · next hsig =>
        intro h
        obtain ⟨hi, hs, hlast⟩ := ih h
        refine ⟨by omega, hs, fun j hj hjn => ?_⟩
        rcases Nat.lt_or_eq_of_le (Nat.le_of_lt_succ hjn) with hlt | rfl
        · exact hlast j hj hlt
        · exact Bool.not_eq_true _ ▸ hsig
  · rintro ⟨hi, hsig, hlast⟩
    exact searchEnd_eq_some hi hsig hlast

/-- **A search finds the last signature of its window.** -/
theorem endInLast_eq_some (hfile : 22 ≤ file.length) (hn : 22 ≤ n) :
    endInLast file n = some p ↔ EndAt file n p := by
  have hwindow : bytesAt file (file.length - min file.length n) (min file.length n) =
      file.drop (file.length - min file.length n) := bytesAt_last (Nat.min_le_left ..)
  simp only [endInLast, hwindow, Option.map_eq_some_iff, searchEnd_eq_some_iff, isSig_drop]
  constructor
  · rintro ⟨i, ⟨hi, hsig, hlast⟩, rfl⟩
    refine ⟨by omega, by omega, hsig, fun q hq hroom => ?_⟩
    obtain ⟨j, rfl⟩ : ∃ j, q = file.length - min file.length n + j :=
      ⟨q - (file.length - min file.length n), by omega⟩
    exact hlast j (by omega) (by omega)
  · intro h
    have hroom := h.room
    have hnear := h.near
    refine ⟨p - (file.length - min file.length n), ⟨by omega, ?_, fun j hj hjn => ?_⟩, by omega⟩
    · rw [Nat.add_sub_cancel' (by omega)]
      exact h.sig
    · exact h.last _ (by omega) (by omega)

theorem endInLast_eq_none (hfile : 22 ≤ file.length) (hn : 22 ≤ n) :
    endInLast file n = none ↔ ∀ p, ¬ EndAt file n p := by
  rw [Option.eq_none_iff_forall_ne_some]
  exact forall_congr' fun p => not_congr (endInLast_eq_some hfile hn)

/-- The buffers that are allocated until the signature at `p` is found. -/
def AllocatesFor (mallocOk : Nat → Bool) (file : List UInt8) (p : Nat) : Prop :=
  mallocOk (min file.length 2048) = true ∧
    (p + 2048 < file.length → mallocOk (min file.length 65558) = true)

theorem window_eq {n : Nat} : (if file.length < n then file.length else n) = min file.length n := by
  split_ifs <;> omega

theorem findEnd_map {mallocOk : Nat → Bool} : ((findEnd mallocOk file).map fun (searchBuf, i) =>
    file.length - searchBuf.length + i) =
      if mallocOk (min file.length 2048) = true then
        (endInLast file 2048).or
          (if 2048 < file.length ∧ mallocOk (min file.length 65558) = true then
            endInLast file 65558 else none)
      else none := by
  have hlen : ∀ n, (bytesAt file (file.length - min file.length n) (min file.length n)).length =
      min file.length n := fun n => by
    rw [bytesAt_last (Nat.min_le_left ..), List.length_drop]
    omega
  have hwhole : min file.length 2048 < file.length ↔ 2048 < file.length := by omega
  unfold findEnd endInLast
  simp only [window_eq, hwhole]
  by_cases hmalloc : mallocOk (min file.length 2048) = true
  · rw [if_pos hmalloc, if_pos hmalloc]
    cases hsearch : searchEnd (bytesAt file (file.length - min file.length 2048)
        (min file.length 2048)) (min file.length 2048 - 22 + 1) with
    | some i => simp [hlen]
    | none =>
      simp only [Option.map_none, Option.none_or]
      by_cases hlong : 2048 < file.length
      · by_cases hmalloc' : mallocOk (min file.length 65558) = true
        · simp [hlong, hmalloc', hlen, Function.comp_def]
        · simp [hlong, hmalloc']
      · simp [hlong]
  · rw [if_neg hmalloc, if_neg hmalloc]
    rfl

/-- **The two searches find the last signature in the larger window**, if there is memory. -/
theorem twoPhaseEnd_eq_some {mallocOk : Nat → Bool} : twoPhaseEnd mallocOk file = some p ↔
    file.length < 2147483648 ∧ EndAt file 65558 p ∧ AllocatesFor mallocOk file p := by
  unfold twoPhaseEnd offsetIn
  split
  · next hsize =>
    refine iff_of_false (fun h => Option.some_ne_none p h.symm) fun h => ?_
    have := h.2.1.room
    omega
  next hsize =>
  have hfile : 22 ≤ file.length := by omega
  rw [findEnd_map, AllocatesFor]
  by_cases hmalloc : mallocOk (min file.length 2048) = true
  · rw [if_pos hmalloc]
    by_cases hnear : ∃ q, EndAt file 2048 q
    · -- the first window has it, and it is the last one of all
      obtain ⟨q, hq⟩ := hnear
      rw [(endInLast_eq_some hfile (by omega)).2 hq, Option.some_or, Option.some.injEq]
      constructor
      · rintro rfl
        refine ⟨by omega, hq.mono (by omega), hmalloc, fun hfar => ?_⟩
        have := hq.near
        omega
      · rintro ⟨-, hp, -⟩
        exact hq.unique hp
    · rw [(endInLast_eq_none hfile (by omega)).2 fun q hq => hnear ⟨q, hq⟩, Option.none_or]
      have hfar : ∀ {q}, EndAt file 65558 q → q + 2048 < file.length := fun {q} hq => by
        by_contra hno
        exact hnear ⟨q, { hq with near := by omega }⟩
      constructor
      · intro h
        split_ifs at h with hboth
        have hp := (endInLast_eq_some hfile (by omega)).1 h
        exact ⟨by omega, hp, hmalloc, fun _ => hboth.2⟩
      · rintro ⟨-, hp, -, hmalloc'⟩
        have hlong := hfar hp
        rw [if_pos ⟨by omega, hmalloc' hlong⟩]
        exact (endInLast_eq_some hfile (by omega)).2 hp
  · rw [if_neg hmalloc]
    exact iff_of_false (fun h => Option.some_ne_none p h.symm) fun h => hmalloc h.2.2.1

theorem onePhaseEnd_eq_some (hn : 22 ≤ n) : onePhaseEnd n file = some p ↔
    file.length < 2147483648 ∧ EndAt file n p := by
  unfold onePhaseEnd offsetIn
  split
  · next hsize =>
    refine iff_of_false (fun h => Option.some_ne_none p h.symm) fun h => ?_
    have := h.2.room
    omega
  · next hsize =>
    rw [endInLast_eq_some (by omega) hn]
    exact ⟨fun h => ⟨by omega, h⟩, fun h => h.2⟩

end Search

/-- **The two searches agree with one over 65557 bytes exactly if the last signature of the file
is not 65558 bytes before the end**; without the memory for their buffers, only there. -/
theorem twoPhaseEnd_eq_onePhaseEnd_iff (mallocOk : Nat → Bool) (file : List UInt8) :
    twoPhaseEnd mallocOk file = onePhaseEnd 65557 file ↔
      ∀ p, file.length < 2147483648 → EndAt file 65558 p →
        (AllocatesFor mallocOk file p ↔ file.length ≠ p + 65558) := by
  have htwo : ∀ p, twoPhaseEnd mallocOk file = some p ↔ _ := fun p => twoPhaseEnd_eq_some
  have hone : ∀ p, onePhaseEnd 65557 file = some p ↔ _ := fun p => onePhaseEnd_eq_some (by omega)
  constructor
  · intro heq p hlen hp
    have hiff := htwo p
    rw [heq, hone p] at hiff
    constructor
    · intro halloc hedge
      have := (hiff.2 ⟨hlen, hp, halloc⟩).2.near
      omega
    · intro hedge
      have hnear := hp.near
      exact (hiff.1 ⟨hlen, { hp with near := by omega }⟩).2.2
  · intro h
    apply Option.ext
    intro p
    rw [htwo p, hone p]
    constructor
    · rintro ⟨hlen, hp, halloc⟩
      have hedge := (h p hlen hp).1 halloc
      have hnear := hp.near
      exact ⟨hlen, { hp with near := by omega }⟩
    · rintro ⟨hlen, hp⟩
      have hp' : EndAt file 65558 p := hp.mono (by omega)
      refine ⟨hlen, hp', (h p hlen hp').2 fun hedge => ?_⟩
      have := hp.near
      omega

/-- A file with a signature at the front, and zeros behind it. -/
def signatureFirst (n : Nat) : List UInt8 := [80, 75, 5, 6] ++ List.replicate n 0

theorem signatureFirst_length (n : Nat) : (signatureFirst n).length = n + 4 := by
  simp [signatureFirst]

theorem signatureFirst_end {n : Nat} (hn : 18 ≤ n) : EndAt (signatureFirst n) (n + 4) 0 := by
  have hlen := signatureFirst_length n
  refine ⟨by omega, by omega, by simp [signatureFirst, isSig, ch], fun q hq hroom => ?_⟩
  -- behind the first byte there is no other `P`
  have hch : ch (signatureFirst n) q ≠ 80 := by
    obtain rfl | rfl | rfl | ⟨k, rfl⟩ : q = 1 ∨ q = 2 ∨ q = 3 ∨ ∃ k, q = 4 + k := by
      rcases Nat.lt_or_ge q 4 with hlt | hge
      · omega
      · exact .inr (.inr (.inr ⟨q - 4, by omega⟩))
    · simp [ch, signatureFirst]
    · simp [ch, signatureFirst]
    · simp [ch, signatureFirst]
    · have hzero : (List.replicate n (0 : UInt8)).getD k 0 = 0 := List.getD_replicate _ (by omega)
      rw [ch, signatureFirst, List.getD_append_right _ _ _ _ (by simp),
        show 4 + k - [(80 : UInt8), 75, 5, 6].length = k by simp, hzero]
      decide
  simp [isSig, hch]

/-- A file of 65558 bytes with a signature at the front: one search over 65557 bytes does not see
it. -/
theorem twoPhaseEnd_finds_more :
    ¬ ∀ file, twoPhaseEnd (fun _ => true) file = onePhaseEnd 65557 file := by
  intro h
  have hlen := signatureFirst_length 65554
  have htwo : twoPhaseEnd (fun _ => true) (signatureFirst 65554) = some 0 :=
    twoPhaseEnd_eq_some.2 ⟨by omega, signatureFirst_end (by omega), rfl, fun _ => rfl⟩
  rw [h, onePhaseEnd_eq_some (by omega)] at htwo
  have := htwo.2.near
  omega

end FroggyKVM.Zip
