/-
# FroggyKVM.Puff.Streams — what `puff` accepts, and what its caller may rely on.

`puff` asks less of a stream than the format does, so it finds the bytes of every stream that is one
by the format.  The reader of JAR entries (`platform_gb300/midlet_meta.c`) needs no more of it: with
`puff` in its place, it reads from the bytes of an archive what is stored in it.
-/
import FroggyKVM.Puff.Blocks
import FroggyKVM.Zip.ReadSafety

namespace FroggyKVM.Puff

open Canonical Deflate

/-! ## Acceptance -/

/-- **`puff` returns 0 exactly for a stream with room for its bytes**, writes these bytes and nothing
else, and stops behind the stream. -/
theorem puff_accepts {dest : Option (Buffer UInt8)} {destlen : Nat} {source : List UInt8}
    (hsource : source.length < 2147483648)
    (hdest : ∀ b, dest = some b → b.length = destlen ∧ destlen < 2147483648) :
    ∃ r, puff dest destlen (ofList source) source.length = .ok r ∧
      (r.err = 0 ↔ ∃ p u, Stream rules source p u ∧ HasRoom dest destlen u) ∧
      (∀ p u, Stream rules source p u → HasRoom dest destlen u →
        r = ⟨0, dest.map (overlay u), ulong u.length, (p + 7) / 8⟩) ∧
      (∀ p u, Stream rules source p u → ¬ HasRoom dest destlen u → r.err = 1) := by
  obtain ⟨r, hrun, hends⟩ := puff_ends hsource hdest
  refine ⟨r, hrun, ⟨fun herr => ?_, ?_⟩, hends.exact, hends.full⟩
  · by_cases hsome : ∃ p u, Stream rules source p u
    · obtain ⟨p, u, h⟩ := hsome
      refine ⟨p, u, h, ?_⟩
      by_contra hroom
      rw [hends.full p u h hroom] at herr
      exact one_ne_zero herr
    · exact absurd herr (hends.refused fun p u h => hsome ⟨p, u, h⟩)
  · rintro ⟨p, u, h, hroom⟩
    rw [hends.exact p u h hroom]

/-- A stored block with one byte. -/
def letter : List UInt8 := [1, 1, 0, 254, 255, 65]

theorem stream_letter : Stream rules letter 48 [65] := ⟨by decide +kernel, by decide⟩

/-- Its byte is written. -/
theorem puff_letter : puff (some ⟨1, fun _ => 0⟩) 1 (ofList letter) 6 =
    .ok ⟨0, some (overlay [65] ⟨1, fun _ => 0⟩), 1, 6⟩ := by
  obtain ⟨r, hrun, -, hexact, -⟩ := @puff_accepts (some ⟨1, fun _ => 0⟩) 1 letter (by decide)
    fun b hb => ⟨congrArg Buffer.length (Option.some.inj hb).symm, by decide⟩
  exact hrun.trans (congrArg Except.ok (hexact 48 [65] stream_letter (.inr (Nat.le_refl 1))))

/-! ## Streams by the format -/

/-- A code with at most one codeword, of one bit, fits. -/
theorem kraft_le_of_single {lens : List Nat} (hle : ∀ l ∈ lens, l ≤ 1) (hcount : lens.count 1 ≤ 1) :
    kraft 15 lens ≤ 2 ^ 14 := by
  have hzero : ∀ l, 2 ≤ l → lens.count l = 0 := fun l hl =>
    List.count_eq_zero.2 fun hmem => by
      have := hle l hmem
      omega
  have hnext : ∀ l, nextCode lens (l + 2) = 2 ^ (l + 1) * lens.count 1 := by
    intro l
    induction l with
    | zero => simp [nextCode]
    | succ l ih =>
      rw [nextCode, ih, if_neg (Nat.succ_ne_zero _), hzero (l + 2) (by omega), Nat.add_zero,
        Nat.pow_succ' (n := l + 1), Nat.mul_assoc]
  rw [kraft_eq fun l hl => (hle l hl).trans (by omega), hnext 13, hzero 15 (by omega)]
  omega

theorem strict_le : strict.Le rules where
  lengthCode lens hle h := by
    have hkraft : kraft 15 lens = 2 ^ 15 := of_decide_eq_true h
    exact decide_eq_true (.inr ((kraft_eq hle).symm.trans hkraft))
  code lens hle h := by
    refine decide_eq_true ?_
    rw [Oversubscribed, ← kraft_eq hle]
    rcases (of_decide_eq_true h : IsCode lens) with hfull | ⟨hone, hcount⟩
    · omega
    · have := kraft_le_of_single hone hcount
      omega
  distance _ _ _ := rfl

/-! ## The reader of JAR entries -/

/-- `puff` as the reader calls it, with a block of `n` bytes whose first contents are arbitrary: the
error and the bytes written. -/
def puffCall (garbage : Nat → UInt8) (n : Nat) (c : List UInt8) : Nat × List UInt8 :=
  match puff (some ⟨n, garbage⟩) n (ofList c) c.length with
  | .ok r => (r.err.natAbs, (List.range r.destlen).map fun i => (r.dest.map (·.data i)).getD 0)
  | .error _ => (1, [])

/-- **The bytes of a stream, or an error for want of room.** -/
theorem puffCall_eq {garbage : Nat → UInt8} {n : Nat} {c u : List UInt8} (hn : n < 2147483648)
    (hc : c.length < 2147483648) (h : Inflates strict c u) :
    (u.length ≤ n → puffCall garbage n c = (0, u)) ∧
      (n < u.length → (puffCall garbage n c).1 ≠ 0) := by
  obtain ⟨p, hstream, -⟩ := h
  have hlenient := hstream.mono strict_le
  have hdest : ∀ b, some (⟨n, garbage⟩ : Buffer UInt8) = some b → b.length = n ∧ n < 2147483648 :=
    fun b hb => by
      obtain rfl := Option.some.inj hb
      exact ⟨rfl, hn⟩
  obtain ⟨r, hrun, hends⟩ := puff_ends hc hdest
  rw [puffCall, hrun]
  constructor
  · intro hroom
    rw [hends.exact p u hlenient (.inr hroom)]
    have hlength : ulong u.length = u.length := Nat.mod_eq_of_lt (by omega)
    dsimp only [Option.map_some, Option.getD_some, overlay]
    rw [hlength]
    congr 1
    apply List.ext_getElem (by simp)
    intro i hi _
    rw [List.length_map, List.length_range] at hi
    simp [hi]
  · intro hfull
    have hone := hends.full p u hlenient fun h => by
      rcases h with h | (h : u.length ≤ n)
      · exact Option.some_ne_none _ h
      · omega
    show r.err.natAbs ≠ 0
    rw [hone]
    decide

/-- A stream stands for one list of bytes. -/
theorem inflates_unique {c u v : List UInt8} (hu : Inflates strict c u) (hv : Inflates strict c v) :
    u = v := by
  obtain ⟨p, hu, -⟩ := hu
  obtain ⟨q, hv, -⟩ := hv
  exact (Prod.mk.inj (Option.some.inj (hu.1.symm.trans hv.1))).2

open Classical in
/-- A decoder for streams of any size that does as `puff` for those that the reader meets. -/
noncomputable def idealCall (garbage : Nat → UInt8) (n : Nat) (c : List UInt8) : Nat × List UInt8 :=
  if n < 1048576 ∧ c.length < 2147483648 then puffCall garbage n c
  else if h : ∃ u, Inflates strict c u ∧ u.length ≤ n then (0, h.choose) else (1, [])

theorem decodes_idealCall (garbage : Nat → UInt8) :
    Zip.Decodes (Inflates strict) (idealCall garbage) := by
  intro n c u h
  rw [idealCall]
  by_cases hsmall : n < 1048576 ∧ c.length < 2147483648
  · rw [if_pos hsmall]
    exact puffCall_eq (by omega) hsmall.2 h
  · rw [if_neg hsmall]
    constructor
    · intro hroom
      have hsome : ∃ u, Inflates strict c u ∧ u.length ≤ n := ⟨u, h, hroom⟩
      rw [dif_pos hsome, inflates_unique hsome.choose_spec.1 h]
    · intro hfull
      have hnone : ¬ ∃ u, Inflates strict c u ∧ u.length ≤ n := by
        rintro ⟨v, hv, hroom⟩
        rw [inflates_unique hv h] at hroom
        omega
      rw [dif_neg hnone]
      exact one_ne_zero

/-- The reader asks for less than a megabyte, and has no more input than the file. -/
theorem readData_congr {mallocOk : Nat → Bool} {puff puff' : Nat → List UInt8 → Nat × List UInt8}
    {file : List UInt8} (h : ∀ n c, n < 1048576 → c.length ≤ file.length → puff n c = puff' n c)
    (method compSize uncompSize offset : Nat) :
    Zip.readData mallocOk puff file method compSize uncompSize offset =
      Zip.readData mallocOk puff' file method compSize uncompSize offset := by
  have hsize : (if 0 < uncompSize ∧ uncompSize < 1048576 then uncompSize else 65536) < 1048576 := by
    split <;> omega
  have hdata : ∀ i, (Zip.bytesAt file i compSize).length ≤ file.length := fun i => by
    rw [Zip.length_bytesAt]
    omega
  rw [Zip.readData, Zip.readData]
  dsimp only
  rw [h _ _ hsize (hdata _)]

theorem gb300ReadJarEntry_ideal {mallocOk : Nat → Bool} {garbage : Nat → UInt8}
    {file : List UInt8} (name : List UInt8) :
    Zip.gb300ReadJarEntry mallocOk (puffCall garbage) file name =
      Zip.gb300ReadJarEntry mallocOk (idealCall garbage) file name := by
  by_cases hlarge : 2147483648 ≤ file.length
  · rw [Zip.gb300ReadJarEntry, Zip.gb300ReadJarEntry, if_pos (.inr hlarge), if_pos (.inr hlarge)]
  · rw [Zip.gb300ReadJarEntry_eq_selected, Zip.gb300ReadJarEntry_eq_selected]
    congr 1
    funext at_
    refine readData_congr (fun n c hn hc => ?_) ..
    rw [idealCall, if_pos ⟨hn, by omega⟩]

/-- **What the reader returns with `puff`.** -/
theorem gb300ReadJarEntry_puff {mallocOk : Nat → Bool} {a : Zip.Archive (Inflates strict)}
    (hmalloc : ∀ n, mallocOk n = true) (hend : a.EndIsLast) (garbage : Nat → UInt8)
    (name : List UInt8) : Zip.gb300ReadJarEntry mallocOk (puffCall garbage) a.file name =
      if 2147483648 ≤ a.file.length then none
      else (a.accepted name).bind fun m => if m.HasReadableSize then some m.contents else none := by
  rw [gb300ReadJarEntry_ideal]
  exact Zip.Archive.gb300ReadJarEntry_eq hmalloc (decodes_idealCall garbage) hend name

end FroggyKVM.Puff
