/-
# FroggyKVM.Inflate.InputInside — incremental input is read inside its buffer, but for long pairs.

In every run over a well-formed stream the input follows the file, every refill keeps what has not
been read, and **a step asks for bits outside the buffer exactly when a long pair begins at the last
byte in front of the margin**.  There is a valid stream with such a pair.
-/
import FroggyKVM.Inflate.InputRuns

namespace FroggyKVM.Inflate

open Deflate Canonical

/-! ## What a step asks for -/

/-- The requests of the `switch`: the argument of `refill_input` and the header of a block, or the
header of a stored block. -/
def Inflater.SwitchInside (f : Inflater) (b : Buffer UInt8) : Prop :=
  match f.blockType with
  | .unknown => (f.input b).inOffset ≤ b.length ∧
      ((f.input b).inOffset < (f.input b).inLength → ∃ i, (f.input b).needBits b 3 = .ok i)
  | .noCompression =>
    ∃ i, ((f.input b).dumpBits ((f.input b).inDataSize &&& 7)).needBits b 32 = .ok i
  | _ => True

/-- Every `NEEDBITS` of the step from `m` finds its bytes in the input buffer, and `refill_input` is
called with no more bytes than there are. -/
def Machine.InputInside (m : Machine) : Prop :=
  ∀ b, m.inflater.inBuffer = some b →
    match m.point with
    | .switch => m.inflater.SwitchInside b
    | .tables => ∃ i, (m.inflater.input b).needBits b 14 = .ok i
    | .codeLengthCode d k =>
      k < d.hclen → ∃ i, d.input.needBits b 3 = .ok i ∧ i.inOffset ≤ b.length
    | .codeLengths d _ _ codePtr => codePtr < d.hlit + d.hdist →
        ∃ i, d.input.needBits b (MAX_BITS + 7) = .ok i ∧ i.inOffset ≤ b.length
    | .huffman fixed i _ => i.inOffset ≤ b.length ∧
        (i.inOffset < i.inLength → m.inflater.IterationInside fixed i b)
    | _ => True

/-- The step from `m` is an iteration with a long pair. -/
def Machine.LongPairAhead (m : Machine) : Prop :=
  ∃ i outOffset b, m.point = .huffman false i outOffset ∧ m.inflater.inBuffer = some b ∧
    m.inflater.LongPair i b

variable {file : File} {start : Nat} {f : Inflater} {b : Buffer UInt8} {i : In} {m : Machine}

/-- A few bits, when their bytes are there. -/
theorem Follows.asks (h : Follows file start f b i) {j most : Nat} (hj : j ≤ 24)
    (hmost : j + 7 ≤ 8 * most + 7) (hroom : i.inOffset + most ≤ b.length) :
    ∃ i', i.needBits b j = .ok i' ∧ i'.inOffset ≤ b.length := by
  have hbytes : bytesFor i.inDataSize j ≤ most := by
    unfold bytesFor
    omega
  refine ⟨_, In.needBits_ok h.small (.inl (by omega)) (by omega), ?_⟩
  show i.inOffset + bytesFor i.inDataSize j ≤ b.length
  omega

theorem Follows.switchInside (h : Follows file start f b (f.input b))
    (hat : f.blockType = .noCompression → (f.input b).inOffset ≤ (f.input b).inLength) :
    f.SwitchInside b := by
  have hlength := h.inLength
  unfold Inflater.SwitchInside
  split
  · refine ⟨h.inOffset, fun hlow => ?_⟩
    obtain ⟨i, hi, -⟩ := h.asks (show 3 ≤ 24 by decide) (show 3 + 7 ≤ 8 * 1 + 7 by decide) (by omega)
    exact ⟨i, hi⟩
  · case _ hblock =>
    obtain ⟨i, hi, -⟩ := h.storedHeader (hat hblock)
    exact ⟨i, hi⟩
  · trivial

/-- **When a step reads inside the buffer.** -/
theorem Machine.inputInside_iff (hgood : m.Good file start) : m.InputInside ↔ ¬ m.LongPairAhead := by
  by_cases herror : m.point = .returned .error
  · refine iff_of_true (fun b _ => ?_) ?_
    · rw [herror]
      trivial
    · rintro ⟨i, outOffset, b, hpoint, -⟩
      exact nomatch herror.symm.trans hpoint
  · obtain ⟨b, hfollows, hat⟩ := hgood.input herror
    obtain ⟨hnonempty, hlength, -⟩ := hfollows.inLength
    have hbuffer : ∀ b', m.inflater.inBuffer = some b' → b' = b := fun b' hb' =>
      Option.some.inj (hb'.symm.trans hfollows.inBuffer)
    constructor
    · rintro hinside ⟨i, outOffset, b', hpoint, hb', hlong⟩
      obtain rfl := hbuffer b' hb'
      have hinside := hinside b' hb'
      have hlast := hlong.1
      rw [hpoint] at hinside hlength hat hfollows
      have hcoded := hat.2 rfl
      have hiff := Inflater.iterationInside_iff hcoded hfollows.small
        (show i.inOffset < i.inLength by omega) hlength
      exact hiff.1 (hinside.2 (by omega)) hlong
    · intro hshort b' hb'
      obtain rfl := hbuffer b' hb'
      split
      case h_1 hpoint =>
        rw [hpoint] at hfollows hat
        exact hfollows.switchInside hat
      case h_2 hpoint =>
        rw [hpoint] at hfollows hat hlength
        have hoffset := hat.2
        obtain ⟨i, hi, -⟩ := hfollows.asks (show 14 ≤ 24 by decide)
          (show 14 + 7 ≤ 8 * 2 + 7 by decide) (by omega)
        exact ⟨i, hi⟩
      case h_3 d k hpoint =>
        rw [hpoint] at hfollows hat hlength
        obtain ⟨-, -, -, -, hoffset, -⟩ := hat
        intro _
        exact hfollows.asks (show 3 ≤ 24 by decide) (show 3 + 7 ≤ 8 * 1 + 7 by decide) (by omega)
      case h_4 d lens ccodes codePtr hpoint =>
        rw [hpoint] at hfollows hat hlength
        obtain ⟨-, -, -, hoffset⟩ := hat
        intro _
        exact hfollows.asks (show MAX_BITS + 7 ≤ 24 by decide)
          (show MAX_BITS + 7 + 7 ≤ 8 * 3 + 7 by decide) (by omega)
      case h_5 fixed i outOffset hpoint =>
        rw [hpoint] at hfollows hat hlength
        refine ⟨hfollows.inOffset, fun hlow => ?_⟩
        have hfive : i.inOffset + 5 ≤ b'.length := by
          have hlength : i.inLength + 4 = b'.length := hlength
          omega
        cases fixed with
        | true => exact Inflater.iterationInside_fixed hfollows.small hfive
        | false =>
          apply (Inflater.iterationInside_iff (hat.2 rfl) hfollows.small hlow hlength).2
          exact fun hlong => hshort ⟨i, outOffset, b', hpoint, hb', hlong⟩
      case h_6 => trivial

/-! ## Runs -/

/-- A legal step. -/
def Machine.Step (heuristic : Bool) (m : Machine) (e : Event) (m' : Machine) : Prop :=
  m.Legal e ∧ m.next heuristic e = .ok m'

/-- The stream is well formed, and no long pair begins at the margin. -/
def Machine.Meets (m : Machine) (_ : Event) : Prop := m.WellFormed ∧ ¬ m.LongPairAhead

/-- A new array of so many bytes. -/
theorem newArray_length {length : Int} {data : Nat → UInt8} {b : Buffer UInt8}
    (h : newArray length data = some b) : b.length = length.toNat ∧ 0 ≤ length := by
  unfold newArray at h
  split at h
  · case isTrue hrange =>
    obtain rfl := Option.some.inj h
    exact ⟨rfl, hrange.1⟩
  · cases h

/-- The length of the input buffer: that of the data with the margin, and no more than 32 KB. -/
theorem inSize_range {compLen : Int} (hcomp : 0 < compLen ∧ compLen < 2147483648)
    (h : 0 ≤ min (i32 (compLen + EXTRA_INPUT_BYTES)) (INFLATER_INPUT_BUFFER + EXTRA_INPUT_BYTES : Nat)) :
    5 ≤ min (i32 (compLen + EXTRA_INPUT_BYTES)) (INFLATER_INPUT_BUFFER + EXTRA_INPUT_BYTES : Nat) ∧
      min (i32 (compLen + EXTRA_INPUT_BYTES)) (INFLATER_INPUT_BUFFER + EXTRA_INPUT_BYTES : Nat) ≤
        32772 := by
  have hlimit : ((INFLATER_INPUT_BUFFER + EXTRA_INPUT_BYTES : Nat) : Int) = 32772 := rfl
  have hmargin : (EXTRA_INPUT_BYTES : Int) = 4 := rfl
  rw [hlimit, hmargin, i32, Int.bmod_def] at h ⊢
  split at h
  · case isTrue hlow =>
    rw [if_pos hlow]
    omega
  · case isFalse hlow =>
    rw [if_neg hlow]
    omega

/-- A new decoder has read the first bytes of its file. -/
theorem allocate_good {size compLen : Int} {crc : Nat} {raw : Nat → UInt8}
    (hcomp : 0 < compLen ∧ compLen < 2147483648)
    (halloc : allocate (some file) start size compLen crc true raw = some f) :
    Machine.Good file start { inflater := f } := by
  unfold allocate at halloc
  dsimp only at halloc
  rw [if_pos (Int.le_of_lt hcomp.1), if_pos rfl] at halloc
  obtain ⟨f₁, hf₁, halloc⟩ := Option.bind_eq_some_iff.1 halloc
  obtain ⟨inBuf, hin, hf₁⟩ := Option.bind_eq_some_iff.1 hf₁
  obtain rfl := Option.some.inj hf₁
  obtain ⟨hlength, hnonneg⟩ := newArray_length hin
  obtain ⟨hlow, hhigh⟩ := inSize_range hcomp hnonneg
  -- the output buffer has no part in it
  have hsame : ∃ out, f = { f with outBuffer := out } ∧ f.fileHandle = some file ∧
      f.incremental = true ∧ f.filePos = start + min inBuf.length (file.length - start) ∧
      f.inBuffer = some { inBuf with data := file.read start inBuf.length raw } ∧
      f.track.base = 0 ∧ f.inOffset = 0 ∧ f.inDataSize = 0 ∧ f.inData = 0 ∧
      f.lengthBuffer = none ∧ f.distanceBuffer = none ∧ f.blockType = .unknown := by
    rw [if_pos rfl] at halloc
    by_cases hout : 0 ≤ min size (INFLATER_OUTPUT_BUFFER : Int) + EXTRA_OUTPUT_BYTES
    · rw [if_pos hout] at halloc
      obtain ⟨outBuf, -, halloc⟩ := Option.bind_eq_some_iff.1 halloc
      obtain rfl := Option.some.inj halloc
      exact ⟨_, rfl, rfl, rfl, rfl, rfl, rfl, rfl, rfl, rfl, rfl, rfl, rfl⟩
    · rw [if_neg hout] at halloc
      obtain rfl := Option.some.inj halloc
      exact ⟨_, rfl, rfl, rfl, rfl, rfl, rfl, rfl, rfl, rfl, rfl, rfl, rfl⟩
  obtain ⟨out, -, hhandle, hinc, hpos, hbuffer, hbase, hoffset, hsize, hdata, hlit, hdist, hblock⟩ :=
    hsame
  refine ⟨⟨fun t ht => (nomatch hlit.symm.trans ht), fun t ht => (nomatch hdist.symm.trans ht)⟩,
    fun _ => ⟨_, ⟨hhandle, hinc, hbuffer, ?_, ?_, ?_, ?_, ?_, ?_, ?_, ?_, fun _ => ?_⟩,
      fun hno => nomatch hblock.symm.trans hno⟩⟩
  · show 0 < inBuf.length - 4 ∧ inBuf.length - 4 + 4 = inBuf.length ∧ inBuf.length < 4294967296
    lia
  · show f.inOffset ≤ inBuf.length
    lia
  · show f.filePos ≤ start + f.track.base + inBuf.length
    omega
  · show f.filePos = start + f.track.base + inBuf.length ∨ file.length ≤ f.filePos
    lia
  · intro k _ hk hfile
    have hk : k < inBuf.length := hk
    show (if k < min inBuf.length (file.length - start) then file.byte (start + k) else raw k) = _
    rw [if_pos (by lia), hbase, Nat.add_zero]
  · show f.inDataSize ≤ 32
    omega
  · show f.inDataSize ≤ 8 * (f.track.base + f.inOffset)
    omega
  · show f.inData < 2 ^ f.inDataSize
    rw [hdata]
    exact Nat.two_pow_pos _
  · show f.inData = bitsAt _ _ f.inDataSize
    rw [hdata, hsize]
    rfl

/-- **A request or a step** of a well-formed stream. -/
theorem Machine.Good.step {heuristic : Bool} {e : Event} {m' : Machine} (h : m.Good file start)
    (hwell : m.WellFormed) (hstep : m.Step heuristic e m') : m'.Good file start := by
  obtain ⟨hlegal, hnext⟩ := hstep
  obtain ⟨b, hfollows, hat⟩ := h.input hwell.noError
  cases e with
  | step raw => exact m.tick_good heuristic h hwell m' hnext
  | readCompletely =>
    obtain ⟨hinc, -⟩ := hlegal
    exact nomatch hinc.symm.trans hfollows.incremental
  | readBytes len raw =>
    obtain ⟨-, status, result, hidle⟩ := hlegal
    rw [hidle] at hfollows hat
    have hswitch : Inflate.Good file start (m.inflater, .switch) := ⟨h.tables, fun _ => ⟨b, hfollows, hat⟩⟩
    unfold Machine.next at hnext
    dsimp only at hnext
    split at hnext
    · obtain rfl := Except.ok.inj hnext
      exact hswitch.caller (fun _ => rfl) (fun _ => Iff.rfl) ⟨rfl, rfl, rfl, rfl, rfl⟩
        (SameCodes.refl _) rfl fun _ => rfl
    · exact deliver_good hswitch _ _ m' hnext

/-- **Incremental input is read inside its buffer**: in every run over a well-formed stream without
a long pair at the margin, the input follows the file in every state reached, and the next step
reads inside the buffer exactly when no long pair is ahead. -/
theorem inputInside_run {heuristic : Bool} {size compLen : Int} {crc : Nat} {raw : Nat → UInt8}
    (hcomp : 0 < compLen ∧ compLen < 2147483648)
    (halloc : allocate (some file) start size compLen crc true raw = some f) {es : List Event}
    (hrun : Lts.Run (Lts.Guarded (Machine.Step heuristic) Machine.Meets) { inflater := f } es m) :
    (m.point ≠ .returned .error →
      ∃ b, Follows file start m.inflater b (inputAt m.inflater b m.point)) ∧
      (m.InputInside ↔ ¬ m.LongPairAhead) := by
  have hgood : m.Good file start :=
    hrun.invariant (fun _ _ _ hs hstep => hs.step hstep.1.1 hstep.2) (allocate_good hcomp halloc)
  refine ⟨fun hpoint => ?_, Machine.inputInside_iff hgood⟩
  obtain ⟨b, hfollows, -⟩ := hgood.input hpoint
  exact ⟨b, hfollows⟩

/-! ## A long pair -/

/-- An iteration that asks for a byte outside the buffer, as a test. -/
def Inflater.iterationOutside (f : Inflater) (fixed : Bool) (i : In) (b : Buffer UInt8) : Bool :=
  match i.needBits b (MAX_BITS + MAX_ZIP_EXTRA_LENGTH_BITS) with
  | .error _ => true
  | .ok i₁ =>
    match f.nextLitxlen fixed i₁ with
    | .ok (some (litxlen, i₂)) =>
      match lookup llExtraBits (litxlen - LITXLEN_BASE) with
      | .ok moreBits =>
        match (i₂.dumpBits moreBits).needBits b MAX_BITS with
        | .error _ => decide (257 ≤ litxlen ∧ litxlen ≤ 285)
        | .ok i₃ =>
          match f.nextDistance fixed i₃ with
          | .ok (some (d0, i₄)) =>
            match i₄.needBits b MAX_ZIP_EXTRA_DISTANCE_BITS with
            | .error _ =>
              decide (257 ≤ litxlen ∧ litxlen ≤ 285) && decide (d0 ≤ MAX_ZIP_DISTANCE_CODE)
            | .ok _ => false
          | _ => false
      | _ => false
    | _ => false

theorem Inflater.iterationOutside_sound {fixed : Bool} (h : f.iterationOutside fixed i b = true) :
    ¬ f.IterationInside fixed i b := by
  rintro ⟨i₁, h₁, hinside⟩
  unfold Inflater.iterationOutside at h
  simp only [h₁] at h
  split at h
  · rename_i litxlen i₂ h₂
    split at h
    · rename_i moreBits hmore
      split at h
      · rename_i h₃
        obtain ⟨hlow, hhigh⟩ := of_decide_eq_true h
        obtain ⟨i₃, h₃', -⟩ := hinside litxlen i₂ moreBits h₂ hlow hhigh hmore
        exact nomatch h₃.symm.trans h₃'
      · rename_i i₃ h₃
        split at h
        · rename_i d0 i₄ h₄
          split at h
          · rename_i h₅
            obtain ⟨hrange, hd0⟩ := Bool.and_eq_true_iff.1 h
            obtain ⟨hlow, hhigh⟩ := of_decide_eq_true hrange
            obtain ⟨i₃', h₃', hlast⟩ := hinside litxlen i₂ moreBits h₂ hlow hhigh hmore
            obtain rfl := Except.ok.inj (h₃.symm.trans h₃')
            obtain ⟨i₅, h₅'⟩ := hlast d0 i₄ h₄ (of_decide_eq_true hd0)
            exact nomatch h₅.symm.trans h₅'
          · cases h
        · cases h
    · cases h
  · cases h

/-- The end of the stream: a block of dynamic codes, whose first pair has 48 bits. -/
def longTail : List UInt8 :=
  [229, 239, 1, 130, 36, 73, 146, 36, 73, 222, 255, 95, 13, 72, 44, 106, 30, 89, 61, 251, 131, 3,
    36, 22, 53, 143, 172, 158, 189, 251, 255, 253, 255, 193, 255, 31, 0]

/-- A stored block of 32730 zeros, and behind it the block with the long pair. -/
def longFile : File where
  length := 32772
  byte k :=
    if k < 5 then [0, 0xDA, 0x7F, 0x25, 0x80].getD k 0
    else if k < 32735 then 0
    else longTail.getD (k - 32735) 0

/-- The decoder between two blocks, as a test. -/
def Machine.betweenBlocks (m : Machine) (e : Event) : Bool :=
  match e, m.point with
  | .step _, .switch => true
  | .readBytes .., .idle .. => m.inflater.incremental
  | _, _ => false

theorem Machine.betweenBlocks_legal {e : Event} (h : m.betweenBlocks e = true) :
    m.Legal e ∧ m.Meets e := by
  unfold Machine.betweenBlocks at h
  split at h
  · rename_i hpoint
    refine ⟨fun status result hidle => (nomatch hpoint.symm.trans hidle), ⟨fun herror => ?_, ?_⟩, ?_⟩
    · exact nomatch hpoint.symm.trans herror
    · intro d lens ccodes codePtr hcodes
      exact nomatch hpoint.symm.trans hcodes
    · rintro ⟨i, outOffset, b, hlong, -⟩
      exact nomatch hpoint.symm.trans hlong
  · rename_i hpoint
    refine ⟨⟨h, _, _, hpoint⟩, ⟨fun herror => ?_, ?_⟩, ?_⟩
    · exact nomatch hpoint.symm.trans herror
    · intro d lens ccodes codePtr hcodes
      exact nomatch hpoint.symm.trans hcodes
    · rintro ⟨i, outOffset, b, hlong, -⟩
      exact nomatch hpoint.symm.trans hlong
  · cases h

/-- A decoder of the file and a run of it whose end passes a test, found by running. -/
theorem longFile_run {ok : Machine → Event → Bool} {P : Machine → Bool} {es : List Event}
    (h : ((allocate (some longFile) 0 32958 32772 0 true fun _ => 0).any fun f =>
      (Lts.exec (Machine.next true) ok { inflater := f } es).any P) = true) :
    ∃ f m, allocate (some longFile) 0 32958 32772 0 true (fun _ => 0) = some f ∧
      Lts.Run (Lts.Guarded (fun m e m' => m.next true e = .ok m') fun m e => ok m e = true)
        { inflater := f } es m ∧ P m = true := by
  obtain ⟨f, hf, hany⟩ := (Option.any_eq_true _ _).1 h
  obtain ⟨m, hexec, hP⟩ := (Option.any_eq_true _ _).1 hany
  exact ⟨f, m, hf, .of_exec hexec, hP⟩

/-- The header of the stored block. -/
theorem inputInside_run_stored :
    ∃ f m, allocate (some longFile) 0 32958 32772 0 true (fun _ => 0) = some f ∧
      Lts.Run (Lts.Guarded (Machine.Step true) Machine.Meets) { inflater := f }
        [.readBytes 40000 fun _ => 0, .step fun _ => 0] m ∧
      (∃ b, Follows longFile 0 m.inflater b (inputAt m.inflater b m.point)) ∧
      (m.InputInside ↔ ¬ m.LongPairAhead) := by
  obtain ⟨f, m, hf, hrun, hpoint⟩ := @longFile_run Machine.betweenBlocks
    (fun m => m.betweenBlocks (.step fun _ => 0)) [.readBytes 40000 fun _ => 0, .step fun _ => 0]
    (by decide +kernel)
  have hrun : Lts.Run (Lts.Guarded (Machine.Step true) Machine.Meets) { inflater := f } _ m :=
    hrun.mono fun _ _ _ h =>
      ⟨(Machine.betweenBlocks_legal h.1).2, (Machine.betweenBlocks_legal h.1).1, h.2⟩
  obtain ⟨hfollows, hinside⟩ := inputInside_run (by decide) hf hrun
  exact ⟨f, m, hf, hrun, hfollows (Machine.betweenBlocks_legal hpoint).2.1.noError, hinside⟩

/-- The decoder in front of an iteration that asks for a byte outside the buffer, as a test. -/
def Machine.outsideNext (m : Machine) : Bool :=
  match m.inflater.inBuffer, m.point with
  | some b, .huffman fixed i _ =>
    decide (i.inOffset < i.inLength) && m.inflater.iterationOutside fixed i b
  | _, _ => false

theorem Machine.outsideNext_sound (h : m.outsideNext = true) : ¬ m.InputInside := by
  intro hinside
  unfold Machine.outsideNext at h
  split at h
  · rename_i b fixed i outOffset hbuffer hpoint
    obtain ⟨hlow, houtside⟩ := Bool.and_eq_true_iff.1 h
    have hnext := hinside b hbuffer
    rw [hpoint] at hnext
    exact Inflater.iterationOutside_sound houtside (hnext.2 (of_decide_eq_true hlow))
  · cases h

/-- The decoder where no request is pending, and where one is, as a test. -/
def Machine.legal (m : Machine) (e : Event) : Bool :=
  match e, m.point with
  | .step _, .idle .. => false
  | .step _, _ => true
  | .readBytes .., .idle .. => m.inflater.incremental
  | _, _ => false

theorem Machine.legal_sound {e : Event} (h : m.legal e = true) : m.Legal e := by
  unfold Machine.legal at h
  split at h
  · cases h
  · rename_i hbusy
    exact fun status result hidle => hbusy status result hidle
  · rename_i hpoint
    exact ⟨h, _, _, hpoint⟩
  · cases h

/-- The lengths of the two codes of the long block. -/
def longLitLens : List Nat :=
  15 :: (List.replicate 255 0 ++ [1, 2, 3, 4, 5, 6, 7, 8, 9, 10, 11, 12, 13, 14] ++
    List.replicate 14 0 ++ [15])

def longDistLens : List Nat := [1, 2, 3, 4, 5, 6, 7, 8, 9, 10, 11, 12, 13, 14, 15, 15]

/-- A literal, the long pair and the end of the block. -/
theorem longFile_data {n fuel : Nat} (hn : n = fuel + 3) :
    Deflate.compressed (byteBits longFile.byte) longLitLens longDistLens n 262115 32730 =
      some (262172, 32958) := by
  have hlit : Canonical.Fits 15 longLitLens := ⟨by decide +kernel, by decide +kernel⟩
  have hdist : Canonical.Fits 15 longDistLens := ⟨by decide, by decide +kernel⟩
  have hzero := Deflate.nextSymbol_eq (byteBits longFile.byte) hlit
    (show Deflate.Symbol (byteBits longFile.byte) longLitLens 262115 0 by decide +kernel)
  have hlength := Deflate.nextSymbol_eq (byteBits longFile.byte) hlit
    (show Deflate.Symbol (byteBits longFile.byte) longLitLens 262130 284 by decide +kernel)
  have hdistance := Deflate.nextSymbol_eq (byteBits longFile.byte) hdist
    (show Deflate.Symbol (byteBits longFile.byte) longDistLens 262150 15 by decide +kernel)
  have hend := Deflate.nextSymbol_eq (byteBits longFile.byte) hlit
    (show Deflate.Symbol (byteBits longFile.byte) longLitLens 262171 256 by decide +kernel)
  have hextra : bitsAt (byteBits longFile.byte) 262145 5 = 0 ∧
      bitsAt (byteBits longFile.byte) 262165 6 = 0 := by decide +kernel
  rw [show 262115 + Canonical.len longLitLens 0 = 262130 from rfl] at hzero
  rw [show 262130 + Canonical.len longLitLens 284 = 262145 by decide +kernel] at hlength
  rw [show 262150 + Canonical.len longDistLens 15 = 262165 from rfl] at hdistance
  rw [show 262171 + Canonical.len longLitLens 256 = 262172 by decide +kernel] at hend
  rw [hn, Deflate.compressed_literal _ hzero (by omega),
    Deflate.compressed_pair _ hlength (by omega) rfl hdistance rfl (by rw [hextra.2]; omega),
    hextra.1, Deflate.compressed_end _ hend]

theorem longFile_dynamic {n fuel : Nat} (hn : n = fuel + 3) :
    Deflate.dynamic (byteBits longFile.byte) n 261883 32730 = some (262172, 32958) := by
  have hlens : Deflate.codeLengths (byteBits longFile.byte)
      [0, 4, 4, 4, 4, 4, 4, 4, 4, 4, 4, 4, 4, 4, 4, 4, 0, 0, 4] (285 + 16) (285 + 16 + 1)
      (261883 + 14 + 3 * 19) [] = some (262115, longLitLens ++ longDistLens) := by decide +kernel
  have hdynamic := @Deflate.dynamic_eq (byteBits longFile.byte) n 261883 32730 262115 285 16 19
    [0, 4, 4, 4, 4, 4, 4, 4, 4, 4, 4, 4, 4, 4, 4, 4, 0, 0, 4] longLitLens longDistLens
    (by decide +kernel) (by decide +kernel) (by decide +kernel) (by decide +kernel) hlens
    (by decide +kernel) (by decide +kernel)
  rw [hdynamic, longFile_data hn]

/-- A stored block and a block of dynamic codes. -/
theorem longFile_valid : Deflate.Valid longFile.byte 32772 32958 := by
  have hfirst : ∀ n, Deflate.block (byteBits longFile.byte) n 0 0 = some (261880, 32730) := by
    intro n
    have htype : bitsAt (byteBits longFile.byte) (0 + 1) 2 = 0 := by decide +kernel
    rw [Deflate.block, htype]
    show Deflate.stored (byteBits longFile.byte) (0 + 3) 0 = some (261880, 32730)
    decide +kernel
  have hsecond : ∀ n, Deflate.block (byteBits longFile.byte) (n + 3) 261880 32730 =
      some (262172, 32958) := by
    intro n
    have htype : bitsAt (byteBits longFile.byte) (261880 + 1) 2 = 2 := by decide +kernel
    rw [Deflate.block, htype]
    exact longFile_dynamic rfl
  have hblocks : ∀ n k, Deflate.blocks (byteBits longFile.byte) (n + 3) (k + 1 + 1) 0 0 =
      some (262172, 32958) := by
    intro n k
    rw [Deflate.blocks_next _ (hfirst _) (by decide +kernel),
      Deflate.blocks_last _ (hsecond n) (by decide +kernel)]
  exact ⟨262172, hblocks 262173 262174, by decide⟩

/-- **A valid stream is read outside the buffer**: the pair begins with 6 bits at hand, at the last
byte in front of the margin. -/
theorem longFile_outside :
    Deflate.Valid longFile.byte 32772 32958 ∧
      ∃ f es m, allocate (some longFile) 0 32958 32772 0 true (fun _ => 0) = some f ∧
        Lts.Run (Machine.Step true) { inflater := f } es m ∧ ¬ m.InputInside := by
  refine ⟨longFile_valid, ?_⟩
  obtain ⟨f, m, hf, hrun, houtside⟩ := @longFile_run Machine.legal Machine.outsideNext
    (.readBytes 40000 (fun _ => 0) :: List.replicate 63 (.step fun _ => 0)) (by decide +kernel)
  exact ⟨f, _, m, hf, hrun.mono fun _ _ _ h => ⟨Machine.legal_sound h.1, h.2⟩,
    Machine.outsideNext_sound houtside⟩

end FroggyKVM.Inflate
