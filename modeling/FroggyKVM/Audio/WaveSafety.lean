/-
# FroggyKVM.Audio.WaveSafety — which RIFF files `wav_decode` reads without leaving them.

The chunk loop is looked at one iteration at a time.  **A declared size below `2 ^ 31` is harmless**:
it is clamped to the buffer.  A larger one is negative as an `int`, is not clamped, and moves the
position back, except for the last seven values, which move it by at most six bytes.
-/
import FroggyKVM.Audio.Wave

namespace FroggyKVM.Audio

variable {σ : Type} {d : List UInt8}

/-! ## Reading -/

theorem le16At_inside {i : Int} (h₀ : 0 ≤ i) (h : i + 2 ≤ d.length) :
    Succeeds (le16At d i) fun x => 0 ≤ x ∧ x < 65536 := by
  refine .bind (byteAt_inside ⟨h₀, by omega⟩) fun b0 hb0 => ?_
  exact .bind (byteAt_inside ⟨by omega, by omega⟩) fun b1 hb1 => .pure (by omega)

/-- What has been read stands in the buffer. -/
theorem le16At_ok {i x : Int} (h : le16At d i = .ok x) : i + 2 ≤ d.length := by
  obtain ⟨_, -, h⟩ := ok_of_bind h
  obtain ⟨b, hb, -⟩ := ok_of_bind h
  by_contra hout
  rw [byteAt_outside (by omega)] at hb
  cases hb

theorem le32At_inside {i : Int} (h₀ : 0 ≤ i) (h : i + 4 ≤ d.length) :
    Succeeds (le32At d i) fun x => 0 ≤ x ∧ x < 4294967296 := by
  refine .bind (le16At_inside h₀ (by omega)) fun lo hlo => ?_
  exact .bind (le16At_inside (by omega) (by omega)) fun hi hhi => .pure (by omega)

/-! ## One chunk -/

/-- One iteration of the chunk loop at `pos`: what is collected, and the next position. -/
def wavChunk (d : List UInt8) (pos : Int) (w : WavFormat) : Except Fault (WavFormat × Int) := do
  let id ← bytesAt d pos 4
  let sz ← le32At d (pos + 4)
  let pos := pos + 8
  let sz := if i32 sz > d.length - pos then (d.length : Int) - pos else sz
  let w ←
    if id = [0x66, 0x6D, 0x74, 0x20] ∧ sz ≥ 16 then wavFmtChunk d pos sz w
    else if id = [0x64, 0x61, 0x74, 0x61] then .ok { w with data := some (pos, i32 sz) }
    else .ok w
  return (w, i32 (pos + i32 ((sz + 1) % 4294967296 / 2 * 2)))

theorem wavChunkLoop_succ (fuel : Nat) (pos : Int) (w : WavFormat) :
    wavChunkLoop d (fuel + 1) pos w =
      if pos + 8 ≤ d.length then
        wavChunk d pos w >>= fun r => wavChunkLoop d fuel r.2 r.1
      else .ok w := by
  rw [wavChunkLoop, wavChunk]
  split
  case isFalse => rfl
  case isTrue =>
    simp only [bind_assoc]
    refine bind_congr fun id => bind_congr fun sz => ?_
    generalize (if i32 sz > _ then _ else sz) = size
    split
    · simp only [bind_assoc, pure_bind]
    · split <;> rfl

/-- What the loop stands at: a position, with what has been collected. -/
inductive ChunkLoop (d : List UInt8) : Int → WavFormat → Prop
  | first : ChunkLoop d 12 {}
  | next {pos pos' : Int} {w w' : WavFormat} : ChunkLoop d pos w → pos + 8 ≤ d.length →
      wavChunk d pos w = .ok (w', pos') → ChunkLoop d pos' w'

/-! ## The condition on the declared sizes -/

/-- How far a declared size moves the position, where `room` bytes are left. -/
def chunkBytes (sz room : Int) : Int :=
  if sz < 2147483648 then (min sz room + 1) / 2 * 2 else (sz + 1) / 2 * 2 - 4294967296

/-- The chunk headers of a RIFF file. -/
inductive ChunkAt (d : List UInt8) : Int → Prop
  | first : ChunkAt d 12
  | next {pos sz : Int} : ChunkAt d pos → pos + 8 ≤ d.length → le32At d (pos + 4) = .ok sz →
      ChunkAt d (pos + 8 + chunkBytes sz (d.length - (pos + 8)))

/-- The size declared at `pos` is below `2 ^ 31`, or one of the last seven, where a format chunk has
its bytes inside the file. -/
def SizeOk (d : List UInt8) (pos : Int) : Prop :=
  ∀ sz, le32At d (pos + 4) = .ok sz → sz < 2147483648 ∨ 4294967289 ≤ sz ∧
    (bytesAt d pos 4 = .ok [0x66, 0x6D, 0x74, 0x20] → pos + 28 ≤ d.length ∧
      (le16At d (pos + 8) = .ok 0xFFFE → pos + 34 ≤ d.length))

/-- Every chunk of the file declares such a size. -/
def SizesOk (d : List UInt8) : Prop := ∀ pos, ChunkAt d pos → pos + 8 ≤ d.length → SizeOk d pos

/-! ## The chunk loop -/

/-- What the chunk loop has collected can be used. -/
structure Collected (d : List UInt8) (w : WavFormat) : Prop where
  blockAlign : 0 ≤ w.blockAlign
  samplesPerBlock : 0 ≤ w.samplesPerBlock
  data : ∀ base len, w.data = some (base, len) → 0 ≤ base ∧ base + len ≤ d.length

theorem wavFmtChunk_inside {pos sz : Int} {w : WavFormat} (hw : Collected d w) (h₀ : 0 ≤ pos)
    (h : pos + 16 ≤ d.length) (hspb : 20 ≤ sz → pos + 20 ≤ d.length)
    (hformat : 40 ≤ sz → le16At d pos = .ok 0xFFFE → pos + 26 ≤ d.length) :
    Succeeds (wavFmtChunk d pos sz w) (Collected d) := by
  obtain ⟨format, hf, -⟩ := le16At_inside h₀ (show pos + 2 ≤ d.length by omega)
  unfold wavFmtChunk
  refine .bind (Q := (format = ·)) ⟨format, hf, rfl⟩ ?_
  rintro _ rfl
  refine .bind (le16At_inside (by omega) (by omega)) fun channels _ => ?_
  refine .bind (le32At_inside (by omega) (by omega)) fun rate _ => ?_
  refine .bind (le16At_inside (by omega) (by omega)) fun bits _ => ?_
  refine .bind (le16At_inside (by omega) (by omega)) fun blockAlign halign => ?_
  -- the format is replaced by the one of the GUID, or kept
  have hend : ∀ samplesPerBlock, 0 ≤ samplesPerBlock → ∀ format',
      Collected d { w with
        format := format', channels, rate := i32 rate, bits, blockAlign, samplesPerBlock } :=
    fun samplesPerBlock hs _ => ⟨halign.1, hs, hw.data⟩
  have hrest : ∀ samplesPerBlock, 0 ≤ samplesPerBlock → Succeeds (do
      let format ← if format = 0xFFFE ∧ sz ≥ 40 then le16At d (pos + 24) else .ok format
      return { w with
        format, channels, rate := i32 rate, bits, blockAlign, samplesPerBlock }) (Collected d) := by
    intro samplesPerBlock hs
    split
    · rename_i hext
      have hguid := hformat hext.2 (hext.1 ▸ hf)
      exact .bind (le16At_inside (by omega) (by omega)) fun _ _ => .pure (hend _ hs _)
    · exact .pure (hend _ hs _)
  by_cases hsize : sz ≥ 20
  · have hlong := hspb hsize
    rw [if_pos hsize]
    exact .bind (le16At_inside (by omega) (by omega)) fun samplesPerBlock hs => hrest _ hs.1
  · rw [if_neg hsize]
    exact hrest _ hw.samplesPerBlock

/-- A size below `2 ^ 31`, clamped, moves the position to the next even one. -/
theorem small_size {sz room : Int} (h : 0 ≤ sz ∧ sz < 2147483648) :
    (if i32 sz > room then room else sz) = min sz room := by
  rw [i32_of_range (by omega)]
  split <;> omega

/-- One of the last seven sizes is not clamped. -/
theorem large_size {sz : Int} (room : Int) (h : 2147483648 ≤ sz ∧ sz < 4294967296) (hroom : 0 ≤ room) :
    (if i32 sz > room then room else sz) = sz := by
  rw [i32_of_upper h, if_neg (by omega)]

/-- The last declared size is even before it is rounded. -/
theorem i32_round {sz : Int} (h : 2147483648 ≤ sz ∧ sz < 4294967296) :
    i32 ((sz + 1) % 4294967296 / 2 * 2) = (sz + 1) / 2 * 2 - 4294967296 := by
  unfold i32 Int.bmod
  simp only
  split <;> omega

/-- **One iteration**: under the condition on its size, a chunk is read inside the file, and the
position moves on to the next chunk. -/
theorem wavChunk_inside {pos : Int} {w : WavFormat} (hn : d.length < 2147483640)
    (hw : Collected d w) (h₀ : 0 ≤ pos) (h : pos + 8 ≤ d.length) (hsize : SizeOk d pos) :
    Succeeds (wavChunk d pos w) fun r => Collected d r.1 ∧ pos < r.2 ∧ r.2 ≤ d.length + 1 ∧
      ∃ sz, le32At d (pos + 4) = .ok sz ∧
        r.2 = pos + 8 + chunkBytes sz (d.length - (pos + 8)) := by
  obtain ⟨id, hid, -⟩ := bytesAt_inside (d := d) (k := 4) h₀ (by omega)
  obtain ⟨sz, hsz, hrange⟩ := le32At_inside (d := d) (i := pos + 4) (by omega) (by omega)
  have hok := hsize sz hsz
  unfold wavChunk
  refine .bind (Q := (id = ·)) ⟨id, hid, rfl⟩ ?_
  rintro _ rfl
  refine .bind (Q := (sz = ·)) ⟨sz, hsz, rfl⟩ ?_
  rintro _ rfl
  -- the size after clamping, and where it leads
  obtain ⟨size, hclamped, hdata, hfmt, hnext⟩ : ∃ size,
      (if i32 sz > (d.length : Int) - (pos + 8) then (d.length : Int) - (pos + 8) else sz) = size ∧
      pos + 8 + i32 size ≤ d.length ∧
      (id = [0x66, 0x6D, 0x74, 0x20] ∧ size ≥ 16 → pos + 24 ≤ d.length ∧
        (20 ≤ size → pos + 28 ≤ d.length) ∧
        (40 ≤ size → le16At d (pos + 8) = .ok 0xFFFE → pos + 34 ≤ d.length)) ∧
      i32 (pos + 8 + i32 ((size + 1) % 4294967296 / 2 * 2)) =
        pos + 8 + chunkBytes sz (d.length - (pos + 8)) := by
    rcases hok with hsmall | ⟨hlarge, hroom⟩
    · refine ⟨_, small_size ⟨hrange.1, hsmall⟩, ?_, ?_, ?_⟩
      · rw [i32_of_range (by omega)]
        omega
      · omega
      · rw [chunkBytes, if_pos hsmall, i32_of_range (x := (_ : Int) / 2 * 2) (by omega),
          i32_of_range (by omega)]
        omega
    · refine ⟨_, large_size _ ⟨by omega, hrange.2⟩ (by omega), ?_, ?_, ?_⟩
      · rw [i32_of_upper ⟨by omega, hrange.2⟩]
        omega
      · rintro ⟨rfl, -⟩
        obtain ⟨hbytes, hguid⟩ := hroom hid
        exact ⟨by omega, fun _ => hbytes, fun _ => hguid⟩
      · rw [chunkBytes, if_neg (by omega), i32_round ⟨by omega, hrange.2⟩,
          i32_of_range (by omega)]
  have hforward : pos < pos + 8 + chunkBytes sz (d.length - (pos + 8)) ∧
      pos + 8 + chunkBytes sz (d.length - (pos + 8)) ≤ d.length + 1 := by
    unfold chunkBytes
    split <;> omega
  rw [← hnext] at hforward
  simp only [hclamped]
  split
  · rename_i hisFmt
    obtain ⟨h16, h20, h40⟩ := hfmt hisFmt
    refine .bind (wavFmtChunk_inside hw (by omega) (by omega) (fun hs => ?_) fun hs hf => ?_)
      fun w' hw' => .pure ⟨hw', hforward.1, hforward.2, sz, hsz, hnext⟩
    · have := h20 hs
      omega
    · have := h40 hs hf
      omega
  · split
    · refine .pure ⟨⟨hw.blockAlign, hw.samplesPerBlock, ?_⟩, hforward.1, hforward.2, sz, hsz, hnext⟩
      rintro _ _ ⟨⟩
      exact ⟨by omega, hdata⟩
    · exact .pure ⟨hw, hforward.1, hforward.2, sz, hsz, hnext⟩

/-- **One iteration, conversely**: a chunk that is read inside the file, and moves the position
forward, has a size that meets the condition. -/
theorem sizeOk_of_wavChunk {pos pos' : Int} {w w' : WavFormat} (hn : d.length < 2147483640)
    (h₀ : 0 ≤ pos) (h : pos + 8 ≤ d.length) (hrun : wavChunk d pos w = .ok (w', pos'))
    (hforward : pos < pos') : SizeOk d pos := by
  intro sz hsz
  obtain ⟨sz', hsz', hrange⟩ := le32At_inside (d := d) (i := pos + 4) (by omega) (by omega)
  obtain rfl : sz' = sz := by
    rw [hsz] at hsz'
    exact (Except.ok.inj hsz').symm
  by_contra hbad
  rw [not_or] at hbad
  obtain ⟨hlarge, hbad⟩ := hbad
  have hclamped := large_size (d.length - (pos + 8)) (show 2147483648 ≤ sz' ∧ _ from ⟨by omega, hrange.2⟩)
    (by omega)
  obtain ⟨id, hid, hrun⟩ := ok_of_bind hrun
  rw [hsz] at hrun
  obtain ⟨_, hsz'', hrun⟩ := ok_of_bind hrun
  obtain rfl := Except.ok.inj hsz''
  simp only [hclamped] at hrun
  obtain ⟨hpos, hfmt⟩ : pos' = i32 (pos + 8 + i32 ((sz' + 1) % 4294967296 / 2 * 2)) ∧
      (id = [0x66, 0x6D, 0x74, 0x20] → ∃ w₁, wavFmtChunk d (pos + 8) sz' w = .ok w₁) := by
    split at hrun
    · obtain ⟨w₁, hfmt, hrun⟩ := ok_of_bind hrun
      exact ⟨(congrArg Prod.snd (Except.ok.inj hrun)).symm, fun _ => ⟨w₁, hfmt⟩⟩
    · rename_i hnot
      have hother : id ≠ [0x66, 0x6D, 0x74, 0x20] := fun hid => hnot ⟨hid, by omega⟩
      split at hrun <;>
        exact ⟨(congrArg Prod.snd (Except.ok.inj hrun)).symm, fun hid => absurd hid hother⟩
  rw [i32_round ⟨by omega, hrange.2⟩, i32_of_range (by omega)] at hpos
  refine hbad ⟨by omega, fun hisFmt => ?_⟩
  obtain ⟨w₁, hrun⟩ := hfmt (Except.ok.inj (hid.symm.trans hisFmt))
  -- the reads of the format chunk, one after the other
  obtain ⟨format, hformat, hrun⟩ := ok_of_bind hrun
  obtain ⟨_, -, hrun⟩ := ok_of_bind hrun
  obtain ⟨_, -, hrun⟩ := ok_of_bind hrun
  obtain ⟨_, -, hrun⟩ := ok_of_bind hrun
  obtain ⟨_, -, hrun⟩ := ok_of_bind hrun
  rw [if_pos (show sz' ≥ 20 by omega)] at hrun
  obtain ⟨_, hspb, hrun⟩ := ok_of_bind hrun
  have hbytes := le16At_ok hspb
  refine ⟨by omega, fun hext => ?_⟩
  obtain rfl := Except.ok.inj (hformat.symm.trans hext)
  dsimp only at hrun
  rw [if_pos (show (0xFFFE : Int) = 0xFFFE ∧ sz' ≥ 40 from ⟨rfl, by omega⟩)] at hrun
  obtain ⟨_, hguid, -⟩ := ok_of_bind hrun
  have := le16At_ok hguid
  omega

/-- The code's positions are chunks. -/
theorem ChunkLoop.collected (hn : d.length < 2147483640) (hsizes : SizesOk d) {pos : Int}
    {w : WavFormat} (h : ChunkLoop d pos w) : ChunkAt d pos ∧ 0 ≤ pos ∧ Collected d w := by
  induction h with
  | first => exact ⟨.first, by omega, ⟨by decide, by decide, nofun⟩⟩
  | next _ hroom hrun ih =>
    obtain ⟨hat, h₀, hw⟩ := ih
    obtain ⟨_, heq, hw', hlt, -, sz, hsz, hnext⟩ :=
      wavChunk_inside hn hw h₀ hroom (hsizes _ hat hroom)
    obtain ⟨rfl, rfl⟩ := Prod.mk.inj (Except.ok.inj (hrun.symm.trans heq))
    exact ⟨hnext ▸ hat.next hroom hsz, by omega, hw'⟩

/-- Where every iteration of the code is right, the chunks are the code's positions. -/
theorem ChunkAt.chunkLoop (hn : d.length < 2147483640)
    (hsafe : ∀ pos w, ChunkLoop d pos w → pos + 8 ≤ d.length →
      ∃ w' pos', wavChunk d pos w = .ok (w', pos') ∧ pos < pos') {pos : Int}
    (h : ChunkAt d pos) : 0 ≤ pos ∧ ∃ w, ChunkLoop d pos w ∧ Collected d w := by
  induction h with
  | first => exact ⟨by omega, {}, .first, ⟨by decide, by decide, nofun⟩⟩
  | next _ hroom hsz ih =>
    obtain ⟨h₀, w, hat, hw⟩ := ih
    obtain ⟨w', pos', hrun, hforward⟩ := hsafe _ w hat hroom
    have hsize := sizeOk_of_wavChunk hn h₀ hroom hrun hforward
    obtain ⟨_, heq, hw', hlt, -, sz', hsz', hnext⟩ := wavChunk_inside hn hw h₀ hroom hsize
    obtain ⟨rfl, rfl⟩ := Prod.mk.inj (Except.ok.inj (hrun.symm.trans heq))
    obtain rfl := Except.ok.inj (hsz.symm.trans hsz')
    rw [← hnext]
    exact ⟨by omega, _, hat.next hroom hrun, hw'⟩

/-- **The chunk loop ends**, since every iteration moves forward. -/
theorem wavChunkLoop_inside (hn : d.length < 2147483640) (hsizes : SizesOk d) {fuel : Nat} :
    ∀ {pos : Int} {w : WavFormat}, ChunkLoop d pos w → pos ≤ d.length + 1 →
      d.length + 1 < fuel + pos → Succeeds (wavChunkLoop d fuel pos w) (Collected d) := by
  induction fuel with
  | zero =>
    intro pos w _ hpos hfuel
    omega
  | succ fuel ih =>
    intro pos w h hpos hfuel
    obtain ⟨hat, h₀, hw⟩ := h.collected hn hsizes
    rw [wavChunkLoop_succ]
    split
    · rename_i hroom
      obtain ⟨r, hrun, -, hlt, hle, -⟩ := wavChunk_inside hn hw h₀ hroom (hsizes _ hat hroom)
      rw [hrun]
      exact ih (h.next hroom hrun) hle (by omega)
    · exact .ok hw

/-! ## The samples -/

/-- The source position of an output frame. -/
theorem resample_frame {total rate : Int} {i n : Nat} (hrate : 0 < rate)
    (hi : (i + (n + 1 : Nat)) * rate ≤ total * WAV_PCM_RATE) :
    0 ≤ (i : Int) * rate ∧ (i : Int) * rate < total * WAV_PCM_RATE := by
  have hi₀ : 0 ≤ (i : Int) * rate := Int.mul_nonneg (by omega) (by omega)
  have hn₀ : 0 ≤ (n : Int) * rate := Int.mul_nonneg (by omega) (by omega)
  have hsum : ((i : Int) + (n + 1 : Nat)) * rate = i * rate + n * rate + rate := by
    push_cast
    ring
  omega

/-- The index of a source frame is an `int`; it is clipped to the last frame, and only below it the
next frame is read. -/
theorem interpolation_index {total frame : Int} (htotal : total < 2147483648)
    (hframe : 0 ≤ frame ∧ frame < total * WAV_PCM_RATE) :
    (-2147483648 ≤ frame * 256 / WAV_PCM_RATE / 256 ∧
        frame * 256 / WAV_PCM_RATE / 256 < 2147483648) ∧
      ∀ p : Int × Int, (if frame * 256 / WAV_PCM_RATE / 256 ≥ total - 1 then (total - 1, 0)
          else (frame * 256 / WAV_PCM_RATE / 256, frame * 256 / WAV_PCM_RATE % 256)) = p →
        0 ≤ p.1 ∧ p.1 < total ∧ (p.2 ≠ 0 → p.1 + 1 < total) := by
  obtain ⟨outRate, hrate⟩ : ∃ outRate, WAV_PCM_RATE = outRate := ⟨_, rfl⟩
  rw [hrate] at hframe ⊢
  obtain rfl : 22050 = outRate := hrate
  refine ⟨by omega, fun p hp => ?_⟩
  split at hp <;> subst hp <;> simp only <;> omega

/-- Resampling reads only source frames below `total`. -/
theorem resample_inside {src : Int → Except Fault (Int × Int)} {total rate : Int}
    (hsrc : ∀ idx, 0 ≤ idx → idx < total → Succeeds (src idx) fun _ => True)
    (htotal : 0 < total ∧ total < 2147483648) (hrate : 0 < rate) {n : Nat} :
    ∀ {i : Nat}, (i + n) * rate ≤ total * WAV_PCM_RATE →
      Succeeds (resample src total rate i n) fun _ => True := by
  induction n with
  | zero => exact fun _ => .ok trivial
  | succ n ih =>
    intro i hi
    obtain ⟨hfit, hclip⟩ := interpolation_index htotal.2 (resample_frame hrate hi)
    have hrest : Succeeds (resample src total rate (i + 1) n) fun _ => True := by
      refine ih ?_
      rw [show (((i + 1 : Nat) : Int) + n) = (i : Int) + (n + 1 : Nat) by push_cast; ring]
      exact hi
    unfold resample
    simp only [i32_of_range hfit]
    generalize hp : (if _ ≥ total - 1 then _ else _ : Int × Int) = p
    obtain ⟨hp₀, hlt, hnext⟩ := hclip p hp
    refine .bind (hsrc p.1 hp₀ hlt) fun _ _ => ?_
    split
    · refine .bind (hsrc (p.1 + 1) (by lia) (hnext (by assumption))) fun _ _ => ?_
      exact .bind hrest fun _ _ => .pure trivial
    · refine .bind (.ok (P := fun _ => True) trivial) fun _ _ => ?_
      exact .bind hrest fun _ _ => .pure trivial

/-- A budget that is exceeded holds fewer frames. -/
theorem budget_frames_le {budget frames : Int} (hover : budget < frames * 4) :
    Int.tdiv budget 4 ≤ frames := by
  by_cases hbudget : 0 ≤ budget
  · rw [Int.tdiv_eq_ediv_of_nonneg hbudget]
    omega
  · obtain ⟨k, rfl⟩ : ∃ k : Int, budget = -k := ⟨_, (Int.neg_neg _).symm⟩
    rw [Int.neg_tdiv, Int.tdiv_eq_ediv_of_nonneg (by omega)]
    omega

theorem wavFinish_inside {env : Env σ} {src : Int → Except Fault (Int × Int)} {total rate : Int}
    (c : Cell σ) (hsrc : ∀ idx, 0 ≤ idx → idx < total → Succeeds (src idx) fun _ => True)
    (htotal : 0 < total ∧ total < 2147483648) (hrate : 0 < rate) :
    Succeeds (wavFinish env src total rate c) fun _ => True := by
  unfold wavFinish
  simp only
  split
  · exact .pure trivial
  · rename_i hpos
    have hframes : i32 (Int.tdiv (total * WAV_PCM_RATE) rate) * rate ≤ total * WAV_PCM_RATE := by
      simp only [WAV_PCM_RATE]
      rw [Int.tdiv_eq_ediv_of_nonneg (by omega)]
      have hle := i32_le (Int.ediv_nonneg (show 0 ≤ total * 22050 by omega) hrate.le)
      exact (Int.mul_le_mul_of_nonneg_right hle hrate.le).trans (Int.ediv_mul_le _ (by omega))
    generalize i32 (Int.tdiv (total * WAV_PCM_RATE) rate) = frames at hpos hframes ⊢
    -- clipped or not, no more frames than the source has
    generalize hclip : (if i32 (frames * 4) > _ then _ else frames) = frames'
    have hle : frames' ≤ frames := by
      have hbytes := i32_le (show 0 ≤ frames * 4 by omega)
      split at hclip <;> subst hclip
      · exact budget_frames_le (by omega)
      · omega
    split
    · exact .pure trivial
    · split
      · exact .pure trivial
      · refine .bind (resample_inside hsrc htotal hrate ?_) fun _ _ => .pure trivial
        have := Int.mul_le_mul_of_nonneg_right hle hrate.le
        rw [show ((0 : Nat) : Int) + (frames'.toNat : Int) = frames' by omega]
        omega

/-- A frame of PCM data. -/
theorem wavReadSrc_inside {base dataLen channels bits : Int} (h₀ : 0 ≤ base)
    (hdata : base + dataLen ≤ d.length) (hch : channels = 1 ∨ channels = 2)
    (hbits : bits = 8 ∨ bits = 16) {frame : Int} (hframe : 0 ≤ frame)
    (hlt : frame < Int.tdiv dataLen (channels * (bits / 8))) (hpos : 0 < dataLen) :
    Succeeds (wavReadSrc d base channels bits frame) fun _ => True := by
  rw [Int.tdiv_eq_ediv_of_nonneg (by omega)] at hlt
  unfold wavReadSrc
  rcases hbits with rfl | rfl
  · rw [if_pos rfl]
    rcases hch with rfl | rfl
    all_goals
      norm_num only at hlt
      refine .bind (byteAt_inside ⟨by omega, by omega⟩) fun lv _ => ?_
      split
      · refine .bind (byteAt_inside ⟨by omega, by omega⟩) fun rv _ => .pure trivial
      · exact .pure trivial
  · rw [if_neg (by decide)]
    rcases hch with rfl | rfl
    all_goals
      norm_num only at hlt
      refine .bind (le16At_inside (by omega) (by omega)) fun lv _ => ?_
      split
      · refine .bind (le16At_inside (by omega) (by omega)) fun rv _ => .pure trivial
      · exact .pure trivial

/-! ## ADPCM blocks -/

section Block

variable {blk channels blockAlign : Int}

theorem imaPreamble_inside (ch : Nat) (h₀ : 0 ≤ blk) (hblk : blk + blockAlign ≤ d.length)
    (hch : 4 * ((ch : Int) + 1) < blockAlign) : Succeeds (imaPreamble d blk ch) fun _ => True := by
  refine .bind (le16At_inside (by omega) (by omega)) fun pred _ => ?_
  exact .bind (byteAt_inside ⟨by omega, by omega⟩) fun stepi _ => .pure trivial

theorem imaSample_inside (h₀ : 0 ≤ blk) (hblk : blk + blockAlign ≤ d.length)
    (hchannels : 0 ≤ channels) {i ch : Nat} (hi : 1 ≤ i) (s : ImaState) :
    Succeeds (imaSample d blk channels blockAlign i ch s) fun _ => True := by
  unfold imaSample
  simp only
  generalize hidx : (if channels = 1 then _ else _ : Int) = byteIdx
  have hnonneg : 0 ≤ byteIdx := by
    split at hidx <;> omega
  split
  · exact .pure trivial
  · exact .bind (byteAt_inside ⟨by omega, by omega⟩) fun b _ => .pure trivial

theorem imaBlockLoop_inside (h₀ : 0 ≤ blk) (hblk : blk + blockAlign ≤ d.length)
    (hchannels : 0 ≤ channels) {n : Nat} : ∀ {i : Nat}, 1 ≤ i → ∀ l r : ImaState,
      Succeeds (imaBlockLoop d blk channels blockAlign i n l r) (·.length = n) := by
  induction n with
  | zero => exact fun _ _ _ => .ok rfl
  | succ n ih =>
    intro i hi l r
    unfold imaBlockLoop
    refine .bind (imaSample_inside h₀ hblk hchannels hi l) fun l _ => ?_
    have hrest : ∀ r, Succeeds (imaBlockLoop d blk channels blockAlign (i + 1) n l r >>=
        fun rest => pure ((l.pred, r.pred) :: rest)) (·.length = n + 1) := fun r =>
      .bind (ih (by omega) l r) fun rest hlen => .pure (by simp [hlen])
    split
    · exact .bind (imaSample_inside h₀ hblk hchannels hi r) fun r _ => hrest r
    · exact hrest l

/-- **The blocks of an ADPCM file** are read inside the data, and each gives its samples. -/
theorem imaBlocks_inside {base samplesPerBlock : Int} (h₀ : 0 ≤ base)
    (hchannels : channels = 1 ∨ channels = 2) (halign : 4 * channels < blockAlign)
    (hsamples : 0 < samplesPerBlock) {n : Nat} : ∀ {b : Nat},
      base + (b + n) * blockAlign ≤ d.length →
      Succeeds (imaBlocks d base channels blockAlign samplesPerBlock b n)
        fun samples => (samples.length : Int) = n * samplesPerBlock := by
  induction n with
  | zero => exact fun _ => .ok (by simp)
  | succ n ih =>
    intro b hb
    have hb₀ : 0 ≤ (b : Int) * blockAlign := Int.mul_nonneg (by omega) (by omega)
    have hn₀ : 0 ≤ (n : Int) * blockAlign := Int.mul_nonneg (by omega) (by omega)
    have hsum : ((b : Int) + (n + 1 : Nat)) * blockAlign = b * blockAlign + n * blockAlign +
        blockAlign := by
      push_cast
      ring
    have hrest := ih (b := b + 1) (by
      rw [show (((b + 1 : Nat) : Int) + n) = (b : Int) + (n + 1 : Nat) by push_cast; ring]
      exact hb)
    unfold imaBlocks
    have hinside : base + b * blockAlign + blockAlign ≤ d.length := by omega
    refine .bind (imaPreamble_inside 0 (by omega) hinside (by omega)) fun l _ => ?_
    have hblock : ∀ r : ImaState, Succeeds (do
        let samples ← imaBlockLoop d (base + b * blockAlign) channels blockAlign 1
          (samplesPerBlock.toNat - 1) l r
        let rest ← imaBlocks d base channels blockAlign samplesPerBlock (b + 1) n
        return (l.pred, r.pred) :: samples ++ rest)
        fun samples => (samples.length : Int) = (n + 1 : Nat) * samplesPerBlock := by
      intro r
      refine .bind (imaBlockLoop_inside (by omega) (by omega) (by omega) (le_refl 1) l r)
        fun samples hlen => ?_
      refine .bind hrest fun rest hrestLen => .pure ?_
      have hexpand : ((n + 1 : Nat) : Int) * samplesPerBlock = n * samplesPerBlock +
          samplesPerBlock := by
        push_cast
        ring
      rw [List.length_append, List.length_cons, hlen, hexpand, ← hrestLen]
      omega
    split
    · exact .bind (imaPreamble_inside 1 (by omega) hinside (by omega)) fun r _ => hblock r
    · exact hblock l

end Block

theorem sampleAt_inside {samples : List (Int × Int)} {idx : Int} (h₀ : 0 ≤ idx)
    (h : idx < samples.length) : Succeeds (sampleAt samples idx) fun _ => True := by
  unfold sampleAt
  rw [if_pos h₀, List.getElem?_eq_getElem (by omega)]
  exact .ok trivial

/-- `x` reads inside the buffer: it returns, or finds that a frame count is no `int`. -/
def Inside {α : Type} (x : Except Fault α) : Prop :=
  x = .error .writeOutside ∨ Succeeds x fun _ => True

theorem Inside.bind {α β : Type} {x : Except Fault α} {f : α → Except Fault β} {Q : α → Prop}
    (hx : Succeeds x Q) (hf : ∀ a, Q a → Inside (f a)) : Inside (x >>= f) := by
  obtain ⟨a, rfl, ha⟩ := hx
  exact hf a ha

/-- The ADPCM decoder reads inside the data. -/
theorem wavDecodeAdpcm_inside (env : Env σ) {base dataLen : Int} {w : WavFormat} (c : Cell σ)
    (h₀ : 0 ≤ base) (hdata : base + dataLen ≤ d.length) (hpos : 0 < dataLen)
    (hchannels : w.channels = 1 ∨ w.channels = 2) (hrate : 0 < w.rate) :
    Inside (wavDecodeAdpcm env d base dataLen w c) := by
  unfold wavDecodeAdpcm
  split
  · exact .inr (.pure trivial)
  rename_i halign
  simp only
  generalize (if w.samplesPerBlock ≤ 0 ∨ w.samplesPerBlock > 4096 then _ else _) = perBlock
  split
  · exact .inr (.pure trivial)
  rename_i hblocks
  rw [not_or] at hblocks
  split
  · exact .inr (.pure trivial)
  split
  · exact .inl rfl
  rename_i hfit
  right
  rw [Int.tdiv_eq_ediv_of_nonneg hpos.le] at hblocks hfit ⊢
  have hread : dataLen / w.blockAlign * w.blockAlign ≤ dataLen :=
    Int.ediv_mul_le _ (by omega)
  generalize dataLen / w.blockAlign = blocks at hblocks hfit hread ⊢
  refine .bind (imaBlocks_inside h₀ hchannels (by omega) (by omega) ?_) fun samples hlen => ?_
  · rw [show ((0 : Nat) : Int) + (blocks.toNat : Int) = blocks by omega]
    omega
  · rw [show (blocks.toNat : Int) = blocks by omega] at hlen
    have htotal : 0 < blocks * perBlock := Int.mul_pos (by omega) (by omega)
    exact wavFinish_inside _ (fun idx hidx hlt => sampleAt_inside hidx (by lia))
      ⟨htotal, by lia⟩ hrate

/-! ## The whole decoder -/

/-- The file that the chunk loop gets to see. -/
def IsRiff (d : List UInt8) : Prop :=
  44 ≤ d.length ∧ bytesAt d 0 4 = .ok [0x52, 0x49, 0x46, 0x46] ∧
    bytesAt d 8 4 = .ok [0x57, 0x41, 0x56, 0x45]

/-- The chunk loop ends, every iteration of it moves the position forward, and no byte outside the
buffer is read, neither for a chunk nor for a sample. -/
def WavSafe (d : List UInt8) : Prop :=
  (IsRiff d → ∀ pos w, ChunkLoop d pos w → pos + 8 ≤ d.length →
    ∃ w' pos', wavChunk d pos w = .ok (w', pos') ∧ pos < pos') ∧
  ∀ {σ : Type} (env : Env σ) (c : Cell σ), c.p.raw = some d → d.length < env.fuel →
    wavDecode env c ≠ .error .outOfFuel ∧ wavDecode env c ≠ .error .readOutside

/-- Under the condition, `wav_decode` reads inside the buffer. -/
theorem wavDecode_inside (hn : d.length < 2147483640) (hsizes : IsRiff d → SizesOk d)
    (env : Env σ) (c : Cell σ) (hraw : c.p.raw = some d) (hfuel : d.length < env.fuel) :
    Inside (wavDecode env c) := by
  have hgiveUp : Inside (pure (c, false) : Except Fault (Cell σ × Bool)) := .inr (.pure trivial)
  unfold wavDecode
  rw [hraw]
  dsimp only
  split
  · exact hgiveUp
  rename_i hlen
  obtain ⟨riff, hriff, -⟩ := bytesAt_inside (d := d) (k := 4) (i := 0) (by omega) (by omega)
  obtain ⟨wave, hwave, -⟩ := bytesAt_inside (d := d) (k := 4) (i := 8) (by omega) (by omega)
  refine .bind (Q := (riff = ·)) ⟨riff, hriff, rfl⟩ ?_
  rintro _ rfl
  refine .bind (Q := (wave = ·)) ⟨wave, hwave, rfl⟩ ?_
  rintro _ rfl
  split
  · exact hgiveUp
  rename_i hmagic
  rw [not_or, not_not, not_not] at hmagic
  obtain ⟨rfl, rfl⟩ := hmagic
  refine .bind (wavChunkLoop_inside hn (hsizes ⟨by omega, hriff, hwave⟩) .first (by omega)
    (by omega)) fun w hw => ?_
  split
  · exact hgiveUp
  rename_i base dataLen hdata
  obtain ⟨h₀, hinside⟩ := hw.data base dataLen hdata
  split
  · exact hgiveUp
  rename_i hpos
  split
  · rename_i hadpcm
    exact wavDecodeAdpcm_inside env c h₀ hinside (by omega) hadpcm.2.2.1 (by omega)
  split
  · exact hgiveUp
  rename_i hpcm
  simp only [not_or, not_and, Int.not_lt, not_not] at hpcm
  split
  · exact hgiveUp
  rename_i hframes
  have hle : Int.tdiv dataLen (w.channels * (w.bits / 8)) ≤ dataLen :=
    Int.tdiv_le_self _ (by omega)
  exact .inr (wavFinish_inside c (fun idx h hlt =>
    wavReadSrc_inside h₀ hinside (by lia) (by lia) h hlt (by lia)) ⟨by lia, by lia⟩
    (by lia))

/-- **RIFF parsing stays inside the data and ends, exactly for the files whose declared chunk sizes
are harmless.** -/
theorem wavSafe_iff (hn : (d.length : Int) ≤ WAV_MAX_RAW_PER_PLAYER) :
    WavSafe d ↔ (IsRiff d → SizesOk d) := by
  have hlen : d.length < 2147483640 := by
    simp only [WAV_MAX_RAW_PER_PLAYER] at hn
    omega
  constructor
  · intro hsafe hriff pos hat hroom
    obtain ⟨h₀, w, hloop, -⟩ := hat.chunkLoop hlen (hsafe.1 hriff)
    obtain ⟨w', pos', hrun, hforward⟩ := hsafe.1 hriff pos w hloop hroom
    exact sizeOk_of_wavChunk hlen h₀ hroom hrun hforward
  · intro hsizes
    refine ⟨fun hriff pos w hloop hroom => ?_, fun env c hraw hfuel => ?_⟩
    · obtain ⟨hat, h₀, hw⟩ := hloop.collected hlen (hsizes hriff)
      obtain ⟨r, hrun, -, hforward, -⟩ :=
        wavChunk_inside hlen hw h₀ hroom (hsizes hriff pos hat hroom)
      exact ⟨r.1, r.2, hrun, hforward⟩
    · rcases wavDecode_inside hlen hsizes env c hraw hfuel with hwrite | ⟨r, hok, -⟩
      · rw [hwrite]
        exact ⟨nofun, nofun⟩
      · rw [hok]
        exact ⟨nofun, nofun⟩

/-- A RIFF file of 44 bytes whose only chunk has the given size. -/
def riffWithSize (size : List UInt8) : List UInt8 :=
  [0x52, 0x49, 0x46, 0x46, 36, 0, 0, 0, 0x57, 0x41, 0x56, 0x45, 0x4C, 0x49, 0x53, 0x54] ++ size ++
    List.replicate 24 0

/-- A list chunk of 24 bytes is harmless. -/
theorem wavSafe_small : WavSafe (riffWithSize [24, 0, 0, 0]) := by
  have hsize : le32At (riffWithSize [24, 0, 0, 0]) 16 = .ok 24 := by rfl
  have hat : ∀ pos, ChunkAt (riffWithSize [24, 0, 0, 0]) pos → pos = 12 ∨ pos = 44 := by
    intro pos h
    induction h with
    | first => exact .inl rfl
    | next _ hroom hsz ih =>
      rcases ih with rfl | rfl
      · obtain rfl := Except.ok.inj (hsize.symm.trans hsz)
        exact .inr (by decide)
      · exact absurd hroom (by decide)
  refine (wavSafe_iff (by decide)).2 fun _ pos hpos hroom sz hsz => .inl ?_
  rcases hat pos hpos with rfl | rfl
  · obtain rfl := Except.ok.inj (hsize.symm.trans hsz)
    decide
  · exact absurd hroom (by decide)

/-- **A chunk that leads back to itself.**  The size `0xFFFFFFF8` is `-8` as an `int`: the loop
stands at the same chunk for ever. -/
theorem wavChunk_stuck : ¬ ∀ d : List UInt8, (d.length : Int) ≤ WAV_MAX_RAW_PER_PLAYER →
    WavSafe d := by
  intro h
  have hsafe := h (riffWithSize [0xF8, 0xFF, 0xFF, 0xFF]) (by decide)
  obtain ⟨w', pos', hrun, hforward⟩ := hsafe.1 ⟨by decide, rfl, rfl⟩ 12 {} .first (by decide)
  have hsize : le32At (riffWithSize [0xF8, 0xFF, 0xFF, 0xFF]) 16 = .ok 4294967288 := by rfl
  rcases sizeOk_of_wavChunk (by decide) (by decide) (by decide) hrun hforward _ hsize with h | h
  · exact absurd h (by decide)
  · exact absurd h.1 (by decide)

end FroggyKVM.Audio
