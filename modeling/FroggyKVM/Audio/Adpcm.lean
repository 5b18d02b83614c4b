/-
# FroggyKVM.Audio.Adpcm — the buffers of `wav_decode_adpcm` (`platform_gb300/audio.c`).

`Audio.Wave` decodes ADPCM blocks to lists.  Here the decoder has its two `int16_t` buffers, of the
sizes that `malloc` is asked for, and every index and every frame count is a checked `int`.  **The
decoder keeps to its buffers exactly where the frame counts fit**: the samples of all channels in an
`int`, and so the bytes of the output.
-/
import FroggyKVM.Audio.SmfSafety
import FroggyKVM.Audio.WaveSafety

namespace FroggyKVM.Audio

variable {σ : Type} {d : List UInt8}

/-! ## Cells -/

/-- The cells of `malloc(bytes)`, whose argument is a 32-bit `size_t`; they hold anything. -/
def malloc16 (junk : Nat → Int) (bytes : Int) : Buffer Int :=
  ⟨(bytes % 4294967296 / 2).toNat, junk⟩

def loadCell (m : Buffer Int) (i : Int) : Except Violation Int :=
  if 0 ≤ i ∧ i < m.length then .ok (m.data i.toNat) else .error (.fault .readOutside)

def storeCell (m : Buffer Int) (i x : Int) : Except Violation (Buffer Int) :=
  if 0 ≤ i ∧ i < m.length then .ok { m with data := Function.update m.data i.toNat x }
  else .error (.fault .writeOutside)

/-- `(b * samplesPerBlock + i) * channels + ch`. -/
def srcIndex (samplesPerBlock channels : Int) (b i ch : Nat) : Except Violation Int := do
  let row ← int32 (b * samplesPerBlock)
  let row ← int32 (row + i)
  let cell ← int32 (row * channels)
  int32 (cell + ch)

/-! ## Decoding into the source buffer -/

/-- Channel `ch` of the preamble of block `b`, with its first sample. -/
def preambleInto (d : List UInt8) (blk samplesPerBlock channels : Int) (b ch : Nat)
    (src : Buffer Int) : Except Violation (ImaState × Buffer Int) := do
  let s ← (imaPreamble d blk ch).mapError .fault
  let cell ← srcIndex samplesPerBlock channels b 0 ch
  let src ← storeCell src cell s.pred
  return (s, src)

/-- Channel `ch`'s sample number `i ≥ 1` of block `b`. -/
def sampleInto (d : List UInt8) (blk channels blockAlign samplesPerBlock : Int) (b i ch : Nat)
    (s : ImaState) (src : Buffer Int) : Except Violation (ImaState × Buffer Int) := do
  let s ← (imaSample d blk channels blockAlign i ch s).mapError .fault
  let cell ← srcIndex samplesPerBlock channels b i ch
  let src ← storeCell src cell s.pred
  return (s, src)

/-- The samples `i, i + 1, …` of block `b`. -/
def blockLoopInto (d : List UInt8) (blk channels blockAlign samplesPerBlock : Int) (b : Nat) :
    Nat → Nat → ImaState → ImaState → Buffer Int → Except Violation (Buffer Int)
  | _, 0, _, _, src => .ok src
  | i, n + 1, l, r, src => do
    let (l, src) ← sampleInto d blk channels blockAlign samplesPerBlock b i 0 l src
    let (r, src) ← if channels > 1 then
        sampleInto d blk channels blockAlign samplesPerBlock b i 1 r src
      else .ok (l, src)
    blockLoopInto d blk channels blockAlign samplesPerBlock b (i + 1) n l r src

/-- The blocks `b, b + 1, …`. -/
def blocksInto (d : List UInt8) (base channels blockAlign samplesPerBlock : Int) :
    Nat → Nat → Buffer Int → Except Violation (Buffer Int)
  | _, 0, src => .ok src
  | b, n + 1, src => do
    let offset ← int32 (b * blockAlign)
    let blk := base + offset
    let (l, src) ← preambleInto d blk samplesPerBlock channels b 0 src
    let (r, src) ← if channels > 1 then preambleInto d blk samplesPerBlock channels b 1 src
      else .ok (l, src)
    let src ← blockLoopInto d blk channels blockAlign samplesPerBlock b 1
      (samplesPerBlock.toNat - 1) l r src
    blocksInto d base channels blockAlign samplesPerBlock (b + 1) n src

/-! ## Resampling into the output buffer -/

/-- `src[idx * channels]` and `src[idx * channels + 1]`. -/
def loadFrame (src : Buffer Int) (channels idx : Int) : Except Violation (Int × Int) := do
  let cell ← int32 (idx * channels)
  let l ← loadCell src cell
  if channels > 1 then
    let cell ← int32 (cell + 1)
    let r ← loadCell src cell
    return (l, r)
  else return (l, l)

/-- The output frames `i, i + 1, …`. -/
def resampleInto (src : Buffer Int) (channels total rate : Int) :
    Nat → Nat → Buffer Int → Except Violation (Buffer Int)
  | _, 0, pcm => .ok pcm
  | i, n + 1, pcm => do
    let fixed := (i : Int) * rate * 256 / WAV_PCM_RATE
    let idx ← int32 (fixed / 256)
    let frac := fixed % 256
    let (idx, frac) := if idx ≥ total - 1 then (total - 1, 0) else (idx, frac)
    let (l0, r0) ← loadFrame src channels idx
    let (l1, r1) ← if frac ≠ 0 then loadFrame src channels (idx + 1) else .ok (l0, r0)
    let cell ← int32 (i * 2)
    let pcm ← storeCell pcm cell (i16 ((l0 * (256 - frac) + l1 * frac) / 256))
    let pcm ← storeCell pcm (cell + 1) (i16 ((r0 * (256 - frac) + r1 * frac) / 256))
    resampleInto src channels total rate (i + 1) n pcm

/-! ## The decoder -/

/-- `samplesPerBlock` after its correction from the block's size. -/
def blockFrames (w : WavFormat) : Int :=
  if w.samplesPerBlock ≤ 0 ∨ w.samplesPerBlock > 4096 then
    Int.tdiv ((w.blockAlign - 4 * w.channels) * 2) w.channels + 1
  else w.samplesPerBlock

/-- `wav_decode_adpcm`, with its buffers. -/
def wavDecodeAdpcmMem (env : Env σ) (junk : Nat → Int) (d : List UInt8) (base dataLen : Int)
    (w : WavFormat) (c : Cell σ) : Except Violation (Cell σ × Bool) := do
  if w.blockAlign ≤ 4 * w.channels then return (c, false)
  let samplesPerBlock ← int32 (blockFrames w)
  let blocks := Int.tdiv dataLen w.blockAlign
  if blocks ≤ 0 ∨ samplesPerBlock ≤ 0 then return (c, false)
  let totalFrames ← int32 (blocks * samplesPerBlock)
  if !env.mallocOk c.heap then return ({ c with heap := c.heap + 1 }, false)
  let src ← blocksInto d base w.channels w.blockAlign samplesPerBlock 0 blocks.toNat
    (malloc16 junk (totalFrames * w.channels * 2))
  let budget := WAV_MAX_PCM_TOTAL - c.pcmTotal
  let outFrames ← int32 (Int.tdiv (totalFrames * WAV_PCM_RATE) w.rate)
  if outFrames ≤ 0 then return ({ c with heap := c.heap + 1 }, false)
  let bytes ← int32 (outFrames * 4)
  let outFrames := if bytes > budget then Int.tdiv budget 4 else outFrames
  if outFrames ≤ 0 then return ({ c with heap := c.heap + 1 }, false)
  if !env.mallocOk (c.heap + 1) then return ({ c with heap := c.heap + 2 }, false)
  let pcm ← resampleInto src w.channels totalFrames w.rate 0 outFrames.toNat
    (malloc16 junk (outFrames * 4))
  let durationMs ← int32 (Int.tdiv (totalFrames * 1000) w.rate)
  return ({ c with
    heap := c.heap + 2
    pcmTotal := c.pcmTotal + outFrames * 4
    p := { c.p with pcm := some ((List.range (2 * outFrames.toNat)).map pcm.data)
                    pcmFrames := outFrames, channels := 2, durationMs := durationMs } }, true)

/-! ## The decoder state of a channel -/

/-- Step index and predictor are in range. -/
structure ImaState.InRange (s : ImaState) : Prop where
  stepi : 0 ≤ s.stepi ∧ s.stepi ≤ 88
  pred : -32768 ≤ s.pred ∧ s.pred ≤ 32767

/-- The states of channel `ch` in the block at `blk`: after the preamble, and after each sample. -/
inductive ChannelState (d : List UInt8) (blk channels blockAlign : Int) (ch : Nat) :
    Nat → ImaState → Prop
  | preamble {s : ImaState} : imaPreamble d blk ch = .ok s →
      ChannelState d blk channels blockAlign ch 0 s
  | sample {i : Nat} {s s' : ImaState} : ChannelState d blk channels blockAlign ch i s →
      imaSample d blk channels blockAlign (i + 1) ch s = .ok s' →
      ChannelState d blk channels blockAlign ch (i + 1) s'

theorem clampSample_range (x : Int) : -32768 ≤ clampSample x ∧ clampSample x ≤ 32767 := by
  unfold clampSample
  split
  · omega
  · split <;> omega

theorem i16_range (x : Int) : -32768 ≤ i16 x ∧ i16 x ≤ 32767 := by
  unfold i16 Int.bmod
  simp only
  split <;> omega

/-- Every nibble clamps both. -/
theorem imaNibble_inRange (s : ImaState) (nib : Nat) : (imaNibble s nib).InRange := by
  refine ⟨?_, clampSample_range _⟩
  unfold imaNibble
  simp only
  split
  · omega
  · split <;> omega

theorem imaSample_inRange {blk channels blockAlign : Int} {i ch : Nat} {s s' : ImaState}
    (hs : s.InRange) (h : imaSample d blk channels blockAlign i ch s = .ok s') : s'.InRange := by
  unfold imaSample at h
  simp only at h
  generalize (if channels = 1 then _ else _ : Int) = byteIdx at h
  split at h
  · obtain rfl := Except.ok.inj h
    exact hs
  · obtain ⟨b, -, h⟩ := ok_of_bind h
    obtain rfl := Except.ok.inj h
    exact imaNibble_inRange s _

/-- **Step index and predictor stay in range**, after the preamble and after every nibble. -/
theorem ChannelState.inRange {blk channels blockAlign : Int} {ch i : Nat} {s : ImaState}
    (h : ChannelState d blk channels blockAlign ch i s) : s.InRange := by
  induction h with
  | preamble h =>
    obtain ⟨pred, -, h⟩ := ok_of_bind h
    obtain ⟨stepi, -, h⟩ := ok_of_bind h
    obtain rfl := Except.ok.inj h
    exact ⟨by simp only; omega, i16_range pred⟩
  | sample _ h ih => exact imaSample_inRange ih h

/-! ## Cells that have been written -/

/-- The first cells of `m` hold `written`. -/
structure Filled (m : Buffer Int) (written : List Int) : Prop where
  length : written.length ≤ m.length
  data : ∀ k (h : k < written.length), m.data k = written[k]

theorem Filled.nil (m : Buffer Int) : Filled m [] :=
  ⟨Nat.zero_le _, fun _ h => absurd h (Nat.not_lt_zero _)⟩

/-- Writing the first cell that has not been written. -/
theorem Filled.store {m : Buffer Int} {written : List Int} (h : Filled m written) {i : Int}
    (hi : i = written.length) (hroom : written.length < m.length) (x : Int) :
    ∃ m', storeCell m i x = .ok m' ∧ m'.length = m.length ∧ Filled m' (written ++ [x]) := by
  subst hi
  refine ⟨_, if_pos ⟨by omega, by omega⟩, rfl, ?_, fun k hk => ?_⟩
  · rw [List.length_append, List.length_singleton]
    exact hroom
  rw [List.length_append, List.length_singleton] at hk
  show Function.update m.data written.length x k = _
  by_cases hlast : k = written.length
  · subst hlast
    simp
  · rw [Function.update_of_ne hlast, h.data k (by omega), List.getElem_append_left (by omega)]

theorem Filled.load {m : Buffer Int} {written : List Int} (h : Filled m written) {i : Int} {k : Nat}
    {x : Int} (hi : i = k) (hx : written[k]? = some x) : loadCell m i = .ok x := by
  obtain ⟨hk, rfl⟩ := List.getElem?_eq_some_iff.1 hx
  have hlen := h.length
  subst hi
  rw [loadCell, if_pos ⟨by omega, by omega⟩, Int.toNat_natCast, h.data k hk]

/-- The cells of a list of frames. -/
def frameCells (channels : Int) (frames : List (Int × Int)) : List Int :=
  frames.flatMap fun s => if channels > 1 then [s.1, s.2] else [s.1]

theorem frameCells_append (channels : Int) (a b : List (Int × Int)) :
    frameCells channels (a ++ b) = frameCells channels a ++ frameCells channels b :=
  List.flatMap_append

theorem frameCells_cons (channels : Int) (s : Int × Int) (frames : List (Int × Int)) :
    frameCells channels (s :: frames) =
      (if channels > 1 then [s.1, s.2] else [s.1]) ++ frameCells channels frames :=
  List.flatMap_cons

theorem frameCells_length {channels : Int} (hch : channels = 1 ∨ channels = 2)
    (frames : List (Int × Int)) :
    ((frameCells channels frames).length : Int) = frames.length * channels := by
  induction frames with
  | nil => simp [frameCells]
  | cons s frames ih =>
    rw [frameCells_cons, List.length_append, List.length_cons]
    rcases hch with rfl | rfl
    · rw [if_neg (by decide)]
      simp only [List.length_singleton]
      omega
    · rw [if_pos (by decide)]
      simp only [List.length_cons, List.length_nil]
      omega

theorem frameCells_mono (frames : List (Int × Int)) : frameCells 1 frames = frames.map Prod.fst := by
  induction frames with
  | nil => rfl
  | cons s frames ih => rw [frameCells_cons, ih, if_neg (by decide), List.map_cons, List.singleton_append]

theorem frameCells_stereo {frames : List (Int × Int)} : ∀ {k : Nat} {s : Int × Int},
    frames[k]? = some s → (frameCells 2 frames)[k * 2]? = some s.1 ∧
      (frameCells 2 frames)[k * 2 + 1]? = some s.2 := by
  induction frames with
  | nil => exact fun h => nomatch h
  | cons t frames ih =>
    intro k s h
    rw [frameCells_cons, if_pos (by decide)]
    cases k with
    | zero =>
      obtain rfl := Option.some.inj h
      exact ⟨rfl, rfl⟩
    | succ k =>
      obtain ⟨hl, hr⟩ := ih (show frames[k]? = some s from h)
      rw [show (k + 1) * 2 = k * 2 + 2 by omega]
      exact ⟨hl, hr⟩

/-! ## The source buffer -/

theorem int32_of_range {x : Int} (h : -2147483648 ≤ x ∧ x < 2147483648) : int32 x = .ok x := if_pos h

/-- The index of a cell is computed without overflow where the cell's number is an `int`. -/
theorem srcIndex_ok {samplesPerBlock channels : Int} (hsamples : 0 ≤ samplesPerBlock)
    (hch : channels = 1 ∨ channels = 2) {b i ch : Nat}
    (hfit : (b * samplesPerBlock + i) * channels + ch < 2147483648) :
    srcIndex samplesPerBlock channels b i ch =
      .ok ((b * samplesPerBlock + i) * channels + ch) := by
  have hrow : 0 ≤ (b : Int) * samplesPerBlock := Int.mul_nonneg (by omega) hsamples
  unfold srcIndex
  generalize (b : Int) * samplesPerBlock = row at hrow hfit ⊢
  rcases hch with rfl | rfl
  all_goals
    rw [int32_of_range (by omega), ok_bind, int32_of_range (by omega), ok_bind,
      int32_of_range (by omega), ok_bind, int32_of_range (by omega)]

section Block

variable {blk channels blockAlign samplesPerBlock : Int} {b : Nat} {src : Buffer Int}
  {written : List Int}

/-- A sample goes to the next cell. -/
theorem storeSample (hsamples : 0 ≤ samplesPerBlock) (hch : channels = 1 ∨ channels = 2) {i ch : Nat}
    (hfilled : Filled src written)
    (hnext : (b * samplesPerBlock + i) * channels + ch = written.length)
    (hroom : written.length < src.length) (hfit : src.length < 2147483648) (s : ImaState) :
    ∃ src', (do
        let cell ← srcIndex samplesPerBlock channels b i ch
        let src ← storeCell src cell s.pred
        return (s, src)) = (.ok (s, src') : Except Violation (ImaState × Buffer Int)) ∧
      src'.length = src.length ∧ Filled src' (written ++ [s.pred]) := by
  obtain ⟨src', hstore, hlength, hfilled'⟩ := hfilled.store hnext hroom s.pred
  rw [srcIndex_ok hsamples hch (by omega), ok_bind, hstore, ok_bind]
  exact ⟨src', rfl, hlength, hfilled'⟩

theorem mapError_ok {α : Type} (a : α) :
    (Except.ok a : Except Fault α).mapError Violation.fault = .ok a := rfl

theorem preambleInto_inside (hblk₀ : 0 ≤ blk) (hblk : blk + blockAlign ≤ d.length)
    (hsamples : 0 ≤ samplesPerBlock) (hch : channels = 1 ∨ channels = 2) (ch : Nat)
    (halign : 4 * ((ch : Int) + 1) < blockAlign) (hfilled : Filled src written)
    (hnext : (b * samplesPerBlock + (0 : Nat)) * channels + ch = written.length)
    (hroom : written.length < src.length) (hfit : src.length < 2147483648) :
    ∃ s src', imaPreamble d blk ch = .ok s ∧
      preambleInto d blk samplesPerBlock channels b ch src = .ok (s, src') ∧
      src'.length = src.length ∧ Filled src' (written ++ [s.pred]) := by
  obtain ⟨s, hs, -⟩ := imaPreamble_inside ch hblk₀ hblk halign
  obtain ⟨src', hstore, hrest⟩ := storeSample hsamples hch hfilled hnext hroom hfit s
  refine ⟨s, src', hs, ?_, hrest⟩
  rw [preambleInto, hs, mapError_ok, ok_bind]
  exact hstore

theorem sampleInto_inside (hblk₀ : 0 ≤ blk) (hblk : blk + blockAlign ≤ d.length)
    (hsamples : 0 ≤ samplesPerBlock) (hch : channels = 1 ∨ channels = 2) {i : Nat} (ch : Nat) (hi : 1 ≤ i)
    (hfilled : Filled src written)
    (hnext : (b * samplesPerBlock + i) * channels + ch = written.length)
    (hroom : written.length < src.length) (hfit : src.length < 2147483648) (s : ImaState) :
    ∃ s' src', imaSample d blk channels blockAlign i ch s = .ok s' ∧
      sampleInto d blk channels blockAlign samplesPerBlock b i ch s src = .ok (s', src') ∧
      src'.length = src.length ∧ Filled src' (written ++ [s'.pred]) := by
  have hsample : Succeeds (imaSample d blk channels blockAlign i ch s) fun _ => True :=
    imaSample_inside hblk₀ hblk (by omega) hi s
  obtain ⟨s', hs', -⟩ := hsample
  obtain ⟨src', hstore, hrest⟩ := storeSample hsamples hch hfilled hnext hroom hfit s'
  refine ⟨s', src', hs', ?_, hrest⟩
  rw [sampleInto, hs', mapError_ok, ok_bind]
  exact hstore

theorem blockLoopInto_inside (hblk₀ : 0 ≤ blk) (hblk : blk + blockAlign ≤ d.length)
    (hsamples : 0 ≤ samplesPerBlock) (hch : channels = 1 ∨ channels = 2) {n : Nat} :
    ∀ {i : Nat} {src : Buffer Int} {written : List Int}, 1 ≤ i → Filled src written →
      (b * samplesPerBlock + i) * channels = written.length →
      (b * samplesPerBlock + i + n) * channels ≤ src.length → src.length < 2147483648 →
      ∀ l r : ImaState, ∃ frames src', imaBlockLoop d blk channels blockAlign i n l r = .ok frames ∧
        frames.length = n ∧
        blockLoopInto d blk channels blockAlign samplesPerBlock b i n l r src = .ok src' ∧
        src'.length = src.length ∧ Filled src' (written ++ frameCells channels frames) := by
  induction n with
  | zero =>
    intro i src written _ hfilled _ _ _ l r
    refine ⟨[], src, rfl, rfl, rfl, rfl, ?_⟩
    rw [show frameCells channels [] = [] from rfl, List.append_nil]
    exact hfilled
  | succ n ih =>
    intro i src written hi hfilled hnext hroom hfit l r
    have hrow : 0 ≤ (b : Int) * samplesPerBlock := Int.mul_nonneg (by omega) hsamples
    have hroom₁ : written.length < src.length := by
      rcases hch with rfl | rfl <;> lia
    obtain ⟨l', src₁, hl, hinto₁, hlength₁, hfilled₁⟩ := sampleInto_inside (b := b) hblk₀ hblk
      hsamples hch 0 hi hfilled (by omega) hroom₁ hfit l
    rw [imaBlockLoop, blockLoopInto, hl, hinto₁, ok_bind, ok_bind]
    dsimp only
    rcases hch with rfl | rfl
    · rw [if_neg (by decide), if_neg (by decide), ok_bind, ok_bind]
      obtain ⟨frames, src', hframes, hlen, hinto, hlength, hfilled'⟩ := ih (i := i + 1) (by omega)
        hfilled₁ (by simp only [List.length_append, List.length_singleton]; omega)
        (by omega) (by omega) l' l'
      rw [hframes]
      refine ⟨(l'.pred, l'.pred) :: frames, src', rfl, by rw [List.length_cons, hlen], hinto,
        hlength.trans hlength₁, ?_⟩
      rw [frameCells_cons, if_neg (by decide), ← List.append_assoc]
      exact hfilled'
    · rw [if_pos (by decide), if_pos (by decide)]
      obtain ⟨r', src₂, hr, hinto₂, hlength₂, hfilled₂⟩ := sampleInto_inside (b := b) hblk₀ hblk
        hsamples (show (2 : Int) = 1 ∨ (2 : Int) = 2 from .inr rfl) 1 hi hfilled₁
        (by simp only [List.length_append, List.length_singleton]; lia)
        (by simp only [List.length_append, List.length_singleton]; lia) (by lia) r
      rw [hr, hinto₂, ok_bind, ok_bind]
      dsimp only
      obtain ⟨frames, src', hframes, hlen, hinto, hlength, hfilled'⟩ := ih (i := i + 1) (by omega)
        hfilled₂ (by simp only [List.length_append, List.length_singleton]; omega)
        (by omega) (by omega) l' r'
      rw [hframes]
      refine ⟨(l'.pred, r'.pred) :: frames, src', rfl, by rw [List.length_cons, hlen], hinto,
        hlength.trans (hlength₂.trans hlength₁), ?_⟩
      rw [frameCells_cons, if_pos (by decide)]
      simpa only [List.append_assoc, List.cons_append, List.nil_append] using hfilled'

end Block

/-- **The blocks fill the source buffer**, each from the cell behind the block before it. -/
theorem blocksInto_inside {base channels blockAlign samplesPerBlock : Int} (h₀ : 0 ≤ base)
    (hch : channels = 1 ∨ channels = 2) (halign : 4 * channels < blockAlign)
    (hsamples : 0 < samplesPerBlock) (hd : d.length < 2147483648) {n : Nat} :
    ∀ {b : Nat} {src : Buffer Int} {written : List Int}, Filled src written →
      base + (b + n) * blockAlign ≤ d.length →
      b * samplesPerBlock * channels = written.length →
      (b * samplesPerBlock + n * samplesPerBlock) * channels ≤ src.length →
      src.length < 2147483648 →
      ∃ frames src', imaBlocks d base channels blockAlign samplesPerBlock b n = .ok frames ∧
        blocksInto d base channels blockAlign samplesPerBlock b n src = .ok src' ∧
        src'.length = src.length ∧ Filled src' (written ++ frameCells channels frames) := by
  induction n with
  | zero =>
    intro b src written hfilled _ _ _ _
    refine ⟨[], src, rfl, rfl, rfl, ?_⟩
    rw [show frameCells channels [] = [] from rfl, List.append_nil]
    exact hfilled
  | succ n ih =>
    intro b src written hfilled hdata hnext hroom hfit
    have hoffset : 0 ≤ (b : Int) * blockAlign := Int.mul_nonneg (by omega) (by omega)
    have hrow : 0 ≤ (b : Int) * samplesPerBlock := Int.mul_nonneg (by omega) hsamples.le
    have hmore : 0 ≤ (n : Int) * samplesPerBlock := Int.mul_nonneg (by omega) hsamples.le
    have hmoreBytes : 0 ≤ (n : Int) * blockAlign := Int.mul_nonneg (by omega) (by omega)
    have hbytes : ((b : Int) + (n + 1 : Nat)) * blockAlign =
        b * blockAlign + n * blockAlign + blockAlign := by
      push_cast
      ring
    have hrows : ((n + 1 : Nat) : Int) * samplesPerBlock = n * samplesPerBlock + samplesPerBlock := by
      push_cast
      ring
    have hrow' : ((b + 1 : Nat) : Int) * samplesPerBlock = b * samplesPerBlock + samplesPerBlock := by
      push_cast
      ring
    have hinside : base + b * blockAlign + blockAlign ≤ d.length := by lia
    have hper : ((samplesPerBlock.toNat - 1 : Nat) : Int) = samplesPerBlock - 1 := by omega
    rw [hrows] at hroom
    -- what remains to be done behind the blocks' first frames
    have hrest : ∀ {l r : ImaState} {src₁ : Buffer Int} {first : List Int},
        Filled src₁ (written ++ first) → src₁.length = src.length → (first.length : Int) = channels →
        first = frameCells channels [(l.pred, r.pred)] →
        ∃ frames src', (do
            let samples ← imaBlockLoop d (base + b * blockAlign) channels blockAlign 1
              (samplesPerBlock.toNat - 1) l r
            let rest ← imaBlocks d base channels blockAlign samplesPerBlock (b + 1) n
            return (l.pred, r.pred) :: samples ++ rest) =
              (.ok frames : Except Fault (List (Int × Int))) ∧
          (do
            let src ← blockLoopInto d (base + b * blockAlign) channels blockAlign samplesPerBlock b 1
              (samplesPerBlock.toNat - 1) l r src₁
            blocksInto d base channels blockAlign samplesPerBlock (b + 1) n src) = .ok src' ∧
          src'.length = src.length ∧ Filled src' (written ++ frameCells channels frames) := by
      intro l r src₁ first hfilled₁ hlength₁ hfirst hcells
      obtain ⟨samples, src₂, hloop, hlen, hinto, hlength₂, hfilled₂⟩ := blockLoopInto_inside
        (b := b) (i := 1) (n := samplesPerBlock.toNat - 1)
        (by lia) hinside hsamples.le hch (le_refl 1) hfilled₁
        (by rw [List.length_append]; rcases hch with rfl | rfl <;> push_cast <;> lia)
        (by rw [hper]; rcases hch with rfl | rfl <;> lia) (by lia) l r
      obtain ⟨rest, src', hblocks, hinto', hlength', hfilled'⟩ := ih (b := b + 1) hfilled₂
        (by
          rw [show ((b + 1 : Nat) : Int) + n = b + (n + 1 : Nat) by push_cast; ring]
          exact hdata)
        (by
          rw [List.length_append, List.length_append, hrow']
          have hcells := frameCells_length hch samples
          rw [hlen, hper] at hcells
          rcases hch with rfl | rfl <;> lia)
        (by rw [hrow']; rcases hch with rfl | rfl <;> lia) (by lia)
      rw [hloop, hinto, ok_bind, ok_bind, hblocks, ok_bind, hinto']
      refine ⟨_, src', rfl, rfl, by lia, ?_⟩
      rw [List.cons_append, ← List.singleton_append, frameCells_append, frameCells_append, ← hcells,
        ← List.append_assoc, ← List.append_assoc]
      exact hfilled'
    have hroom₁ : written.length < src.length := by
      rcases hch with rfl | rfl <;> omega
    obtain ⟨l, src₁, hl, hinto₁, hlength₁, hfilled₁⟩ := preambleInto_inside (b := b) (by lia)
      hinside hsamples.le hch 0 (by lia) hfilled
      (by rcases hch with rfl | rfl <;> push_cast <;> lia) hroom₁ hfit
    unfold imaBlocks blocksInto
    rw [int32_of_range (by omega), ok_bind]
    simp only [hl, hinto₁, ok_bind]
    rcases hch with rfl | rfl
    · rw [if_neg (by decide), if_neg (by decide)]
      exact hrest hfilled₁ hlength₁ rfl rfl
    · obtain ⟨r, src₂, hr, hinto₂, hlength₂, hfilled₂⟩ := preambleInto_inside (b := b) (by lia)
        hinside hsamples.le (show (2 : Int) = 1 ∨ (2 : Int) = 2 from .inr rfl) 1 (by lia) hfilled₁
        (by rw [List.length_append, List.length_singleton]; push_cast; lia)
        (by rw [List.length_append, List.length_singleton]; lia) (by lia)
      rw [if_pos (by decide), if_pos (by decide)]
      simp only [hr, hinto₂, ok_bind]
      rw [List.append_assoc] at hfilled₂
      exact hrest hfilled₂ (hlength₂.trans hlength₁) rfl rfl

/-! ## The output buffer -/

/-- A source frame is read where the list of frames has it. -/
theorem loadFrame_filled {channels : Int} (hch : channels = 1 ∨ channels = 2) {src : Buffer Int}
    {frames : List (Int × Int)} (hfilled : Filled src (frameCells channels frames))
    (hmono : channels = 1 → ∀ s ∈ frames, s.1 = s.2) (hfit : src.length < 2147483648) {idx : Int}
    (h₀ : 0 ≤ idx) (h : idx < frames.length) :
    ∃ s, sampleAt frames idx = .ok s ∧ loadFrame src channels idx = .ok s := by
  obtain ⟨k, rfl⟩ : ∃ k : Nat, idx = k := ⟨idx.toNat, by omega⟩
  have hk : k < frames.length := by omega
  have hframe : frames[k]? = some frames[k] := List.getElem?_eq_getElem hk
  have hlen := frameCells_length hch frames
  have hroom := hfilled.length
  refine ⟨frames[k], ?_, ?_⟩
  · rw [sampleAt, if_pos h₀, Int.toNat_natCast, hframe]
  unfold loadFrame
  rcases hch with rfl | rfl
  · have hcell : (frameCells 1 frames)[k]? = some frames[k].1 := by
      rw [frameCells_mono, List.getElem?_map, hframe]
      rfl
    rw [int32_of_range (by omega), ok_bind, hfilled.load (by omega) hcell, ok_bind,
      if_neg (by decide), pure_eq_ok]
    exact congrArg Except.ok (Prod.ext rfl (hmono rfl _ (List.getElem_mem hk)))
  · obtain ⟨hl, hr⟩ := frameCells_stereo hframe
    rw [int32_of_range (by omega), ok_bind, hfilled.load (by omega) hl, ok_bind,
      if_pos (by decide), int32_of_range (by omega), ok_bind, hfilled.load (by omega) hr]
    rfl

/-- **Resampling fills the output buffer** with what the list of samples gives. -/
theorem resampleInto_inside {source : Int → Except Fault (Int × Int)} {src : Buffer Int}
    {channels total rate : Int}
    (hsrc : ∀ idx, 0 ≤ idx → idx < total →
      ∃ s, source idx = .ok s ∧ loadFrame src channels idx = .ok s)
    (htotal : 0 < total ∧ total < 2147483648) (hrate : 0 < rate) {n : Nat} :
    ∀ {i : Nat} {pcm : Buffer Int} {written : List Int},
      (i + n) * rate ≤ total * WAV_PCM_RATE → Filled pcm written → written.length = 2 * i →
      2 * (i + n) ≤ pcm.length → pcm.length < 2147483648 →
      ∃ out pcm', resample source total rate i n = .ok out ∧ out.length = 2 * n ∧
        resampleInto src channels total rate i n pcm = .ok pcm' ∧ Filled pcm' (written ++ out) := by
  induction n with
  | zero =>
    intro i pcm written _ hfilled _ _ _
    refine ⟨[], pcm, rfl, rfl, rfl, ?_⟩
    rw [List.append_nil]
    exact hfilled
  | succ n ih =>
    intro i pcm written hi hfilled hnext hroom hfit
    obtain ⟨hidx, hclip⟩ := interpolation_index htotal.2 (resample_frame hrate hi)
    unfold resample resampleInto
    dsimp only
    rw [int32_of_range hidx, ok_bind, i32_of_range hidx]
    generalize hp : (if _ ≥ total - 1 then _ else _ : Int × Int) = p
    obtain ⟨hp₀, hlt, hsecond⟩ := hclip p hp
    obtain ⟨s₀, hs₀, hload₀⟩ := hsrc p.1 hp₀ hlt
    obtain ⟨s₁, hs₁, hload₁⟩ : ∃ s₁,
        (if p.2 ≠ 0 then source (p.1 + 1) else .ok (s₀.1, s₀.2)) = .ok s₁ ∧
        (if p.2 ≠ 0 then loadFrame src channels (p.1 + 1) else .ok (s₀.1, s₀.2)) = .ok s₁ := by
      by_cases hfrac : p.2 ≠ 0
      · rw [if_pos hfrac, if_pos hfrac]
        exact hsrc _ (by omega) (hsecond hfrac)
      · rw [if_neg hfrac, if_neg hfrac]
        exact ⟨_, rfl, rfl⟩
    obtain ⟨pcm₁, hstore₁, hlength₁, hfilled₁⟩ := hfilled.store (i := (i : Int) * 2) (by omega)
      (by omega) (i16 ((s₀.1 * (256 - p.2) + s₁.1 * p.2) / 256))
    obtain ⟨pcm₂, hstore₂, hlength₂, hfilled₂⟩ := hfilled₁.store (i := (i : Int) * 2 + 1)
      (by simp only [List.length_append, List.length_singleton]; omega)
      (by simp only [List.length_append, List.length_singleton]; omega)
      (i16 ((s₀.2 * (256 - p.2) + s₁.2 * p.2) / 256))
    obtain ⟨out, pcm', hout, hlen, hinto, hfilled'⟩ := ih (i := i + 1)
      (by rw [show (((i + 1 : Nat) : Int) + n) = (i : Int) + (n + 1 : Nat) by push_cast; ring]
          exact hi) hfilled₂
      (by simp only [List.length_append, List.length_singleton]; lia) (by lia) (by lia)
    have hcell : int32 ((i : Int) * 2) = .ok ((i : Int) * 2) := int32_of_range (by omega)
    rw [hs₀, hload₀, ok_bind, ok_bind]
    by_cases hfrac : p.2 ≠ 0
    · rw [if_pos hfrac] at hs₁ hload₁
      simp only [if_pos hfrac, hs₁, hload₁, ok_bind, hcell, hstore₁, hstore₂, hout, hinto]
      refine ⟨_, pcm', rfl, by simp only [List.length_cons, hlen]; omega, rfl, ?_⟩
      simpa only [List.append_assoc, List.cons_append, List.nil_append] using hfilled'
    · rw [if_neg hfrac] at hs₁
      obtain rfl := Except.ok.inj hs₁
      simp only [if_neg hfrac, ok_bind, hcell, hstore₁, hstore₂, hout, hinto]
      refine ⟨_, pcm', rfl, by simp only [List.length_cons, hlen]; omega, rfl, ?_⟩
      simpa only [List.append_assoc, List.cons_append, List.nil_append] using hfilled'

/-! ## What a run that returns has found room for -/

theorem storeCell_room {m m' : Buffer Int} {i x : Int} (h : storeCell m i x = .ok m') :
    i < m.length ∧ m'.length = m.length := by
  unfold storeCell at h
  split at h
  · rename_i hinside
    obtain rfl := Except.ok.inj h
    exact ⟨hinside.2, rfl⟩
  · cases h

theorem srcIndex_eq {samplesPerBlock channels cell : Int} {b i ch : Nat}
    (h : srcIndex samplesPerBlock channels b i ch = .ok cell) :
    cell = (b * samplesPerBlock + i) * channels + ch := by
  obtain ⟨_, h₁, h⟩ := ok_of_bind h
  obtain ⟨_, h₂, h⟩ := ok_of_bind h
  obtain ⟨_, h₃, h⟩ := ok_of_bind h
  obtain rfl := (int32_ok h₁).1
  obtain rfl := (int32_ok h₂).1
  obtain rfl := (int32_ok h₃).1
  exact (int32_ok h).1

section Room

variable {blk channels blockAlign samplesPerBlock : Int} {b : Nat} {src src' : Buffer Int}

theorem storeSample_room {i ch : Nat} {s s' : ImaState}
    (h : (do
        let cell ← srcIndex samplesPerBlock channels b i ch
        let src ← storeCell src cell s.pred
        return (s, src)) = (.ok (s', src') : Except Violation (ImaState × Buffer Int))) :
    (b * samplesPerBlock + i) * channels + ch < src.length ∧ src'.length = src.length := by
  obtain ⟨cell, hcell, h⟩ := ok_of_bind h
  obtain ⟨src₁, hstore, h⟩ := ok_of_bind h
  obtain ⟨-, rfl⟩ := Prod.mk.inj (Except.ok.inj h)
  rw [← srcIndex_eq hcell]
  exact storeCell_room hstore

theorem preambleInto_room {ch : Nat} {s : ImaState}
    (h : preambleInto d blk samplesPerBlock channels b ch src = .ok (s, src')) :
    (b * samplesPerBlock + (0 : Nat)) * channels + ch < src.length ∧ src'.length = src.length := by
  obtain ⟨s', -, h⟩ := ok_of_bind h
  exact storeSample_room h

theorem sampleInto_room {i ch : Nat} {s s' : ImaState}
    (h : sampleInto d blk channels blockAlign samplesPerBlock b i ch s src = .ok (s', src')) :
    (b * samplesPerBlock + i) * channels + ch < src.length ∧ src'.length = src.length := by
  obtain ⟨s', -, h⟩ := ok_of_bind h
  exact storeSample_room h

theorem blockLoopInto_room (hch : channels = 1 ∨ channels = 2) {n : Nat} :
    ∀ {i : Nat} {l r : ImaState} {src : Buffer Int},
      blockLoopInto d blk channels blockAlign samplesPerBlock b i n l r src = .ok src' →
      (b * samplesPerBlock + i) * channels ≤ src.length →
      (b * samplesPerBlock + i + n) * channels ≤ src.length ∧ src'.length = src.length := by
  induction n with
  | zero =>
    intro i l r src h hroom
    obtain rfl := Except.ok.inj h
    rw [show (b : Int) * samplesPerBlock + i + (0 : Nat) = b * samplesPerBlock + i by simp]
    exact ⟨hroom, rfl⟩
  | succ n ih =>
    intro i l r src h _
    rw [blockLoopInto] at h
    obtain ⟨⟨l', src₁⟩, hleft, h⟩ := ok_of_bind h
    obtain ⟨hl, hlength₁⟩ := sampleInto_room hleft
    dsimp only at h
    -- the next sample begins behind this one
    have hnext : ∀ {r' : ImaState} {src₂ : Buffer Int},
        blockLoopInto d blk channels blockAlign samplesPerBlock b (i + 1) n l' r' src₂ = .ok src' →
        src₂.length = src.length → (b * samplesPerBlock + (i + 1 : Nat)) * channels ≤ src.length →
        (b * samplesPerBlock + i + (n + 1 : Nat)) * channels ≤ src.length ∧
          src'.length = src.length := by
      intro r' src₂ h hlength hroom
      obtain ⟨hend, hlength'⟩ := ih h (by omega)
      rw [show (b : Int) * samplesPerBlock + i + (n + 1 : Nat) =
        b * samplesPerBlock + (i + 1 : Nat) + n by push_cast; ring]
      omega
    rcases hch with rfl | rfl
    · rw [if_neg (by decide)] at h
      exact hnext h hlength₁ (by omega)
    · rw [if_pos (by decide)] at h
      obtain ⟨⟨r', src₂⟩, hright, h⟩ := ok_of_bind h
      obtain ⟨hr, hlength₂⟩ := sampleInto_room hright
      exact hnext h (hlength₂.trans hlength₁) (by lia)

/-- Blocks that have been decoded fit into the source buffer. -/
theorem blocksInto_room {base : Int} (hch : channels = 1 ∨ channels = 2)
    (hsamples : 0 < samplesPerBlock) {n : Nat} : ∀ {b : Nat} {src : Buffer Int},
      blocksInto d base channels blockAlign samplesPerBlock b n src = .ok src' →
      b * samplesPerBlock * channels ≤ src.length →
      (b * samplesPerBlock + n * samplesPerBlock) * channels ≤ src.length := by
  induction n with
  | zero =>
    intro b src _ hroom
    rw [show (b : Int) * samplesPerBlock + (0 : Nat) * samplesPerBlock = b * samplesPerBlock by simp]
    exact hroom
  | succ n ih =>
    intro b src h _
    rw [blocksInto] at h
    obtain ⟨offset, -, h⟩ := ok_of_bind h
    obtain ⟨⟨l, src₁⟩, hleft, h⟩ := ok_of_bind h
    obtain ⟨hl, hlength₁⟩ := preambleInto_room hleft
    dsimp only at h
    have hnext : ∀ {r : ImaState} {src₂ : Buffer Int}, (do
          let src ← blockLoopInto d (base + offset) channels blockAlign samplesPerBlock b 1
            (samplesPerBlock.toNat - 1) l r src₂
          blocksInto d base channels blockAlign samplesPerBlock (b + 1) n src) = .ok src' →
        src₂.length = src.length → (b * samplesPerBlock + (1 : Nat)) * channels ≤ src.length →
        (b * samplesPerBlock + (n + 1 : Nat) * samplesPerBlock) * channels ≤ src.length := by
      intro r src₂ h hlength hroom
      obtain ⟨src₃, hloop, h⟩ := ok_of_bind h
      obtain ⟨hend, hlength₃⟩ := blockLoopInto_room hch hloop (by omega)
      rw [show (b : Int) * samplesPerBlock + (1 : Nat) + (samplesPerBlock.toNat - 1 : Nat) =
        (b + 1 : Nat) * samplesPerBlock by
          rw [show ((samplesPerBlock.toNat - 1 : Nat) : Int) = samplesPerBlock - 1 by omega]
          push_cast
          ring] at hend
      have hmore := ih h (by omega)
      rw [show ((b + 1 : Nat) : Int) * samplesPerBlock + n * samplesPerBlock =
        b * samplesPerBlock + (n + 1 : Nat) * samplesPerBlock by push_cast; ring] at hmore
      omega
    rcases hch with rfl | rfl
    · rw [if_neg (by decide)] at h
      exact hnext h hlength₁ (by omega)
    · rw [if_pos (by decide)] at h
      obtain ⟨⟨r, src₂⟩, hright, h⟩ := ok_of_bind h
      obtain ⟨hr, hlength₂⟩ := preambleInto_room hright
      exact hnext h (hlength₂.trans hlength₁) (by omega)

end Room

/-! ## Which files fit -/

/-- What `wav_decode` has checked when it calls the decoder. -/
structure AdpcmAccepted (d : List UInt8) (base dataLen : Int) (w : WavFormat) : Prop where
  length : (d.length : Int) ≤ WAV_MAX_RAW_PER_PLAYER
  start : 0 ≤ base
  inside : base + dataLen ≤ d.length
  nonempty : 0 < dataLen
  channels : w.channels = 1 ∨ w.channels = 2
  rate : 4000 ≤ w.rate ∧ w.rate ≤ 48000
  blockAlign : 0 < w.blockAlign ∧ w.blockAlign < 65536
  samplesPerBlock : 0 ≤ w.samplesPerBlock ∧ w.samplesPerBlock < 65536

/-- The frames that the data chunk decodes to. -/
def adpcmFrames (dataLen : Int) (w : WavFormat) : Int := Int.tdiv dataLen w.blockAlign * blockFrames w

/-- There is nothing to decode, or the samples of all channels can be counted by an `int`, and so can
the bytes of the output. -/
def AdpcmFits (dataLen : Int) (w : WavFormat) : Prop :=
  w.blockAlign ≤ 4 * w.channels ∨ adpcmFrames dataLen w * w.channels < 2147483648 ∧
    adpcmFrames dataLen w * WAV_PCM_RATE / w.rate < 536870912

/-- No count overflows, no access leaves its buffer, and the decoder states stay in range. -/
def AdpcmBounded (d : List UInt8) (base dataLen : Int) (w : WavFormat) : Prop :=
  (∀ {σ : Type} (env : Env σ) (junk : Nat → Int) (c : Cell σ),
    Succeeds (wavDecodeAdpcmMem env junk d base dataLen w c) fun _ => True) ∧
  ∀ (b ch i : Nat) (s : ImaState),
    ChannelState d (base + b * w.blockAlign) w.channels w.blockAlign ch i s → s.InRange

variable {base dataLen : Int} {w : WavFormat}

/-- A block has at least its preamble's frame. -/
theorem blockFrames_range (h : AdpcmAccepted d base dataLen w) (halign : 4 * w.channels < w.blockAlign) :
    1 ≤ blockFrames w ∧ blockFrames w < 131072 := by
  have halign' := h.blockAlign
  unfold blockFrames
  split
  · rw [Int.tdiv_eq_ediv_of_nonneg (by omega)]
    rcases h.channels with hch | hch <;> rw [hch] at halign ⊢ <;> omega
  · omega

theorem imaBlockLoop_mono {blk blockAlign : Int} {n : Nat} :
    ∀ {i : Nat} {l r : ImaState} {frames : List (Int × Int)},
      imaBlockLoop d blk 1 blockAlign i n l r = .ok frames → ∀ s ∈ frames, s.1 = s.2 := by
  induction n with
  | zero =>
    intro i l r frames h s hs
    obtain rfl := Except.ok.inj h
    exact absurd hs List.not_mem_nil
  | succ n ih =>
    intro i l r frames h s hs
    obtain ⟨l', -, h⟩ := ok_of_bind h
    dsimp only at h
    rw [if_neg (by decide), ok_bind] at h
    obtain ⟨rest, hrest, h⟩ := ok_of_bind h
    obtain rfl := Except.ok.inj h
    rcases List.mem_cons.1 hs with rfl | hs
    · rfl
    · exact ih hrest s hs

/-- A mono frame has twice the same sample. -/
theorem imaBlocks_mono {blockAlign samplesPerBlock : Int} {n : Nat} :
    ∀ {b : Nat} {frames : List (Int × Int)},
      imaBlocks d base 1 blockAlign samplesPerBlock b n = .ok frames → ∀ s ∈ frames, s.1 = s.2 := by
  induction n with
  | zero =>
    intro b frames h s hs
    obtain rfl := Except.ok.inj h
    exact absurd hs List.not_mem_nil
  | succ n ih =>
    intro b frames h s hs
    unfold imaBlocks at h
    dsimp only at h
    obtain ⟨l, -, h⟩ := ok_of_bind h
    rw [if_neg (by decide), ok_bind] at h
    obtain ⟨samples, hsamples, h⟩ := ok_of_bind h
    obtain ⟨rest, hrest, h⟩ := ok_of_bind h
    obtain rfl := Except.ok.inj h
    rcases List.mem_cons.1 (List.cons_append ▸ hs) with rfl | hs
    · rfl
    · rcases List.mem_append.1 hs with hs | hs
      · exact imaBlockLoop_mono hsamples s hs
      · exact ih hrest s hs

/-- A full output buffer, read back. -/
theorem Filled.toList {m : Buffer Int} {written : List Int} (h : Filled m written) {n : Nat}
    (hlen : written.length = n) : (List.range n).map m.data = written := by
  subst hlen
  refine List.ext_getElem (by simp) fun k hk hk' => ?_
  rw [List.getElem_map, List.getElem_range, h.data k hk']

/-- The cells of a buffer whose size is a `size_t`. -/
theorem malloc16_length (junk : Nat → Int) {cells : Int} (h : 0 ≤ cells ∧ cells < 2147483648) :
    ((malloc16 junk (cells * 2)).length : Int) = cells := by
  unfold malloc16
  simp only
  omega

/-- **Where the counts fit, the decoder returns, with the result of the decoder on lists.** -/
theorem wavDecodeAdpcmMem_refines (h : AdpcmAccepted d base dataLen w) (hfits : AdpcmFits dataLen w)
    (env : Env σ) (junk : Nat → Int) (c : Cell σ) :
    Succeeds (wavDecodeAdpcmMem env junk d base dataLen w c) fun r =>
      wavDecodeAdpcm env d base dataLen w c = .ok r := by
  have hlength := h.length
  simp only [WAV_MAX_RAW_PER_PLAYER] at hlength
  unfold wavDecodeAdpcmMem wavDecodeAdpcm
  by_cases halign : w.blockAlign ≤ 4 * w.channels
  · rw [if_pos halign, if_pos halign]
    exact .pure rfl
  rw [if_neg halign, if_neg halign]
  obtain ⟨hfits, hout⟩ := hfits.resolve_left halign
  have halign' : 4 * w.channels < w.blockAlign := by omega
  have hchannels : 1 ≤ w.channels := by
    rcases h.channels with hch | hch <;> omega
  have hper := blockFrames_range h halign'
  have hread : Int.tdiv dataLen w.blockAlign * w.blockAlign ≤ dataLen := by
    rw [Int.tdiv_eq_ediv_of_nonneg h.nonempty.le]
    exact Int.ediv_mul_le _ (by omega)
  rw [show (if w.samplesPerBlock ≤ 0 ∨ w.samplesPerBlock > 4096 then
    Int.tdiv ((w.blockAlign - 4 * w.channels) * 2) w.channels + 1 else w.samplesPerBlock) =
      blockFrames w from rfl, int32_of_range (by omega), ok_bind]
  unfold adpcmFrames at hfits hout
  generalize blockFrames w = perBlock at hper hfits hout ⊢
  generalize Int.tdiv dataLen w.blockAlign = blocks at hread hfits hout ⊢
  dsimp only
  by_cases hnone : blocks ≤ 0 ∨ perBlock ≤ 0
  · rw [if_pos hnone, if_pos hnone]
    exact .pure rfl
  rw [if_neg hnone, if_neg hnone]
  obtain ⟨total, htotal⟩ : ∃ total, blocks * perBlock = total := ⟨_, rfl⟩
  have hpos : 0 < total := htotal ▸ Int.mul_pos (by omega) (by omega)
  rw [htotal] at hfits hout ⊢
  have hsmall : total < 2147483648 := by
    rcases h.channels with hch | hch <;> rw [hch] at hfits <;> clear hout <;> omega
  have hcells : 0 ≤ total * w.channels := by
    rcases h.channels with hch | hch <;> rw [hch] <;> omega
  rw [int32_of_range (by omega), ok_bind, if_neg (show ¬ total ≥ 2147483648 by omega)]
  by_cases hmalloc : (!env.mallocOk c.heap) = true
  · rw [if_pos hmalloc, if_pos hmalloc]
    exact .pure rfl
  rw [if_neg hmalloc, if_neg hmalloc]
  -- the source buffer holds the decoded frames
  have hbuffer := malloc16_length junk ⟨hcells, hfits⟩
  obtain ⟨frames, src, hblocks, hinto, hlen, hfilled⟩ := blocksInto_inside (d := d)
    (n := blocks.toNat) (b := 0) h.start h.channels halign' (show 0 < perBlock by omega)
    (by omega) (Filled.nil (malloc16 junk (total * w.channels * 2)))
    (by rw [show ((0 : Nat) : Int) + (blocks.toNat : Int) = blocks by omega]
        have := h.inside
        omega)
    (by simp)
    (by rw [show ((0 : Nat) : Int) * perBlock + (blocks.toNat : Int) * perBlock = total by
          rw [Int.toNat_of_nonneg (by omega), htotal]
          simp, hbuffer])
    (by omega)
  rw [List.nil_append] at hfilled
  obtain ⟨_, hframes, hcount⟩ := imaBlocks_inside (d := d) (n := blocks.toNat) (b := 0) h.start
    h.channels halign' (show 0 < perBlock by omega)
    (by rw [show ((0 : Nat) : Int) + (blocks.toNat : Int) = blocks by omega]
        have := h.inside
        omega)
  obtain rfl := Except.ok.inj (hblocks.symm.trans hframes)
  rw [show (blocks.toNat : Int) = blocks by omega, htotal] at hcount
  rw [hinto, ok_bind, hblocks, ok_bind]
  have hsource : ∀ idx, 0 ≤ idx → idx < total →
      ∃ s, sampleAt frames idx = .ok s ∧ loadFrame src w.channels idx = .ok s := by
    refine fun idx h₀ hlt => loadFrame_filled h.channels hfilled (fun hch => ?_) (by omega) h₀ (by omega)
    rw [hch] at hblocks
    exact imaBlocks_mono hblocks
  -- the output frames, before and after they are clipped to the budget
  have hrate := h.rate
  have hquot : Int.tdiv (total * WAV_PCM_RATE) w.rate * w.rate ≤ total * WAV_PCM_RATE := by
    rw [Int.tdiv_eq_ediv_of_nonneg (Int.mul_nonneg hpos.le (by decide))]
    exact Int.ediv_mul_le _ (by omega)
  rw [← Int.tdiv_eq_ediv_of_nonneg (Int.mul_nonneg hpos.le (by decide))] at hout
  have hquot₀ : 0 ≤ Int.tdiv (total * WAV_PCM_RATE) w.rate :=
    Int.tdiv_nonneg (Int.mul_nonneg hpos.le (by decide)) (by omega)
  have hduration : 0 ≤ Int.tdiv (total * 1000) w.rate ∧
      Int.tdiv (total * 1000) w.rate ≤ Int.tdiv (total * WAV_PCM_RATE) w.rate := by
    rw [Int.tdiv_eq_ediv_of_nonneg (by omega),
      Int.tdiv_eq_ediv_of_nonneg (Int.mul_nonneg hpos.le (by decide))]
    refine ⟨Int.ediv_nonneg (by omega) (by omega), Int.ediv_le_ediv (by omega) ?_⟩
    show total * 1000 ≤ total * 22050
    omega
  unfold wavFinish
  generalize Int.tdiv (total * 1000) w.rate = duration at hduration ⊢
  generalize Int.tdiv (total * WAV_PCM_RATE) w.rate = quot at hquot hout hquot₀ hduration ⊢
  rw [int32_of_range (by omega), ok_bind, i32_of_range (by omega)]
  dsimp only
  by_cases hzero : quot ≤ 0
  · rw [if_pos hzero, if_pos hzero]
    exact .pure rfl
  rw [if_neg hzero, if_neg hzero, int32_of_range (by omega), ok_bind, i32_of_range (by omega)]
  generalize hclip : (if quot * 4 > WAV_MAX_PCM_TOTAL - c.pcmTotal then _ else quot) = outFrames
  have hle : outFrames ≤ quot := by
    split at hclip <;> subst hclip
    · exact budget_frames_le (by omega)
    · omega
  by_cases hempty : outFrames ≤ 0
  · rw [if_pos hempty, if_pos hempty]
    exact .pure rfl
  rw [if_neg hempty, if_neg hempty]
  by_cases hmalloc' : (!env.mallocOk (c.heap + 1)) = true
  · rw [if_pos hmalloc', if_pos hmalloc']
    exact .pure rfl
  rw [if_neg hmalloc', if_neg hmalloc']
  have hpcm := malloc16_length junk (show 0 ≤ outFrames * 2 ∧ outFrames * 2 < 2147483648 by omega)
  rw [show outFrames * 2 * 2 = outFrames * 4 by ring] at hpcm
  have hmul := Int.mul_le_mul_of_nonneg_right hle (show 0 ≤ w.rate by omega)
  obtain ⟨out, pcm, hout', houtLen, hresample, hfull⟩ := resampleInto_inside (n := outFrames.toNat)
    (i := 0) hsource ⟨hpos, hsmall⟩ (show 0 < w.rate by omega)
    (by rw [show ((0 : Nat) : Int) + (outFrames.toNat : Int) = outFrames by omega]; omega)
    (Filled.nil (malloc16 junk (outFrames * 4))) rfl (by omega) (by omega)
  rw [hresample, ok_bind, hout', ok_bind, int32_of_range (by omega), ok_bind,
    i32_of_range (by omega), hfull.toList (by rw [List.nil_append, houtLen])]
  exact .pure rfl

/-- **A decoder that returns has counted within an `int`.** -/
theorem adpcmFits_of_succeeds (h : AdpcmAccepted d base dataLen w) (env : Env σ) (junk : Nat → Int)
    (c : Cell σ) (hmalloc : env.mallocOk c.heap = true)
    (hrun : Succeeds (wavDecodeAdpcmMem env junk d base dataLen w c) fun _ => True) :
    AdpcmFits dataLen w := by
  obtain ⟨r, hrun, -⟩ := hrun
  by_cases halign : w.blockAlign ≤ 4 * w.channels
  · exact .inl halign
  have hper := blockFrames_range h (by omega)
  unfold wavDecodeAdpcmMem at hrun
  rw [if_neg halign] at hrun
  obtain ⟨perBlock, hperBlock, hrun⟩ := ok_of_bind hrun
  obtain ⟨rfl, -⟩ := int32_ok hperBlock
  refine .inr ?_
  have hblocks₀ : 0 ≤ Int.tdiv dataLen w.blockAlign :=
    Int.tdiv_nonneg h.nonempty.le h.blockAlign.1.le
  unfold adpcmFrames
  generalize blockFrames w = perBlock at hper hrun ⊢
  generalize Int.tdiv dataLen w.blockAlign = blocks at hblocks₀ hrun ⊢
  dsimp only at hrun
  by_cases hnone : blocks ≤ 0 ∨ perBlock ≤ 0
  · obtain rfl : blocks = 0 := by omega
    simp
  rw [if_neg hnone] at hrun
  obtain ⟨total, htotal, hrun⟩ := ok_of_bind hrun
  obtain ⟨rfl, -⟩ := int32_ok htotal
  rw [if_neg (by rw [hmalloc]; decide)] at hrun
  obtain ⟨src, hsrc, hrun⟩ := ok_of_bind hrun
  have hroom := blocksInto_room h.channels (by omega) hsrc (by simp)
  rw [show ((0 : Nat) : Int) * perBlock + (blocks.toNat : Int) * perBlock = blocks * perBlock by
    rw [Int.toNat_of_nonneg hblocks₀]
    simp] at hroom
  have hcells : ((malloc16 junk (blocks * perBlock * w.channels * 2)).length : Int) < 2147483648 := by
    unfold malloc16
    simp only
    omega
  refine ⟨by omega, ?_⟩
  obtain ⟨quot, hquot, hrun⟩ := ok_of_bind hrun
  obtain ⟨rfl, -⟩ := int32_ok hquot
  rw [← Int.tdiv_eq_ediv_of_nonneg (Int.mul_nonneg (Int.mul_nonneg hblocks₀ (by omega)) (by decide))]
  split at hrun
  · omega
  · obtain ⟨bytes, hbytes, -⟩ := ok_of_bind hrun
    have hfit := i32_range (Int.tdiv (blocks * perBlock * WAV_PCM_RATE) w.rate * 4)
    rw [(int32_ok hbytes).2] at hfit
    omega

/-- A player without data. -/
def emptyCell : Cell Unit :=
  { p := {}, rawTotal := 0, pcmTotal := 0, flProbed := true, fl := none, heap := 0 }

/-- **ADPCM decoding stays inside its buffers exactly where the frame counts fit.** -/
theorem adpcmBounded_iff (h : AdpcmAccepted d base dataLen w) :
    AdpcmBounded d base dataLen w ↔ AdpcmFits dataLen w := by
  constructor
  · intro hbounded
    exact adpcmFits_of_succeeds h plainEnv (fun _ => 0) emptyCell rfl (hbounded.1 _ _ _)
  · intro hfits
    refine ⟨fun env junk c => ?_, fun b ch i s hstate => hstate.inRange⟩
    exact (wavDecodeAdpcmMem_refines h hfits env junk c).mono fun _ _ => trivial

/-- Two mono blocks of nine bytes. -/
theorem adpcmBounded_twoBlocks : AdpcmBounded (List.replicate 18 0x77) 0 18
    { format := 17, channels := 1, rate := 8000, bits := 4, blockAlign := 9, samplesPerBlock := 11 } :=
  (adpcmBounded_iff ⟨by decide, by decide, by decide, by decide, by decide, by decide, by decide,
    by decide⟩).2 (.inr ⟨by decide, by decide⟩)

/-- **A frame count that is no `int`.**  Blocks of five bytes that are said to hold 4096 samples
each: four megabytes of them are 3435933696 frames. -/
theorem adpcm_overflows : ¬ ∀ (d : List UInt8) (base dataLen : Int) (w : WavFormat),
    AdpcmAccepted d base dataLen w → AdpcmBounded d base dataLen w := by
  intro hall
  let w : WavFormat := { format := 17, channels := 1, rate := 8000, bits := 4, blockAlign := 5,
                         samplesPerBlock := 4096 }
  obtain ⟨d, hd⟩ : ∃ d : List UInt8, d.length = 4194304 := ⟨List.replicate _ 0, List.length_replicate⟩
  have haccepted : AdpcmAccepted d 48 4194256 w := by
    refine ⟨?_, by decide, ?_, by decide, .inl rfl, by decide, by decide, by decide⟩
    · rw [hd]
      decide
    · rw [hd]
      decide
  have hfits := adpcmFits_of_succeeds haccepted plainEnv (fun _ => 0) emptyCell rfl
    ((hall d 48 4194256 w haccepted).1 _ _ _)
  rcases hfits with hsmall | ⟨hcount, -⟩
  · exact absurd hsmall (by decide)
  · exact absurd hcount (by decide)

end FroggyKVM.Audio
