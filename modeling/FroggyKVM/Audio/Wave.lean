/-
# FroggyKVM.Audio.Wave — RIFF/WAVE parsing and decoding (`platform_gb300/audio.c`).

`wav_decode` walks the chunks of a RIFF file, then resamples PCM or IMA ADPCM data to the mixer's
22050 Hz stereo stream.  A chunk size is an `unsigned int` compared after a cast to `int`, so a size
of `2 ^ 31` or more is not clamped to the buffer and moves the position backwards; the chunk loop
therefore takes fuel, and reads outside the buffer are faults, as in the SMF parser.
-/
import FroggyKVM.Audio.Stream

namespace FroggyKVM.Audio

variable {σ : Type}

/-! ## Chunks -/

/-- `d[i] | (d[i+1] << 8)`. -/
def le16At (d : List UInt8) (i : Int) : Except Fault Int := do
  let b0 ← byteAt d i
  let b1 ← byteAt d (i + 1)
  return b0 + b1 * 256

/-- A little-endian `unsigned int`. -/
def le32At (d : List UInt8) (i : Int) : Except Fault Int := do
  let lo ← le16At d i
  let hi ← le16At d (i + 2)
  return lo + hi * 65536

/-- What the chunk loop of `wav_decode` collects. -/
structure WavFormat where
  format : Int := 0
  channels : Int := 0
  rate : Int := 0
  bits : Int := 0
  blockAlign : Int := 0
  samplesPerBlock : Int := 0
  /-- offset and length of the last data chunk -/
  data : Option (Int × Int) := none

/-- The body of a `"fmt "` chunk of size `sz ≥ 16` at `pos`. -/
def wavFmtChunk (d : List UInt8) (pos sz : Int) (w : WavFormat) : Except Fault WavFormat := do
  let format ← le16At d pos
  let channels ← le16At d (pos + 2)
  let rate ← le32At d (pos + 4)
  let bits ← le16At d (pos + 14)
  let blockAlign ← le16At d (pos + 12)
  let samplesPerBlock ← if sz ≥ 20 then le16At d (pos + 18) else .ok w.samplesPerBlock
  -- WAVE_FORMAT_EXTENSIBLE: the first two bytes of the SubFormat GUID
  let format ← if format = 0xFFFE ∧ sz ≥ 40 then le16At d (pos + 24) else .ok format
  return { w with format, channels, rate := i32 rate, bits, blockAlign, samplesPerBlock }

def wavChunkLoop (d : List UInt8) : Nat → Int → WavFormat → Except Fault WavFormat
  | 0, _, _ => .error .outOfFuel
  | fuel + 1, pos, w =>
    if pos + 8 ≤ d.length then do
      let id ← bytesAt d pos 4
      let sz ← le32At d (pos + 4)
      let pos := pos + 8
      let sz := if i32 sz > d.length - pos then (d.length : Int) - pos else sz
      let w ←
        if id = [0x66, 0x6D, 0x74, 0x20] ∧ sz ≥ 16 then wavFmtChunk d pos sz w
        else if id = [0x64, 0x61, 0x74, 0x61] then .ok { w with data := some (pos, i32 sz) }
        else .ok w
      wavChunkLoop d fuel (i32 (pos + i32 ((sz + 1) % 4294967296 / 2 * 2))) w
    else .ok w

/-! ## Resampling -/

/-- Resample `total` source frames to `outFrames` stereo frames by linear interpolation; `src idx`
is the left and right sample of source frame `idx`. -/
def resample (src : Int → Except Fault (Int × Int)) (total rate : Int) :
    Nat → Nat → Except Fault (List Int)
  | _, 0 => .ok []
  | i, n + 1 => do
    let fixed := (i : Int) * rate * 256 / WAV_PCM_RATE
    let idx := i32 (fixed / 256)
    let frac := fixed % 256
    let (idx, frac) := if idx ≥ total - 1 then (total - 1, 0) else (idx, frac)
    let (l0, r0) ← src idx
    let (l1, r1) ← if frac ≠ 0 then src (idx + 1) else .ok (l0, r0)
    let rest ← resample src total rate (i + 1) n
    return i16 ((l0 * (256 - frac) + l1 * frac) / 256) ::
      i16 ((r0 * (256 - frac) + r1 * frac) / 256) :: rest

/-- `wav_read_src`. -/
def wavReadSrc (d : List UInt8) (base channels bits frame : Int) : Except Fault (Int × Int) := do
  if bits = 8 then
    let s := base + frame * channels
    let lv ← byteAt d s
    let rv ← if channels ≥ 2 then byteAt d (s + 1) else .ok lv
    return (((lv : Int) - 128) * 256, ((rv : Int) - 128) * 256)
  else
    let s := base + frame * channels * 2
    let lv ← le16At d s
    let rv ← if channels ≥ 2 then le16At d (s + 2) else .ok lv
    return (i16 lv, i16 rv)

/-! ## IMA ADPCM -/

def imaIndexTable : List Int := [-1, -1, -1, -1, 2, 4, 6, 8]

def imaStepTable : List Int := [
  7, 8, 9, 10, 11, 12, 13, 14, 16, 17, 19, 21, 23, 25, 28, 31, 34, 37, 41,
  45, 50, 55, 60, 66, 73, 80, 88, 97, 107, 118, 130, 143, 157, 173, 190,
  209, 230, 253, 279, 307, 337, 371, 408, 449, 494, 544, 598, 658, 724,
  796, 876, 963, 1060, 1166, 1282, 1411, 1552, 1707, 1878, 2066, 2272,
  2499, 2749, 3024, 3327, 3660, 4026, 4428, 4871, 5358, 5894, 6484, 7132,
  7845, 8630, 9493, 10442, 11487, 12635, 13899, 15289, 16818, 18500,
  20350, 22385, 24623, 27086, 29794, 32767]

/-- The decoder state of one channel: predictor and step index. -/
structure ImaState where
  pred : Int
  stepi : Int

/-- Decode one nibble. -/
def imaNibble (s : ImaState) (nib : Nat) : ImaState :=
  let step := imaStepTable.getD s.stepi.toNat 0
  let diff := step / 8
  let diff := if nib.testBit 2 then diff + step else diff
  let diff := if nib.testBit 1 then diff + step / 2 else diff
  let diff := if nib.testBit 0 then diff + step / 4 else diff
  let pred := if nib.testBit 3 then s.pred - diff else s.pred + diff
  let stepi := s.stepi + imaIndexTable.getD (nib % 8) 0
  { pred := clampSample pred, stepi := if stepi < 0 then 0 else if stepi > 88 then 88 else stepi }

/-- Channel `ch`'s next sample, number `i ≥ 1` of the block at `blk`. -/
def imaSample (d : List UInt8) (blk channels blockAlign : Int) (i : Nat) (ch : Nat) (s : ImaState) :
    Except Fault ImaState := do
  let sp := 4 * channels
  let nibIdx : Int := (i : Int) - 1
  let byteIdx := if channels = 1 then sp + nibIdx / 2
    else sp + nibIdx / 8 * 8 + (ch : Int) * 4 + nibIdx % 8 / 2
  if byteIdx ≥ blockAlign then return s
  let b ← byteAt d (blk + byteIdx)
  return imaNibble s (if nibIdx % 2 = 1 then b / 16 else b % 16)

/-- The samples `i, i + 1, …` of a block, as left and right pairs. -/
def imaBlockLoop (d : List UInt8) (blk channels blockAlign : Int) :
    Nat → Nat → ImaState → ImaState → Except Fault (List (Int × Int))
  | _, 0, _, _ => .ok []
  | i, n + 1, l, r => do
    let l ← imaSample d blk channels blockAlign i 0 l
    let r ← if channels > 1 then imaSample d blk channels blockAlign i 1 r else .ok l
    let rest ← imaBlockLoop d blk channels blockAlign (i + 1) n l r
    return (l.pred, r.pred) :: rest

/-- The preamble of channel `ch`. -/
def imaPreamble (d : List UInt8) (blk : Int) (ch : Nat) : Except Fault ImaState := do
  let pred ← le16At d (blk + ch * 4)
  let stepi ← byteAt d (blk + ch * 4 + 2)
  return { pred := i16 pred, stepi := min stepi 88 }

/-- The blocks `b, b + 1, …` of the data chunk. -/
def imaBlocks (d : List UInt8) (base channels blockAlign samplesPerBlock : Int) :
    Nat → Nat → Except Fault (List (Int × Int))
  | _, 0 => .ok []
  | b, n + 1 => do
    let blk := base + b * blockAlign
    let l ← imaPreamble d blk 0
    let r ← if channels > 1 then imaPreamble d blk 1 else .ok l
    let samples ← imaBlockLoop d blk channels blockAlign 1 (samplesPerBlock.toNat - 1) l r
    let rest ← imaBlocks d base channels blockAlign samplesPerBlock (b + 1) n
    return (l.pred, r.pred) :: samples ++ rest

/-! ## Decoding into a player -/

/-- The common end of both decoders: clip the frame count to the remaining budget, resample into a
fresh buffer, and account for it. -/
def wavFinish (env : Env σ) (src : Int → Except Fault (Int × Int)) (totalFrames rate : Int)
    (c : Cell σ) : Except Fault (Cell σ × Bool) := do
  let outFrames := i32 (Int.tdiv (totalFrames * WAV_PCM_RATE) rate)
  let budget := WAV_MAX_PCM_TOTAL - c.pcmTotal
  if outFrames ≤ 0 then return (c, false)
  let outFrames := if i32 (outFrames * 4) > budget then Int.tdiv budget 4 else outFrames
  if outFrames ≤ 0 then return (c, false)
  if !env.mallocOk c.heap then return ({ c with heap := c.heap + 1 }, false)
  let pcm ← resample src totalFrames rate 0 outFrames.toNat
  return ({ c with
    heap := c.heap + 1
    pcmTotal := c.pcmTotal + outFrames * 4
    p := { c.p with pcm := some pcm, pcmFrames := outFrames, channels := 2
                    durationMs := i32 (Int.tdiv (totalFrames * 1000) rate) } }, true)

/-- A source of decoded samples. -/
def sampleAt (samples : List (Int × Int)) (idx : Int) : Except Fault (Int × Int) :=
  if 0 ≤ idx then
    match samples[idx.toNat]? with
    | some s => .ok s
    | none => .error .readOutside
  else .error .readOutside

/-- `wav_decode_adpcm`. -/
def wavDecodeAdpcm (env : Env σ) (d : List UInt8) (base dataLen : Int) (w : WavFormat)
    (c : Cell σ) : Except Fault (Cell σ × Bool) := do
  if w.blockAlign ≤ 4 * w.channels then return (c, false)
  let samplesPerBlock :=
    if w.samplesPerBlock ≤ 0 ∨ w.samplesPerBlock > 4096 then
      Int.tdiv ((w.blockAlign - 4 * w.channels) * 2) w.channels + 1
    else w.samplesPerBlock
  let blocks := Int.tdiv dataLen w.blockAlign
  if blocks ≤ 0 ∨ samplesPerBlock ≤ 0 then return (c, false)
  if !env.mallocOk c.heap then return ({ c with heap := c.heap + 1 }, false)
  -- a frame count that does not fit an `int` makes the buffer too small for the loops that fill it
  if blocks * samplesPerBlock ≥ 2147483648 then throw .writeOutside
  let samples ← imaBlocks d base w.channels w.blockAlign samplesPerBlock 0 blocks.toNat
  wavFinish env (sampleAt samples) (blocks * samplesPerBlock) w.rate { c with heap := c.heap + 1 }

/-- `wav_decode`. -/
def wavDecode (env : Env σ) (c : Cell σ) : Except Fault (Cell σ × Bool) := do
  match c.p.raw with
  | none => return (c, false)
  | some d =>
    if d.length < 44 then return (c, false)
    let riff ← bytesAt d 0 4
    let wave ← bytesAt d 8 4
    if riff ≠ [0x52, 0x49, 0x46, 0x46] ∨ wave ≠ [0x57, 0x41, 0x56, 0x45] then return (c, false)
    let w ← wavChunkLoop d env.fuel 12 {}
    match w.data with
    | none => return (c, false)
    | some (base, dataLen) =>
      if dataLen ≤ 0 then return (c, false)
      if w.format = 17 ∧ w.bits = 4 ∧ (w.channels = 1 ∨ w.channels = 2) ∧
          w.rate ≥ 4000 ∧ w.rate ≤ 48000 ∧ w.blockAlign > 0 then
        wavDecodeAdpcm env d base dataLen w c
      else if w.format ≠ 1 ∨ (w.channels ≠ 1 ∧ w.channels ≠ 2) ∨
          (w.bits ≠ 8 ∧ w.bits ≠ 16) ∨ w.rate < 4000 ∨ w.rate > 48000 then
        return (c, false)
      else
        let srcFrames := Int.tdiv dataLen (w.channels * (w.bits / 8))
        if srcFrames ≤ 0 then return (c, false)
        wavFinish env (wavReadSrc d base w.channels w.bits) srcFrames w.rate c

/-! ## A rule for the decoder -/

section Rule

variable {env : Env σ} {c : Cell σ} {P : Cell σ × Bool → Prop}

/-- The ADPCM decoder gives up, at most after an allocation, or ends in `wavFinish`. -/
theorem wavDecodeAdpcm_rule (d : List UInt8) (base dataLen : Int) (w : WavFormat)
    (hfail : ∀ heap, P ({ c with heap := heap }, false))
    (hfinish : ∀ heap src totalFrames rate,
      Returns (wavFinish env src totalFrames rate { c with heap := heap }) P) :
    Returns (wavDecodeAdpcm env d base dataLen w c) P := by
  unfold wavDecodeAdpcm
  split
  · exact .pure (hfail c.heap)
  · simp only
    generalize (if w.samplesPerBlock ≤ 0 ∨ w.samplesPerBlock > 4096 then _ else _) = perBlock
    split
    · exact .pure (hfail c.heap)
    · split
      · exact .pure (hfail _)
      · split
        · exact .error
        · exact .bind_any fun _ => hfinish _ _ _ _

/-- **What holds of a failed decode and of every `wavFinish` holds of `wav_decode`.** -/
theorem wavDecode_rule (hfail : ∀ heap, P ({ c with heap := heap }, false))
    (hfinish : ∀ heap src totalFrames rate,
      Returns (wavFinish env src totalFrames rate { c with heap := heap }) P) :
    Returns (wavDecode env c) P := by
  have hgiveUp : Returns (pure (c, false) : Except Fault (Cell σ × Bool)) P := .pure (hfail c.heap)
  unfold wavDecode
  split
  · exact hgiveUp
  · split
    · exact hgiveUp
    · refine .bind_any fun riff => .bind_any fun wave => ?_
      split
      · exact hgiveUp
      · refine .bind_any fun w => ?_
        split
        · exact hgiveUp
        · split
          · exact hgiveUp
          · split
            · exact wavDecodeAdpcm_rule _ _ _ _ hfail hfinish
            · split
              · exact hgiveUp
              · simp only
                split
                · exact hgiveUp
                · exact hfinish c.heap _ _ _

end Rule

end FroggyKVM.Audio
