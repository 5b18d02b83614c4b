/-
# FroggyKVM.Audio.Mixer — the player table, the native player calls and the mixer.

The globals of `platform_gb300/audio.c` are one record, `Mixer`; a native call or a
`gb300_audio_read` call is one `AudioOp`, and `Mixer.step` is what it does.  A fault inside a
parser ends the run, so `step` is partial.
-/
import FroggyKVM.Audio.Wave
import FroggyKVM.Lib.Lts

namespace FroggyKVM.Audio

variable {σ : Type}

/-! ## Globals -/

/-- `ToneState`. -/
structure ToneState where
  active : Bool := false
  phase : Nat := 0
  phase_step : Nat := 0
  samples_remaining : Int := 0
  amplitude : Int := 0

/-- `AUDIO_BUFFER_SIZE * 2`, the length of the ring buffer. -/
def AUDIO_RING_SIZE : Nat := 8192

/-- The file-scope variables of `audio.c`. -/
structure Mixer (σ : Type) where
  ring : List Int := List.replicate AUDIO_RING_SIZE 0
  head : Nat := 0
  tail : Nat := 0
  tone : ToneState := {}
  wav : Fin WAV_MAX_PLAYERS → WavPlayer := fun _ => {}
  rawTotal : Int := 0
  pcmTotal : Int := 0
  flProbed : Bool := false
  fl : Option σ := none
  midiBudget : Int := 0
  midiSynthUsed : Bool := false
  /-- allocations made so far -/
  heap : Nat := 0

/-- The view a function on player `i` has of the globals. -/
def Mixer.cell (g : Mixer σ) (i : Fin WAV_MAX_PLAYERS) : Cell σ :=
  { p := g.wav i, rawTotal := g.rawTotal, pcmTotal := g.pcmTotal
    flProbed := g.flProbed, fl := g.fl, heap := g.heap }

/-- Write that view back. -/
def Mixer.setCell (g : Mixer σ) (i : Fin WAV_MAX_PLAYERS) (c : Cell σ) : Mixer σ :=
  { g with wav := Function.update g.wav i c.p, rawTotal := c.rawTotal, pcmTotal := c.pcmTotal
           flProbed := c.flProbed, fl := c.fl, heap := c.heap }

/-- Change only the fields of player `i`. -/
def Mixer.modify (g : Mixer σ) (i : Fin WAV_MAX_PLAYERS) (f : WavPlayer → WavPlayer) : Mixer σ :=
  { g with wav := Function.update g.wav i (f (g.wav i)) }

/-- `wav_get`: handles count from 1. -/
def wavGet (handle : Int) : Option (Fin WAV_MAX_PLAYERS) :=
  if h : 0 < handle ∧ handle ≤ WAV_MAX_PLAYERS then
    some ⟨(handle - 1).toNat, by omega⟩
  else none

/-! ## Native player calls -/

/-- `nInit`: take the first free slot. -/
def nInit (g : Mixer σ) : Mixer σ :=
  match (List.finRange WAV_MAX_PLAYERS).find? fun h => !(g.wav h).used with
  | none => g
  | some h =>
    let g := g.setCell h (wavUnload (g.cell h))
    g.modify h fun _ => { used := true, volume := 100 }

/-- End of stream in `nBuffering`: drop the raw data. -/
def dropRaw (c : Cell σ) : Cell σ :=
  if c.p.raw.isSome then
    { c with rawTotal := c.rawTotal - c.p.rawLen, p := { c.p with raw := none, rawLen := 0 } }
  else c

/-- `memcmp(p->raw, "MThd", 4) == 0` for raw data of at least four bytes. -/
def isMThd (d : List UInt8) : Bool := d.take 4 = [0x4D, 0x54, 0x68, 0x64]

/-- `nBuffering` with `bytes < 0`: decode, then drop the raw data. -/
def bufferingEnd (env : Env σ) (c : Cell σ) : Except Fault (Cell σ) := do
  match c.p.raw, c.p.pcm with
  | some d, none =>
    if isMThd d then
      let (c, _) ← midiStreamOpen env c
      return dropRaw c
    else
      let (c, _) ← wavDecode env c
      return dropRaw c
  | _, _ => return dropRaw c

/-- `nBuffering` with `bytes > 0` and a non-null buffer. -/
def bufferingData (env : Env σ) (buf : List UInt8) (bytes : Int) (c : Cell σ) : Cell σ :=
  if c.p.pcm.isSome then c else
  let len : Int := if (buf.length : Int) > bytes then bytes else buf.length
  if c.p.rawLen + len ≤ WAV_MAX_RAW_PER_PLAYER ∧ c.rawTotal + len ≤ WAV_MAX_RAW_TOTAL then
    if env.mallocOk c.heap then
      { c with
        heap := c.heap + 1
        rawTotal := c.rawTotal + len
        p := { c.p with raw := some (c.p.raw.getD [] ++ buf.take len.toNat)
                        rawLen := c.p.rawLen + len } }
    else { c with heap := c.heap + 1 }
  else if !c.p.rawTruncated then { c with p := { c.p with rawTruncated := true } }
  else c

/-- `nBuffering` on a valid handle; `bytes` is an `int`, as its callers pass it. -/
def buffering (env : Env σ) (buf : Option (List UInt8)) (bytes : Int) (c : Cell σ) :
    Except Fault (Cell σ) :=
  if bytes < 0 then bufferingEnd env c
  else
    match buf with
    | some buf => if bytes > 0 then .ok (bufferingData env buf bytes c) else .ok c
    | none => .ok c

def nStart (p : WavPlayer) : WavPlayer :=
  let p := if p.paused then { p with paused := false } else { p with pos := 0 }
  { p with playing := true }

def nStop (p : WavPlayer) : WavPlayer := { p with playing := false, paused := false, pos := 0 }

def nPause (p : WavPlayer) : WavPlayer := { p with paused := true }

def nResume (p : WavPlayer) : WavPlayer := { p with paused := false, playing := true }

def nSetMediaTime (ms : Int) (p : WavPlayer) : WavPlayer :=
  let pos := Int.tdiv (Int.bmod (ms * WAV_PCM_RATE) 18446744073709551616) 1000
  let pos := if pos < 0 then 0 else pos
  let pos := if pos > p.pcmFrames then p.pcmFrames else pos
  { p with pos := i32 pos }

/-- `nTerm` on a valid handle. -/
def term (c : Cell σ) : Cell σ :=
  let c := wavUnload c
  { c with p := { c.p with used := false } }

/-! ## The mixer -/

def MIDI_TOPUP_MAX : Int := 4096
def MIDI_BUDGET_PER_READ : Int := 8192

/-- A player `wav_topup_midi` looks at. -/
def WavPlayer.topupCandidate (p : WavPlayer) : Bool :=
  p.used && p.playing && !p.paused && p.midi.isSome && p.pcm.isSome

/-- The track ran out of events, is nearly played out, and loops: it is about to be rewound. -/
def WavPlayer.rewinds (p : WavPlayer) : Bool :=
  match p.midi with
  | none => false
  | some ms =>
    ms.done && decide (p.pcmFrames - p.pos > 0) &&
      decide (p.pcmFrames - p.pos < Int.tdiv WAV_PCM_RATE 4) && p.loopMidi

/-- The rewind in `wav_topup_midi`. -/
def WavPlayer.rewind (p : WavPlayer) : WavPlayer :=
  match p.midi with
  | none => p
  | some ms =>
    { p with midi := some { ms with ev_i := 0, curTick := 0, done := false, looped := false }
             pcmFrames := 0, pos := 0 }

/-- The body of `wav_topup_midi` for one player. -/
def topupPlayer (env : Env σ) (g : Mixer σ) (i : Fin WAV_MAX_PLAYERS) : Mixer σ :=
  if (g.wav i).topupCandidate then
    let remaining := (g.wav i).pcmFrames - (g.wav i).pos
    let remaining := if (g.wav i).rewinds then 0 else remaining
    let g := if (g.wav i).rewinds then g.modify i WavPlayer.rewind else g
    match (g.wav i).midi with
    | none => g
    | some ms =>
      if !ms.done && decide (g.midiBudget > 0) && (g.fl.isNone || !g.midiSynthUsed) then
        if remaining < WAV_PCM_RATE * 2 then
          let deficit := WAV_PCM_RATE * 2 - remaining
          let chunk := if deficit > MIDI_TOPUP_MAX then MIDI_TOPUP_MAX else deficit
          let chunk := if chunk > g.midiBudget then g.midiBudget else chunk
          let r := midiStreamRender env chunk (g.cell i)
          let g := g.setCell i r.1
          if r.2 then { g with midiBudget := g.midiBudget - chunk, midiSynthUsed := true } else g
        else g
      else g
  else g

/-- `wav_topup_midi`. -/
def wavTopupMidi (env : Env σ) (g : Mixer σ) : Mixer σ :=
  (List.finRange WAV_MAX_PLAYERS).foldl (topupPlayer env) g

/-- The body of `wav_mix_frame` for one player: its contribution and its new position. -/
def mixPlayer (p : WavPlayer) : Int × Int × WavPlayer :=
  match p.pcm with
  | none => (0, 0, p)
  | some pcm =>
    if !p.used || !p.playing || p.paused then (0, 0, p) else
    if p.pos ≥ p.pcmFrames ∧ ¬(p.midi.isSome ∧ p.loopMidi) then
      (0, 0, { p with playing := false, pos := 0 })
    else
      -- a looping stream starts over
      let p := if p.pos ≥ p.pcmFrames then { p with pos := 0 } else p
      if p.pos < p.pcmFrames then
        let vol := if p.muted then 0 else p.volume
        let sl := pcm.getD (p.pos * p.channels).toNat 0
        let sr := if p.channels > 1 then pcm.getD (p.pos * p.channels + 1).toNat 0 else sl
        let pos := p.pos + 1
        let p := if p.midi.isNone ∧ pos ≥ p.pcmFrames then { p with playing := false, pos := 0 }
                 else { p with pos := pos }
        (Int.tdiv (sl * vol) 100, Int.tdiv (sr * vol) 100, p)
      else (0, 0, p)

/-- `wav_mix_frame`: one output frame of all players. -/
def wavMixFrame (g : Mixer σ) : (Int × Int) × Mixer σ :=
  (List.finRange WAV_MAX_PLAYERS).foldl
    (fun (m, g) i =>
      let r := mixPlayer (g.wav i)
      ((m.1 + r.1, m.2 + r.2.1), g.modify i fun _ => r.2.2))
    ((0, 0), g)

/-- One stereo frame from the ring buffer, if there is one. -/
def ringFrame (g : Mixer σ) : (Int × Int) × Mixer σ :=
  if g.tail ≠ g.head then
    let next := (g.tail + 1) % AUDIO_RING_SIZE
    ((g.ring.getD g.tail 0, g.ring.getD next 0), { g with tail := (next + 1) % AUDIO_RING_SIZE })
  else ((0, 0), g)

/-- One sample of the synthesised tone. -/
def toneFrame (t : ToneState) : Int × ToneState :=
  if t.active && decide (t.samples_remaining > 0) then
    let frac : Int := (t.phase % 65536 : Nat)
    let s := if frac < 32768 then i16 (-t.amplitude + i16 (t.amplitude * frac / 16384))
             else i16 (t.amplitude - i16 (t.amplitude * (frac - 32768) / 16384))
    let t := { t with phase := (t.phase + t.phase_step) % 4294967296
                      samples_remaining := t.samples_remaining - 1 }
    (s, if t.samples_remaining ≤ 0 then { t with active := false } else t)
  else (0, t)

/-- The frame loop of `gb300_audio_read`. -/
def readLoop : Nat → Mixer σ → List (Int × Int) × Mixer σ
  | 0, g => ([], g)
  | n + 1, g =>
    let (ring, g) := ringFrame g
    let (tone, t) := toneFrame g.tone
    let (mix, g) := wavMixFrame { g with tone := t }
    let rest := readLoop n g
    ((clampSample (ring.1 + tone + mix.1), clampSample (ring.2 + tone + mix.2)) :: rest.1, rest.2)

theorem readLoop_succ (n : Nat) (g : Mixer σ) :
    (readLoop (n + 1) g).2 = (readLoop n (wavMixFrame { (ringFrame g).2 with
      tone := (toneFrame (ringFrame g).2.tone).2 }).2).2 := rfl

/-- `gb300_audio_read` with a non-null destination: the stereo frames it produces. -/
def gb300AudioRead (env : Env σ) (numFrames : Int) (g : Mixer σ) : List (Int × Int) × Mixer σ :=
  if numFrames ≤ 0 then ([], g)
  else readLoop numFrames.toNat
    (wavTopupMidi env { g with midiBudget := MIDI_BUDGET_PER_READ, midiSynthUsed := false })

/-! ## Runs -/

/-- The native player calls and the mixer call. -/
inductive AudioOp where
  | nInit
  | nBuffering (handle : Int) (buf : Option (List UInt8)) (bytes : Int)
  | nFlushBuffer (handle : Int)
  | nStart (handle : Int)
  | nStop (handle : Int)
  | nPause (handle : Int)
  | nResume (handle : Int)
  | nSetMediaTime (handle ms : Int)
  | nTerm (handle : Int)
  | audioRead (numFrames : Int)

/-- Run a function of one player on the player of `handle`, if the handle is valid. -/
def Mixer.onHandle (g : Mixer σ) (handle : Int)
    (f : Cell σ → Except Fault (Cell σ)) : Except Fault (Mixer σ) :=
  match wavGet handle with
  | none => .ok g
  | some i => (f (g.cell i)).map (g.setCell i)

/-- Change fields of the player of `handle`, if the handle is valid. -/
def Mixer.onPlayer (g : Mixer σ) (handle : Int) (f : WavPlayer → WavPlayer) : Mixer σ :=
  match wavGet handle with
  | none => g
  | some i => g.modify i f

def Mixer.step (env : Env σ) (g : Mixer σ) : AudioOp → Except Fault (Mixer σ)
  | .nInit => .ok (Audio.nInit g)
  | .nBuffering h buf bytes => g.onHandle h (buffering env buf bytes)
  | .nFlushBuffer h => g.onHandle h fun c => .ok (dropRaw c)
  | .nStart h => .ok (g.onPlayer h Audio.nStart)
  | .nStop h => .ok (g.onPlayer h Audio.nStop)
  | .nPause h => .ok (g.onPlayer h Audio.nPause)
  | .nResume h => .ok (g.onPlayer h Audio.nResume)
  | .nSetMediaTime h ms => .ok (g.onPlayer h (Audio.nSetMediaTime ms))
  | .nTerm h => g.onHandle h fun c => .ok (term c)
  | .audioRead n => .ok (gb300AudioRead env n g).2

/-- The native calls as a transition system: a call that faults has no successor. -/
def Mixer.Step (env : Env σ) (g : Mixer σ) (op : AudioOp) (g' : Mixer σ) : Prop :=
  g.step env op = .ok g'

end FroggyKVM.Audio
