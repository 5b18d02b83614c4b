/-
# FroggyKVM.Audio.Stream — players and streaming SMF synthesis (`platform_gb300/audio.c`).

`wav_player_t`, `midi_stream_t`, and the functions that act on one player and the global totals:
`wav_unload`, `midi_stream_render`, `midi_stream_open`, `midi_render`.  What such a function
touches beside its player (the two budget totals, the shared soundfont synthesiser, the count of
allocations made) is bundled with the player in `Cell`.

The FluidLite library is not part of the repository: its synthesiser is a type `σ` with the five
entry points the code calls.  `malloc` and `realloc` may fail, as `Env.mallocOk` decides.
-/
import FroggyKVM.Audio.Smf
import FroggyKVM.Lib.Returns

namespace FroggyKVM.Audio

/-! ## Constants and environment -/

def WAV_MAX_PLAYERS : Nat := 64
def WAV_PCM_RATE : Int := 22050
def WAV_MAX_RAW_PER_PLAYER : Int := 4 * 1024 * 1024
def WAV_MAX_RAW_TOTAL : Int := 8 * 1024 * 1024
def WAV_MAX_PCM_TOTAL : Int := 12 * 1024 * 1024

/-- The entry points of FluidLite the mixer uses, on synthesiser states `σ`. -/
structure Fluid (σ : Type) where
  noteon : σ → Int → Int → Int → σ
  noteoff : σ → Int → Int → σ
  programChange : σ → Int → Int → σ
  cc : σ → Int → Int → Int → σ
  /-- `fluid_synth_write_s16` for `n` frames: the samples it stores, and the state after. -/
  writeS16 : σ → Nat → List Int × σ

/-- What the code takes from its surroundings. -/
structure Env (σ : Type) where
  sine : Nat → Int
  /-- whether allocation number `k` of the run succeeds -/
  mallocOk : Nat → Bool
  /-- bound on the parser loops whose progress the code does not guarantee -/
  fuel : Nat
  /-- `qsort` by tick: the order it gives to events of equal tick is the library's -/
  qsort : List MidiEvent → List MidiEvent
  fluid : Fluid σ
  /-- the synthesiser `midi_fluid_synth` obtains when it first probes for a soundfont -/
  soundfont : Option σ

/-- Surroundings without a soundfont in which every allocation succeeds. -/
def plainEnv : Env Unit where
  sine _ := 0
  mallocOk _ := true
  fuel := 64
  qsort ev := ev.insertionSort fun a b => a.tick ≤ b.tick
  fluid :=
    { noteon := fun s _ _ _ => s, noteoff := fun s _ _ => s, programChange := fun s _ _ => s
      cc := fun s _ _ _ => s, writeS16 := fun s n => (List.replicate n 0, s) }
  soundfont := none

/-! ## Streams and players -/

/-- The synthesis state an event list is played into: the part of `midi_stream_t` that
`midi_render` keeps in local variables. -/
structure TrackPlay where
  curTick : Int := 0
  tempo : Int := 500000
  voices : List MidiVoice := List.replicate MIDI_MAX_VOICES {}
  chanProg : List Int := List.replicate 16 0
  chanVol : List Int := List.replicate 16 100
  chanExpr : List Int := List.replicate 16 127
  order : Int := 0
  deriving DecidableEq, Repr

/-- `midi_stream_t`; `nev` is the length of `ev`. -/
structure MidiStream extends TrackPlay where
  ev : List MidiEvent
  ev_i : Nat := 0
  division : Int
  totalTicks : Int
  done : Bool := false
  looped : Bool := false
  deriving DecidableEq, Repr

/-- `wav_player_t` without its MIME string, which only log messages read. -/
structure WavPlayer where
  used : Bool := false
  raw : Option (List UInt8) := none
  rawLen : Int := 0
  rawTruncated : Bool := false
  pcm : Option (List Int) := none
  channels : Int := 0
  pcmFrames : Int := 0
  pos : Int := 0
  playing : Bool := false
  paused : Bool := false
  volume : Int := 0
  muted : Bool := false
  durationMs : Int := 0
  midi : Option MidiStream := none
  loopMidi : Bool := false
  deriving DecidableEq, Repr

/-- One player and the globals its functions touch. -/
structure Cell (σ : Type) where
  p : WavPlayer
  rawTotal : Int
  pcmTotal : Int
  flProbed : Bool
  fl : Option σ
  heap : Nat

variable {σ : Type}

/-- `wav_unload`. -/
def wavUnload (c : Cell σ) : Cell σ :=
  { c with
    rawTotal := if c.p.raw.isSome then c.rawTotal - c.p.rawLen else c.rawTotal
    pcmTotal := if c.p.pcm.isSome then c.pcmTotal - c.p.pcmFrames * c.p.channels * 2
                else c.pcmTotal
    p := { c.p with midi := none, loopMidi := false, raw := none, pcm := none, channels := 2,
                    rawLen := 0, rawTruncated := false, pcmFrames := 0, pos := 0,
                    playing := false, paused := false, durationMs := 0 } }

/-! ## Playing one event -/

/-- The voice a note-on takes: the one already playing the note, else a free one, else the oldest. -/
def pickVoice (voices : List MidiVoice) (ch note : Int) : Nat :=
  match voices.findIdx? fun v => v.active && v.ch = ch && v.note = note with
  | some j => j
  | none =>
    match voices.findIdx? fun v => !v.active with
    | some j => j
    | none =>
      (List.range voices.length).foldl
        (fun best j => if (voices.getD j {}).order < (voices.getD best {}).order then j else best) 0

/-- `v->gain`, from velocity, channel volume and expression. -/
def noteGain (vel vol expr : Int) : Int :=
  let gain := Int.tdiv (vel * vol * expr) (127 * 127)
  let gain := if gain > 127 then 127 else gain
  if gain < 0 then 0 else gain

/-- The built-in synthesiser's reaction to an event. -/
def applyEvent (s : TrackPlay) (e : MidiEvent) : TrackPlay :=
  if e.type = 0xFF then
    if e.d1 = 0x51 ∧ e.value > 0 then { s with tempo := e.value } else s
  else if e.type = 0x90 then
    let ch : Int := e.ch
    let note := e.d1 % 128
    let vel : Int := (e.d2 % 128 : Nat)
    let prog := s.chanProg.getD e.ch 0
    let v : MidiVoice :=
      { note := note, ch := ch, prog := prog
        gain := noteGain vel (s.chanVol.getD e.ch 0) (s.chanExpr.getD e.ch 0)
        wave := if ch = 9 then (if note ≤ 36 then 0 else 3) else midiProgWave prog
        phase := 0, inc := midiNotePhaseStep.getD note 0, env := 0
        release := false, active := true, order := s.order }
    { s with voices := s.voices.set (pickVoice s.voices ch note) v, order := i32 (s.order + 1) }
  else if e.type = 0x80 then
    let note : Int := (e.d1 % 128 : Nat)
    { s with voices := s.voices.map fun v =>
        if v.active && v.ch = (e.ch : Int) && v.note = note then { v with release := true } else v }
  else if e.type = 0xC0 then
    { s with chanProg := s.chanProg.set (e.ch % 16) (e.d1 % 128 : Nat) }
  else if e.type = 0xB0 then
    if e.d1 % 128 = 7 then { s with chanVol := s.chanVol.set (e.ch % 16) (e.d2 % 128 : Nat) }
    else if e.d1 % 128 = 11 then { s with chanExpr := s.chanExpr.set (e.ch % 16) (e.d2 % 128 : Nat) }
    else s
  else s

/-- Frames between the stream's current tick and the tick of `e`, in 64-bit arithmetic. -/
def eventDelay (division : Int) (s : TrackPlay) (e : MidiEvent) : Int :=
  Int.tdiv (Int.bmod ((e.tick - s.curTick) * s.tempo * WAV_PCM_RATE) 18446744073709551616)
    (1000000 * division)

/-! ## Rendering -/

/-- Store `samples` at index `pos` of `mem`, `stride` apart. -/
def writeAt (mem : List Int) (pos stride : Nat) : List Int → List Int
  | [] => mem
  | x :: xs => writeAt (mem.set pos x) (pos + stride) stride xs

/-- What the event loop of `midi_stream_render` carries. -/
structure RenderState (σ : Type) where
  ms : MidiStream
  pcm : List Int
  outPos : Int
  fl : Option σ

/-- Synthesise up to frame `target`. -/
def renderGap (env : Env σ) (channels target : Int) (r : RenderState σ) : RenderState σ :=
  if target > r.outPos then
    let n := (target - r.outPos).toNat
    match r.fl with
    | some f =>
      let w := env.fluid.writeS16 f n
      { r with pcm := writeAt r.pcm r.outPos.toNat channels.toNat w.1, fl := some w.2,
               outPos := target }
    | none =>
      let w := midiSynth env.sine r.ms.voices n
      { r with pcm := writeAt r.pcm r.outPos.toNat 1 w.1
               ms := { r.ms with voices := w.2 }, outPos := target }
  else r

/-- The reaction to event `e`, which has been counted in `ev_i` already.  With a soundfont loaded
a note event is counted a second time before the loop continues. -/
def renderEvent (env : Env σ) (e : MidiEvent) (r : RenderState σ) : RenderState σ :=
  match r.fl with
  | none => { r with ms := { r.ms with toTrackPlay := applyEvent r.ms.toTrackPlay e } }
  | some f =>
    let note : Int := (e.d1 % 128 : Nat)
    if e.type = 0x90 then
      { r with fl := some (env.fluid.noteon f e.ch note (e.d2 % 128 : Nat))
               ms := { r.ms with ev_i := r.ms.ev_i + 1 } }
    else if e.type = 0x80 then
      { r with fl := some (env.fluid.noteoff f e.ch note)
               ms := { r.ms with ev_i := r.ms.ev_i + 1 } }
    else
      let r := { r with ms := { r.ms with toTrackPlay := applyEvent r.ms.toTrackPlay e } }
      if e.type = 0xC0 then
        { r with fl := some (env.fluid.programChange f (e.ch % 16 : Nat) note) }
      else if e.type = 0xB0 then
        { r with fl := some (env.fluid.cc f (e.ch % 16 : Nat) note (e.d2 % 128 : Nat)) }
      else r

/-- One iteration of the event loop: the gap before event `e`, then the event. -/
def renderStep (env : Env σ) (channels pcmFrames : Int) (e : MidiEvent) (r : RenderState σ) :
    RenderState σ :=
  let target := r.outPos + eventDelay r.ms.division r.ms.toTrackPlay e
  let target := if target > pcmFrames then pcmFrames else target
  let r := renderGap env channels target r
  renderEvent env e { r with ms := { r.ms with curTick := e.tick, ev_i := r.ms.ev_i + 1 } }

/-- `while (ms->ev_i < ms->nev && outPos < p->pcmFrames)`; every iteration increments `ev_i`, so
`nev` iterations are enough. -/
def renderLoop (env : Env σ) (channels pcmFrames : Int) : Nat → RenderState σ → RenderState σ
  | 0, r => r
  | fuel + 1, r =>
    match r.ms.ev[r.ms.ev_i]? with
    | none => r
    | some e =>
      if r.outPos < pcmFrames then
        renderLoop env channels pcmFrames fuel (renderStep env channels pcmFrames e r)
      else r

/-- `midi_stream_render`. -/
def midiStreamRender (env : Env σ) (frames : Int) (c : Cell σ) : Cell σ × Bool :=
  match c.p.midi with
  | none => (c, false)
  | some ms =>
    if frames ≤ 0 then (c, false) else
    let budget := WAV_MAX_PCM_TOTAL - c.pcmTotal + c.p.pcmFrames * c.p.channels * 2
    let want := c.p.pcmFrames + frames
    let want := if want * 2 > budget then Int.tdiv budget 2 else want
    if want ≤ c.p.pcmFrames then (c, false) else
    let want := if want > WAV_PCM_RATE * 300 then WAV_PCM_RATE * 300 else want
    if !env.mallocOk c.heap then ({ c with heap := c.heap + 1 }, false) else
    let outPos := c.p.pcmFrames
    let pcm := (c.p.pcm.getD []).take outPos.toNat ++ List.replicate (want - outPos).toNat 0
    let r := renderLoop env c.p.channels want ms.ev.length ⟨ms, pcm, outPos, c.fl⟩
    let done := if r.ms.ev.length ≤ r.ms.ev_i then true else r.ms.done
    ({ c with
       p := { c.p with pcm := some r.pcm, pcmFrames := want
                       midi := some { r.ms with done := done } }
       pcmTotal := c.pcmTotal + (want - outPos) * 2
       fl := r.fl
       heap := c.heap + 1 }, true)

/-! ## Opening and one-shot rendering -/

def maxTick (ev : List MidiEvent) : Int := ev.foldl (fun m e => if e.tick > m then e.tick else m) 0

/-- `midi_fluid_synth`: probe for a soundfont once. -/
def midiFluidSynth (env : Env σ) (c : Cell σ) : Cell σ :=
  if c.flProbed then c else { c with flProbed := true, fl := env.soundfont }

/-- The load-time prefix of `midi_stream_open`. -/
def renderPrefix (env : Env σ) (ms : MidiStream) (c : Cell σ) : Cell σ :=
  let totalFrames := Int.tdiv (ms.totalTicks * ms.tempo) (1000000 * ms.division) * WAV_PCM_RATE
  let pre : Int := 512
  let pre := if totalFrames > 0 ∧ pre > i32 totalFrames then i32 totalFrames else pre
  if pre > 0 then
    let c := (midiStreamRender env pre c).1
    let tempo := (c.p.midi.getD ms).tempo
    { c with p := { c.p with
        loopMidi := decide (totalFrames > 0 ∧
          Int.tdiv (ms.totalTicks * tempo) (1000000 * ms.division) * WAV_PCM_RATE > c.p.pcmFrames) } }
  else c

/-- `midi_stream_open`. -/
def midiStreamOpen (env : Env σ) (c : Cell σ) : Except Fault (Cell σ × Bool) := do
  match c.p.raw with
  | none => return (c, false)
  | some d =>
    let (parsed, heap) ← midiParse env.mallocOk env.fuel d c.heap
    match parsed with
    | none => return ({ c with heap := heap }, false)
    | some (ev, division) =>
      let ev := env.qsort ev
      if !env.mallocOk heap then return ({ c with heap := heap + 1 }, false)
      let ms : MidiStream := { ev := ev, division := division, totalTicks := i32 (maxTick ev) }
      let c := { c with heap := heap + 1, p := { c.p with midi := some ms, channels := 1 } }
      let c := midiFluidSynth env c
      let c := renderPrefix env ms c
      let tempo := (c.p.midi.getD ms).tempo
      return ({ c with p := { c.p with
        durationMs := i32 (Int.tdiv (maxTick ev * tempo) (1000000 * division) * 1000) } }, true)

/-- The cell that `midi_stream_open` hands to the prefix renderer: the new stream, one channel. -/
def Cell.withStream (c : Cell σ) (ms : MidiStream) : Cell σ :=
  { c with p := { c.p with midi := some ms, channels := 1 } }

/-- **What holds of a failed open and of every rendered prefix holds of `midi_stream_open`.** -/
theorem midiStreamOpen_rule {env : Env σ} {c : Cell σ} {P : Cell σ × Bool → Prop}
    (hfail : ∀ heap, P ({ c with heap := heap }, false))
    (hopen : ∀ ms heap probed fl dur,
      let c' := renderPrefix env ms
        (Cell.withStream { c with heap := heap, flProbed := probed, fl := fl } ms)
      P ({ c' with p := { c'.p with durationMs := dur } }, true)) :
    Returns (midiStreamOpen env c) P := by
  unfold midiStreamOpen
  split
  · exact .pure (hfail c.heap)
  · refine .bind_any fun ⟨parsed, heap⟩ => ?_
    simp only
    split
    · exact .pure (hfail heap)
    · rename_i ev division
      split
      · exact .pure (hfail _)
      · apply Returns.pure
        generalize hms : ({ ev := env.qsort ev, division := division, totalTicks := _ } : MidiStream)
          = ms
        unfold midiFluidSynth
        split
        · exact hopen ms (heap + 1) c.flProbed c.fl _
        · exact hopen ms (heap + 1) true env.soundfont _

/-- The event loop of `midi_render`: `out` holds the samples written so far, `outPos` of them. -/
def midiRenderLoop (sine : Nat → Int) (division : Int) (outCap : Nat) :
    List MidiEvent → TrackPlay × List Int → TrackPlay × List Int
  | [], r => r
  | e :: es, (s, out) =>
    if out.length < outCap then
      let target := (out.length : Int) + eventDelay division s e
      let target := if target > outCap then (outCap : Int) else target
      let w := midiSynth sine s.voices (target - out.length).toNat
      midiRenderLoop sine division outCap es
        (applyEvent { s with voices := w.2, curTick := e.tick } e, out ++ w.1)
    else (s, out)

/-- `midi_render`: the whole track rendered at once into a fresh buffer. -/
def midiRender (env : Env σ) (c : Cell σ) : Except Fault (Cell σ × Bool) := do
  match c.p.raw with
  | none => return (c, false)
  | some d =>
    let (parsed, heap) ← midiParse env.mallocOk env.fuel d c.heap
    match parsed with
    | none => return ({ c with heap := heap }, false)
    | some (ev, division) =>
      let outCap := Int.tdiv (WAV_MAX_PCM_TOTAL - c.pcmTotal) 2
      let outCap := if outCap > WAV_PCM_RATE * 300 then WAV_PCM_RATE * 300 else outCap
      if outCap ≤ 0 then return ({ c with heap := heap }, false)
      if !env.mallocOk heap then return ({ c with heap := heap + 1 }, false)
      let out := (midiRenderLoop env.sine division outCap.toNat (env.qsort ev) ({}, [])).2
      if out = [] then return ({ c with heap := heap + 1 }, false)
      return ({ c with
        heap := heap + 1
        pcmTotal := c.pcmTotal + out.length * 2
        p := { c.p with pcm := some out, pcmFrames := out.length, channels := 1
                        durationMs := Int.tdiv (out.length * 1000) WAV_PCM_RATE } }, true)

end FroggyKVM.Audio
