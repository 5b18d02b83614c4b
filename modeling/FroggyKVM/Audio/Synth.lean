/-
# FroggyKVM.Audio.Synth — the built-in MIDI synthesiser of `platform_gb300/audio.c`.

The wavetables, the voice record and `midi_synth`, the inner loop that advances every active voice
by one frame and mixes them into one `int16` sample.  The first wavetable is filled with a
floating-point parabola in the source; it enters here as the parameter `sine`, and nothing below
depends on its values.  The other three tables are the source's integer formulas.

`int` values stay inside 32 bits in these functions, so they are `Int`; the oscillator phase is a
`uint32_t` that does wrap and is kept modulo `2 ^ 32`.
-/
import FroggyKVM.Lib.MachineInt

namespace FroggyKVM.Audio

/-! ## Tables -/

/-- 16.16 fixed-point phase increment per sample at 22050 Hz for MIDI notes 0..127. -/
def midiNotePhaseStep : List Nat := [
  24, 26, 27, 29, 31, 32, 34, 36,
  39, 41, 43, 46, 49, 51, 55, 58,
  61, 65, 69, 73, 77, 82, 87, 92,
  97, 103, 109, 116, 122, 130, 137, 146,
  154, 163, 173, 183, 194, 206, 218, 231,
  245, 259, 275, 291, 309, 327, 346, 367,
  389, 412, 436, 462, 490, 519, 550, 583,
  617, 654, 693, 734, 778, 824, 873, 925,
  980, 1038, 1100, 1165, 1234, 1308, 1386, 1468,
  1555, 1648, 1746, 1849, 1959, 2076, 2199, 2330,
  2469, 2615, 2771, 2936, 3110, 3295, 3491, 3699,
  3919, 4152, 4399, 4660, 4937, 5231, 5542, 5872,
  6221, 6591, 6983, 7398, 7838, 8304, 8797, 9321,
  9875, 10462, 11084, 11743, 12441, 13181, 13965, 14795,
  15675, 16607, 17595, 18641, 19750, 20924, 22168, 23486,
  24883, 26363, 27930, 29591, 31351, 33215, 35190, 37282]

/-- `midi_wave[wave][i]`: sine (parameter), triangle, softened square, saw. -/
def midiWave (sine : Nat → Int) (wave i : Nat) : Int :=
  match wave with
  | 0 => sine i
  | 1 => if i < 128 then Int.tdiv (((i : Int) * 2 - 128) * 120) 128
         else Int.tdiv ((384 - (i : Int) * 2) * 120) 128
  | 2 => if i = 0 ∨ i = 128 then 0 else if i < 128 then 120 else -120
  | _ => Int.tdiv (((i : Int) - 128) * 120) 128

/-- `midi_prog_wave`: the waveform of a General MIDI program. -/
def midiProgWave (prog : Int) : Nat :=
  if prog < 8 then 1 else if prog < 16 then 0 else if prog < 24 then 2
  else if prog < 32 then 3 else if prog < 40 then 0 else if prog < 56 then 3
  else if prog < 64 then 2 else if prog < 72 then 2 else if prog < 80 then 0
  else if prog < 88 then 3 else if prog < 96 then 1 else 0

/-! ## Voices -/

def MIDI_MAX_VOICES : Nat := 16

/-- `midi_voice_t`. -/
structure MidiVoice where
  note : Int := 0
  ch : Int := 0
  prog : Int := 0
  gain : Int := 0
  active : Bool := false
  release : Bool := false
  phase : Nat := 0
  inc : Nat := 0
  env : Int := 0
  wave : Nat := 0
  order : Int := 0
  deriving DecidableEq, Repr

/-- The interpolated wavetable sample of a voice, scaled by envelope and gain. -/
def MidiVoice.sample (sine : Nat → Int) (v : MidiVoice) : Int :=
  let idx := v.phase / 256 % 256
  let frac : Int := (v.phase % 256 : Nat)
  let s0 := midiWave sine v.wave idx
  let s1 := midiWave sine v.wave ((idx + 1) % 256)
  (s0 * (256 - frac) + s1 * frac) / 256 * (v.env / 256) * v.gain

/-- What one frame does to a voice: attack or release of the envelope, and the phase step. -/
def MidiVoice.advance (v : MidiVoice) : MidiVoice :=
  let v :=
    if !v.release then
      let env := if v.env < 32767 then min (v.env + if v.ch = 9 then 400 else 150) 32767 else v.env
      -- percussion decays without waiting for note-off
      { v with env := env, release := decide (v.ch = 9) }
    else
      let env := v.env - if v.ch = 9 then 120 else 50
      if env ≤ 0 then { v with env := 0, active := false } else { v with env := env }
  { v with phase := (v.phase + v.inc) % 4294967296 }

def nActive (voices : List MidiVoice) : Nat := voices.countP (·.active)

/-- The polyphony-dependent shift, chosen once per `midi_synth` call. -/
def synthShift (n : Nat) : Nat :=
  if n > 8 then 10 else if n > 4 then 9 else if n > 2 then 8 else 7

def clampSample (acc : Int) : Int :=
  if acc > 32767 then 32767 else if acc < -32768 then -32768 else acc

/-- The sample of one frame. -/
def synthFrame (sine : Nat → Int) (shift : Nat) (voices : List MidiVoice) : Int :=
  clampSample ((voices.map fun v => if v.active then v.sample sine else 0).sum / 2 ^ shift)

def advanceVoices (voices : List MidiVoice) : List MidiVoice :=
  voices.map fun v => if v.active then v.advance else v

/-- The frame loop of `midi_synth`, for a fixed shift. -/
def synthLoop (sine : Nat → Int) (shift : Nat) : Nat → List MidiVoice → List Int × List MidiVoice
  | 0, voices => ([], voices)
  | n + 1, voices =>
    let r := synthLoop sine shift n (advanceVoices voices)
    (synthFrame sine shift voices :: r.1, r.2)

/-- `midi_synth`: `frames` samples and the voices they leave behind. -/
def midiSynth (sine : Nat → Int) (voices : List MidiVoice) (frames : Nat) :
    List Int × List MidiVoice :=
  if nActive voices = 0 then (List.replicate frames 0, voices)
  else synthLoop sine (synthShift (nActive voices)) frames voices

/-! ## What a shorter synthesis shares with a longer one -/

theorem synthLoop_length (sine : Nat → Int) (shift : Nat) :
    ∀ (n : Nat) (voices : List MidiVoice), (synthLoop sine shift n voices).1.length = n
  | 0, _ => rfl
  | n + 1, voices => by simp [synthLoop, synthLoop_length sine shift n]

@[simp] theorem midiSynth_length (sine : Nat → Int) (voices : List MidiVoice) (n : Nat) :
    (midiSynth sine voices n).1.length = n := by
  unfold midiSynth
  split
  · simp
  · exact synthLoop_length ..

theorem synthLoop_take (sine : Nat → Int) (shift : Nat) :
    ∀ (m n : Nat) (voices : List MidiVoice), m ≤ n →
      (synthLoop sine shift n voices).1.take m = (synthLoop sine shift m voices).1
  | 0, _, _, _ => by simp [synthLoop]
  | m + 1, 0, _, h => by omega
  | m + 1, n + 1, voices, h => by
      simp [synthLoop, synthLoop_take sine shift m n _ (by omega)]

/-- The shift is fixed at the start of a call, so a longer synthesis starts with the shorter one. -/
theorem midiSynth_take (sine : Nat → Int) (voices : List MidiVoice) {m n : Nat} (h : m ≤ n) :
    (midiSynth sine voices n).1.take m = (midiSynth sine voices m).1 := by
  unfold midiSynth
  split
  · simp [h]
  · exact synthLoop_take sine _ m n voices h

@[simp] theorem midiSynth_zero (sine : Nat → Int) (voices : List MidiVoice) :
    midiSynth sine voices 0 = ([], voices) := by
  unfold midiSynth
  split <;> rfl

end FroggyKVM.Audio
