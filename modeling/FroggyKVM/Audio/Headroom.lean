/-
# FroggyKVM.Audio.Headroom — the built-in synthesiser never clips.

A voice adds at most `120 * 127 * 127` to the accumulator of a frame, and the shift chosen from the
number of active voices leaves room for that many voices.  Voices only fall silent while a call
runs, so the shift chosen at its start is right to the end.
-/
import FroggyKVM.Audio.Synth

namespace FroggyKVM.Audio

/-! ## One voice -/

/-- The ranges the code keeps the envelope and the gain in. -/
structure MidiVoice.Bounded (v : MidiVoice) : Prop where
  env : 0 ≤ v.env ∧ v.env ≤ 32767
  gain : 0 ≤ v.gain ∧ v.gain ≤ 127

/-- The wavetables have magnitude at most 120, if the sine table has. -/
theorem midiWave_abs {sine : Nat → Int} (hsine : ∀ i < 256, |sine i| ≤ 120) (wave : Nat) {i : Nat}
    (hi : i < 256) : |midiWave sine wave i| ≤ 120 := by
  have htriangle : ∀ k : Int, -128 ≤ k → k ≤ 128 → |Int.tdiv (k * 120) 128| ≤ 120 := by
    intro k hlow hhigh
    rw [abs_le]
    rcases Int.lt_or_le k 0 with hneg | hpos
    · obtain ⟨m, rfl⟩ : ∃ m : Int, k = -m := ⟨-k, by omega⟩
      rw [Int.neg_mul, Int.neg_tdiv, Int.tdiv_eq_ediv_of_nonneg (by omega)]
      omega
    · rw [Int.tdiv_eq_ediv_of_nonneg (by omega)]
      omega
  unfold midiWave
  split
  · exact hsine i hi
  · split
    · exact htriangle _ (by omega) (by omega)
    · exact htriangle _ (by omega) (by omega)
  · split
    · decide
    · split <;> decide
  · exact htriangle _ (by omega) (by omega)

/-- A point between two samples. -/
theorem interpolate_abs {s0 s1 frac : Int} (h0 : |s0| ≤ 120) (h1 : |s1| ≤ 120)
    (hfrac : 0 ≤ frac ∧ frac ≤ 255) : |(s0 * (256 - frac) + s1 * frac) / 256| ≤ 120 := by
  obtain ⟨hlow0, hhigh0⟩ := abs_le.1 h0
  obtain ⟨hlow1, hhigh1⟩ := abs_le.1 h1
  have hupper : s0 * (256 - frac) + s1 * frac ≤ 120 * 256 := by nlinarith
  have hlower : -(120 * 256) ≤ s0 * (256 - frac) + s1 * frac := by nlinarith
  rw [abs_le]
  generalize s0 * (256 - frac) + s1 * frac = t at hupper hlower
  omega

/-- The largest contribution of a voice. -/
def VOICE_PEAK : Int := 120 * 127 * 127

theorem MidiVoice.Bounded.sample_abs {sine : Nat → Int} (hsine : ∀ i < 256, |sine i| ≤ 120)
    {v : MidiVoice} (h : v.Bounded) : |v.sample sine| ≤ VOICE_PEAK := by
  have hmul : ∀ {a b A B : Int}, |a| ≤ A → |b| ≤ B → |a * b| ≤ A * B := by
    intro a b A B ha hb
    rw [abs_mul]
    exact mul_le_mul ha hb (abs_nonneg b) ((abs_nonneg a).trans ha)
  obtain ⟨henv, hgain⟩ := h
  have hpoint := interpolate_abs (midiWave_abs hsine v.wave (i := v.phase / 256 % 256) (by omega))
    (midiWave_abs hsine v.wave (i := (v.phase / 256 % 256 + 1) % 256) (by omega))
    (show 0 ≤ ((v.phase % 256 : Nat) : Int) ∧ ((v.phase % 256 : Nat) : Int) ≤ 255 by omega)
  have henv : |v.env / 256| ≤ 127 := by
    rw [abs_le]
    omega
  have hgain : |v.gain| ≤ 127 := by
    rw [abs_le]
    omega
  exact hmul (hmul hpoint henv) hgain

/-- A frame keeps the ranges. -/
theorem MidiVoice.Bounded.advance {v : MidiVoice} (h : v.Bounded) : v.advance.Bounded := by
  obtain ⟨henv, hgain⟩ := h
  have hattack : 0 ≤ (if v.ch = 9 then 400 else 150 : Int) := by split <;> decide
  have hdecay : 0 ≤ (if v.ch = 9 then 120 else 50 : Int) := by split <;> decide
  unfold MidiVoice.advance
  generalize (if v.ch = 9 then 400 else 150 : Int) = attack at hattack
  generalize (if v.ch = 9 then 120 else 50 : Int) = decay at hdecay
  split
  · refine ⟨?_, hgain⟩
    show 0 ≤ (if v.env < 32767 then min (v.env + attack) 32767 else v.env) ∧
      (if v.env < 32767 then min (v.env + attack) 32767 else v.env) ≤ 32767
    split
    · omega
    · exact henv
  · by_cases hsilent : v.env - decay ≤ 0
    · simp only [if_pos hsilent]
      exact ⟨⟨Int.le_refl 0, show (0 : Int) ≤ 32767 by decide⟩, hgain⟩
    · simp only [if_neg hsilent]
      refine ⟨?_, hgain⟩
      show 0 ≤ v.env - decay ∧ v.env - decay ≤ 32767
      omega

/-! ## The voices of a frame -/

/-- What a voice adds to the accumulator. -/
def contribution (sine : Nat → Int) (v : MidiVoice) : Int := if v.active then v.sample sine else 0

/-- `acc` behind the first `j` voices. -/
def accAfter (sine : Nat → Int) (voices : List MidiVoice) (j : Nat) : Int :=
  ((voices.take j).map (contribution sine)).sum

/-- The active voices are in range. -/
def VoicesBounded (voices : List MidiVoice) : Prop :=
  ∀ v ∈ voices, v.active = true → v.Bounded

variable {sine : Nat → Int} {voices : List MidiVoice}

/-- The sum over some voices, against the number of active ones. -/
theorem sum_abs (hsine : ∀ i < 256, |sine i| ≤ 120) (h : VoicesBounded voices) :
    |(voices.map (contribution sine)).sum| ≤ nActive voices * VOICE_PEAK := by
  induction voices with
  | nil => exact Int.le_of_eq rfl
  | cons v vs ih =>
    have ih := ih fun w hw => h w (.tail _ hw)
    have hadd := abs_add_le (contribution sine v) (vs.map (contribution sine)).sum
    unfold nActive at ih ⊢
    rw [List.map_cons, List.sum_cons, List.countP_cons]
    cases hv : v.active with
    | true =>
      have hsample := (h v (.head _) hv).sample_abs hsine
      have hterm : contribution sine v = v.sample sine := if_pos hv
      rw [hterm] at hadd ⊢
      push_cast
      simp only [if_true]
      linarith
    | false =>
      have hterm : contribution sine v = 0 := by simp [contribution, hv]
      rw [hterm] at hadd ⊢
      simpa using ih

theorem nActive_take_le (j : Nat) : nActive (voices.take j) ≤ nActive voices :=
  List.Sublist.countP_le (List.take_sublist j voices)

/-- **No partial sum overflows.** -/
theorem accAfter_abs (hsine : ∀ i < 256, |sine i| ≤ 120) (h : VoicesBounded voices) (j : Nat) :
    |accAfter sine voices j| ≤ nActive voices * VOICE_PEAK := by
  have hhead : VoicesBounded (voices.take j) := fun v hv => h v (List.mem_of_mem_take hv)
  have hsum := sum_abs hsine hhead
  have hcount : ((nActive (voices.take j) : Nat) : Int) ≤ nActive voices :=
    Int.ofNat_le.2 (nActive_take_le j)
  have hpeak : (0 : Int) ≤ VOICE_PEAK := by decide
  exact hsum.trans (mul_le_mul_of_nonneg_right hcount hpeak)

/-- **The shift leaves room** for the voices it was chosen for, and for fewer. -/
theorem shifted_range {n m : Nat} (hm : m ≤ n) (hn : n ≤ MIDI_MAX_VOICES) {acc : Int}
    (hacc : |acc| ≤ m * VOICE_PEAK) :
    -32768 ≤ acc / 2 ^ synthShift n ∧ acc / 2 ^ synthShift n ≤ 32767 := by
  obtain ⟨hlow, hhigh⟩ := abs_le.1 hacc
  have hpeak : VOICE_PEAK = 1935480 := by decide
  have hmax : MIDI_MAX_VOICES = 16 := rfl
  rw [hpeak] at hlow hhigh
  unfold synthShift
  split
  · omega
  · split
    · omega
    · split <;> omega

/-! ## The frames of a call -/

theorem VoicesBounded.advance (h : VoicesBounded voices) : VoicesBounded (advanceVoices voices) := by
  intro w hw hactive
  obtain ⟨v, hv, rfl⟩ := List.mem_map.1 hw
  by_cases hbefore : v.active = true
  · rw [if_pos hbefore]
    exact (h v hv hbefore).advance
  · rw [if_neg hbefore] at hactive
    exact absurd hactive hbefore

theorem nActive_advance_le : nActive (advanceVoices voices) ≤ nActive voices := by
  unfold nActive advanceVoices
  rw [List.countP_map]
  apply List.countP_mono_left
  intro v _ hactive
  simp only [Function.comp_apply] at hactive
  split at hactive
  · assumption
  · exact hactive

/-- The voices behind `k` frames. -/
theorem voices_after (h : VoicesBounded voices) (k : Nat) :
    VoicesBounded (advanceVoices^[k] voices) ∧
      nActive (advanceVoices^[k] voices) ≤ nActive voices := by
  induction k with
  | zero => exact ⟨h, Nat.le_refl _⟩
  | succ k ih =>
    rw [Function.iterate_succ_apply']
    exact ⟨ih.1.advance, nActive_advance_le.trans ih.2⟩

/-- A sample of the loop is the frame of the voices it has come to. -/
theorem synthLoop_getElem (sine : Nat → Int) (shift : Nat) : ∀ {n k : Nat} (voices : List MidiVoice),
    k < n → (synthLoop sine shift n voices).1[k]? =
      some (synthFrame sine shift (advanceVoices^[k] voices))
  | n + 1, 0, voices, _ => rfl
  | n + 1, k + 1, voices, h => by
    show (synthLoop sine shift n (advanceVoices voices)).1[k]? = _
    rw [synthLoop_getElem sine shift _ (Nat.lt_of_succ_lt_succ h), Function.iterate_succ_apply]

/-- **The synthesiser never clips and never overflows.**  For each frame of a call: `acc` stays far
from the limits of an `int32_t` behind every voice, its shifted value is an `int16_t`, and that
value is the sample. -/
theorem midiSynth_never_clips (hsine : ∀ i < 256, |sine i| ≤ 120)
    (hcount : voices.length ≤ MIDI_MAX_VOICES) (hvoices : VoicesBounded voices) {frames k : Nat}
    (hk : k < frames) :
    (∀ j, -2147483648 ≤ accAfter sine (advanceVoices^[k] voices) j ∧
      accAfter sine (advanceVoices^[k] voices) j < 2147483648) ∧
    -32768 ≤ accAfter sine (advanceVoices^[k] voices) MIDI_MAX_VOICES /
      2 ^ synthShift (nActive voices) ∧
    accAfter sine (advanceVoices^[k] voices) MIDI_MAX_VOICES /
      2 ^ synthShift (nActive voices) ≤ 32767 ∧
    (midiSynth sine voices frames).1[k]? =
      some (accAfter sine (advanceVoices^[k] voices) MIDI_MAX_VOICES /
        2 ^ synthShift (nActive voices)) := by
  obtain ⟨hbounded, hactive⟩ := voices_after hvoices k
  have hn : nActive voices ≤ MIDI_MAX_VOICES := List.countP_le_length.trans hcount
  have habs := accAfter_abs hsine hbounded
  have hrange := shifted_range hactive hn (habs MIDI_MAX_VOICES)
  refine ⟨fun j => ?_, hrange.1, hrange.2, ?_⟩
  · obtain ⟨hlow, hhigh⟩ := abs_le.1 (habs j)
    have hpeak : VOICE_PEAK = 1935480 := by decide
    have hmax : MIDI_MAX_VOICES = 16 := rfl
    rw [hpeak] at hlow hhigh
    omega
  · have hlength : (advanceVoices^[k] voices).length = voices.length := by
      clear * -
      induction k with
      | zero => rfl
      | succ k ih => rw [Function.iterate_succ_apply', advanceVoices, List.length_map, ih]
    have hwhole : accAfter sine (advanceVoices^[k] voices) MIDI_MAX_VOICES =
        ((advanceVoices^[k] voices).map (contribution sine)).sum := by
      rw [accAfter, List.take_of_length_le (by omega)]
    unfold midiSynth
    split
    · case isTrue hsilent =>
      have hzero : |accAfter sine (advanceVoices^[k] voices) MIDI_MAX_VOICES| ≤ 0 := by
        have hnone : nActive (advanceVoices^[k] voices) = 0 := by omega
        have hbound := habs MIDI_MAX_VOICES
        rw [hnone] at hbound
        simpa using hbound
      rw [abs_nonpos_iff.1 hzero, List.getElem?_replicate, if_pos hk, Int.zero_ediv]
    · rw [synthLoop_getElem sine _ voices hk]
      unfold synthFrame clampSample
      have hsum : ((advanceVoices^[k] voices).map
          fun v => if v.active then v.sample sine else 0).sum =
            accAfter sine (advanceVoices^[k] voices) MIDI_MAX_VOICES := hwhole.symm
      rw [hsum, if_neg (by omega), if_neg (by omega)]

/-- Sixteen voices at full volume. -/
theorem midiSynth_never_clips_full :
    let loud : List MidiVoice :=
      List.replicate 16 { active := true, env := 32767, gain := 127, wave := 2, inc := 24883 }
    (∀ j, -2147483648 ≤ accAfter (fun _ => 0) (advanceVoices^[1] loud) j ∧
      accAfter (fun _ => 0) (advanceVoices^[1] loud) j < 2147483648) ∧
    accAfter (fun _ => 0) (advanceVoices^[1] loud) MIDI_MAX_VOICES / 2 ^ synthShift (nActive loud) ≤
      32767 := by
  intro loud
  have hloud : VoicesBounded loud := by
    intro v hv _
    obtain rfl := List.eq_of_mem_replicate hv
    exact ⟨by decide, by decide⟩
  obtain ⟨hacc, -, hhigh, -⟩ := @midiSynth_never_clips (fun _ => 0) loud (fun _ _ => by decide)
    (show loud.length ≤ MIDI_MAX_VOICES by decide) hloud 2 1 (by decide)
  exact ⟨hacc, hhigh⟩

end FroggyKVM.Audio
