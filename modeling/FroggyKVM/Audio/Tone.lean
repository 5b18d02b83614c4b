/-
# FroggyKVM.Audio.Tone — how long a tone lasts.

`gb300_audio_play_tone` counts the frames of a tone down from `duration_ms * 22050 / 1000`, an `int`
product.  However the frames are divided among calls, the tone is in exactly that many, **and that
is the asked length exactly for tones of at most 97391 ms**.
-/
import FroggyKVM.Audio.Frames

namespace FroggyKVM.Audio

variable {σ : Type}

def AUDIO_SAMPLE_RATE : Int := 22050

/-- `gb300_audio_play_tone`. -/
def gb300AudioPlayTone (note durationMs volume : Int) (t : ToneState) : ToneState :=
  if note < 0 ∨ note > 127 then t else
  let durationMs := if durationMs ≤ 0 then 100 else durationMs
  if volume ≤ 0 then { t with active := false } else
  let volume := if volume > 100 then 100 else volume
  { phase := 0
    phase_step := midiNotePhaseStep.getD note.toNat 0
    samples_remaining := Int.tdiv (i32 (durationMs * AUDIO_SAMPLE_RATE)) 1000
    -- volume 100 is 16000, which leaves headroom for mixing
    amplitude := i16 (Int.tdiv (volume * 16000) 100)
    active := true }

/-! ## The tone in a frame -/

/-- The phase at which the tone is mixed into the next frame, if it is. -/
def ToneState.mixed (t : ToneState) : Option Nat :=
  if t.active && decide (t.samples_remaining > 0) then some t.phase else none

/-- A tone of `total` frames, `k` frames after its start. -/
structure ToneState.At (total step k : Nat) (t : ToneState) : Prop where
  phaseStep : t.phase_step = step
  sounding : k < total →
    t.active = true ∧ t.samples_remaining = total - k ∧ t.phase = k * step % 4294967296
  silent : total ≤ k → t.active = false ∨ t.samples_remaining ≤ 0

namespace ToneState.At

variable {total step k : Nat} {t : ToneState}

theorem mixed_eq (h : t.At total step k) :
    t.mixed = if k < total then some (k * step % 4294967296) else none := by
  unfold ToneState.mixed
  by_cases hk : k < total
  · obtain ⟨hactive, hremaining, hphase⟩ := h.sounding hk
    have hpos : t.samples_remaining > 0 := by omega
    rw [if_pos hk, hactive, hphase]
    simp [hpos]
  · rw [if_neg hk]
    rcases h.silent (by omega) with hactive | hremaining
    · simp [hactive]
    · have hnot : ¬ t.samples_remaining > 0 := by omega
      simp [hnot]

/-- A frame. -/
theorem frame (h : t.At total step k) : (toneFrame t).2.At total step (k + 1) := by
  unfold toneFrame
  by_cases hk : k < total
  · obtain ⟨hactive, hremaining, hphase⟩ := h.sounding hk
    have hpos : t.samples_remaining > 0 := by omega
    simp only [hactive, hpos, decide_true, Bool.and_self, if_true]
    by_cases hlast : t.samples_remaining - 1 ≤ 0
    · rw [if_pos hlast]
      exact ⟨h.phaseStep, fun hbefore => absurd hbefore (by omega), fun _ => .inl rfl⟩
    · rw [if_neg hlast]
      refine ⟨h.phaseStep, fun _ => ⟨rfl, ?_, ?_⟩, fun hend => absurd hend (by omega)⟩
      · show t.samples_remaining - 1 = (total : Int) - (k + 1 : Nat)
        omega
      · show (t.phase + t.phase_step) % 4294967296 = (k + 1) * step % 4294967296
        rw [hphase, h.phaseStep, Nat.mod_add_mod, Nat.succ_mul]
  · have hsilent := h.silent (by omega)
    have hstill : (t.active && decide (t.samples_remaining > 0)) = false := by
      rcases hsilent with hactive | hremaining
      · rw [hactive, Bool.false_and]
      · have hnot : ¬ t.samples_remaining > 0 := by omega
        simp [hnot]
    rw [hstill]
    exact ⟨h.phaseStep, fun hbefore => absurd hbefore (by omega), fun _ => hsilent⟩

end ToneState.At

/-- **A tone at its start.** -/
theorem gb300AudioPlayTone_at {note d volume : Int} (hnote : 0 ≤ note ∧ note ≤ 127) (hd : 0 < d)
    (hvolume : 0 < volume) (t : ToneState) :
    (gb300AudioPlayTone note d volume t).At (Int.tdiv (i32 (d * AUDIO_SAMPLE_RATE)) 1000).toNat
      (midiNotePhaseStep.getD note.toNat 0) 0 := by
  unfold gb300AudioPlayTone
  rw [if_neg (by omega), if_neg (by omega : ¬ volume ≤ 0), if_neg (by omega : ¬ d ≤ 0)]
  generalize Int.tdiv (i32 (d * AUDIO_SAMPLE_RATE)) 1000 = remaining
  refine ⟨rfl, fun hpos => ⟨rfl, ?_, ?_⟩, fun hend => .inr ?_⟩
  · show remaining = (remaining.toNat : Int) - (0 : Nat)
    omega
  · show 0 = 0 * _ % 4294967296
    rw [Nat.zero_mul]
  · show remaining ≤ 0
    omega

/-! ## The tone over calls -/

/-- For every frame of these calls, in order: the phase at which the tone is mixed into it. -/
def toneTrace (env : Env σ) : List Int → Mixer σ → List (Option Nat)
  | [], _ => []
  | n :: ns, g => (readStates env n g).map (fun s => s.tone.mixed) ++
      toneTrace env ns (gb300AudioRead env n g).2

/-- The number of frames of these calls. -/
def totalFrames (reads : List Int) : Nat := (reads.map Int.toNat).sum

/-- The frames of a loop. -/
theorem frameStates_tone {total step : Nat} : ∀ (n : Nat) {k : Nat} {g : Mixer σ},
    g.tone.At total step k →
    (frameStates n g).map (fun s => s.tone.mixed) = (List.range' k n).map (fun i =>
      if i < total then some (i * step % 4294967296) else none) ∧
    (readLoop n g).2.tone.At total step (k + n)
  | 0, _, _, h => ⟨rfl, h⟩
  | n + 1, k, g, h => by
    have hnext : (mixFrame g).2.tone.At total step (k + 1) := by
      rw [mixFrame_tone]
      exact h.frame
    obtain ⟨hrest, hend⟩ := frameStates_tone n hnext
    constructor
    · rw [List.range'_succ, List.map_cons, ← hrest, ← h.mixed_eq]
      rfl
    · rw [show k + (n + 1) = k + 1 + n by omega]
      exact hend

/-- **However the frames are divided among calls**, the tone is in its first `total` ones. -/
theorem toneTrace_eq (env : Env σ) {total step : Nat} : ∀ (reads : List Int) {k : Nat}
    {g : Mixer σ}, g.tone.At total step k →
    toneTrace env reads g = (List.range' k (totalFrames reads)).map fun i =>
      if i < total then some (i * step % 4294967296) else none
  | [], _, _, _ => rfl
  | n :: ns, k, g, h => by
    obtain ⟨g', hsame, hstates, hafter⟩ := gb300AudioRead_cases env n g
    have hstart : g'.tone.At total step k := by
      rw [hsame.tone]
      exact h
    obtain ⟨hframes, hend⟩ := frameStates_tone n.toNat hstart
    have hnext : (gb300AudioRead env n g).2.tone.At total step (k + n.toNat) := by
      rw [hafter.tone]
      exact hend
    have hrest := toneTrace_eq env ns hnext
    have htotal : totalFrames (n :: ns) = n.toNat + totalFrames ns := by
      unfold totalFrames
      rw [List.map_cons, List.sum_cons]
    unfold toneTrace
    rw [hstates, hframes, hrest, htotal, ← List.map_append, List.range'_append_1]

/-- What is asked for: the tone is in the first `d * 22050 / 1000` frames and in no others, and its
phase advances by the note's step in each. -/
def Lasts (env : Env σ) (note d : Int) (g : Mixer σ) : Prop :=
  ∀ reads : List Int, (∀ n ∈ reads, n < 2147483648) →
    toneTrace env reads g = (List.range (totalFrames reads)).map fun (i : Nat) =>
      if (i : Int) < d * AUDIO_SAMPLE_RATE / 1000 then
        some (i * midiNotePhaseStep.getD note.toNat 0 % 4294967296)
      else none

/-- **Tones last as long as asked** exactly if their length in samples, before the division, is an
`int`. -/
theorem gb300AudioPlayTone_lasts_iff (env : Env σ) (g : Mixer σ) {note d volume : Int}
    (hnote : 0 ≤ note ∧ note ≤ 127) (hd : 0 < d ∧ d < 2147483648) (hvolume : 0 < volume) :
    Lasts env note d { g with tone := gb300AudioPlayTone note d volume g.tone } ↔ d ≤ 97391 := by
  have hrate : AUDIO_SAMPLE_RATE = 22050 := rfl
  have hat := gb300AudioPlayTone_at hnote hd.1 hvolume g.tone
  have htrace := fun reads => toneTrace_eq env reads
    (show ToneState.At _ _ 0 ({ g with tone := gb300AudioPlayTone note d volume g.tone }).tone from hat)
  constructor
  · intro hlasts
    by_contra hlong
    -- the frame behind the last one counted
    have hcount : (Int.tdiv (i32 (d * AUDIO_SAMPLE_RATE)) 1000).toNat < 2147484 ∧
        ((Int.tdiv (i32 (d * AUDIO_SAMPLE_RATE)) 1000).toNat : Int) < d * AUDIO_SAMPLE_RATE / 1000 := by
      obtain ⟨hlow, hhigh⟩ := i32_range (d * AUDIO_SAMPLE_RATE)
      rw [hrate] at hlow hhigh ⊢
      generalize i32 (d * 22050) = wrapped at hlow hhigh
      rcases Int.lt_or_le wrapped 0 with hneg | hpos
      · obtain ⟨m, rfl⟩ : ∃ m : Int, wrapped = -m := ⟨-wrapped, by omega⟩
        rw [Int.neg_tdiv, Int.tdiv_eq_ediv_of_nonneg (by omega)]
        omega
      · rw [Int.tdiv_eq_ediv_of_nonneg hpos]
        omega
    obtain ⟨hsmall, hbefore⟩ := hcount
    generalize (Int.tdiv (i32 (d * AUDIO_SAMPLE_RATE)) 1000).toNat = counted at *
    have hread := hlasts [(counted + 1 : Nat)] (by
      intro n hn
      obtain rfl := List.mem_singleton.1 hn
      omega)
    rw [htrace] at hread
    have hframes : totalFrames [((counted + 1 : Nat) : Int)] = counted + 1 := rfl
    rw [hframes, ← List.range_eq_range'] at hread
    have hlast := List.map_inj_left.1 hread counted (List.mem_range.2 (Nat.lt_succ_self counted))
    rw [if_neg (Nat.lt_irrefl counted), if_pos hbefore] at hlast
    cases hlast
  · intro hshort reads _
    rw [htrace, ← List.range_eq_range']
    apply List.map_congr_left
    intro i _
    have hexact : ((Int.tdiv (i32 (d * AUDIO_SAMPLE_RATE)) 1000).toNat : Int) =
        d * AUDIO_SAMPLE_RATE / 1000 := by
      rw [hrate, i32_of_range (by omega), Int.tdiv_eq_ediv_of_nonneg (by omega)]
      omega
    rw [← hexact]
    simp only [Int.ofNat_lt]

/-- Half a second of middle C. -/
theorem gb300AudioPlayTone_lasts_half_second :
    Lasts plainEnv 60 500 { tone := gb300AudioPlayTone 60 500 100 {} } :=
  (gb300AudioPlayTone_lasts_iff plainEnv {} (by decide) (by decide) (show (0 : Int) < 100 by decide)).2
    (by decide)

/-- **A tone of 97392 ms is not heard at all**: its length in samples wraps to a negative number. -/
theorem long_tone_silent :
    ¬ Lasts plainEnv 60 97392 { tone := gb300AudioPlayTone 60 97392 100 {} } := by
  intro hlasts
  have hat := gb300AudioPlayTone_at (show (0 : Int) ≤ 60 ∧ (60 : Int) ≤ 127 by decide)
    (show (0 : Int) < 97392 by decide) (show (0 : Int) < 100 by decide) {}
  have hnone : (Int.tdiv (i32 (97392 * AUDIO_SAMPLE_RATE)) 1000).toNat = 0 := by decide
  rw [hnone] at hat
  have hread := hlasts [1] (by decide)
  rw [toneTrace_eq plainEnv [1] hat] at hread
  exact absurd hread (by decide)

end FroggyKVM.Audio
