/-
# FroggyKVM.Audio.Frames — `gb300_audio_read` frame by frame.

The states in which the frames of a call begin, and what every function of the mixer leaves alone:
the ring buffer belongs to `gb300_audio_write` and to the loop of `gb300_audio_read`, the tone to
that loop and to `gb300_audio_play_tone`.
-/
import FroggyKVM.Audio.Mixer

namespace FroggyKVM.Audio

variable {σ : Type}

/-! ## Ring and tone left alone -/

/-- Neither the ring nor the tone has changed. -/
structure SameOutput (g g' : Mixer σ) : Prop where
  ring : g'.ring = g.ring
  head : g'.head = g.head
  tail : g'.tail = g.tail
  tone : g'.tone = g.tone

namespace SameOutput

theorem refl (g : Mixer σ) : SameOutput g g := ⟨rfl, rfl, rfl, rfl⟩

theorem trans {g g' g'' : Mixer σ} (h : SameOutput g g') (h' : SameOutput g' g'') :
    SameOutput g g'' :=
  ⟨h'.ring.trans h.ring, h'.head.trans h.head, h'.tail.trans h.tail, h'.tone.trans h.tone⟩

theorem modify (g : Mixer σ) (i : Fin WAV_MAX_PLAYERS) (f : WavPlayer → WavPlayer) :
    SameOutput g (g.modify i f) := ⟨rfl, rfl, rfl, rfl⟩

theorem setCell (g : Mixer σ) (i : Fin WAV_MAX_PLAYERS) (c : Cell σ) :
    SameOutput g (g.setCell i c) := ⟨rfl, rfl, rfl, rfl⟩

/-- A function that leaves ring and tone alone for every player, called for all of them. -/
theorem foldl {step : Mixer σ → Fin WAV_MAX_PLAYERS → Mixer σ}
    (hstep : ∀ g i, SameOutput g (step g i)) (is : List (Fin WAV_MAX_PLAYERS)) :
    ∀ g, SameOutput g (is.foldl step g) := by
  induction is with
  | nil => exact refl
  | cons i is ih => exact fun g => (hstep g i).trans (ih _)

end SameOutput

theorem topupPlayer_sameOutput (env : Env σ) (g : Mixer σ) (i : Fin WAV_MAX_PLAYERS) :
    SameOutput g (topupPlayer env g i) := by
  unfold topupPlayer
  split
  · have hrewound : SameOutput g
        (if (g.wav i).rewinds then g.modify i WavPlayer.rewind else g) := by
      split
      · exact .modify g i _
      · exact .refl g
    simp only
    generalize (if (g.wav i).rewinds then (0 : Int) else _) = remaining
    generalize (if (g.wav i).rewinds then g.modify i WavPlayer.rewind else g) = g' at hrewound ⊢
    split
    · exact hrewound
    · split_ifs
      all_goals first
        | exact hrewound
        | exact hrewound.trans ⟨rfl, rfl, rfl, rfl⟩
  · exact .refl g

theorem wavTopupMidi_sameOutput (env : Env σ) (g : Mixer σ) :
    SameOutput g (wavTopupMidi env g) :=
  .foldl (topupPlayer_sameOutput env) _ g

theorem wavMixFrame_sameOutput (g : Mixer σ) : SameOutput g (wavMixFrame g).2 := by
  unfold wavMixFrame
  generalize ((0, 0) : Int × Int) = m
  generalize List.finRange WAV_MAX_PLAYERS = is
  induction is generalizing m g with
  | nil => exact .refl g
  | cons i is ih => exact (SameOutput.modify g i _).trans (ih _ _)

/-- A native player call. -/
theorem Mixer.step_sameOutput {env : Env σ} {g g' : Mixer σ} {op : AudioOp}
    (hop : ∀ n, op ≠ .audioRead n) (h : g.step env op = .ok g') : SameOutput g g' := by
  have hhandle : ∀ handle (f : Cell σ → Except Fault (Cell σ)),
      g.onHandle handle f = .ok g' → SameOutput g g' := by
    intro handle f h
    unfold Mixer.onHandle at h
    split at h
    · obtain rfl := Except.ok.inj h
      exact .refl g
    · rename_i i _
      cases hf : f (g.cell i) with
      | error e =>
        rw [hf] at h
        cases h
      | ok c =>
        rw [hf] at h
        obtain rfl := Except.ok.inj h
        exact .setCell g i c
  have hplayer : ∀ handle (f : WavPlayer → WavPlayer),
      (.ok (g.onPlayer handle f) : Except Fault (Mixer σ)) = .ok g' → SameOutput g g' := by
    intro handle f h
    obtain rfl := Except.ok.inj h
    unfold Mixer.onPlayer
    split
    · exact .refl g
    · exact .modify g _ f
  cases op with
  | nInit =>
    obtain rfl := Except.ok.inj h
    unfold Audio.nInit
    split
    · exact .refl g
    · exact (SameOutput.setCell g _ _).trans (.modify _ _ _)
  | nBuffering handle buf bytes => exact hhandle handle _ h
  | nFlushBuffer handle => exact hhandle handle (fun c => .ok (dropRaw c)) h
  | nStart handle => exact hplayer handle _ h
  | nStop handle => exact hplayer handle _ h
  | nPause handle => exact hplayer handle _ h
  | nResume handle => exact hplayer handle _ h
  | nSetMediaTime handle ms => exact hplayer handle _ h
  | nTerm handle => exact hhandle handle (fun c => .ok (term c)) h
  | audioRead n => exact absurd rfl (hop n)

/-! ## Frames -/

/-- The body of the loop of `gb300_audio_read`. -/
def mixFrame (g : Mixer σ) : (Int × Int) × Mixer σ :=
  let (ring, g) := ringFrame g
  let (tone, t) := toneFrame g.tone
  let (mix, g) := wavMixFrame { g with tone := t }
  ((clampSample (ring.1 + tone + mix.1), clampSample (ring.2 + tone + mix.2)), g)

/-- The states the next `n` frames begin in. -/
def frameStates : Nat → Mixer σ → List (Mixer σ)
  | 0, _ => []
  | n + 1, g => g :: frameStates n (mixFrame g).2

theorem readLoop_frames : ∀ (n : Nat) (g : Mixer σ),
    (readLoop n g).1 = (frameStates n g).map fun s => (mixFrame s).1
  | 0, _ => rfl
  | n + 1, g => by
    have hrest := readLoop_frames n (mixFrame g).2
    rw [frameStates, List.map_cons, ← hrest]
    rfl

/-- What `gb300_audio_read` does before its loop. -/
def prepareRead (env : Env σ) (g : Mixer σ) : Mixer σ :=
  wavTopupMidi env { g with midiBudget := MIDI_BUDGET_PER_READ, midiSynthUsed := false }

theorem prepareRead_sameOutput (env : Env σ) (g : Mixer σ) : SameOutput g (prepareRead env g) := by
  have hbudget : SameOutput g
      { g with midiBudget := MIDI_BUDGET_PER_READ, midiSynthUsed := false } := ⟨rfl, rfl, rfl, rfl⟩
  exact hbudget.trans (wavTopupMidi_sameOutput env _)

/-- The states the frames of a call begin in. -/
def readStates (env : Env σ) (numFrames : Int) (g : Mixer σ) : List (Mixer σ) :=
  frameStates numFrames.toNat (prepareRead env g)

/-- **The frames a call produces**, one for each of these states. -/
theorem gb300AudioRead_frames (env : Env σ) (numFrames : Int) (g : Mixer σ) :
    (gb300AudioRead env numFrames g).1 =
      (readStates env numFrames g).map fun s => (mixFrame s).1 := by
  unfold gb300AudioRead
  split
  · case isTrue h =>
    have hzero : numFrames.toNat = 0 := by omega
    unfold readStates
    rw [hzero]
    rfl
  · exact readLoop_frames _ _

/-- **A call is a number of frames**, as far as ring and tone go. -/
theorem gb300AudioRead_cases (env : Env σ) (numFrames : Int) (g : Mixer σ) :
    ∃ g', SameOutput g g' ∧ readStates env numFrames g = frameStates numFrames.toNat g' ∧
      SameOutput (readLoop numFrames.toNat g').2 (gb300AudioRead env numFrames g).2 := by
  have hsame := prepareRead_sameOutput env g
  refine ⟨prepareRead env g, hsame, rfl, ?_⟩
  unfold gb300AudioRead
  split
  · case isTrue h =>
    have hzero : numFrames.toNat = 0 := by omega
    rw [hzero]
    exact ⟨hsame.ring.symm, hsame.head.symm, hsame.tail.symm, hsame.tone.symm⟩
  · exact .refl _

theorem mixFrame_tone (g : Mixer σ) : (mixFrame g).2.tone = (toneFrame g.tone).2 := by
  have hring : (ringFrame g).2.tone = g.tone := by
    unfold ringFrame
    split <;> rfl
  show (wavMixFrame { (ringFrame g).2 with tone := (toneFrame (ringFrame g).2.tone).2 }).2.tone = _
  rw [(wavMixFrame_sameOutput _).tone, hring]

/-- Of the ring a frame takes what `ringFrame` takes. -/
theorem mixFrame_ring (g : Mixer σ) : (mixFrame g).2.ring = g.ring ∧ (mixFrame g).2.head = g.head ∧
    (mixFrame g).2.tail = (ringFrame g).2.tail := by
  have hring : (ringFrame g).2.ring = g.ring ∧ (ringFrame g).2.head = g.head := by
    unfold ringFrame
    split <;> exact ⟨rfl, rfl⟩
  have hsame := wavMixFrame_sameOutput
    { (ringFrame g).2 with tone := (toneFrame (ringFrame g).2.tone).2 }
  exact ⟨hsame.ring.trans hring.1, hsame.head.trans hring.2, hsame.tail⟩

end FroggyKVM.Audio
