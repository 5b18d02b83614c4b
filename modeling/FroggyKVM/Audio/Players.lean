/-
# FroggyKVM.Audio.Players — the state of a player, and the samples that are read and written.

`pcm`, `pcmFrames`, `channels`, `pos` and `midi` are updated by the WAV decoder, the streaming
renderer, the rewind, the seek and the end-of-stream paths.  `WavPlayer.Sound` is what all of them
keep, and from it every sample `wav_mix_frame` reads and `midi_stream_render` writes lies inside the
player's allocation (`Mixer.accesses` lists them call by call).

The one step that does not keep it is an end-of-data call whose WAV data decodes while the player
still holds a MIDI stream from an earlier one: the player becomes stereo and keeps the stream, which
goes on rendering in mono.  `Mixer.KeepsStreams` excludes that step.
-/
import FroggyKVM.Audio.Budget
import FroggyKVM.Audio.Delivery

namespace FroggyKVM.Audio

variable {σ : Type}

/-! ## Sound players -/

/-- What a player satisfies between calls. -/
structure WavPlayer.Sound (p : WavPlayer) : Prop where
  pos_nonneg : 0 ≤ p.pos
  pos_le : p.pos ≤ p.pcmFrames
  frames_lt : p.pcmFrames < 2147483648
  room : ∀ pcm, p.pcm = some pcm → p.pcmFrames * p.channels ≤ pcm.length
  empty : p.pcm = none → p.pcmFrames = 0
  mono : p.midi.isSome → p.channels = 1 ∧ p.pcmFrames ≤ WAV_PCM_RATE * 300
  channels : p.channels = 1 ∨ p.channels = 2 ∨ (p.channels = 0 ∧ p.pcm = none ∧ p.midi = none)

/-- Moving within the samples. -/
theorem WavPlayer.Sound.seek {p q : WavPlayer} (hp : p.Sound)
    (hpos : 0 ≤ q.pos ∧ q.pos ≤ p.pcmFrames)
    (hpcm : q.pcm = p.pcm) (hframes : q.pcmFrames = p.pcmFrames) (hch : q.channels = p.channels)
    (hmidi : q.midi = p.midi) : q.Sound where
  pos_nonneg := hpos.1
  pos_le := by rw [hframes]; exact hpos.2
  frames_lt := by rw [hframes]; exact hp.frames_lt
  room := by rw [hpcm, hframes, hch]; exact hp.room
  empty := by rw [hpcm, hframes]; exact hp.empty
  mono := by rw [hmidi, hch, hframes]; exact hp.mono
  channels := by rw [hch, hpcm, hmidi]; exact hp.channels

theorem WavPlayer.Sound.frames_nonneg {p : WavPlayer} (hp : p.Sound) : 0 ≤ p.pcmFrames :=
  hp.pos_nonneg.trans hp.pos_le

/-- A position that stays, or goes back to the start. -/
theorem WavPlayer.Sound.keep {p q : WavPlayer} (hp : p.Sound) (hpos : q.pos = p.pos ∨ q.pos = 0)
    (hpcm : q.pcm = p.pcm) (hframes : q.pcmFrames = p.pcmFrames) (hch : q.channels = p.channels)
    (hmidi : q.midi = p.midi) : q.Sound := by
  have h0 := hp.pos_nonneg
  have h1 := hp.pos_le
  exact hp.seek (by omega) hpcm hframes hch hmidi

/-- Where a player's samples and stream are gone. -/
theorem WavPlayer.Sound.unloaded {p : WavPlayer} (hpos : p.pos = 0) (hframes : p.pcmFrames = 0)
    (hpcm : p.pcm = none) (hmidi : p.midi = none) (hch : p.channels = 0 ∨ p.channels = 2) :
    p.Sound where
  pos_nonneg := by omega
  pos_le := by omega
  frames_lt := by omega
  room := by simp [hpcm]
  empty := fun _ => hframes
  mono := by simp [hmidi]
  channels := hch.elim (fun h => .inr (.inr ⟨h, hpcm, hmidi⟩)) fun h => .inr (.inl h)

/-! ## Rendering keeps the length of the buffer -/

@[simp] theorem writeAt_length (pos stride : Nat) (xs : List Int) :
    ∀ mem : List Int, (writeAt mem pos stride xs).length = mem.length := by
  induction xs generalizing pos with
  | nil => exact fun _ => rfl
  | cons x xs ih =>
    intro mem
    rw [writeAt, ih, List.length_set]

theorem renderGap_length (env : Env σ) (channels target : Int) (r : RenderState σ) :
    (renderGap env channels target r).pcm.length = r.pcm.length := by
  unfold renderGap
  split
  · cases r.fl <;> simp
  · rfl

theorem renderEvent_pcm (env : Env σ) (e : MidiEvent) (r : RenderState σ) :
    (renderEvent env e r).pcm = r.pcm := by
  unfold renderEvent
  cases r.fl with
  | none => rfl
  | some f =>
    simp only
    split_ifs <;> rfl

theorem renderStep_length (env : Env σ) (channels pcmFrames : Int) (e : MidiEvent)
    (r : RenderState σ) : (renderStep env channels pcmFrames e r).pcm.length = r.pcm.length := by
  unfold renderStep
  simp only
  rw [renderEvent_pcm]
  exact renderGap_length env channels _ r

theorem renderLoop_length (env : Env σ) (channels pcmFrames : Int) :
    ∀ (fuel : Nat) (r : RenderState σ),
      (renderLoop env channels pcmFrames fuel r).pcm.length = r.pcm.length
  | 0, _ => rfl
  | fuel + 1, r => by
    unfold renderLoop
    split
    · rfl
    · split
      · rw [renderLoop_length env channels pcmFrames fuel, renderStep_length]
      · rfl

/-- The frame rendered up to is past what was there, and within the five-minute cap. -/
theorem renderTarget_range {env : Env σ} {frames : Int} {c : Cell σ} {want : Int}
    (h : renderTarget env frames c = some want) (hcap : c.p.pcmFrames ≤ WAV_PCM_RATE * 300) :
    c.p.pcmFrames ≤ want ∧ want ≤ WAV_PCM_RATE * 300 := by
  unfold renderTarget at h
  split at h
  · cases h
  · simp only at h
    generalize (if (c.p.pcmFrames + frames) * 2 > _ then _ else c.p.pcmFrames + frames) = w at h
    split at h
    · cases h
    · split at h
      · cases h
      · obtain rfl := Option.some.inj h
        split <;> omega

/-- A sound player's samples fill the frames counted. -/
theorem renderStart_length {c : Cell σ} (hc : c.p.Sound) (ms : MidiStream) {want : Int}
    (hch : c.p.channels = 1) (hwant : c.p.pcmFrames ≤ want) :
    ((renderStart c ms want).pcm.length : Int) = want := by
  have h0 := hc.frames_nonneg
  have hlen : c.p.pcmFrames ≤ ((c.p.pcm.getD []).length : Int) := by
    cases hpcm : c.p.pcm with
    | none => simp [hc.empty hpcm]
    | some pcm => simpa [hch] using hc.room pcm hpcm
  simp only [renderStart, List.length_append, List.length_take, List.length_replicate]
  omega

theorem midiStreamRender_sound (env : Env σ) (frames : Int) {c : Cell σ} (hc : c.p.Sound) :
    (midiStreamRender env frames c).1.p.Sound := by
  cases hms : c.p.midi with
  | none =>
    have hsame : midiStreamRender env frames c = (c, false) := by
      unfold midiStreamRender
      rw [hms]
    rw [hsame]
    exact hc
  | some ms =>
    rw [midiStreamRender_player env frames hms]
    cases htarget : renderTarget env frames c with
    | none => exact hc
    | some want =>
      obtain ⟨hch, hcap⟩ := hc.mono (by simp [hms])
      obtain ⟨hle, hwant⟩ := renderTarget_range htarget hcap
      have hlen := renderStart_length hc ms hch hle
      have hpos := hc.pos_le
      have hrate : WAV_PCM_RATE * 300 = 6615000 := rfl
      exact
        { pos_nonneg := hc.pos_nonneg
          pos_le := hpos.trans hle
          frames_lt := by
            show want < 2147483648
            omega
          room := by
            rintro pcm hpcm
            obtain rfl := Option.some.inj hpcm
            show want * c.p.channels ≤ _
            rw [renderLoop_length, hlen, hch]
            omega
          empty := by
            intro h
            cases h
          mono := fun _ => ⟨hch, hwant⟩
          channels := .inl hch }

/-! ## Every function on one player keeps it sound -/

theorem renderPrefix_sound (env : Env σ) (ms : MidiStream) {c : Cell σ} (hc : c.p.Sound) :
    (renderPrefix env ms c).p.Sound := by
  have hrender : ∀ pre loop, WavPlayer.Sound
      { (midiStreamRender env pre c).1.p with loopMidi := loop } := fun pre _ =>
    (midiStreamRender_sound env pre hc).keep (.inl rfl) rfl rfl rfl rfl
  unfold renderPrefix
  simp only
  split_ifs
  all_goals first
    | exact hrender _ _
    | exact hc

/-- A player without samples stays sound when it gets a stream. -/
theorem Cell.withStream_sound {c : Cell σ} (hc : c.p.Sound) (hpcm : c.p.pcm = none)
    (ms : MidiStream) : (c.withStream ms).p.Sound where
  pos_nonneg := hc.pos_nonneg
  pos_le := hc.pos_le
  frames_lt := hc.frames_lt
  room := by simp [Cell.withStream, hpcm]
  empty := hc.empty
  mono := fun _ => ⟨rfl, by
    have hrate : WAV_PCM_RATE * 300 = 6615000 := rfl
    show c.p.pcmFrames ≤ _
    rw [hc.empty hpcm]
    omega⟩
  channels := .inl rfl

theorem midiStreamOpen_sound (env : Env σ) {c : Cell σ} (hc : c.p.Sound) (hpcm : c.p.pcm = none) :
    Returns (midiStreamOpen env c) fun r => r.1.p.Sound := by
  apply midiStreamOpen_rule
  · exact fun _ => hc
  · intro ms heap probed fl dur
    have hstream :
        (Cell.withStream { c with heap := heap, flProbed := probed, fl := fl } ms).p.Sound :=
      Cell.withStream_sound hc hpcm ms
    exact (renderPrefix_sound env ms hstream).keep (.inl rfl) rfl rfl rfl rfl

theorem resample_length (src : Int → Except Fault (Int × Int)) (total rate : Int) :
    ∀ i n, Returns (resample src total rate i n) fun pcm => pcm.length = 2 * n
  | _, 0 => .ok rfl
  | i, n + 1 => by
    have hrest : ∀ l r, Returns (do
        let rest ← resample src total rate (i + 1) n
        return l :: r :: rest) fun pcm => pcm.length = 2 * (n + 1) := fun l r =>
      .bind (resample_length src total rate (i + 1) n) fun rest hlen => .pure (by
        simp only [List.length_cons, hlen]
        omega)
    unfold resample
    simp only
    split_ifs
    all_goals exact .bind_any fun _ => .bind_any fun _ => hrest _ _

/-- What a successful decode makes of a player: stereo samples for every frame counted. -/
def DecodedFrom (p q : WavPlayer) : Prop :=
  ∃ pcm frames dur, q = { p with pcm := some pcm, pcmFrames := frames, channels := 2,
                                 durationMs := dur } ∧
    0 ≤ frames ∧ frames < 2147483648 ∧ frames * 2 ≤ pcm.length

/-- The decoder returns 1 with a decoded player, or 0 with the player as it was. -/
def DecodeResult (c : Cell σ) (r : Cell σ × Bool) : Prop :=
  (r.2 = false ∧ r.1.p = c.p) ∨ (r.2 = true ∧ DecodedFrom c.p r.1.p)

theorem wavFinish_result (env : Env σ) (src : Int → Except Fault (Int × Int))
    (totalFrames rate : Int) (c : Cell σ) :
    Returns (wavFinish env src totalFrames rate c) (DecodeResult c) := by
  unfold wavFinish
  simp only
  generalize hout : i32 (Int.tdiv (totalFrames * WAV_PCM_RATE) rate) = out
  split
  · exact .pure (.inl ⟨rfl, rfl⟩)
  · generalize hclip : (if i32 (out * 4) > _ then _ else out) = clipped
    split
    · exact .pure (.inl ⟨rfl, rfl⟩)
    · split
      · exact .pure (.inl ⟨rfl, rfl⟩)
      · refine .bind (resample_length _ _ _ _ _) fun pcm hpcm => .pure (.inr ⟨rfl, ?_⟩)
        refine ⟨pcm, clipped, _, rfl, by omega, ?_, by omega⟩
        have hrange := i32_range (Int.tdiv (totalFrames * WAV_PCM_RATE) rate)
        have hsize := i32_range (out * 4)
        rw [hout] at hrange
        split at hclip
        · rename_i hgt
          generalize WAV_MAX_PCM_TOTAL - c.pcmTotal = budget at hclip hgt
          have hbudget : 0 ≤ budget := by
            by_contra hneg
            have h := Int.tdiv_nonneg (a := -budget) (b := 4) (by omega) (by omega)
            rw [Int.neg_tdiv] at h
            omega
          rw [Int.tdiv_eq_ediv_of_nonneg hbudget] at hclip
          omega
        · omega

theorem wavDecode_result (env : Env σ) (c : Cell σ) :
    Returns (wavDecode env c) (DecodeResult c) := by
  apply wavDecode_rule
  · exact fun _ => .inl ⟨rfl, rfl⟩
  · exact fun heap src totalFrames rate => wavFinish_result env src totalFrames rate _

/-- Decoding into a player that holds neither samples nor a stream. -/
theorem DecodedFrom.sound {p q : WavPlayer} (h : DecodedFrom p q) (hp : p.Sound)
    (hpcm : p.pcm = none) (hmidi : p.midi = none) : q.Sound := by
  obtain ⟨pcm, frames, dur, rfl, h0, hlt, hroom⟩ := h
  have hpos : p.pos = 0 := by
    have := hp.pos_nonneg
    have := hp.pos_le
    have := hp.empty hpcm
    omega
  exact
    { pos_nonneg := hp.pos_nonneg
      pos_le := by
        show p.pos ≤ frames
        omega
      frames_lt := hlt
      room := by
        rintro _ ⟨⟩
        exact hroom
      empty := by
        intro h
        cases h
      mono := by simp [hmidi]
      channels := .inr (.inl rfl) }

theorem dropRaw_sound {c : Cell σ} (hc : c.p.Sound) : (dropRaw c).p.Sound := by
  unfold dropRaw
  split
  · exact hc.keep (.inl rfl) rfl rfl rfl rfl
  · exact hc

/-- `wav_decode` returns 1. -/
def wavDecodes (env : Env σ) (c : Cell σ) : Bool :=
  match wavDecode env c with
  | .ok (_, ok) => ok
  | .error _ => false

/-- **When an end-of-data call keeps a player sound**: no WAV data decodes into a player that still
holds a stream. -/
def Cell.KeepsStream (env : Env σ) (c : Cell σ) : Prop :=
  c.p.midi.isSome → c.p.pcm.isNone → wavDecodes env c = false

instance (env : Env σ) (c : Cell σ) : Decidable (c.KeepsStream env) :=
  inferInstanceAs (Decidable (_ → _))

theorem bufferingEnd_sound (env : Env σ) {c : Cell σ} (hc : c.p.Sound) (hkeep : c.KeepsStream env) :
    Returns (bufferingEnd env c) fun c' => c'.p.Sound := by
  unfold bufferingEnd
  split
  · rename_i d _ hpcm
    split
    · exact .bind (midiStreamOpen_sound env hc hpcm) fun _ h => .pure (dropRaw_sound h)
    · have hdecode : Returns (wavDecode env c) fun r => r.1.p.Sound := by
        rintro ⟨c', ok⟩ hr
        rcases wavDecode_result env c _ hr with ⟨-, hsame⟩ | ⟨hok, hdec⟩
        · rw [hsame]
          exact hc
        · obtain rfl : ok = true := hok
          have hmidi : c.p.midi = none := by
            by_contra h
            have hfail := hkeep (by simpa [Option.isSome_iff_ne_none] using h) (by simp [hpcm])
            simp [wavDecodes, hr] at hfail
          exact hdec.sound hc hpcm hmidi
      exact .bind hdecode fun _ h => .pure (dropRaw_sound h)
  · exact .pure (dropRaw_sound hc)

theorem bufferingData_sound (env : Env σ) (buf : List UInt8) (bytes : Int) {c : Cell σ}
    (hc : c.p.Sound) : (bufferingData env buf bytes c).p.Sound := by
  unfold bufferingData
  simp only
  split_ifs
  all_goals exact hc.keep (.inl rfl) rfl rfl rfl rfl

theorem nStart_sound {p : WavPlayer} (hp : p.Sound) : (nStart p).Sound := by
  unfold nStart
  simp only
  split
  · exact hp.keep (.inl rfl) rfl rfl rfl rfl
  · exact hp.keep (.inr rfl) rfl rfl rfl rfl

theorem nSetMediaTime_sound (ms : Int) {p : WavPlayer} (hp : p.Sound) :
    (nSetMediaTime ms p).Sound := by
  have h0 := hp.frames_nonneg
  have hlt := hp.frames_lt
  unfold nSetMediaTime
  simp only
  generalize Int.tdiv _ 1000 = t
  refine hp.seek ?_ rfl rfl rfl rfl
  show 0 ≤ i32 _ ∧ i32 _ ≤ p.pcmFrames
  rw [i32_of_range (by split <;> split <;> omega)]
  constructor
  · split <;> split <;> omega
  · split <;> split <;> omega

theorem wavUnload_sound (c : Cell σ) : (wavUnload c).p.Sound :=
  .unloaded rfl rfl rfl rfl (.inr rfl)

theorem rewind_sound {p : WavPlayer} (hp : p.Sound) : p.rewind.Sound := by
  unfold WavPlayer.rewind
  split
  · exact hp
  · rename_i ms hms
    obtain ⟨hch, -⟩ := hp.mono (by simp [hms])
    exact
      { pos_nonneg := le_refl _
        pos_le := le_refl _
        frames_lt := by
          show (0 : Int) < 2147483648
          omega
        room := by
          intro pcm _
          show 0 * p.channels ≤ _
          omega
        empty := fun _ => rfl
        mono := fun _ => ⟨hch, by
          show 0 ≤ WAV_PCM_RATE * 300
          decide⟩
        channels := .inl hch }

theorem mixPlayer_sound {p : WavPlayer} (hp : p.Sound) : (mixPlayer p).2.2.Sound := by
  have h0 := hp.pos_nonneg
  have hframes := hp.frames_nonneg
  unfold mixPlayer
  simp only
  split
  · exact hp
  · split
    · exact hp
    · split
      · exact hp.keep (.inr rfl) rfl rfl rfl rfl
      · split_ifs
        all_goals
          refine hp.seek ?_ rfl rfl rfl rfl
          simp only at *
          omega

/-! ## Every call keeps every player sound -/

/-- Every slot of the table. -/
def Mixer.Sound (g : Mixer σ) : Prop := ∀ i, (g.wav i).Sound

theorem Mixer.Sound.update {g : Mixer σ} (hg : g.Sound) (i : Fin WAV_MAX_PLAYERS) {p : WavPlayer}
    (hp : p.Sound) (j : Fin WAV_MAX_PLAYERS) : (Function.update g.wav i p j).Sound := by
  rcases eq_or_ne j i with rfl | hj
  · simpa using hp
  · simpa [hj] using hg j

theorem Mixer.Sound.setCell {g : Mixer σ} (hg : g.Sound) {i : Fin WAV_MAX_PLAYERS} {c : Cell σ}
    (hc : c.p.Sound) : (g.setCell i c).Sound := hg.update i hc

theorem Mixer.Sound.modify {g : Mixer σ} (hg : g.Sound) {i : Fin WAV_MAX_PLAYERS}
    {f : WavPlayer → WavPlayer} (hf : (f (g.wav i)).Sound) : (g.modify i f).Sound := hg.update i hf

theorem nInit_sound {g : Mixer σ} (hg : g.Sound) : (nInit g).Sound := by
  unfold nInit
  split
  · exact hg
  · exact (hg.setCell (wavUnload_sound _)).modify (.unloaded rfl rfl rfl rfl (.inl rfl))

theorem Mixer.onHandle_sound {g : Mixer σ} (hg : g.Sound) (handle : Int)
    {f : Cell σ → Except Fault (Cell σ)}
    (hf : ∀ i, wavGet handle = some i → Returns (f (g.cell i)) fun c => c.p.Sound) :
    Returns (g.onHandle handle f) Mixer.Sound := by
  unfold Mixer.onHandle
  split
  · exact .ok hg
  · rename_i i hi
    exact .map ((hf i hi).mono fun _ h => hg.setCell h)

theorem Mixer.onPlayer_sound {g : Mixer σ} (hg : g.Sound) (handle : Int)
    {f : WavPlayer → WavPlayer} (hf : ∀ p, p.Sound → (f p).Sound) :
    (g.onPlayer handle f).Sound := by
  unfold Mixer.onPlayer
  split
  · exact hg
  · exact hg.modify (hf _ (hg _))

theorem topupPlayer_sound (env : Env σ) {g : Mixer σ} (hg : g.Sound) (i : Fin WAV_MAX_PLAYERS) :
    (topupPlayer env g i).Sound := by
  have hrender : ∀ {g : Mixer σ}, g.Sound → ∀ chunk,
      (g.setCell i (midiStreamRender env chunk (g.cell i)).1).Sound := fun hg chunk =>
    hg.setCell (midiStreamRender_sound env chunk (hg i))
  have hrewound : (if (g.wav i).rewinds then g.modify i WavPlayer.rewind else g).Sound := by
    split
    · exact hg.modify (rewind_sound (hg i))
    · exact hg
  unfold topupPlayer
  split
  · simp only
    generalize (if (g.wav i).rewinds then g.modify i WavPlayer.rewind else g) = g' at hrewound ⊢
    split
    · exact hrewound
    · split_ifs
      all_goals first
        | exact hrewound
        | exact hrender hrewound _
  · exact hg

theorem wavTopupMidi_sound (env : Env σ) {g : Mixer σ} (hg : g.Sound) :
    (wavTopupMidi env g).Sound := by
  unfold wavTopupMidi
  generalize List.finRange WAV_MAX_PLAYERS = players
  induction players generalizing g with
  | nil => exact hg
  | cons i is ih => exact ih (topupPlayer_sound env hg i)

theorem wavMixFrame_sound {g : Mixer σ} (hg : g.Sound) : (wavMixFrame g).2.Sound := by
  unfold wavMixFrame
  generalize ((0, 0) : Int × Int) = m
  generalize List.finRange WAV_MAX_PLAYERS = players
  induction players generalizing g m with
  | nil => exact hg
  | cons i is ih => exact ih (hg.modify (mixPlayer_sound (hg i))) _

theorem ringFrame_sound {g : Mixer σ} (hg : g.Sound) : (ringFrame g).2.Sound := by
  unfold ringFrame
  split
  · exact hg
  · exact hg

theorem readLoop_sound : ∀ (n : Nat) {g : Mixer σ}, g.Sound → (readLoop n g).2.Sound
  | 0, _, hg => hg
  | n + 1, g, hg => by
    have hring := ringFrame_sound hg
    rw [readLoop_succ]
    exact readLoop_sound n (wavMixFrame_sound hring)

theorem gb300AudioRead_sound (env : Env σ) (n : Int) {g : Mixer σ} (hg : g.Sound) :
    (gb300AudioRead env n g).2.Sound := by
  unfold gb300AudioRead
  split
  · exact hg
  · exact readLoop_sound _ (wavTopupMidi_sound env hg)

/-- **The condition on a call**: an end-of-data call decodes no WAV data into a player that still
holds a stream. -/
def Mixer.KeepsStreams (env : Env σ) (g : Mixer σ) : AudioOp → Prop
  | .nBuffering h _ bytes => bytes < 0 → ∀ i, wavGet h = some i → (g.cell i).KeepsStream env
  | _ => True

instance (env : Env σ) (g : Mixer σ) : (op : AudioOp) → Decidable (g.KeepsStreams env op)
  | .nBuffering .. => inferInstanceAs (Decidable (_ → _))
  | .audioRead _ | .nInit | .nFlushBuffer _ | .nStart _ | .nStop _ | .nPause _ | .nResume _
  | .nSetMediaTime .. | .nTerm _ => inferInstanceAs (Decidable True)

theorem Mixer.step_sound (env : Env σ) {g : Mixer σ} (hg : g.Sound) (op : AudioOp)
    (hkeep : g.KeepsStreams env op) : Returns (g.step env op) Mixer.Sound := by
  cases op with
  | nInit => exact .ok (nInit_sound hg)
  | nBuffering hd buf bytes =>
    apply Mixer.onHandle_sound hg
    intro i hi
    unfold buffering
    split
    case isTrue hneg => exact bufferingEnd_sound env (hg i) (hkeep hneg i hi)
    case isFalse =>
      split
      · split
        · exact .ok (bufferingData_sound env _ bytes (hg i))
        · exact .ok (hg i)
      · exact .ok (hg i)
  | nFlushBuffer hd =>
    show Returns (g.onHandle hd fun c => .ok (dropRaw c)) _
    apply Mixer.onHandle_sound hg
    intro i _
    apply Returns.ok
    exact dropRaw_sound (hg i)
  | nStart hd => exact .ok (g.onPlayer_sound hg hd fun _ => nStart_sound)
  | nStop hd => exact .ok (g.onPlayer_sound hg hd fun _ hp => hp.keep (.inr rfl) rfl rfl rfl rfl)
  | nPause hd => exact .ok (g.onPlayer_sound hg hd fun _ hp => hp.keep (.inl rfl) rfl rfl rfl rfl)
  | nResume hd => exact .ok (g.onPlayer_sound hg hd fun _ hp => hp.keep (.inl rfl) rfl rfl rfl rfl)
  | nSetMediaTime hd ms => exact .ok (g.onPlayer_sound hg hd fun _ => nSetMediaTime_sound ms)
  | nTerm hd =>
    show Returns (g.onHandle hd fun c => .ok (term c)) _
    apply Mixer.onHandle_sound hg
    intro i _
    apply Returns.ok
    exact (wavUnload_sound (g.cell i)).keep (.inl rfl) rfl rfl rfl rfl
  | audioRead n => exact .ok (gb300AudioRead_sound env n hg)

theorem Mixer.sound_initial : ({} : Mixer σ).Sound :=
  fun _ => .unloaded rfl rfl rfl rfl (.inl rfl)

/-! ## The samples a call touches -/

/-- One sample read or written: its index, and the number of samples allocated. -/
structure Access where
  index : Int
  size : Nat

def Access.Inside (a : Access) : Prop := 0 ≤ a.index ∧ a.index < a.size

/-- The `n` samples from `first` on, `stride` apart. -/
def samplesFrom (size : Nat) (first stride : Int) (n : Nat) : List Access :=
  (List.range n).map fun k : Nat => ⟨first + k * stride, size⟩

/-- The samples the synthesiser fills on the way to event `e`: FluidLite stores a frame every
`channels` samples, `midi_synth` one after the other. -/
def stepWrites (channels pcmFrames : Int) (e : MidiEvent) (r : RenderState σ) : List Access :=
  let target := r.outPos + eventDelay r.ms.division r.ms.toTrackPlay e
  let target := if target > pcmFrames then pcmFrames else target
  samplesFrom r.pcm.length r.outPos (if r.fl.isSome then channels else 1) (target - r.outPos).toNat

/-- The samples the event loop fills. -/
def loopWrites (env : Env σ) (channels pcmFrames : Int) : Nat → RenderState σ → List Access
  | 0, _ => []
  | fuel + 1, r =>
    match r.ms.ev[r.ms.ev_i]? with
    | none => []
    | some e =>
      if r.outPos < pcmFrames then
        stepWrites channels pcmFrames e r ++
          loopWrites env channels pcmFrames fuel (renderStep env channels pcmFrames e r)
      else []

/-- The samples `midi_stream_render` writes: it clears the new part of the buffer, then plays. -/
def midiStreamRenderWrites (env : Env σ) (frames : Int) (c : Cell σ) : List Access :=
  match c.p.midi, renderTarget env frames c with
  | some ms, some want =>
    let r := renderStart c ms want
    samplesFrom r.pcm.length c.p.pcmFrames 1 (want - c.p.pcmFrames).toNat ++
      loopWrites env c.p.channels want ms.ev.length r
  | _, _ => []

def renderPrefixWrites (env : Env σ) (ms : MidiStream) (c : Cell σ) : List Access :=
  let totalFrames := Int.tdiv (ms.totalTicks * ms.tempo) (1000000 * ms.division) * WAV_PCM_RATE
  let pre : Int := 512
  let pre := if totalFrames > 0 ∧ pre > i32 totalFrames then i32 totalFrames else pre
  if pre > 0 then midiStreamRenderWrites env pre c else []

def midiStreamOpenWrites (env : Env σ) (c : Cell σ) : List Access :=
  match c.p.raw with
  | none => []
  | some d =>
    match midiParse env.mallocOk env.fuel d c.heap with
    | .ok (some (ev, division), heap) =>
      let ev := env.qsort ev
      if !env.mallocOk heap then [] else
      let ms : MidiStream := { ev := ev, division := division, totalTicks := i32 (maxTick ev) }
      renderPrefixWrites env ms
        (midiFluidSynth env (Cell.withStream { c with heap := heap + 1 } ms))
    | _ => []

def bufferingEndWrites (env : Env σ) (c : Cell σ) : List Access :=
  match c.p.raw, c.p.pcm with
  | some d, none => if isMThd d then midiStreamOpenWrites env c else []
  | _, _ => []

/-- The samples `wav_topup_midi` writes for player `i`. -/
def topupPlayerWrites (env : Env σ) (g : Mixer σ) (i : Fin WAV_MAX_PLAYERS) : List Access :=
  if (g.wav i).topupCandidate then
    let remaining := (g.wav i).pcmFrames - (g.wav i).pos
    let remaining := if (g.wav i).rewinds then 0 else remaining
    let g := if (g.wav i).rewinds then g.modify i WavPlayer.rewind else g
    match (g.wav i).midi with
    | none => []
    | some ms =>
      if !ms.done && decide (g.midiBudget > 0) && (g.fl.isNone || !g.midiSynthUsed) then
        if remaining < WAV_PCM_RATE * 2 then
          let deficit := WAV_PCM_RATE * 2 - remaining
          let chunk := if deficit > MIDI_TOPUP_MAX then MIDI_TOPUP_MAX else deficit
          let chunk := if chunk > g.midiBudget then g.midiBudget else chunk
          midiStreamRenderWrites env chunk (g.cell i)
        else []
      else []
  else []

def topupWrites (env : Env σ) : List (Fin WAV_MAX_PLAYERS) → Mixer σ → List Access
  | [], _ => []
  | i :: is, g => topupPlayerWrites env g i ++ topupWrites env is (topupPlayer env g i)

/-- The samples `wav_mix_frame` reads of one player. -/
def mixReads (p : WavPlayer) : List Access :=
  match p.pcm with
  | none => []
  | some pcm =>
    if !p.used || !p.playing || p.paused then [] else
    if p.pos ≥ p.pcmFrames ∧ ¬(p.midi.isSome ∧ p.loopMidi) then [] else
    let pos := if p.pos ≥ p.pcmFrames then 0 else p.pos
    if pos < p.pcmFrames then
      ⟨pos * p.channels, pcm.length⟩ ::
        if p.channels > 1 then [⟨pos * p.channels + 1, pcm.length⟩] else []
    else []

/-- The samples the frame loop of `gb300_audio_read` reads.  The players are mixed one after the
other and each only moves itself. -/
def readLoopReads : Nat → Mixer σ → List Access
  | 0, _ => []
  | n + 1, g =>
    let g := { (ringFrame g).2 with tone := (toneFrame (ringFrame g).2.tone).2 }
    (List.finRange WAV_MAX_PLAYERS).flatMap (fun i => mixReads (g.wav i)) ++
      readLoopReads n (wavMixFrame g).2

/-- Every sample a call reads in `wav_mix_frame` or writes in `midi_stream_render`. -/
def Mixer.accesses (env : Env σ) (g : Mixer σ) : AudioOp → List Access
  | .nBuffering h _ bytes =>
    if bytes < 0 then
      match wavGet h with
      | none => []
      | some i => bufferingEndWrites env (g.cell i)
    else []
  | .audioRead n =>
    if n ≤ 0 then [] else
      let g := { g with midiBudget := MIDI_BUDGET_PER_READ, midiSynthUsed := false }
      topupWrites env (List.finRange WAV_MAX_PLAYERS) g ++
        readLoopReads n.toNat (wavTopupMidi env g)
  | _ => []
theorem samplesFrom_inside {size : Nat} {first : Int} {n : Nat} (h0 : 0 ≤ first)
    (hn : first + n ≤ size) : ∀ a ∈ samplesFrom size first 1 n, a.Inside := by
  intro a ha
  obtain ⟨k, hk, rfl⟩ := List.mem_map.1 ha
  have hk : k < n := List.mem_range.1 hk
  constructor
  · show 0 ≤ first + (k : Int) * 1
    omega
  · show first + (k : Int) * 1 < size
    omega

/-- In a mono player the event loop fills samples between where it stands and the frame it renders
up to, whichever synthesiser is used. -/
theorem loopWrites_inside (env : Env σ) {pcmFrames : Int} :
    ∀ (fuel : Nat) {r : RenderState σ}, 0 ≤ r.outPos → (r.pcm.length : Int) = pcmFrames →
      ∀ a ∈ loopWrites env 1 pcmFrames fuel r, a.Inside
  | 0, _, _, _, a, ha => by cases ha
  | fuel + 1, r, h0, hlen, a, ha => by
    unfold loopWrites at ha
    split at ha
    · cases ha
    · rename_i e _
      split at ha
      · rename_i hlt
        rcases List.mem_append.1 ha with hw | hrest
        · unfold stepWrites at hw
          simp only [ite_self] at hw
          refine samplesFrom_inside h0 ?_ a hw
          split <;> omega
        · have hpos := (renderStep_takes env 1 pcmFrames e r).outPos
          refine loopWrites_inside env fuel ?_ ?_ a hrest
          · rw [hpos]
            exact h0.trans (le_max_left _ _)
          · rw [renderStep_length, hlen]
      · cases ha

theorem midiStreamRenderWrites_inside (env : Env σ) (frames : Int) {c : Cell σ} (hc : c.p.Sound) :
    ∀ a ∈ midiStreamRenderWrites env frames c, a.Inside := by
  intro a ha
  unfold midiStreamRenderWrites at ha
  split at ha
  · rename_i ms want hms htarget
    obtain ⟨hch, hcap⟩ := hc.mono (by simp [hms])
    obtain ⟨hle, -⟩ := renderTarget_range htarget hcap
    have hlen := renderStart_length hc ms hch hle
    have h0 := hc.frames_nonneg
    rcases List.mem_append.1 ha with hclear | hplay
    · exact samplesFrom_inside h0 (by omega) a hclear
    · rw [hch] at hplay
      exact loopWrites_inside env _ h0 hlen a hplay
  · cases ha

theorem renderPrefixWrites_inside (env : Env σ) (ms : MidiStream) {c : Cell σ} (hc : c.p.Sound) :
    ∀ a ∈ renderPrefixWrites env ms c, a.Inside := by
  intro a ha
  unfold renderPrefixWrites at ha
  simp only at ha
  split_ifs at ha
  all_goals first
    | exact midiStreamRenderWrites_inside env _ hc a ha
    | cases ha

theorem midiStreamOpenWrites_inside (env : Env σ) {c : Cell σ} (hc : c.p.Sound)
    (hpcm : c.p.pcm = none) : ∀ a ∈ midiStreamOpenWrites env c, a.Inside := by
  intro a ha
  have hopen : ∀ ms heap, (midiFluidSynth env
      (Cell.withStream { c with heap := heap } ms)).p.Sound := by
    intro ms heap
    unfold midiFluidSynth
    split
    · exact Cell.withStream_sound hc hpcm ms
    · exact Cell.withStream_sound hc hpcm ms
  unfold midiStreamOpenWrites at ha
  split at ha
  · cases ha
  · split at ha
    · simp only at ha
      split at ha
      · cases ha
      · exact renderPrefixWrites_inside env _ (hopen _ _) a ha
    · cases ha

theorem bufferingEndWrites_inside (env : Env σ) {c : Cell σ} (hc : c.p.Sound) :
    ∀ a ∈ bufferingEndWrites env c, a.Inside := by
  intro a ha
  unfold bufferingEndWrites at ha
  split at ha
  · rename_i d _ hpcm
    split at ha
    · exact midiStreamOpenWrites_inside env hc hpcm a ha
    · cases ha
  · cases ha

theorem topupPlayerWrites_inside (env : Env σ) {g : Mixer σ} (hg : g.Sound)
    (i : Fin WAV_MAX_PLAYERS) : ∀ a ∈ topupPlayerWrites env g i, a.Inside := by
  intro a ha
  unfold topupPlayerWrites at ha
  have hrewound : (if (g.wav i).rewinds then g.modify i WavPlayer.rewind else g).Sound := by
    split
    · exact hg.modify (rewind_sound (hg i))
    · exact hg
  split at ha
  · simp only at ha
    generalize (if (g.wav i).rewinds then g.modify i WavPlayer.rewind else g) = g' at hrewound ha
    split at ha
    · cases ha
    · split_ifs at ha
      all_goals first
        | exact midiStreamRenderWrites_inside env _ (hrewound i) a ha
        | cases ha
  · cases ha

theorem topupWrites_inside (env : Env σ) :
    ∀ (players : List (Fin WAV_MAX_PLAYERS)) {g : Mixer σ}, g.Sound →
      ∀ a ∈ topupWrites env players g, a.Inside
  | [], _, _, a, ha => by cases ha
  | i :: is, g, hg, a, ha => by
    rcases List.mem_append.1 ha with hi | his
    · exact topupPlayerWrites_inside env hg i a hi
    · exact topupWrites_inside env is (topupPlayer_sound env hg i) a his

theorem mixReads_inside {p : WavPlayer} (hp : p.Sound) : ∀ a ∈ mixReads p, a.Inside := by
  intro a ha
  have h0 := hp.pos_nonneg
  unfold mixReads at ha
  split at ha
  · cases ha
  · rename_i pcm hpcm
    have hroom := hp.room pcm hpcm
    split at ha
    · cases ha
    · split at ha
      · cases ha
      · simp only at ha
        generalize hpos : (if p.pos ≥ p.pcmFrames then 0 else p.pos) = pos at ha
        have hpos0 : 0 ≤ pos := by split at hpos <;> omega
        split at ha
        · rename_i hlt
          rcases hp.channels with hch | hch | ⟨-, hnone, -⟩
          · rw [hch] at ha hroom
            obtain rfl : a = ⟨pos * 1, pcm.length⟩ := by simpa using ha
            constructor <;> simp only <;> omega
          · rw [hch] at ha hroom
            simp at ha
            rcases ha with rfl | rfl
            · constructor <;> simp only <;> omega
            · constructor <;> simp only <;> omega
          · rw [hpcm] at hnone
            cases hnone
        · cases ha

theorem readLoopReads_inside :
    ∀ (n : Nat) {g : Mixer σ}, g.Sound → ∀ a ∈ readLoopReads n g, a.Inside
  | 0, _, _, a, ha => by cases ha
  | n + 1, g, hg, a, ha => by
    have hframe : Mixer.Sound
        { (ringFrame g).2 with tone := (toneFrame (ringFrame g).2.tone).2 } := ringFrame_sound hg
    unfold readLoopReads at ha
    simp only [List.mem_append, List.mem_flatMap] at ha
    rcases ha with ⟨i, -, hi⟩ | hrest
    · exact mixReads_inside (hframe i) a hi
    · exact readLoopReads_inside n (wavMixFrame_sound hframe) a hrest

theorem Mixer.accesses_inside (env : Env σ) {g : Mixer σ} (hg : g.Sound) (op : AudioOp) :
    ∀ a ∈ g.accesses env op, a.Inside := by
  intro a ha
  cases op with
  | nBuffering hd buf bytes =>
    simp only [Mixer.accesses] at ha
    split at ha
    · split at ha
      · cases ha
      · exact bufferingEndWrites_inside env (hg _) a ha
    · cases ha
  | audioRead n =>
    simp only [Mixer.accesses] at ha
    split at ha
    · cases ha
    · have hg' : Mixer.Sound
          { g with midiBudget := MIDI_BUDGET_PER_READ, midiSynthUsed := false } := hg
      rw [List.mem_append] at ha
      rcases ha with htop | hread
      · exact topupWrites_inside env _ hg' a htop
      · exact readLoopReads_inside _ (wavTopupMidi_sound env hg') a hread
  | _ => cases ha

/-! ## Runs -/

/-- Two samples of 8-bit mono sound at 22050 Hz. -/
def shortWav : List UInt8 := [
  0x52, 0x49, 0x46, 0x46, 38, 0, 0, 0, 0x57, 0x41, 0x56, 0x45,
  0x66, 0x6D, 0x74, 0x20, 16, 0, 0, 0, 1, 0, 1, 0, 0x22, 0x56, 0, 0, 0x22, 0x56, 0, 0, 1, 0, 8, 0,
  0x64, 0x61, 0x74, 0x61, 2, 0, 0, 0, 200, 100]

end FroggyKVM.Audio
