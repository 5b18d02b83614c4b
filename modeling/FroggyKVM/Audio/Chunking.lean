/-
# FroggyKVM.Audio.Chunking — streaming MIDI synthesis and chunk boundaries.

`midi_stream_render` clamps the frame of an event to the end of the chunk, so an event that is due
after the boundary is played at the boundary and the rest of its delay is lost.  A boundary that
does not lie strictly between two event frames is harmless.  The event loops of
`midi_stream_render` and `midi_render` are both compared with `playUntil`, which plays a list of
events up to a frame and knows nothing of buffers; the frames at which events fall are
`eventFrames`, which follow from the tempo map alone.
-/
import FroggyKVM.Audio.Stream

namespace FroggyKVM.Audio

variable {σ : Type}

/-! ## Playing events up to a frame -/

/-- What is left after playing: the synthesis state, the samples so far, and how many events were
consumed. -/
structure Played where
  s : TrackPlay
  out : List Int
  n : Nat

/-- Play `es` until `stop` samples are out; the last gap is cut off at `stop`. -/
def playUntil (sine : Nat → Int) (division : Int) (stop : Nat) :
    List MidiEvent → TrackPlay → List Int → Played
  | [], s, out => ⟨s, out, 0⟩
  | e :: es, s, out =>
    if out.length < stop then
      let target := min (out.length + eventDelay division s e) stop
      let w := midiSynth sine s.voices (target - out.length).toNat
      let r := playUntil sine division stop es
        (applyEvent { s with voices := w.2, curTick := e.tick } e) (out ++ w.1)
      { r with n := r.n + 1 }
    else ⟨s, out, 0⟩

/-- `midi_render` plays its event list. -/
theorem midiRenderLoop_eq_playUntil (sine : Nat → Int) (division : Int) (stop : Nat) :
    ∀ (es : List MidiEvent) (s : TrackPlay) (out : List Int),
      midiRenderLoop sine division stop es (s, out) =
        ((playUntil sine division stop es s out).s, (playUntil sine division stop es s out).out)
  | [], s, out => rfl
  | e :: es, s, out => by
    have hmin : ∀ a b : Int, (if a > b then b else a) = min a b := by intro a b; omega
    unfold midiRenderLoop playUntil
    simp only [hmin]
    split
    · exact midiRenderLoop_eq_playUntil sine division stop es _ _
    · rfl

theorem playUntil_length_le (sine : Nat → Int) (division : Int) (stop : Nat) :
    ∀ (es : List MidiEvent) (s : TrackPlay) (out : List Int), out.length ≤ stop →
      (playUntil sine division stop es s out).out.length ≤ stop
  | [], _, _, h => h
  | e :: es, s, out, h => by
    unfold playUntil
    split
    · exact playUntil_length_le sine division stop es _ _ (by simp; omega)
    · exact h

/-- Playing stops early only when the events run out. -/
theorem playUntil_complete (sine : Nat → Int) (division : Int) (stop : Nat) :
    ∀ (es : List MidiEvent) (s : TrackPlay) (out : List Int),
      es.drop (playUntil sine division stop es s out).n = [] ∨
        stop ≤ (playUntil sine division stop es s out).out.length
  | [], _, _ => .inl rfl
  | e :: es, s, out => by
    unfold playUntil
    split
    · simpa using playUntil_complete sine division stop es _ _
    · exact .inr (by simp only; omega)

/-- What is out already stays. -/
theorem playUntil_extends (sine : Nat → Int) (division : Int) (stop : Nat) :
    ∀ (es : List MidiEvent) (s : TrackPlay) (out : List Int),
      out <+: (playUntil sine division stop es s out).out
  | [], _, out => List.prefix_rfl
  | e :: es, s, out => by
    unfold playUntil
    split
    · exact (List.prefix_append out _).trans (playUntil_extends sine division stop es _ _)
    · exact List.prefix_rfl

theorem playUntil_full (sine : Nat → Int) (division : Int) {stop : Nat} (es : List MidiEvent)
    (s : TrackPlay) {out : List Int} (h : stop ≤ out.length) :
    playUntil sine division stop es s out = ⟨s, out, 0⟩ := by
  cases es with
  | nil => rfl
  | cons => rw [playUntil, if_neg (by omega)]

/-- Playing further yields the same samples first: the gap that is cut off is the beginning of the
longer gap. -/
theorem playUntil_take (sine : Nat → Int) (division : Int) {m stop : Nat} (hm : m ≤ stop) :
    ∀ (es : List MidiEvent) (s : TrackPlay) (out : List Int), out.length ≤ m →
      (playUntil sine division m es s out).out =
        (playUntil sine division stop es s out).out.take m
  | [], s, out, h => (List.take_of_length_le h).symm
  | e :: es, s, out, h => by
    rcases Nat.lt_or_ge out.length m with hlt | hge
    · rw [playUntil, playUntil, if_pos hlt, if_pos (by omega)]
      simp only
      rcases le_or_gt (out.length + eventDelay division s e) m with hin | hover
      · -- the event falls before both ends
        rw [min_eq_left hin, min_eq_left (by omega)]
        exact playUntil_take sine division hm es _ _ (by simp; omega)
      · -- the shorter playing ends inside the gap
        rw [min_eq_right hover.le]
        obtain ⟨a, rfl⟩ : ∃ a, m = out.length + a := ⟨m - out.length, by omega⟩
        obtain ⟨b, hb, hab⟩ : ∃ b, (min (out.length + eventDelay division s e) (stop : Int) -
            out.length).toNat = b ∧ a ≤ b := ⟨_, rfl, by omega⟩
        have ha : (((out.length + a : Nat) : Int) - out.length).toNat = a := by omega
        rw [ha, hb, playUntil_full _ _ _ _ (by simp)]
        obtain ⟨rest, hrest⟩ := playUntil_extends sine division stop es
          (applyEvent { s with voices := (midiSynth sine s.voices b).2, curTick := e.tick } e)
          (out ++ (midiSynth sine s.voices b).1)
        rw [← hrest, List.append_assoc, List.take_length_add_append,
          List.take_append_of_le_length (by simpa using hab), midiSynth_take sine s.voices hab]
    · obtain rfl : out.length = m := by omega
      rw [playUntil_full _ _ _ _ (le_refl _)]
      exact List.prefix_iff_eq_take.1 (playUntil_extends sine division stop (e :: es) s out)

/-! ## Event frames -/

/-- The tempo after event `e`. -/
def tempoAfter (tempo : Int) (e : MidiEvent) : Int :=
  if e.type = 0xFF ∧ e.d1 = 0x51 ∧ e.value > 0 then e.value else tempo

theorem applyEvent_tempo (s : TrackPlay) (e : MidiEvent) :
    (applyEvent s e).tempo = tempoAfter s.tempo e := by
  unfold applyEvent tempoAfter
  split_ifs <;> simp_all

theorem applyEvent_curTick (s : TrackPlay) (e : MidiEvent) :
    (applyEvent s e).curTick = s.curTick := by
  unfold applyEvent
  split_ifs <;> rfl

/-- The frames at which the events fall, when playing starts at frame `f` with the given tick and
tempo. -/
def eventFrames (division : Int) : Int → Int → Int → List MidiEvent → List Int
  | _, _, _, [] => []
  | f, tick, tempo, e :: es =>
    let f' := max f (f + eventDelay division { curTick := tick, tempo := tempo } e)
    f' :: eventFrames division f' e.tick (tempoAfter tempo e) es

/-- Frame `b` lies strictly inside no gap of the frames `fs` that follow frame `f`. -/
def OutsideGaps (b : Int) : Int → List Int → Prop
  | _, [] => True
  | f, f' :: fs => ¬ (f < b ∧ b < f') ∧ OutsideGaps b f' fs

instance decidableOutsideGaps (b : Int) : (f : Int) → (fs : List Int) → Decidable (OutsideGaps b f fs)
  | _, [] => inferInstanceAs (Decidable True)
  | _, f' :: fs =>
    have := decidableOutsideGaps b f' fs
    inferInstanceAs (Decidable (_ ∧ _))

/-- The frames at which the remaining events of a stream fall, from frame `f` on. -/
def MidiStream.eventFrames (ms : MidiStream) (f : Int) : List Int :=
  Audio.eventFrames ms.division f ms.curTick ms.tempo (ms.ev.drop ms.ev_i)

/-- **A boundary outside the gaps can be inserted**: playing to `b` and then on to `stop` is
playing to `stop`. -/
theorem playUntil_split (sine : Nat → Int) (division : Int) {b stop : Nat} (hb : b ≤ stop) :
    ∀ (es : List MidiEvent) (s : TrackPlay) (out : List Int), out.length ≤ b →
      OutsideGaps b out.length (eventFrames division out.length s.curTick s.tempo es) →
      let r := playUntil sine division b es s out
      let r' := playUntil sine division stop (es.drop r.n) r.s r.out
      playUntil sine division stop es s out = ⟨r'.s, r'.out, r.n + r'.n⟩
  | [], s, out, _, _ => rfl
  | e :: es, s, out, hout, hgaps => by
    rcases Nat.lt_or_ge out.length b with hlt | hge
    · obtain ⟨hgap, hgaps⟩ := hgaps
      have hdelay : eventDelay division { curTick := s.curTick, tempo := s.tempo } e =
          eventDelay division s e := rfl
      rw [hdelay] at hgap hgaps
      have hin : out.length + eventDelay division s e ≤ b := by
        by_contra h
        exact hgap ⟨by omega, by omega⟩
      -- the next event starts from the frame this one falls on
      have hnext : ((out ++ (midiSynth sine s.voices (out.length + eventDelay division s e -
          out.length).toNat).1).length : Int) =
          max (out.length : Int) (out.length + eventDelay division s e) := by
        simp only [List.length_append, midiSynth_length]
        omega
      have ih := playUntil_split sine division hb es
        (applyEvent { s with
          voices := (midiSynth sine s.voices (out.length + eventDelay division s e -
            out.length).toNat).2
          curTick := e.tick } e)
        (out ++ (midiSynth sine s.voices (out.length + eventDelay division s e -
          out.length).toNat).1) (by omega)
        (by rw [hnext, applyEvent_tempo, applyEvent_curTick]; exact hgaps)
      simp only [playUntil, hlt, (by omega : out.length < stop), if_true, min_eq_left hin,
        min_eq_left (by omega : out.length + eventDelay division s e ≤ stop), List.drop_succ_cons]
      rw [ih]
      simp only [Played.mk.injEq, true_and]
      omega
    · obtain rfl : out.length = b := by omega
      simp only [playUntil_full sine division (e :: es) s (Nat.le_refl out.length), List.drop_zero,
        Nat.zero_add]

/-! ## The event loop of `midi_stream_render` -/

/-- The zeroed buffer of `stop` frames with `out` written at its start. -/
def padded (stop : Nat) (out : List Int) : List Int := out ++ List.replicate (stop - out.length) 0

theorem padded_length {stop : Nat} {out : List Int} (h : out.length ≤ stop) :
    (padded stop out).length = stop := by
  simp [padded]
  omega

theorem padded_self {stop : Nat} {out : List Int} (h : stop ≤ out.length) :
    padded stop out = out := by
  simp [padded, Nat.sub_eq_zero_of_le h]

theorem padded_padded {b stop : Nat} {out : List Int} (hout : out.length ≤ b) (hb : b ≤ stop) :
    padded stop (padded b out) = padded stop out := by
  rw [padded, padded_length hout, padded, padded, List.append_assoc, ← List.replicate_add]
  congr 2
  omega

theorem writeAt_padded {stop : Nat} :
    ∀ {xs out : List Int}, out.length + xs.length ≤ stop →
      writeAt (padded stop out) out.length 1 xs = padded stop (out ++ xs)
  | [], out, _ => by simp [writeAt]
  | x :: xs, out, h => by
    simp only [List.length_cons] at h
    have hset : (padded stop out).set out.length x = padded stop (out ++ [x]) := by
      obtain ⟨k, hk⟩ : ∃ k, stop - out.length = k + 1 := ⟨stop - out.length - 1, by omega⟩
      have hk' : stop - (out ++ [x]).length = k := by simp; omega
      rw [padded, padded, hk, hk', List.replicate_succ, List.set_append_right _ _ (Nat.le_refl _)]
      simp
    rw [writeAt, hset]
    have hroom : (out ++ [x]).length + xs.length ≤ stop := by
      simp only [List.length_append, List.length_cons, List.length_nil]
      omega
    simpa using writeAt_padded hroom

/-- One iteration plays one event. -/
theorem renderStep_eq (env : Env σ) (stop : Nat) (e : MidiEvent) (ms : MidiStream)
    {out : List Int} (hout : out.length ≤ stop) :
    let w := midiSynth env.sine ms.voices
      (min (out.length + eventDelay ms.division ms.toTrackPlay e) stop - out.length).toNat
    renderStep env 1 stop e ⟨ms, padded stop out, out.length, none⟩ =
      ⟨{ ms with
          toTrackPlay := applyEvent { ms.toTrackPlay with voices := w.2, curTick := e.tick } e
          ev_i := ms.ev_i + 1 },
        padded stop (out ++ w.1), (out ++ w.1).length, none⟩ := by
  have hmin : ∀ a b : Int, (if a > b then b else a) = min a b := by intro a b; omega
  simp only [renderStep, hmin]
  generalize htarget : min (out.length + eventDelay ms.division ms.toTrackPlay e) (stop : Int) = t
  unfold renderGap
  split
  case isTrue hgt =>
    have hlen : out.length + (midiSynth env.sine ms.voices (t - out.length).toNat).1.length ≤
        stop := by simp; omega
    simp only at hgt
    simp only [renderEvent, Int.toNat_natCast, writeAt_padded hlen, RenderState.mk.injEq, true_and,
      and_true, List.length_append, midiSynth_length]
    omega
  case isFalse hle =>
    simp only at hle
    have hzero : (t - out.length).toNat = 0 := by omega
    simp [hzero, renderEvent]

/-- **The event loop plays the remaining events.** -/
theorem renderLoop_eq_playUntil (env : Env σ) (stop : Nat) :
    ∀ (fuel : Nat) (ms : MidiStream) (out : List Int),
      (ms.ev.drop ms.ev_i).length ≤ fuel → out.length ≤ stop →
      let r := playUntil env.sine ms.division stop (ms.ev.drop ms.ev_i) ms.toTrackPlay out
      renderLoop env 1 stop fuel ⟨ms, padded stop out, out.length, none⟩ =
        ⟨{ ms with toTrackPlay := r.s, ev_i := ms.ev_i + r.n }, padded stop r.out, r.out.length,
          none⟩
  | 0, ms, out, hfuel, hout => by
    have hnil : ms.ev.drop ms.ev_i = [] := List.eq_nil_of_length_eq_zero (by omega)
    simp [hnil, playUntil, renderLoop]
  | fuel + 1, ms, out, hfuel, hout => by
    unfold renderLoop
    simp only
    cases he : ms.ev[ms.ev_i]? with
    | none =>
      have hnil : ms.ev.drop ms.ev_i = [] := by simpa using he
      simp [hnil, playUntil]
    | some e =>
      obtain ⟨hi, rfl⟩ := List.getElem?_eq_some_iff.1 he
      rw [List.drop_eq_getElem_cons hi] at hfuel ⊢
      simp only
      split
      case isFalse hfull =>
        rw [playUntil_full _ _ _ _ (by omega)]
        rfl
      case isTrue hlt =>
        have hlt' : out.length < stop := by omega
        rw [renderStep_eq env stop _ ms hout, playUntil, if_pos hlt']
        have ih := renderLoop_eq_playUntil env stop fuel
          { ms with
            toTrackPlay := applyEvent { ms.toTrackPlay with
              voices := (midiSynth env.sine ms.voices (min (out.length +
                eventDelay ms.division ms.toTrackPlay ms.ev[ms.ev_i]) (stop : Int) -
                  out.length).toNat).2
              curTick := ms.ev[ms.ev_i].tick } ms.ev[ms.ev_i]
            ev_i := ms.ev_i + 1 }
          (out ++ (midiSynth env.sine ms.voices (min (out.length +
            eventDelay ms.division ms.toTrackPlay ms.ev[ms.ev_i]) (stop : Int) -
              out.length).toNat).1)
          (Nat.le_of_succ_le_succ hfuel) (by simp; omega)
        simp only at ih ⊢
        rw [ih]
        simp only [Nat.add_assoc, Nat.add_comm 1]

/-! ## One call -/

/-- The most frames `midi_stream_render` lets a stream grow to. -/
def MIDI_MAX_FRAMES : Nat := 22050 * 300

/-- Where a chunk of `n` frames from frame `f` on ends. -/
def chunkEnd (f n : Nat) : Nat := min (f + n) MIDI_MAX_FRAMES

/-- The player streams `ms` through the built-in synthesiser, and its mono buffer holds `out`. -/
structure Streaming (c : Cell σ) (ms : MidiStream) (out : List Int) : Prop where
  midi : c.p.midi = some ms
  buffer : c.p.pcm.getD [] = out
  frames : c.p.pcmFrames = out.length
  mono : c.p.channels = 1
  builtin : c.fl = none
  bound : out.length ≤ MIDI_MAX_FRAMES

/-- The stream after `n > 0` more frames. -/
def MidiStream.after (ms : MidiStream) (sine : Nat → Int) (out : List Int) (n : Nat) : MidiStream :=
  let r := playUntil sine ms.division (chunkEnd out.length n) (ms.ev.drop ms.ev_i)
    ms.toTrackPlay out
  { ms with toTrackPlay := r.s, ev_i := ms.ev_i + r.n
            done := if ms.ev.length ≤ ms.ev_i + r.n then true else ms.done }

/-- The samples in the buffer after `n` more frames. -/
def MidiStream.samples (ms : MidiStream) (sine : Nat → Int) (out : List Int) (n : Nat) : List Int :=
  padded (chunkEnd out.length n) (playUntil sine ms.division (chunkEnd out.length n)
    (ms.ev.drop ms.ev_i) ms.toTrackPlay out).out

theorem MidiStream.samples_length (ms : MidiStream) (sine : Nat → Int) {out : List Int}
    (h : out.length ≤ MIDI_MAX_FRAMES) (n : Nat) :
    (ms.samples sine out n).length = chunkEnd out.length n :=
  padded_length (playUntil_length_le _ _ _ _ _ _ (le_min (by omega) h))

/-- The player after `n` more frames. -/
def rendered (sine : Nat → Int) (p : WavPlayer) (ms : MidiStream) (out : List Int) (n : Nat) :
    WavPlayer :=
  if n = 0 then p else
    { p with pcm := some (ms.samples sine out n), pcmFrames := chunkEnd out.length n
             midi := some (ms.after sine out n) }

/-- `c` is `c₀` after `n` frames of its stream, whatever number of calls rendered them. -/
structure Rendered (env : Env σ) (c₀ : Cell σ) (ms : MidiStream) (out : List Int) (n : Nat)
    (c : Cell σ) : Prop where
  player : c.p = rendered env.sine c₀.p ms out n
  total : c.pcmTotal = c₀.pcmTotal + (chunkEnd out.length n - out.length) * 2
  builtin : c.fl = none

theorem midiStreamRender_zero (env : Env σ) (c : Cell σ) :
    (midiStreamRender env 0 c).1 = c := by
  unfold midiStreamRender
  split <;> rfl

/-- **One call renders**: within the budget, `n` frames more. -/
theorem midiStreamRender_rendered (env : Env σ) (hmalloc : ∀ k, env.mallocOk k = true)
    {c : Cell σ} {ms : MidiStream} {out : List Int} (hs : Streaming c ms out) (n : Nat)
    (hbudget : c.pcmTotal + n * 2 ≤ WAV_MAX_PCM_TOTAL) :
    Rendered env c ms out n (midiStreamRender env n c).1 := by
  have hbound := hs.bound
  rcases Nat.eq_zero_or_pos n with rfl | hn
  · have hend : chunkEnd out.length 0 = out.length := min_eq_left hbound
    rw [Nat.cast_zero, midiStreamRender_zero]
    exact ⟨by simp [rendered], by simp [hend], hs.builtin⟩
  · have hcap : WAV_PCM_RATE * 300 = (MIDI_MAX_FRAMES : Int) := by decide
    have hwant : (if ((out.length : Int) + n) > MIDI_MAX_FRAMES then (MIDI_MAX_FRAMES : Int)
        else out.length + n) = (chunkEnd out.length n : Int) := by
      unfold chunkEnd
      split <;> omega
    have hstop : out.length ≤ chunkEnd out.length n := le_min (by omega) hbound
    have hpad : out.take (out.length : Int).toNat ++
        List.replicate ((chunkEnd out.length n : Int) - out.length).toNat 0 =
          padded (chunkEnd out.length n) out := by
      rw [Int.toNat_natCast, List.take_length, padded]
      congr 2
      omega
    have hloop := renderLoop_eq_playUntil env (chunkEnd out.length n) ms.ev.length ms out
      (by simp) hstop
    have hrender : midiStreamRender env n c = ({ c with
        p := rendered env.sine c.p ms out n
        pcmTotal := c.pcmTotal + (chunkEnd out.length n - out.length) * 2
        fl := none, heap := c.heap + 1 }, true) := by
      unfold midiStreamRender
      simp only [hs.midi, hs.mono, hs.frames, hs.builtin, hs.buffer, hmalloc, hcap]
      rw [if_neg (by omega), if_neg (c := _ * 2 > _) (by omega), if_neg (by omega), hwant, hpad,
        hloop]
      simp [rendered, hn.ne', hs.mono, MidiStream.after, MidiStream.samples]
    rw [hrender]
    exact ⟨rfl, rfl, rfl⟩

/-- **Two chunks are one**, for the stream and its samples, when the boundary between them splits
no gap. -/
theorem MidiStream.after_after (ms : MidiStream) (sine : Nat → Int) {out : List Int}
    (h : out.length ≤ MIDI_MAX_FRAMES) (a n : Nat)
    (hgaps : OutsideGaps (chunkEnd out.length a) out.length (ms.eventFrames out.length)) :
    (ms.after sine out a).after sine (ms.samples sine out a) n = ms.after sine out (a + n) ∧
      (ms.after sine out a).samples sine (ms.samples sine out a) n =
        ms.samples sine out (a + n) := by
  have hlen := ms.samples_length sine h a
  have hend : chunkEnd (ms.samples sine out a).length n = chunkEnd out.length (a + n) := by
    rw [hlen]
    simp only [chunkEnd]
    lia
  have hle : out.length ≤ chunkEnd out.length a := le_min (by omega) h
  have hle' : chunkEnd out.length a ≤ chunkEnd out.length (a + n) := by
    simp only [chunkEnd]
    lia
  have hsplit := playUntil_split sine ms.division hle' (ms.ev.drop ms.ev_i) ms.toTrackPlay out hle
    hgaps
  simp only [MidiStream.after, MidiStream.samples] at hend ⊢
  simp only [hend]
  set r := playUntil sine ms.division (chunkEnd out.length a) (ms.ev.drop ms.ev_i)
    ms.toTrackPlay out with hr
  have hrout : r.out.length ≤ chunkEnd out.length a := playUntil_length_le _ _ _ _ _ _ hle
  rw [← List.drop_drop]
  -- either the events are used up, or the first chunk is full
  rcases playUntil_complete sine ms.division (chunkEnd out.length a) (ms.ev.drop ms.ev_i)
    ms.toTrackPlay out with hnil | hfull
  · rw [← hr] at hnil
    simp only [hnil, playUntil, hsplit, Nat.add_zero, padded_padded hrout hle', and_true]
    split_ifs <;> rfl
  · rw [← hr] at hfull
    rw [padded_self hfull, hsplit]
    simp only [Nat.add_assoc, and_true]
    split_ifs <;> first | rfl | omega

/-- **Another chunk after `a` frames**, when frame `a` splits no gap of the stream. -/
theorem Rendered.next {env : Env σ} (hmalloc : ∀ k, env.mallocOk k = true) {c₀ c : Cell σ}
    {ms : MidiStream} {out : List Int} (hs : Streaming c₀ ms out) {a : Nat} (n : Nat)
    (hc : Rendered env c₀ ms out a c) (hbudget : c₀.pcmTotal + (a + n : Nat) * 2 ≤ WAV_MAX_PCM_TOTAL)
    (hgaps : OutsideGaps (chunkEnd out.length a) out.length (ms.eventFrames out.length)) :
    Rendered env c₀ ms out (a + n) (midiStreamRender env n c).1 := by
  rcases Nat.eq_zero_or_pos n with rfl | hn
  · rw [Nat.cast_zero, midiStreamRender_zero]
    exact hc
  rcases Nat.eq_zero_or_pos a with rfl | ha
  · have hp : c.p = c₀.p := by simpa [rendered] using hc.player
    have hend : chunkEnd out.length 0 = out.length := min_eq_left hs.bound
    have htotal : c.pcmTotal = c₀.pcmTotal := by simpa [hend] using hc.total
    have hs' : Streaming c ms out := ⟨hp ▸ hs.midi, hp ▸ hs.buffer, hp ▸ hs.frames, hp ▸ hs.mono,
      hc.builtin, hs.bound⟩
    have h := midiStreamRender_rendered env hmalloc hs' n (by rw [htotal]; simpa using hbudget)
    rw [Nat.zero_add]
    exact ⟨hp ▸ h.player, htotal ▸ h.total, h.builtin⟩
  · have hlen := ms.samples_length env.sine hs.bound a
    have hp : c.p = { c₀.p with pcm := some (ms.samples env.sine out a)
                                pcmFrames := chunkEnd out.length a
                                midi := some (ms.after env.sine out a) } := by
      simpa [rendered, ha.ne'] using hc.player
    have hs' : Streaming c (ms.after env.sine out a) (ms.samples env.sine out a) :=
      ⟨by rw [hp], by rw [hp]; rfl, by rw [hp, hlen], by rw [hp]; exact hs.mono, hc.builtin,
        by rw [hlen]; exact min_le_right _ _⟩
    have hroom : chunkEnd out.length a ≤ out.length + a := min_le_left _ _
    have h := midiStreamRender_rendered env hmalloc hs' n (by have := hc.total; omega)
    have hend : chunkEnd (chunkEnd out.length a) n = chunkEnd out.length (a + n) := by
      simp only [chunkEnd]
      lia
    obtain ⟨hafter, hsamples⟩ := ms.after_after env.sine hs.bound a n hgaps
    refine ⟨?_, ?_, h.builtin⟩
    · rw [h.player, rendered, rendered, if_neg hn.ne', if_neg (by omega), hafter, hsamples, hlen,
        hend, hp]
    · rw [h.total, hc.total, hlen, hend]
      omega

/-! ## Any number of chunks -/

/-- Consecutive `midi_stream_render` calls. -/
def renderChunks (env : Env σ) (ns : List Nat) (c : Cell σ) : Cell σ :=
  ns.foldl (fun c (n : Nat) => (midiStreamRender env n c).1) c

/-- No boundary between two chunks splits a gap. -/
def ChunksOutsideGaps (ms : MidiStream) (out : List Int) (ns : List Nat) : Prop :=
  ∀ k < ns.length, OutsideGaps (chunkEnd out.length (ns.take k).sum) out.length
    (ms.eventFrames out.length)

theorem renderChunks_rendered (env : Env σ) (hmalloc : ∀ k, env.mallocOk k = true) {c : Cell σ}
    {ms : MidiStream} {out : List Int} (hs : Streaming c ms out) (ns : List Nat)
    (hbudget : c.pcmTotal + ns.sum * 2 ≤ WAV_MAX_PCM_TOTAL) (hgaps : ChunksOutsideGaps ms out ns) :
    Rendered env c ms out ns.sum (renderChunks env ns c) := by
  induction ns using List.reverseRecOn with
  | nil =>
    have h := midiStreamRender_rendered env hmalloc hs 0 (by simpa using hbudget)
    rwa [Nat.cast_zero, midiStreamRender_zero] at h
  | append_singleton ns n ih =>
    rw [List.sum_append, List.sum_singleton] at hbudget ⊢
    rw [renderChunks, List.foldl_append]
    have hns : ChunksOutsideGaps ms out ns := fun k hk => by
      have := hgaps k (by simp; omega)
      rwa [List.take_append_of_le_length hk.le] at this
    have hlast := hgaps ns.length (by simp)
    rw [List.take_left'  rfl] at hlast
    have hbudget' : c.pcmTotal + ns.sum * 2 ≤ WAV_MAX_PCM_TOTAL := by
      rw [Nat.cast_add] at hbudget
      omega
    exact (ih hbudget' hns).next hmalloc hs n hbudget hlast

/-- **Chunking does not matter when no boundary splits a gap.**  Two calls leave the player as one
call does, and so does any sequence of calls; and what a stream rendered from its start holds is
the beginning of what `midi_render` produces, followed by silence once that has ended. -/
theorem midiStreamRender_chunks (env : Env σ) (hmalloc : ∀ k, env.mallocOk k = true) {c : Cell σ}
    {ms : MidiStream} {out : List Int} (hs : Streaming c ms out) :
    (∀ n₁ n₂ : Nat, c.pcmTotal + (n₁ + n₂ : Nat) * 2 ≤ WAV_MAX_PCM_TOTAL →
      OutsideGaps (chunkEnd out.length n₁) out.length (ms.eventFrames out.length) →
      (midiStreamRender env n₂ (midiStreamRender env n₁ c).1).1.p =
        (midiStreamRender env (n₁ + n₂ : Nat) c).1.p) ∧
    ∀ ns : List Nat, c.pcmTotal + ns.sum * 2 ≤ WAV_MAX_PCM_TOTAL → ChunksOutsideGaps ms out ns →
      (renderChunks env ns c).p = (midiStreamRender env ns.sum c).1.p ∧
      (out = [] → ms.ev_i = 0 → ms.toTrackPlay = {} → ∀ outCap : Nat,
        chunkEnd 0 ns.sum ≤ outCap →
        (renderChunks env ns c).p.pcm.getD [] = padded (chunkEnd 0 ns.sum)
          ((midiRenderLoop env.sine ms.division outCap ms.ev ({}, [])).2.take
            (chunkEnd 0 ns.sum))) := by
  refine ⟨fun n₁ n₂ hbudget hgaps => ?_, fun ns hbudget hgaps => ⟨?_, ?_⟩⟩
  · have h₁ := midiStreamRender_rendered env hmalloc hs n₁ (by push_cast at hbudget; omega)
    exact (h₁.next hmalloc hs n₂ hbudget hgaps).player.trans
      (midiStreamRender_rendered env hmalloc hs (n₁ + n₂) hbudget).player.symm
  · exact (renderChunks_rendered env hmalloc hs ns hbudget hgaps).player.trans
      (midiStreamRender_rendered env hmalloc hs ns.sum hbudget).player.symm
  · rintro rfl hev hplay outCap hcap
    rw [(renderChunks_rendered env hmalloc hs ns hbudget hgaps).player,
      midiRenderLoop_eq_playUntil, ← playUntil_take env.sine ms.division hcap _ _ _ (by simp)]
    rcases Nat.eq_zero_or_pos ns.sum with hzero | hpos
    · have hend : chunkEnd 0 0 = 0 := by decide
      simp [rendered, hzero, hs.buffer, hend, playUntil_full, padded]
    · simp [rendered, hpos.ne', MidiStream.samples, hev, hplay]

/-! ## A boundary inside a gap -/

/-- A note of four frames: on at tick 0, off at tick 12. -/
def shortNote : MidiStream where
  ev := [⟨0, 0x90, 0, 60, 127, 0⟩, ⟨12, 0x80, 0, 60, 0, 0⟩]
  division := 32767
  totalTicks := 12

/-- A player that has just opened `shortNote`. -/
def shortNoteCell : Cell Unit where
  p := { used := true, volume := 100, channels := 1, midi := some shortNote }
  rawTotal := 0
  pcmTotal := 0
  flProbed := true
  fl := none
  heap := 0

theorem shortNoteCell_streaming : Streaming shortNoteCell shortNote [] :=
  ⟨rfl, rfl, rfl, rfl, rfl, by decide⟩

theorem plainEnv_mallocOk (k : Nat) : plainEnv.mallocOk k = true := rfl

/-- Rendered as four frames and two more, the note sounds as in one call. -/
theorem midiStreamRender_chunks_shortNote :
    (midiStreamRender plainEnv (2 : Nat) (midiStreamRender plainEnv (4 : Nat) shortNoteCell).1).1.p =
        (midiStreamRender plainEnv (6 : Nat) shortNoteCell).1.p ∧
      (renderChunks plainEnv [4, 2] shortNoteCell).p.pcm.getD [] =
        padded 6 ((midiRenderLoop plainEnv.sine 32767 100 shortNote.ev ({}, [])).2.take 6) := by
  have h := midiStreamRender_chunks plainEnv plainEnv_mallocOk shortNoteCell_streaming
  refine ⟨h.1 4 2 (by decide) (by decide), ?_⟩
  exact (h.2 [4, 2] (by decide) (by unfold ChunksOutsideGaps; decide)).2 rfl rfl rfl 100 (by decide)

/-- Rendered as two frames and four more, the note ends after two frames instead of four, before it
can be heard. -/
theorem midiStreamRender_chunks_differ :
    (midiStreamRender plainEnv (4 : Nat)
        (midiStreamRender plainEnv (2 : Nat) shortNoteCell).1).1.p.pcm = some [0, 0, 0, 0, 0, 0] ∧
      (midiStreamRender plainEnv (4 : Nat)
        (midiStreamRender plainEnv (2 : Nat) shortNoteCell).1).1.p.pcm ≠
          (midiStreamRender plainEnv (6 : Nat) shortNoteCell).1.p.pcm := by
  decide +kernel

end FroggyKVM.Audio
