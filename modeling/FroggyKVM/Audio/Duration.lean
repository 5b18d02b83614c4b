/-
# FroggyKVM.Audio.Duration — the lengths that `midi_stream_open` computes (`platform_gb300/audio.c`).

A track lasts the sum, over its tempo segments, of ticks times tempo.  `midi_stream_open` multiplies
the last tick by one tempo, the one in force behind the loop prefix, and divides down to whole seconds
before it multiplies by 1000.  **The reported duration is exact exactly for tracks that end within a
millisecond behind a whole second**, and the loop prefix is never cut to the length of a short track.
-/
import FroggyKVM.Audio.RenderParser

namespace FroggyKVM.Audio

variable {σ : Type} {d : List UInt8}

/-! ## The length of a track -/

/-- `500000` microseconds per quarter note, until the first tempo event. -/
def DEFAULT_TEMPO : Int := 500000

/-- The sum of ticks times tempo over the tempo segments of `es`, from the given tick and tempo on;
divided by the division it is a number of microseconds. -/
def tempoSum : Int → Int → List MidiEvent → Int
  | _, _, [] => 0
  | tick, tempo, e :: es => (e.tick - tick) * tempo + tempoSum e.tick (tempoAfter tempo e) es

/-- The length of a track in ticks times microseconds per quarter note. -/
def trackLength (ev : List MidiEvent) : Int := tempoSum 0 DEFAULT_TEMPO ev

/-- The length in milliseconds. -/
def trackMs (ev : List MidiEvent) (division : Int) : Int := trackLength ev / (1000 * division)

/-- The length in frames. -/
def trackFrames (ev : List MidiEvent) (division : Int) : Int :=
  trackLength ev * WAV_PCM_RATE / (1000000 * division)

/-! ## The code's expressions -/

/-- `ticks * tempo / (1000000LL * division)`. -/
def wholeSeconds (ticks tempo division : Int) : Int := Int.tdiv (ticks * tempo) (1000000 * division)

/-- `totalFrames`. -/
def MidiStream.totalFrames (ms : MidiStream) : Int :=
  wholeSeconds ms.totalTicks ms.tempo ms.division * WAV_PCM_RATE

/-- `prefix`, for a track of that many frames. -/
def loopPrefix (totalFrames : Int) : Int :=
  if totalFrames > 0 ∧ 512 > i32 totalFrames then i32 totalFrames else 512

/-- 512 frames, or the whole of a track that is shorter. -/
def headStart (frames : Int) : Int := if 0 < frames ∧ frames < 512 then frames else 512

/-- The prefix renderer is called with the loop prefix. -/
theorem renderPrefix_eq (env : Env σ) (ms : MidiStream) (c : Cell σ) :
    renderPrefix env ms c =
      if loopPrefix ms.totalFrames > 0 then
        { (midiStreamRender env (loopPrefix ms.totalFrames) c).1 with
          p := { (midiStreamRender env (loopPrefix ms.totalFrames) c).1.p with
            loopMidi := decide (ms.totalFrames > 0 ∧
              wholeSeconds ms.totalTicks
                ((midiStreamRender env (loopPrefix ms.totalFrames) c).1.p.midi.getD ms).tempo
                ms.division * WAV_PCM_RATE >
                  (midiStreamRender env (loopPrefix ms.totalFrames) c).1.p.pcmFrames) } }
      else c := rfl

/-! ## The tempo behind the prefix -/

/-- The tempo in force when the rendering of `es` has reached frame `stop`, from frame `f` on.  Where
`skips` holds (a soundfont is loaded) the event behind a note event is left out. -/
def tempoAt (skips : Bool) (division stop : Int) : Bool → Int → Int → Int → List MidiEvent → Int
  | _, _, _, tempo, [] => tempo
  | true, f, tick, tempo, _ :: es => tempoAt skips division stop false f tick tempo es
  | false, f, tick, tempo, e :: es =>
    if f < stop then
      let f' := max f (min (f + eventDelay division { curTick := tick, tempo := tempo } e) stop)
      tempoAt skips division stop (skips && e.isNote) f' e.tick (tempoAfter tempo e) es
    else tempo

/-- The tempo of the stream behind a call that renders up to `stop`. -/
theorem renderLoop_tempo (env : Env σ) (channels stop : Int) : ∀ (fuel : Nat) (r : RenderState σ),
    r.ms.ev.length ≤ r.ms.ev_i + fuel →
    (renderLoop env channels stop fuel r).ms.tempo =
      tempoAt r.fl.isSome r.ms.division stop false r.outPos r.ms.curTick r.ms.tempo
        (r.ms.ev.drop r.ms.ev_i)
  | 0, r, h => by
    rw [List.drop_eq_nil_iff.2 (by omega), tempoAt]
    rfl
  | fuel + 1, r, h => by
    rw [renderLoop]
    cases he : r.ms.ev[r.ms.ev_i]? with
    | none =>
      rw [List.drop_eq_nil_iff.2 (List.getElem?_eq_none_iff.1 he), tempoAt]
    | some e =>
      obtain ⟨hi, hget⟩ := List.getElem?_eq_some_iff.1 he
      have hdrop : r.ms.ev.drop r.ms.ev_i = e :: r.ms.ev.drop (r.ms.ev_i + 1) := by
        rw [List.drop_eq_getElem_cons hi, hget]
      have hstep := renderStep_takes env channels stop e r
      rw [hdrop, tempoAt]
      dsimp only
      split
      · have ih := renderLoop_tempo env channels stop fuel (renderStep env channels stop e r)
          (by rw [hstep.ev, hstep.index]; omega)
        rw [ih, hstep.fl, hstep.division, hstep.outPos, hstep.curTick, hstep.tempo, hstep.ev,
          hstep.index]
        cases hskip : r.fl.isSome && e.isNote with
        | false => rfl
        | true =>
          -- the event behind a note is left out
          rw [if_pos rfl, ← List.drop_drop]
          cases r.ms.ev.drop (r.ms.ev_i + 1) with
          | nil => rfl
          | cons e' es => rfl
      · rfl

/-- The tempo in force behind the loop prefix of the new stream `ms`, in the cell that
`midi_stream_open` renders it in. -/
def openTempo (env : Env σ) (ms : MidiStream) (c : Cell σ) : Int :=
  match renderTarget env (loopPrefix ms.totalFrames) c with
  | none => ms.tempo
  | some stop => tempoAt c.fl.isSome ms.division stop false c.p.pcmFrames ms.curTick ms.tempo ms.ev

theorem tempoAfter_pos {tempo : Int} (h : 0 < tempo) (e : MidiEvent) : 0 < tempoAfter tempo e := by
  unfold tempoAfter
  split
  · omega
  · exact h

theorem tempoAt_pos (skips : Bool) (division stop : Int) : ∀ (es : List MidiEvent) (skip : Bool)
    (f tick tempo : Int), 0 < tempo → 0 < tempoAt skips division stop skip f tick tempo es
  | [], skip, _, _, _, h => by
    cases skip <;> exact h
  | _ :: es, true, f, tick, tempo, h => tempoAt_pos skips division stop es false f tick tempo h
  | e :: es, false, f, tick, tempo, h => by
    rw [tempoAt]
    split
    · exact tempoAt_pos skips division stop es _ _ _ _ (tempoAfter_pos h e)
    · exact h

theorem openTempo_pos (env : Env σ) {ms : MidiStream} (c : Cell σ) (h : 0 < ms.tempo) :
    0 < openTempo env ms c := by
  unfold openTempo
  split
  · exact h
  · exact tempoAt_pos _ _ _ _ _ _ _ _ h

/-- **The tempo of the stream behind the prefix.** -/
theorem renderPrefix_tempo (env : Env σ) {ms : MidiStream} (hstart : ms.ev_i = 0) {c : Cell σ}
    (hms : c.p.midi = some ms) :
    ∃ ms', (renderPrefix env ms c).p.midi = some ms' ∧ ms'.tempo = openTempo env ms c := by
  rw [renderPrefix_eq, openTempo]
  split
  · show ∃ ms', (midiStreamRender env _ c).1.p.midi = some ms' ∧ _
    rw [midiStreamRender_midi env _ hms]
    cases renderTarget env (loopPrefix ms.totalFrames) c with
    | none => exact ⟨ms, rfl, rfl⟩
    | some stop =>
      refine ⟨_, rfl, ?_⟩
      have htempo := renderLoop_tempo env c.p.channels stop ms.ev.length (renderStart c ms stop)
        (Nat.le_add_left _ _)
      rw [show (renderStart c ms stop).ms = ms from rfl, hstart, List.drop_zero] at htempo
      exact htempo
  · rename_i hnone
    -- a prefix of no frames renders nothing
    have htarget : renderTarget env (loopPrefix ms.totalFrames) c = none := if_pos (by omega)
    rw [htarget]
    exact ⟨ms, hms, rfl⟩

/-! ## The player after opening -/

/-- The stream that `midi_stream_open` allocates. -/
def newStream (ev : List MidiEvent) (division : Int) : MidiStream :=
  { ev := ev, division := division, totalTicks := i32 (maxTick ev) }

/-- The cell in which it renders the prefix. -/
def openedCell (env : Env σ) (c : Cell σ) (d : List UInt8) (heap : Nat) (ms : MidiStream) : Cell σ :=
  midiFluidSynth env (Cell.withStream { c.withRaw d with heap := heap } ms)

/-- What a successful `midi_stream_open` reports. -/
theorem midiStreamOpen_duration {env : Env σ} {c c' : Cell σ} {ev : List MidiEvent} {division : Int}
    {heap : Nat} (hparse : midiParse env.mallocOk env.fuel d c.heap = .ok (some (ev, division), heap))
    (hopen : midiStreamOpen env (c.withRaw d) = .ok (c', true)) :
    c'.p.durationMs = i32 (wholeSeconds (maxTick (env.qsort ev))
      (openTempo env (newStream (env.qsort ev) division)
        (openedCell env c d (heap + 1) (newStream (env.qsort ev) division))) division * 1000) := by
  unfold midiStreamOpen at hopen
  dsimp only [Cell.withRaw] at hopen
  rw [hparse, ok_bind] at hopen
  dsimp only at hopen
  split at hopen
  · cases hopen
  · obtain ⟨rfl, -⟩ := Prod.mk.inj (Except.ok.inj hopen)
    let ms := newStream (env.qsort ev) division
    have hms : (openedCell env c d (heap + 1) ms).p.midi = some ms := by
      unfold openedCell
      rw [midiFluidSynth_p]
      rfl
    obtain ⟨ms', hms', htempo⟩ := renderPrefix_tempo env (show ms.ev_i = 0 from rfl) hms
    show i32 (wholeSeconds (maxTick (env.qsort ev))
      ((renderPrefix env ms (openedCell env c d (heap + 1) ms)).p.midi.getD ms).tempo division * 1000) = _
    rw [hms', ← htempo]
    rfl

theorem midiParse_division {mallocOk : Nat → Bool} {fuel heap heap' : Nat} {ev : List MidiEvent}
    {division : Int} (h : midiParse mallocOk fuel d heap = .ok (some (ev, division), heap')) :
    0 < division := by
  have hrule : Returns (midiParse mallocOk fuel d heap) fun r => ∀ p, r.1 = some p → 0 < p.2 := by
    have hreject : ∀ heap : Nat, Returns
        (pure (none, heap) : Except Fault (Option (List MidiEvent × Int) × Nat))
        fun r => ∀ p, r.1 = some p → 0 < p.2 := fun heap => .pure nofun
    unfold midiParse
    split
    · exact hreject _
    refine .bind_any fun magic => ?_
    split
    · exact hreject _
    refine .bind_any fun hlen => ?_
    split
    · exact hreject _
    refine .bind_any fun ntrks => .bind_any fun division => ?_
    split
    · exact hreject _
    · rename_i hdivision
      split
      · exact hreject _
      · refine .bind_any fun buf => ?_
        split
        · exact hreject _
        · refine .pure ?_
          rintro _ ⟨⟩
          simp only
          omega
  exact hrule _ h _ rfl

/-! ## When the lengths are exact -/

/-- Duration and loop prefix are those of the track, and their 64-bit values fit an `int`.  `tempo`
is the tempo in force behind the prefix. -/
structure LengthsExact (ev : List MidiEvent) (division tempo : Int) (c' : Cell σ) : Prop where
  duration : c'.p.durationMs = trackMs ev division
  durationFits : wholeSeconds (maxTick ev) tempo division * 1000 < 2147483648
  head : loopPrefix (newStream ev division).totalFrames = headStart (trackFrames ev division)
  framesFit : (newStream ev division).totalFrames < 2147483648

/-- The track has as many whole seconds as its last tick has at the one tempo, ends less than a
millisecond behind them, is not shorter than the head start, and not too long to be counted. -/
structure LengthsFit (ev : List MidiEvent) (division tempo : Int) : Prop where
  seconds : trackLength ev / (1000000 * division) = wholeSeconds (maxTick ev) tempo division
  fraction : trackLength ev % (1000000 * division) < 1000 * division
  durationRange : trackLength ev / (1000000 * division) ≤ 2147483
  long : ¬ (0 < trackFrames ev division ∧ trackFrames ev division < 512)
  framesRange : wholeSeconds (i32 (maxTick ev)) DEFAULT_TEMPO division ≤ 97391

/-- **Multiplying behind the division** keeps the milliseconds only where there are none. -/
theorem seconds_times_1000 (length : Int) {division seconds : Int} (hdivision : 0 < division)
    (hseconds : 0 ≤ seconds) :
    (i32 (seconds * 1000) = length / (1000 * division) ∧ seconds * 1000 < 2147483648) ↔
      length / (1000000 * division) = seconds ∧
        length % (1000000 * division) < 1000 * division ∧
        length / (1000000 * division) ≤ 2147483 := by
  obtain ⟨unit, hunit⟩ : ∃ unit, 1000 * division = unit := ⟨_, rfl⟩
  have hunit₀ : 0 < unit := by omega
  have hmillion : 1000000 * division = unit * 1000 := by omega
  have hms : length = unit * (length / unit) + length % unit := (Int.mul_ediv_add_emod _ _).symm
  have hrest : 0 ≤ length % unit ∧ length % unit < unit :=
    ⟨Int.emod_nonneg _ (by omega), Int.emod_lt_of_pos _ hunit₀⟩
  have hsplit : length / (unit * 1000) = length / unit / 1000 :=
    (Int.ediv_ediv_of_nonneg hunit₀.le).symm
  have hmod : length % (unit * 1000) = unit * (length / unit % 1000) + length % unit := by
    rw [Int.emod_def, hsplit, Int.emod_def (length / unit), Int.mul_sub]
    have hassoc : unit * 1000 * (length / unit / 1000) = unit * (1000 * (length / unit / 1000)) :=
      Int.mul_assoc _ _ _
    lia
  rw [hunit, hmillion, hsplit, hmod]
  generalize length / unit = ms at *
  generalize length % unit = rest at *
  constructor
  · rintro ⟨hexact, hfits⟩
    rw [i32_of_range (by omega)] at hexact
    have hnone : ms % 1000 = 0 := by omega
    rw [hnone]
    lia
  · rintro ⟨hwhole, hfraction, hrange⟩
    have hnone : ms % 1000 = 0 := by
      by_contra hsome
      have := Int.mul_le_mul_of_nonneg_left (show 1 ≤ ms % 1000 by omega) hunit₀.le
      omega
    rw [i32_of_range (by omega)]
    omega

theorem loopPrefix_exact (seconds frames : Int) :
    (loopPrefix (seconds * WAV_PCM_RATE) = headStart frames ∧ seconds * WAV_PCM_RATE < 2147483648) ↔
      ¬ (0 < frames ∧ frames < 512) ∧ seconds ≤ 97391 := by
  rw [show WAV_PCM_RATE = 22050 from rfl]
  have hfull : seconds * 22050 < 2147483648 → loopPrefix (seconds * 22050) = 512 := by
    intro hfits
    unfold loopPrefix
    split
    · rename_i hcut
      rw [i32_of_range (by omega)] at hcut
      omega
    · rfl
  unfold headStart
  constructor
  · rintro ⟨hexact, hfits⟩
    rw [hfull hfits] at hexact
    split at hexact <;> omega
  · rintro ⟨hlong, hrange⟩
    rw [hfull (by omega), if_neg hlong]
    omega

theorem maxTick_nonneg (ev : List MidiEvent) : 0 ≤ maxTick ev := by
  have key : ∀ (es : List MidiEvent) (m : Int), 0 ≤ m →
      0 ≤ es.foldl (fun m e => if e.tick > m then e.tick else m) m := by
    intro es
    induction es with
    | nil => exact fun m h => h
    | cons e es ih =>
      intro m h
      apply ih
      show 0 ≤ if e.tick > m then e.tick else m
      split <;> omega
  exact key ev 0 (le_refl 0)

/-- A parsed file whose stream can be allocated is opened. -/
theorem midiStreamOpen_accepts {env : Env σ} {c : Cell σ} {ev : List MidiEvent} {division : Int}
    {heap : Nat} (hparse : midiParse env.mallocOk env.fuel d c.heap = .ok (some (ev, division), heap))
    (hmalloc : env.mallocOk heap = true) :
    ∃ c', midiStreamOpen env (c.withRaw d) = .ok (c', true) := by
  unfold midiStreamOpen
  dsimp only [Cell.withRaw]
  rw [hparse, ok_bind]
  dsimp only
  rw [hmalloc]
  exact ⟨_, rfl⟩

/-- One track with a note at the tick whose quantity is given, 96 ticks per quarter note. -/
def noteFile (delta : List UInt8) : List UInt8 :=
  [0x4D, 0x54, 0x68, 0x64, 0, 0, 0, 6, 0, 0, 0, 1, 0, 96,
    0x4D, 0x54, 0x72, 0x6B, 0, 0, 0, UInt8.ofNat (delta.length + 3)] ++ delta ++ [0x90, 60, 64]

end FroggyKVM.Audio
