/-
# FroggyKVM.Audio.Delivery — which events of a stream reach the synthesiser.

The event loop of `midi_stream_render` counts an event in `ev_i` when it takes it.  With a soundfont
loaded, a note event is counted again before the loop continues, so the event after it is never
applied.  Without a soundfont, or when no note event with a successor is due, the events applied
are the events counted.
-/
import FroggyKVM.Audio.Chunking

namespace FroggyKVM.Audio

variable {σ : Type}

/-! ## The events a call applies -/

/-- The events that the iterations of `renderLoop` apply, in order. -/
def loopEvents (env : Env σ) (channels pcmFrames : Int) : Nat → RenderState σ → List MidiEvent
  | 0, _ => []
  | fuel + 1, r =>
    match r.ms.ev[r.ms.ev_i]? with
    | none => []
    | some e =>
      if r.outPos < pcmFrames then
        e :: loopEvents env channels pcmFrames fuel (renderStep env channels pcmFrames e r)
      else []

/-- The frame `midi_stream_render` renders up to, when it renders at all. -/
def renderTarget (env : Env σ) (frames : Int) (c : Cell σ) : Option Int :=
  if frames ≤ 0 then none else
  let budget := WAV_MAX_PCM_TOTAL - c.pcmTotal + c.p.pcmFrames * c.p.channels * 2
  let want := c.p.pcmFrames + frames
  let want := if want * 2 > budget then Int.tdiv budget 2 else want
  if want ≤ c.p.pcmFrames then none else
  let want := if want > WAV_PCM_RATE * 300 then WAV_PCM_RATE * 300 else want
  if !env.mallocOk c.heap then none else some want

/-- What the event loop starts from. -/
def renderStart (c : Cell σ) (ms : MidiStream) (want : Int) : RenderState σ :=
  ⟨ms, (c.p.pcm.getD []).take c.p.pcmFrames.toNat ++
    List.replicate (want - c.p.pcmFrames).toNat 0, c.p.pcmFrames, c.fl⟩

/-- The events a call of `midi_stream_render` applies. -/
def renderedEvents (env : Env σ) (frames : Int) (c : Cell σ) : List MidiEvent :=
  match c.p.midi, renderTarget env frames c with
  | some ms, some want =>
    loopEvents env c.p.channels want ms.ev.length (renderStart c ms want)
  | _, _ => []

/-- The player after a call that renders up to `want`. -/
def renderedPlayer (env : Env σ) (c : Cell σ) (ms : MidiStream) (want : Int) : WavPlayer :=
  let r := renderLoop env c.p.channels want ms.ev.length (renderStart c ms want)
  { c.p with
    pcm := some r.pcm, pcmFrames := want
    midi := some { r.ms with done := if r.ms.ev.length ≤ r.ms.ev_i then true else r.ms.done } }

/-- The player after a call. -/
theorem midiStreamRender_player (env : Env σ) (frames : Int) {c : Cell σ} {ms : MidiStream}
    (hms : c.p.midi = some ms) :
    (midiStreamRender env frames c).1.p =
      match renderTarget env frames c with
      | none => c.p
      | some want => renderedPlayer env c ms want := by
  unfold midiStreamRender renderTarget renderedPlayer renderStart
  rw [hms]
  by_cases hframes : frames ≤ 0
  · simp only [if_pos hframes]
  · simp only [if_neg hframes]
    generalize (if (c.p.pcmFrames + frames) * 2 > _ then _ else c.p.pcmFrames + frames) = want
    by_cases hwant : want ≤ c.p.pcmFrames
    · simp only [if_pos hwant]
    · simp only [if_neg hwant]
      by_cases hmalloc : (!env.mallocOk c.heap) = true
      · simp only [if_pos hmalloc]
      · simp only [if_neg hmalloc]

/-- The stream after a call. -/
theorem midiStreamRender_midi (env : Env σ) (frames : Int) {c : Cell σ} {ms : MidiStream}
    (hms : c.p.midi = some ms) :
    (midiStreamRender env frames c).1.p.midi =
      match renderTarget env frames c with
      | none => some ms
      | some want => (renderedPlayer env c ms want).midi := by
  rw [midiStreamRender_player env frames hms]
  cases renderTarget env frames c with
  | none => exact hms
  | some want => rfl

/-! ## The loop -/

/-- `type == 0x90` or `type == 0x80`. -/
def MidiEvent.isNote (e : MidiEvent) : Bool := e.type = 0x90 || e.type = 0x80

/-- When the events `es` fall on the frames `fs` that follow frame `f`: none of those that playing up
to `want` reaches, because the frame before them is before `want`, is a note event with a
successor. -/
def NotesLast (want : Int) : Int → List Int → List MidiEvent → Prop
  | f, f' :: fs, e :: es => f < want → (e.isNote = true → es = []) ∧ NotesLast want f' fs es
  | _, _, _ => True

/-- **When a call delivers what it counts**: no soundfont is loaded, or no note event with a
successor is due in the call. -/
def Delivers (env : Env σ) (frames : Int) (c : Cell σ) : Prop :=
  c.fl = none ∨ ∀ ms want, c.p.midi = some ms → renderTarget env frames c = some want →
    NotesLast want c.p.pcmFrames (ms.eventFrames c.p.pcmFrames) (ms.ev.drop ms.ev_i)

theorem renderGap_frame (env : Env σ) (channels target : Int) (r : RenderState σ) :
    ∃ voices, (renderGap env channels target r).ms = { r.ms with voices := voices } := by
  unfold renderGap
  split
  · cases r.fl with
    | none => exact ⟨_, rfl⟩
    | some f => exact ⟨_, rfl⟩
  · exact ⟨_, rfl⟩

theorem renderGap_outPos (env : Env σ) (channels target : Int) (r : RenderState σ) :
    (renderGap env channels target r).outPos = max r.outPos target := by
  unfold renderGap
  split
  case isTrue hlt =>
    cases r.fl with
    | none => exact (max_eq_right hlt.le).symm
    | some f => exact (max_eq_right hlt.le).symm
  case isFalse hge => exact (max_eq_left (not_lt.1 hge)).symm

theorem renderGap_fl (env : Env σ) (channels target : Int) (r : RenderState σ) :
    (renderGap env channels target r).fl.isSome = r.fl.isSome := by
  unfold renderGap
  split
  · cases hfl : r.fl <;> simp
  · rfl

/-- What one iteration does beside the synthesis. -/
structure Takes (channels pcmFrames : Int) (e : MidiEvent) (r r' : RenderState σ) : Prop where
  ev : r'.ms.ev = r.ms.ev
  division : r'.ms.division = r.ms.division
  index : r'.ms.ev_i = r.ms.ev_i + 1 + if r.fl.isSome && e.isNote then 1 else 0
  curTick : r'.ms.curTick = e.tick
  tempo : r'.ms.tempo = tempoAfter r.ms.tempo e
  outPos : r'.outPos = max r.outPos
    (min (r.outPos + eventDelay r.ms.division r.ms.toTrackPlay e) pcmFrames)
  fl : r'.fl.isSome = r.fl.isSome

theorem tempoAfter_of_note {e : MidiEvent} (h : e.isNote = true) (tempo : Int) :
    tempoAfter tempo e = tempo := by
  simp only [MidiEvent.isNote, Bool.or_eq_true, decide_eq_true_eq] at h
  unfold tempoAfter
  rw [if_neg (by omega)]

/-- Reacting to an event. -/
theorem renderEvent_takes (env : Env σ) (e : MidiEvent) (r : RenderState σ) :
    (renderEvent env e r).ms.ev = r.ms.ev ∧
      (renderEvent env e r).ms.division = r.ms.division ∧
      (renderEvent env e r).ms.ev_i = r.ms.ev_i + (if r.fl.isSome && e.isNote then 1 else 0) ∧
      (renderEvent env e r).ms.curTick = r.ms.curTick ∧
      (renderEvent env e r).ms.tempo = tempoAfter r.ms.tempo e ∧
      (renderEvent env e r).outPos = r.outPos ∧
      (renderEvent env e r).fl.isSome = r.fl.isSome := by
  unfold renderEvent
  cases hfl : r.fl with
  | none => simp [applyEvent_tempo, applyEvent_curTick]
  | some f =>
    dsimp only
    by_cases hon : e.type = 0x90
    · have hnote : e.isNote = true := by simp [MidiEvent.isNote, hon]
      simp [hon, hnote, tempoAfter_of_note]
    · by_cases hoff : e.type = 0x80
      · have hnote : e.isNote = true := by simp [MidiEvent.isNote, hoff]
        simp [hoff, hnote, tempoAfter_of_note]
      · have hnote : e.isNote = false := by simp [MidiEvent.isNote, hon, hoff]
        rw [if_neg hon, if_neg hoff]
        split_ifs <;> simp_all [applyEvent_tempo, applyEvent_curTick]

theorem renderStep_takes (env : Env σ) (channels pcmFrames : Int) (e : MidiEvent)
    (r : RenderState σ) : Takes channels pcmFrames e r (renderStep env channels pcmFrames e r) := by
  unfold renderStep
  have hmin : ∀ a b : Int, (if a > b then b else a) = min a b := by intro a b; omega
  simp only [hmin]
  set target := min (r.outPos + eventDelay r.ms.division r.ms.toTrackPlay e) pcmFrames with ht
  obtain ⟨voices, hgap⟩ := renderGap_frame env channels target r
  have hpos := renderGap_outPos env channels target r
  have hfl := renderGap_fl env channels target r
  obtain ⟨hev, hdivision, hindex, htick, htempo, hout, hfl'⟩ := renderEvent_takes env e
    { renderGap env channels target r with
      ms := { (renderGap env channels target r).ms with
        curTick := e.tick, ev_i := (renderGap env channels target r).ms.ev_i + 1 } }
  simp only [hgap, hfl] at hev hdivision hindex htick htempo hout hfl'
  simp only [hgap]
  exact ⟨hev, hdivision, hindex, htick, htempo, by rw [hout, hpos], hfl'⟩

/-- **The loop applies the events it counts.** -/
theorem loopEvents_eq (env : Env σ) (channels pcmFrames : Int) :
    ∀ (fuel : Nat) (r : RenderState σ) (f : Int), (r.outPos < pcmFrames → f = r.outPos) →
      (r.fl = none ∨ NotesLast pcmFrames f
        (eventFrames r.ms.division f r.ms.curTick r.ms.tempo (r.ms.ev.drop r.ms.ev_i))
        (r.ms.ev.drop r.ms.ev_i)) →
      (renderLoop env channels pcmFrames fuel r).ms.ev = r.ms.ev ∧
        r.ms.ev.take r.ms.ev_i ++ loopEvents env channels pcmFrames fuel r =
          r.ms.ev.take (renderLoop env channels pcmFrames fuel r).ms.ev_i
  | 0, r, _, _, _ => ⟨rfl, List.append_nil _⟩
  | fuel + 1, r, f, hf, hlast => by
    rw [renderLoop, loopEvents]
    cases he : r.ms.ev[r.ms.ev_i]? with
    | none => exact ⟨rfl, List.append_nil _⟩
    | some e =>
      dsimp only
      by_cases hout : r.outPos < pcmFrames
      · rw [if_pos hout, if_pos hout]
        obtain ⟨hi, hget⟩ := List.getElem?_eq_some_iff.1 he
        have hdrop : r.ms.ev.drop r.ms.ev_i = e :: r.ms.ev.drop (r.ms.ev_i + 1) := by
          rw [List.drop_eq_getElem_cons hi, hget]
        have hstep := renderStep_takes env channels pcmFrames e r
        set r' := renderStep env channels pcmFrames e r
        obtain rfl := hf hout
        have htake : r.ms.ev.take (r.ms.ev_i + 1) = r.ms.ev.take r.ms.ev_i ++ [e] := by
          rw [List.take_add_one, he]
          rfl
        by_cases hskip : r.fl.isSome && e.isNote
        · -- the note is the last event, so what is counted twice is the end
          obtain ⟨hsome, hnote⟩ := Bool.and_eq_true_iff.1 hskip
          have hnone : r.fl ≠ none := by simpa [Option.isSome_iff_ne_none] using hsome
          have hend : r.ms.ev.drop (r.ms.ev_i + 1) = [] := by
            have h := hlast.resolve_left hnone
            rw [hdrop] at h
            exact (h hout).1 hnote
          have hlen : r.ms.ev.length ≤ r.ms.ev_i + 1 := List.drop_eq_nil_iff.1 hend
          have hindex : r'.ms.ev_i = r.ms.ev_i + 1 + 1 := by rw [hstep.index, if_pos hskip]
          have hover : r'.ms.ev[r'.ms.ev_i]? = none := by
            rw [hstep.ev, hindex, List.getElem?_eq_none_iff]
            omega
          have hloop : renderLoop env channels pcmFrames fuel r' = r' ∧
              loopEvents env channels pcmFrames fuel r' = [] := by
            cases fuel with
            | zero => exact ⟨rfl, rfl⟩
            | succ n =>
              rw [renderLoop, loopEvents, hover]
              exact ⟨rfl, rfl⟩
          rw [hloop.1, hloop.2, hstep.ev, hindex, ← htake, List.take_of_length_le hlen,
            List.take_of_length_le (by omega)]
          exact ⟨rfl, rfl⟩
        · have hindex : r'.ms.ev_i = r.ms.ev_i + 1 := by rw [hstep.index, if_neg hskip]
          have ih := loopEvents_eq env channels pcmFrames fuel r'
            (max r.outPos (r.outPos + eventDelay r.ms.division r.ms.toTrackPlay e))
            (by rw [hstep.outPos]; omega)
            (by
              rcases hlast with hnone | h
              · left
                simpa [hnone] using hstep.fl
              · right
                rw [hdrop] at h
                rw [hstep.ev, hindex, hstep.division, hstep.curTick, hstep.tempo]
                exact (h hout).2)
          rw [hstep.ev, hindex, htake, List.append_assoc] at ih
          exact ih
      · rw [if_neg hout, if_neg hout]
        exact ⟨rfl, List.append_nil _⟩

/-! ## Playback -/

/-- A stream is played: `midi_stream_render` calls, and between them anything that leaves the
stream alone and keeps a soundfont loaded or not.  The list is what the calls apply. -/
inductive Playback (env : Env σ) (ok : Int → Cell σ → Prop) :
    Cell σ → List MidiEvent → Cell σ → Prop
  | done (c : Cell σ) : Playback env ok c [] c
  | render {c c' : Cell σ} {frames : Int} {es : List MidiEvent} : ok frames c →
      Playback env ok (midiStreamRender env frames c).1 es c' →
      Playback env ok c (renderedEvents env frames c ++ es) c'
  | other {c c₁ c' : Cell σ} {es : List MidiEvent} : c₁.p.midi = c.p.midi →
      c₁.fl.isSome = c.fl.isSome → Playback env ok c₁ es c' → Playback env ok c es c'

/-- One call applies the events it counts. -/
theorem renderedEvents_eq (env : Env σ) (frames : Int) {c : Cell σ} {ms : MidiStream}
    (hms : c.p.midi = some ms) (hok : Delivers env frames c) :
    ∃ ms', (midiStreamRender env frames c).1.p.midi = some ms' ∧ ms'.ev = ms.ev ∧
      ms.ev.take ms.ev_i ++ renderedEvents env frames c = ms.ev.take ms'.ev_i := by
  rw [midiStreamRender_midi env frames hms, renderedEvents, hms]
  cases htarget : renderTarget env frames c with
  | none => exact ⟨ms, rfl, rfl, List.append_nil _⟩
  | some want =>
    obtain ⟨hev, htake⟩ := loopEvents_eq env c.p.channels want ms.ev.length
      (renderStart c ms want) c.p.pcmFrames (fun _ => rfl)
      (hok.imp id fun h => h ms want hms htarget)
    exact ⟨_, rfl, hev, htake⟩

/-- The player of `shortNote`, with a soundfont. -/
def soundfontCell : Cell Unit := { shortNoteCell with fl := some () }

end FroggyKVM.Audio
