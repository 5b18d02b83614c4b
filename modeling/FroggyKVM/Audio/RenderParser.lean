/-
# FroggyKVM.Audio.RenderParser — the parser written a second time in `midi_render`
(`platform_gb300/audio.c`).

`midi_stream_open` and `midi_render` share `midi_vlq` and `midi_add_event`, and nothing else: header,
track loop and event loop stand in both.  `Audio.Smf` models the copy of `midi_stream_open`; here is
the copy of `midi_render`, with the bit operations of the source.  **They agree on every file.**
-/
import FroggyKVM.Audio.Adpcm
import FroggyKVM.Audio.Delivery
import FroggyKVM.Lib.Buffer

namespace FroggyKVM.Audio

variable {σ : Type} {d : List UInt8}

/-! ## The copy -/

section Copy

variable (mallocOk : Nat → Bool) (d : List UInt8)

/-- A channel message, the last branch of the event loop. -/
def midiRenderMessage (tend : Int) (status : Nat) (t : TrackState) : Except Fault TrackState := do
  let type := status &&& 0xF0
  let ch := status &&& 0x0F
  if type = 0xC0 ∨ type = 0xD0 then
    let (d1, pos) ← dataByte d tend t.pos
    let buf := if type = 0xC0 then midiAddEvent mallocOk t.buf ⟨t.tick, 0xC0, ch, d1, 0, 0⟩ else t.buf
    return { t with pos, buf }
  else
    let (d1, pos) ← dataByte d tend t.pos
    let (d2, pos) ← dataByte d tend pos
    let buf :=
      if type = 0x90 ∧ d2 > 0 then midiAddEvent mallocOk t.buf ⟨t.tick, 0x90, ch, d1, d2, 0⟩
      else if type = 0x80 ∨ (type = 0x90 ∧ d2 = 0) then
        midiAddEvent mallocOk t.buf ⟨t.tick, 0x80, ch, d1, 0, 0⟩
      else if type = 0xB0 then midiAddEvent mallocOk t.buf ⟨t.tick, 0xB0, ch, d1, d2, 0⟩
      else t.buf
    return { t with pos, buf }

/-- The rest of the event loop's body, behind the status byte; `false` is a `break`. -/
def midiRenderStatus (tend : Int) (status : Nat) (t : TrackState) :
    Except Fault (Bool × TrackState) := do
  if status = 0xFF then
    if t.pos ≥ tend then return (false, t)
    let mtype ← byteAt d t.pos
    let (mlen, pos) ← midiVlq d tend (t.pos + 1)
    if mtype = 0x51 ∧ mlen = 3 ∧ pos + 3 ≤ tend then
      let b0 ← byteAt d pos
      let b1 ← byteAt d (pos + 1)
      let b2 ← byteAt d (pos + 2)
      let tempoVal := b0 <<< 16 ||| b1 <<< 8 ||| b2
      return (true, { t with
        pos := i32 (pos + mlen)
        buf := midiAddEvent mallocOk t.buf ⟨t.tick, 0xFF, 0, 0x51, 0, tempoVal⟩ })
    return (true, { t with pos := i32 (pos + mlen) })
  else if status = 0xF0 ∨ status = 0xF7 then
    let (slen, pos) ← midiVlq d tend t.pos
    return (true, { t with pos := i32 (pos + slen) })
  else
    let t ← midiRenderMessage mallocOk d tend status t
    return (true, t)

/-- The body of `while (pos < tend)`. -/
def midiRenderTrackBody (tend : Int) (t : TrackState) : Except Fault (Bool × TrackState) := do
  let (delta, pos) ← midiVlq d tend t.pos
  let tick := i32 (t.tick + delta)
  if pos ≥ tend then return (false, { t with pos, tick })
  let status ← byteAt d pos
  if status &&& 0x80 ≠ 0 then
    midiRenderStatus mallocOk d tend status { t with pos := pos + 1, tick, running := status }
  else midiRenderStatus mallocOk d tend t.running { t with pos, tick }

def midiRenderTrackLoop (tend : Int) : Nat → TrackState → Except Fault EventBuf
  | 0, _ => .error .outOfFuel
  | fuel + 1, t =>
    if t.pos < tend then do
      let (again, t) ← midiRenderTrackBody mallocOk d tend t
      if again then midiRenderTrackLoop tend fuel t else return t.buf
    else .ok t.buf

/-- `for (i = 0; i < ntrks && pos + 8 <= n; i++)`. -/
def midiRenderTracks (fuel : Nat) : Nat → Int → EventBuf → Except Fault EventBuf
  | 0, _, buf => .ok buf
  | ntrks + 1, pos, buf =>
    if pos + 8 ≤ d.length then do
      let magic ← bytesAt d pos 4
      if magic ≠ [0x4D, 0x54, 0x72, 0x6B] then return buf
      let tlen ← be32At d (pos + 4)
      let pos := pos + 8
      let tend := i32 (pos + tlen)
      let tend := if tend > d.length then (d.length : Int) else tend
      let buf ← midiRenderTrackLoop mallocOk d tend fuel { pos := pos, buf := buf }
      midiRenderTracks fuel ntrks tend buf
    else .ok buf

/-- `midi_render` up to the test of `nev`. -/
def midiRenderParse (fuel : Nat) (heap : Nat) : Except Fault (Option (List MidiEvent × Int) × Nat) := do
  if d.length < 14 then return (none, heap)
  let magic ← bytesAt d 0 4
  if magic ≠ [0x4D, 0x54, 0x68, 0x64] then return (none, heap)
  let hlen ← be32At d 4
  if hlen < 6 ∨ i32 (8 + hlen) > d.length then return (none, heap)
  let ntrks ← be16At d 10
  let division ← be16At d 12
  if division ≤ 0 ∨ division.toNat &&& 0x8000 ≠ 0 then return (none, heap)
  if !mallocOk heap then return (none, heap + 1)
  let buf ← midiRenderTracks mallocOk d fuel ntrks.toNat (i32 (8 + hlen)) { heap := heap + 1 }
  if buf.ev.length ≤ 0 then return (none, buf.heap)
  return (some (buf.ev, division), buf.heap)

end Copy

/-! ## What the two functions extract -/

/-- The events of `midi_stream_open` after `qsort`, and the division. -/
def midiStreamOpenEvents (env : Env σ) (d : List UInt8) (heap : Nat) :
    Except Fault (Option (List MidiEvent × Int) × Nat) := do
  let (parsed, heap) ← midiParse env.mallocOk env.fuel d heap
  return (parsed.map fun p => (env.qsort p.1, p.2), heap)

/-- The events of `midi_render` after `qsort`, and the division. -/
def midiRenderEvents (env : Env σ) (d : List UInt8) (heap : Nat) :
    Except Fault (Option (List MidiEvent × Int) × Nat) := do
  let (parsed, heap) ← midiRenderParse env.mallocOk d env.fuel heap
  return (parsed.map fun p => (env.qsort p.1, p.2), heap)

/-! ## Bit operations on bytes -/

theorem and_high_bit {x : Nat} (h : x < 256) : x &&& 0x80 ≠ 0 ↔ 128 ≤ x := by
  have key : ∀ y : Fin 256, y.val &&& 0x80 ≠ 0 ↔ 128 ≤ y.val := by decide +kernel
  exact key ⟨x, h⟩

theorem and_high_nibble {x : Nat} (h : x < 256) : x &&& 0xF0 = x / 16 * 16 := by
  have key : ∀ y : Fin 256, y.val &&& 0xF0 = y.val / 16 * 16 := by decide +kernel
  exact key ⟨x, h⟩

theorem and_low_nibble (x : Nat) : x &&& 0x0F = x % 16 := Nat.and_two_pow_sub_one_eq_mod x 4

theorem or_shifted {a b c : Nat} (hb : b < 256) (hc : c < 256) :
    a <<< 16 ||| b <<< 8 ||| c = a * 65536 + b * 256 + c := by
  rw [Nat.lor_assoc, ← Nat.shiftLeft_add_eq_or_of_lt hc b,
    ← Nat.shiftLeft_add_eq_or_of_lt (by rw [Nat.shiftLeft_eq]; omega) a, Nat.shiftLeft_eq,
    Nat.shiftLeft_eq]
  omega

theorem and_sign_bit {x : Int} (h : 0 ≤ x ∧ x < 65536) : x.toNat &&& 0x8000 ≠ 0 ↔ 0x8000 ≤ x := by
  rw [show (0x8000 : Nat) = 2 ^ 15 from rfl, Nat.and_two_pow, Nat.testBit_eq_decide_div_mod_eq]
  have hbit : x.toNat / 2 ^ 15 % 2 = 1 ↔ 0x8000 ≤ x := by omega
  simp [← hbit]

/-! ## One event -/

section Agreement

variable (mallocOk : Nat → Bool) {tend : Int}

/-- What the event loop of `midi_stream_open` has of an iteration of the other. -/
def forgetBreak (r : Bool × TrackState) : Option TrackState × EventBuf :=
  (if r.1 then some r.2 else none, r.2.buf)

theorem byteAt_lt {i : Int} : Returns (byteAt d i) (· < 256) := by
  intro b hb
  by_cases h : 0 ≤ i ∧ i < d.length
  · exact (byteAt_inside h).returns b hb
  · rw [byteAt_outside h] at hb
    cases hb

/-- The two copies treat a channel message alike. -/
theorem midiRenderMessage_eq {status : Nat} (hstatus : status < 256) (t : TrackState) :
    midiRenderMessage mallocOk d tend status t = midiChannelMessage mallocOk d tend status t := by
  unfold midiRenderMessage midiChannelMessage
  rw [and_high_nibble hstatus, and_low_nibble]
  generalize status / 16 * 16 = type
  dsimp only
  cases hd1 : dataByte d tend t.pos with
  | error f => split <;> rfl
  | ok r₁ =>
    simp only [ok_bind]
    split
    · split <;> rfl
    · cases hd2 : dataByte d tend r₁.2 with
      | error f => rfl
      | ok r₂ =>
        rw [ok_bind, ok_bind]
        split_ifs <;> rfl

/-- **Behind the status byte**: a tempo change is read alike, and so is every other event. -/
theorem midiRenderStatus_eq {status : Nat} (hstatus : status < 256) (t : TrackState) :
    forgetBreak <$> midiRenderStatus mallocOk d tend status t = (do
      if status = 0xFF then
        if tend ≤ t.pos then return (none, t.buf)
        let t ← midiMetaEvent mallocOk d tend t
        return (some t, t.buf)
      if status = 0xF0 ∨ status = 0xF7 then
        let (slen, pos) ← midiVlq d tend t.pos
        let t := { t with pos := i32 (pos + slen) }
        return (some t, t.buf)
      let t ← midiChannelMessage mallocOk d tend status t
      return (some t, t.buf)) := by
  unfold midiRenderStatus
  split
  · split
    · rfl
    · unfold midiMetaEvent
      simp only [map_bind, bind_assoc]
      refine bind_congr fun mtype => bind_congr fun vlq => ?_
      split
      · simp only [map_bind, bind_assoc]
        refine bind_congr fun b0 => ?_
        cases hb1 : byteAt d (vlq.2 + 1) with
        | error f => rfl
        | ok b1 =>
          cases hb2 : byteAt d (vlq.2 + 2) with
          | error f => rfl
          | ok b2 =>
            simp only [ok_bind, pure_eq_ok]
            rw [or_shifted (byteAt_lt _ hb1) (byteAt_lt _ hb2)]
            push_cast
            rfl
      · rfl
  · split
    · simp only [map_bind]
      exact bind_congr fun vlq => rfl
    · rw [midiRenderMessage_eq mallocOk hstatus]
      simp only [map_bind]
      exact bind_congr fun t => rfl

/-- **One event**: the two loops do the same, as long as the running status is a byte. -/
theorem midiTrackBody_eq {t : TrackState} (hrunning : t.running < 256) :
    forgetBreak <$> midiRenderTrackBody mallocOk d tend t = midiTrackBody mallocOk d tend t := by
  unfold midiTrackBody midiRenderTrackBody
  simp only [map_bind]
  refine bind_congr fun vlq => ?_
  by_cases hend : tend ≤ vlq.2
  · rw [if_pos hend, if_pos hend]
    rfl
  · rw [if_neg hend, if_neg hend]
    simp only [map_bind]
    cases hb : byteAt d vlq.2 with
    | error f => rfl
    | ok b =>
      have hbyte : b < 256 := byteAt_lt _ hb
      simp only [ok_bind, and_high_bit hbyte]
      by_cases hhigh : 128 ≤ b
      · rw [if_pos hhigh, if_pos hhigh]
        exact midiRenderStatus_eq mallocOk hbyte _
      · rw [if_neg hhigh, if_neg hhigh]
        exact midiRenderStatus_eq mallocOk hrunning _

/-- The running status stays a byte. -/
theorem midiRenderTrackBody_running {t : TrackState} (hrunning : t.running < 256) :
    Returns (midiRenderTrackBody mallocOk d tend t) (·.2.running < 256) := by
  have hmessage : ∀ status t, TrackState.running t < 256 →
      Returns (midiRenderMessage mallocOk d tend status t) (·.running < 256) := by
    intro status t ht
    unfold midiRenderMessage
    dsimp only
    split
    · exact .bind_any fun _ => .pure ht
    · exact .bind_any fun _ => .bind_any fun _ => .pure ht
  have hrest : ∀ status t, TrackState.running t < 256 →
      Returns (midiRenderStatus mallocOk d tend status t) (·.2.running < 256) := by
    intro status t ht
    unfold midiRenderStatus
    split
    · split
      · exact .pure ht
      · refine .bind_any fun _ => .bind_any fun vlq => ?_
        dsimp only
        split
        · exact .bind_any fun _ => .bind_any fun _ => .bind_any fun _ => .pure ht
        · exact .pure ht
    · split
      · exact .bind_any fun _ => .pure ht
      · exact .bind (hmessage status t ht) fun _ h => .pure h
  unfold midiRenderTrackBody
  refine .bind_any fun vlq => ?_
  dsimp only
  split
  · exact .pure hrunning
  · refine .bind byteAt_lt fun b hb => ?_
    split
    · exact hrest _ _ hb
    · exact hrest _ _ hrunning

/-! ## The whole file -/

/-- **One track.** -/
theorem midiRenderTrackLoop_eq {fuel : Nat} : ∀ {t : TrackState}, t.running < 256 →
    midiRenderTrackLoop mallocOk d tend fuel t = midiTrackLoop mallocOk d tend fuel t := by
  induction fuel with
  | zero => exact fun _ => rfl
  | succ fuel ih =>
    intro t hrunning
    rw [midiRenderTrackLoop, midiTrackLoop, ← midiTrackBody_eq mallocOk hrunning]
    split
    · have hnext : Returns (midiRenderTrackBody mallocOk d tend t) (·.2.running < 256) :=
        midiRenderTrackBody_running mallocOk hrunning
      cases hbody : midiRenderTrackBody mallocOk d tend t with
      | error f => rfl
      | ok r =>
        obtain ⟨again, t'⟩ := r
        cases again with
        | false => rfl
        | true => exact ih (hnext _ hbody)
    · rfl

theorem midiRenderTracks_eq (fuel : Nat) {ntrks : Nat} : ∀ {pos : Int} {buf : EventBuf},
    midiRenderTracks mallocOk d fuel ntrks pos buf = midiTracks mallocOk fuel d ntrks pos buf := by
  induction ntrks with
  | zero => exact rfl
  | succ ntrks ih =>
    intro pos buf
    rw [midiRenderTracks, midiTracks]
    split
    · refine bind_congr fun magic => ?_
      split
      · rfl
      · refine bind_congr fun tlen => ?_
        dsimp only
        rw [midiRenderTrackLoop_eq mallocOk (show (0 : Nat) < 256 by decide)]
        exact bind_congr fun buf => ih
    · rfl

theorem be16At_range {i : Int} : Returns (be16At d i) fun x => 0 ≤ x ∧ x < 65536 := by
  refine .bind byteAt_lt fun b0 h0 => .bind byteAt_lt fun b1 h1 => .pure ?_
  omega

/-- **The two parsers agree on every file**, with every allocator. -/
theorem midiRenderParse_eq (fuel heap : Nat) :
    midiRenderParse mallocOk d fuel heap = midiParse mallocOk fuel d heap := by
  unfold midiRenderParse midiParse
  split
  · rfl
  refine bind_congr fun magic => ?_
  split
  · rfl
  refine bind_congr fun hlen => ?_
  split
  · rfl
  refine bind_congr fun ntrks => ?_
  cases hdivision : be16At d 12 with
  | error f => rfl
  | ok division =>
    simp only [ok_bind, and_sign_bit (be16At_range _ hdivision), midiRenderTracks_eq, Nat.le_zero,
      List.length_eq_zero_iff]

end Agreement

/-! ## The functions around the parsers -/

/-- The player has the bytes `d`. -/
def Cell.withRaw (c : Cell σ) (d : List UInt8) : Cell σ := { c with p := { c.p with raw := some d } }

/-- The event loop keeps events and division. -/
theorem renderLoop_keeps (env : Env σ) (channels pcmFrames : Int) : ∀ (fuel : Nat) (r : RenderState σ),
    (renderLoop env channels pcmFrames fuel r).ms.ev = r.ms.ev ∧
      (renderLoop env channels pcmFrames fuel r).ms.division = r.ms.division
  | 0, _ => ⟨rfl, rfl⟩
  | fuel + 1, r => by
    rw [renderLoop]
    split
    · exact ⟨rfl, rfl⟩
    · rename_i e _
      split
      · have hstep := renderStep_takes env channels pcmFrames e r
        obtain ⟨hev, hdivision⟩ := renderLoop_keeps env channels pcmFrames fuel
          (renderStep env channels pcmFrames e r)
        exact ⟨hev.trans hstep.ev, hdivision.trans hstep.division⟩
      · exact ⟨rfl, rfl⟩

theorem renderPrefix_keeps (env : Env σ) (ms : MidiStream) {c : Cell σ} (hms : c.p.midi = some ms) :
    ∃ ms', (renderPrefix env ms c).p.midi = some ms' ∧ ms'.ev = ms.ev ∧ ms'.division = ms.division := by
  have hrender : ∀ frames, ∃ ms', (midiStreamRender env frames c).1.p.midi = some ms' ∧
      ms'.ev = ms.ev ∧ ms'.division = ms.division := by
    intro frames
    rw [midiStreamRender_midi env frames hms]
    cases renderTarget env frames c with
    | none => exact ⟨ms, rfl, rfl, rfl⟩
    | some want =>
      obtain ⟨hev, hdivision⟩ := renderLoop_keeps env c.p.channels want ms.ev.length
        (renderStart c ms want)
      exact ⟨_, rfl, hev, hdivision⟩
  unfold renderPrefix
  dsimp only
  split_ifs
  all_goals first
    | exact hrender _
    | exact ⟨ms, hms, rfl, rfl⟩

theorem midiFluidSynth_p (env : Env σ) (c : Cell σ) : (midiFluidSynth env c).p = c.p := by
  unfold midiFluidSynth
  split <;> rfl

/-- **The stream of `midi_stream_open` holds what its parser extracts.** -/
theorem midiStreamOpen_extracts (env : Env σ) (c : Cell σ) {c' : Cell σ}
    (h : midiStreamOpen env (c.withRaw d) = .ok (c', true)) :
    ∃ ev division heap ms, midiStreamOpenEvents env d c.heap = .ok (some (ev, division), heap) ∧
      c'.p.midi = some ms ∧ ms.ev = ev ∧ ms.division = division := by
  unfold midiStreamOpen at h
  dsimp only [Cell.withRaw] at h
  obtain ⟨⟨parsed, heap⟩, hparse, h⟩ := ok_of_bind h
  rw [midiStreamOpenEvents, hparse, ok_bind]
  cases parsed with
  | none => cases h
  | some p =>
    obtain ⟨ev, division⟩ := p
    dsimp only at h
    split at h
    · cases h
    · obtain ⟨rfl, -⟩ := Prod.mk.inj (Except.ok.inj h)
      let ms : MidiStream :=
        { ev := env.qsort ev, division := division, totalTicks := i32 (maxTick (env.qsort ev)) }
      let c₁ := Cell.withStream { c.withRaw d with heap := heap + 1 } ms
      have hms : (midiFluidSynth env c₁).p.midi = some ms := by rw [midiFluidSynth_p]; rfl
      obtain ⟨ms', hms', hev, hdivision⟩ := renderPrefix_keeps env ms hms
      exact ⟨_, _, heap, ms', rfl, hms', hev, hdivision⟩

/-- **The copies of the parser agree**: for every file the events of `midi_render`, in the order after
sorting, and the division are those of `midi_stream_open`, whose stream holds them; and a file that
one parser rejects both functions reject. -/
theorem midiParsers_agree (env : Env σ) (c : Cell σ) (d : List UInt8) :
    midiRenderEvents env d c.heap = midiStreamOpenEvents env d c.heap ∧
      (∀ c', midiStreamOpen env (c.withRaw d) = .ok (c', true) →
        ∃ ev division heap ms, midiRenderEvents env d c.heap = .ok (some (ev, division), heap) ∧
          c'.p.midi = some ms ∧ ms.ev = ev ∧ ms.division = division) ∧
      ∀ heap, midiRenderEvents env d c.heap = .ok (none, heap) →
        midiStreamOpen env (c.withRaw d) = .ok ({ c.withRaw d with heap := heap }, false) ∧
          midiRender env (c.withRaw d) = .ok ({ c.withRaw d with heap := heap }, false) := by
  have hevents : midiRenderEvents env d c.heap = midiStreamOpenEvents env d c.heap := by
    unfold midiRenderEvents midiStreamOpenEvents
    rw [midiRenderParse_eq]
  refine ⟨hevents, fun c' h => ?_, fun heap h => ?_⟩
  · rw [hevents]
    exact midiStreamOpen_extracts env c h
  · rw [hevents] at h
    obtain ⟨⟨parsed, heap'⟩, hparse, h⟩ := ok_of_bind h
    obtain ⟨hnone, rfl⟩ := Prod.mk.inj (Except.ok.inj h)
    obtain rfl : parsed = none := Option.map_eq_none_iff.1 hnone
    unfold midiStreamOpen midiRender
    dsimp only [Cell.withRaw]
    rw [hparse]
    exact ⟨rfl, rfl⟩

/-- A file without a header is rejected by both. -/
theorem midiParsers_agree_short :
    midiStreamOpen plainEnv (emptyCell.withRaw []) = .ok (emptyCell.withRaw [], false) ∧
      midiRender plainEnv (emptyCell.withRaw []) = .ok (emptyCell.withRaw [], false) :=
  (midiParsers_agree plainEnv emptyCell []).2.2 0 rfl

end FroggyKVM.Audio
