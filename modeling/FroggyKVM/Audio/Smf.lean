/-
# FroggyKVM.Audio.Smf — the Standard MIDI File parser of `platform_gb300/audio.c`.

`midi_stream_open` and `midi_render` contain the same parser; it is `midiParse` here.  Positions
and lengths are C `int`s, so a hostile length can wrap negative and move the position backwards.
A byte read outside the buffer is the fault `readOutside`, and the two loops whose progress the
code does not guarantee take a fuel argument, whose exhaustion is the fault `outOfFuel`.
-/
import FroggyKVM.Audio.Synth
import FroggyKVM.Lib.Returns

namespace FroggyKVM.Audio

/-! ## Faults, bytes and allocation -/

inductive Fault where
  | readOutside
  | writeOutside
  | outOfFuel
  deriving DecidableEq, Repr

/-- `d[i]` of a buffer of `d.length` bytes. -/
def byteAt (d : List UInt8) (i : Int) : Except Fault Nat :=
  if 0 ≤ i then
    match d[i.toNat]? with
    | some b => .ok b.toNat
    | none => .error .readOutside
  else .error .readOutside

/-- The first `k` bytes at `i`. -/
def bytesAt (d : List UInt8) (i : Int) : Nat → Except Fault (List Nat)
  | 0 => .ok []
  | k + 1 => do
    let b ← byteAt d i
    let bs ← bytesAt d (i + 1) k
    return b :: bs

section Reading

variable {d : List UInt8}

theorem byteAt_inside {i : Int} (h : 0 ≤ i ∧ i < d.length) : Succeeds (byteAt d i) (· < 256) := by
  have hlt : i.toNat < d.length := by omega
  refine ⟨(d[i.toNat]).toNat, ?_, UInt8.toNat_lt _⟩
  rw [byteAt, if_pos h.1, List.getElem?_eq_getElem hlt]

theorem byteAt_outside {i : Int} (h : ¬ (0 ≤ i ∧ i < d.length)) :
    byteAt d i = .error .readOutside := by
  unfold byteAt
  split
  · rw [List.getElem?_eq_none (by omega)]
  · rfl

theorem bytesAt_inside {k : Nat} : ∀ {i : Int}, 0 ≤ i → i + k ≤ d.length →
    Succeeds (bytesAt d i k) fun _ => True := by
  induction k with
  | zero => exact fun _ _ => .ok trivial
  | succ k ih =>
    intro i h₀ h
    refine .bind (byteAt_inside ⟨h₀, by omega⟩) fun b _ => ?_
    exact .bind (ih (by omega) (by omega)) fun bs _ => .pure trivial

end Reading

/-- `(d[i] << 24) | (d[i+1] << 16) | (d[i+2] << 8) | d[i+3]`, an `int`. -/
def be32At (d : List UInt8) (i : Int) : Except Fault Int := do
  let b0 ← byteAt d i
  let b1 ← byteAt d (i + 1)
  let b2 ← byteAt d (i + 2)
  let b3 ← byteAt d (i + 3)
  return i32 (b0 * 16777216 + b1 * 65536 + b2 * 256 + b3)

/-- `(d[i] << 8) | d[i+1]`. -/
def be16At (d : List UInt8) (i : Int) : Except Fault Int := do
  let b0 ← byteAt d i
  let b1 ← byteAt d (i + 1)
  return b0 * 256 + b1

/-! ## Events -/

/-- `midi_event_t`. -/
structure MidiEvent where
  tick : Int
  /-- 0x80 note off, 0x90 note on, 0xB0 control change, 0xC0 program, 0xFF meta -/
  type : Nat
  ch : Nat
  d1 : Nat
  d2 : Nat
  value : Int
  deriving DecidableEq, Repr

def MIDI_MAX_EVENTS : Nat := 65536

/-- The growing event array: its events, its capacity, and the number of allocations made so far
(`mallocOk k` says whether allocation number `k` succeeds). -/
structure EventBuf where
  ev : List MidiEvent := []
  evcap : Nat := 4096
  heap : Nat

/-- `midi_add_event`: a full array, or one that cannot grow, drops the event. -/
def midiAddEvent (mallocOk : Nat → Bool) (b : EventBuf) (e : MidiEvent) : EventBuf :=
  if b.evcap ≤ b.ev.length then
    let newcap := if b.evcap < MIDI_MAX_EVENTS then b.evcap * 2 else b.evcap
    let newcap := if newcap > MIDI_MAX_EVENTS then MIDI_MAX_EVENTS else newcap
    if newcap = b.evcap then b
    else if mallocOk b.heap then
      { ev := b.ev ++ [e], evcap := newcap, heap := b.heap + 1 }
    else { b with heap := b.heap + 1 }
  else { b with ev := b.ev ++ [e] }

/-! ## Parsing -/

/-- `midi_vlq`: the value and the position after it; `fuel` bounds `fin - pos`. -/
def midiVlqLoop (d : List UInt8) (fin : Int) : Nat → Int → Int → Except Fault (Int × Int)
  | 0, _, _ => .error .outOfFuel
  | fuel + 1, value, pos =>
    if pos < fin then do
      let b ← byteAt d pos
      let value := i32 (value * 128 + (b % 128 : Nat))
      if b < 128 then return (value, pos + 1)
      midiVlqLoop d fin fuel value (pos + 1)
    else .ok (value, pos)

def midiVlq (d : List UInt8) (fin pos : Int) : Except Fault (Int × Int) :=
  midiVlqLoop d fin ((fin - pos).toNat + 1) 0 pos

/-- What the event loop of one track carries. -/
structure TrackState where
  pos : Int
  tick : Int := 0
  running : Nat := 0
  buf : EventBuf

/-- Two data bytes; a byte past the end of the track reads as 0. -/
def dataByte (d : List UInt8) (tend pos : Int) : Except Fault (Nat × Int) :=
  if pos < tend then do
    let b ← byteAt d pos
    return (b, pos + 1)
  else .ok (0, pos)

/-- A channel message with the (running) status `status`. -/
def midiChannelMessage (mallocOk : Nat → Bool) (d : List UInt8) (tend : Int) (status : Nat)
    (t : TrackState) : Except Fault TrackState := do
  let type := status / 16 * 16
  let ch := status % 16
  let (d1, pos) ← dataByte d tend t.pos
  if type = 0xC0 ∨ type = 0xD0 then
    if type = 0xC0 then
      return { t with pos := pos, buf := midiAddEvent mallocOk t.buf ⟨t.tick, 0xC0, ch, d1, 0, 0⟩ }
    return { t with pos := pos }
  let (d2, pos) ← dataByte d tend pos
  if type = 0x90 ∧ d2 > 0 then
    return { t with pos := pos, buf := midiAddEvent mallocOk t.buf ⟨t.tick, 0x90, ch, d1, d2, 0⟩ }
  if type = 0x80 ∨ (type = 0x90 ∧ d2 = 0) then
    return { t with pos := pos, buf := midiAddEvent mallocOk t.buf ⟨t.tick, 0x80, ch, d1, 0, 0⟩ }
  if type = 0xB0 then
    return { t with pos := pos, buf := midiAddEvent mallocOk t.buf ⟨t.tick, 0xB0, ch, d1, d2, 0⟩ }
  return { t with pos := pos }

/-- A meta event: only a tempo change is kept. -/
def midiMetaEvent (mallocOk : Nat → Bool) (d : List UInt8) (tend : Int) (t : TrackState) :
    Except Fault TrackState := do
  let mtype ← byteAt d t.pos
  let (mlen, pos) ← midiVlq d tend (t.pos + 1)
  if mtype = 0x51 ∧ mlen = 3 ∧ pos + 3 ≤ tend then
    let b0 ← byteAt d pos
    let b1 ← byteAt d (pos + 1)
    let b2 ← byteAt d (pos + 2)
    let tempoVal : Int := b0 * 65536 + b1 * 256 + b2
    return { t with pos := i32 (pos + mlen),
                    buf := midiAddEvent mallocOk t.buf ⟨t.tick, 0xFF, 0, 0x51, 0, tempoVal⟩ }
  return { t with pos := i32 (pos + mlen) }

/-- The body of `while (pos < tend)`; `none` is a `break`. -/
def midiTrackBody (mallocOk : Nat → Bool) (d : List UInt8) (tend : Int) (t : TrackState) :
    Except Fault (Option TrackState × EventBuf) := do
  let (delta, pos) ← midiVlq d tend t.pos
  let t := { t with pos := pos, tick := i32 (t.tick + delta) }
  if tend ≤ t.pos then return (none, t.buf)
  let b ← byteAt d t.pos
  let (status, t) :=
    if 128 ≤ b then (b, { t with pos := t.pos + 1, running := b }) else (t.running, t)
  if status = 0xFF then
    if tend ≤ t.pos then return (none, t.buf)
    let t ← midiMetaEvent mallocOk d tend t
    return (some t, t.buf)
  if status = 0xF0 ∨ status = 0xF7 then
    let (slen, pos) ← midiVlq d tend t.pos
    let t := { t with pos := i32 (pos + slen) }
    return (some t, t.buf)
  let t ← midiChannelMessage mallocOk d tend status t
  return (some t, t.buf)

def midiTrackLoop (mallocOk : Nat → Bool) (d : List UInt8) (tend : Int) :
    Nat → TrackState → Except Fault EventBuf
  | 0, _ => .error .outOfFuel
  | fuel + 1, t =>
    if t.pos < tend then do
      match ← midiTrackBody mallocOk d tend t with
      | (some t, _) => midiTrackLoop mallocOk d tend fuel t
      | (none, buf) => return buf
    else .ok t.buf

/-- The loop over the track chunks. -/
def midiTracks (mallocOk : Nat → Bool) (fuel : Nat) (d : List UInt8) :
    Nat → Int → EventBuf → Except Fault EventBuf
  | 0, _, buf => .ok buf
  | ntrks + 1, pos, buf =>
    if pos + 8 ≤ d.length then do
      let magic ← bytesAt d pos 4
      if magic ≠ [0x4D, 0x54, 0x72, 0x6B] then return buf
      let tlen ← be32At d (pos + 4)
      let pos := pos + 8
      let tend := i32 (pos + tlen)
      let tend := if tend > d.length then (d.length : Int) else tend
      let buf ← midiTrackLoop mallocOk d tend fuel { pos := pos, buf := buf }
      midiTracks mallocOk fuel d ntrks tend buf
    else .ok buf

/-- The parser shared by `midi_stream_open` and `midi_render`: the events in file order and the
division, `none` for a file it rejects. -/
def midiParse (mallocOk : Nat → Bool) (fuel : Nat) (d : List UInt8) (heap : Nat) :
    Except Fault (Option (List MidiEvent × Int) × Nat) := do
  if d.length < 14 then return (none, heap)
  let magic ← bytesAt d 0 4
  if magic ≠ [0x4D, 0x54, 0x68, 0x64] then return (none, heap)
  let hlen ← be32At d 4
  if hlen < 6 ∨ i32 (8 + hlen) > d.length then return (none, heap)
  let ntrks ← be16At d 10
  let division ← be16At d 12
  -- PPQN only
  if division ≤ 0 ∨ 0x8000 ≤ division then return (none, heap)
  if !mallocOk heap then return (none, heap + 1)
  let buf ← midiTracks mallocOk fuel d ntrks.toNat (i32 (8 + hlen)) { heap := heap + 1 }
  if buf.ev = [] then return (none, buf.heap)
  return (some (buf.ev, division), buf.heap)

end FroggyKVM.Audio
