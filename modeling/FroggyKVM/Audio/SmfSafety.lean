/-
# FroggyKVM.Audio.SmfSafety — which MIDI files the parser reads without leaving them.

`checkParse` is the parser with its guards made explicit: every result of a 32-bit signed
computation is checked, and so is the position at the end of every iteration.  Next to it stands the
reading of a file in exact arithmetic.  **The parser keeps to the rules exactly on the files whose
lengths, quantities and ticks stay below `2 ^ 31`**: nothing else can go wrong.
-/
import FroggyKVM.Audio.Stream
import FroggyKVM.Lib.Buffer

namespace FroggyKVM.Audio

variable {σ : Type} {d : List UInt8}

/-! ## The parser under observation -/

/-- What a run must not do. -/
inductive Violation where
  | fault (f : Fault)
  | overflow
  | backwards
  deriving DecidableEq, Repr

/-- The result `x` of a 32-bit signed computation. -/
def int32 (x : Int) : Except Violation Int :=
  if -2147483648 ≤ x ∧ x < 2147483648 then .ok x else .error .overflow

/-- The position `pos'` at the end of an iteration that began at `pos`. -/
def forward (pos pos' : Int) : Except Violation Int :=
  if pos < pos' then .ok pos' else .error .backwards

def readAt (d : List UInt8) (i : Int) : Except Violation Nat := (byteAt d i).mapError .fault

/-- `be32At`: shifting the first byte by 24 overflows when its top bit is set. -/
def checkBe32 (d : List UInt8) (i : Int) : Except Violation Int := do
  let b0 ← readAt d i
  let b1 ← readAt d (i + 1)
  let b2 ← readAt d (i + 2)
  let b3 ← readAt d (i + 3)
  int32 (b0 * 16777216 + b1 * 65536 + b2 * 256 + b3)

/-- `midiVlq`. -/
def checkVlqLoop (d : List UInt8) (fin : Int) : Nat → Int → Int → Except Violation (Int × Int)
  | 0, _, _ => .error (.fault .outOfFuel)
  | fuel + 1, value, pos =>
    if pos < fin then do
      let b ← readAt d pos
      let value ← int32 (value * 128 + (b % 128 : Nat))
      if b < 128 then return (value, pos + 1)
      checkVlqLoop d fin fuel value (pos + 1)
    else .ok (value, pos)

def checkVlq (d : List UInt8) (fin pos : Int) : Except Violation (Int × Int) :=
  checkVlqLoop d fin ((fin - pos).toNat + 1) 0 pos

/-- Where the event loop of a track stands. -/
structure TrackPoint where
  pos : Int
  tick : Int := 0
  running : Nat := 0
  deriving DecidableEq, Repr

/-- `dataByte`. -/
def checkDataByte (d : List UInt8) (tend pos : Int) : Except Violation Int :=
  if pos < tend then do
    let _ ← readAt d pos
    return pos + 1
  else .ok pos

/-- `midiMetaEvent`. -/
def checkMetaEvent (d : List UInt8) (tend pos : Int) : Except Violation Int := do
  let mtype ← readAt d pos
  let (mlen, pos) ← checkVlq d tend (pos + 1)
  if mtype = 0x51 ∧ mlen = 3 ∧ pos + 3 ≤ tend then
    let _ ← readAt d pos
    let _ ← readAt d (pos + 1)
    let _ ← readAt d (pos + 2)
    int32 (pos + mlen)
  else int32 (pos + mlen)

/-- The part of `midiTrackBody` behind the status byte; `none` is a `break`. -/
def checkMessage (d : List UInt8) (tend : Int) (t : TrackPoint) :
    Except Violation (Option TrackPoint) := do
  if t.running = 0xFF then
    if tend ≤ t.pos then return none
    let pos ← checkMetaEvent d tend t.pos
    return some { t with pos }
  if t.running = 0xF0 ∨ t.running = 0xF7 then
    let len ← checkVlq d tend t.pos
    let pos ← int32 (len.2 + len.1)
    return some { t with pos }
  let pos ← checkDataByte d tend t.pos
  if t.running / 16 * 16 = 0xC0 ∨ t.running / 16 * 16 = 0xD0 then return some { t with pos }
  let pos ← checkDataByte d tend pos
  return some { t with pos }

/-- Behind the status byte `b`, if it is one. -/
def TrackPoint.afterStatus (t : TrackPoint) (b : Nat) : TrackPoint :=
  if 128 ≤ b then { t with pos := t.pos + 1, running := b } else t

/-- `midiTrackBody`. -/
def checkTrackBody (d : List UInt8) (tend : Int) (t : TrackPoint) :
    Except Violation (Option TrackPoint) := do
  let delta ← checkVlq d tend t.pos
  let tick ← int32 (t.tick + delta.1)
  if tend ≤ delta.2 then return none
  let b ← readAt d delta.2
  checkMessage d tend (TrackPoint.afterStatus { t with pos := delta.2, tick } b)

/-- `midiTrackLoop`. -/
def checkTrackLoop (d : List UInt8) (tend : Int) : Nat → TrackPoint → Except Violation Unit
  | 0, _ => .error (.fault .outOfFuel)
  | fuel + 1, t =>
    if t.pos < tend then do
      match ← checkTrackBody d tend t with
      | some t' =>
        let _ ← forward t.pos t'.pos
        checkTrackLoop d tend fuel t'
      | none => return ()
    else .ok ()

/-- `midiTracks`. -/
def checkTracks (fuel : Nat) (d : List UInt8) : Nat → Int → Except Violation Unit
  | 0, _ => .ok ()
  | ntrks + 1, start =>
    if start + 8 ≤ d.length then do
      let magic ← (bytesAt d start 4).mapError .fault
      if magic ≠ [0x4D, 0x54, 0x72, 0x6B] then return ()
      let tlen ← checkBe32 d (start + 4)
      let tend ← int32 (start + 8 + tlen)
      let tend := if tend > d.length then (d.length : Int) else tend
      checkTrackLoop d tend fuel { pos := start + 8 }
      let pos ← forward start tend
      checkTracks fuel d ntrks pos
    else .ok ()

/-- `midiParse`, for an array of events that could be allocated. -/
def checkParse (fuel : Nat) (d : List UInt8) : Except Violation Unit := do
  if d.length < 14 then return ()
  let magic ← (bytesAt d 0 4).mapError .fault
  if magic ≠ [0x4D, 0x54, 0x68, 0x64] then return ()
  let hlen ← checkBe32 d 4
  if hlen < 6 then return ()
  let pos ← int32 (8 + hlen)
  if pos > d.length then return ()
  let ntrks ← (be16At d 10).mapError .fault
  let division ← (be16At d 12).mapError .fault
  if division ≤ 0 ∨ 0x8000 ≤ division then return ()
  checkTracks fuel d ntrks.toNat pos

/-- The parser ends, reads inside the buffer, moves forward in every iteration and overflows no
`int`; so the functions that contain it return. -/
def SmfSafe (d : List UInt8) : Prop :=
  checkParse (d.length + 1) d = .ok () ∧
  ∀ {σ : Type} (env : Env σ) (c : Cell σ), c.p.raw = some d → d.length < env.fuel →
    (∃ r, midiStreamOpen env c = .ok r) ∧ ∃ r, midiRender env c = .ok r

/-! ## The file in exact arithmetic -/

/-- The byte at `i`. -/
def byte (d : List UInt8) (i : Int) : Nat := (d.getD i.toNat 0).toNat

/-- The big-endian length at `i`. -/
def lengthAt (d : List UInt8) (i : Int) : Int :=
  byte d i * 16777216 + byte d (i + 1) * 65536 + byte d (i + 2) * 256 + byte d (i + 3)

/-- A variable-length quantity that ends before `fin`: its value, and the position behind it. -/
def quantityLoop (d : List UInt8) (fin : Int) : Nat → Int → Int → Int × Int
  | 0, value, pos => (value, pos)
  | fuel + 1, value, pos =>
    if pos < fin then
      let value := value * 128 + (byte d pos % 128 : Nat)
      if byte d pos < 128 then (value, pos + 1) else quantityLoop d fin fuel value (pos + 1)
    else (value, pos)

def quantity (d : List UInt8) (fin pos : Int) : Int × Int :=
  quantityLoop d fin (fin - pos).toNat 0 pos

/-- An event of a track: the numbers it declares or leads to, and where the next event is, unless
the track ends inside this one. -/
structure EventLayout where
  numbers : List Int
  next : Option TrackPoint

/-- The part of an event behind the status byte. -/
def messageLayout (d : List UInt8) (tend : Int) (t : TrackPoint) : EventLayout :=
  if t.running = 0xFF then
    if tend ≤ t.pos then ⟨[], none⟩ else
    let len := quantity d tend (t.pos + 1)
    ⟨[len.1, len.2 + len.1], some { t with pos := len.2 + len.1 }⟩
  else if t.running = 0xF0 ∨ t.running = 0xF7 then
    let len := quantity d tend t.pos
    ⟨[len.1, len.2 + len.1], some { t with pos := len.2 + len.1 }⟩
  else if t.running / 16 * 16 = 0xC0 ∨ t.running / 16 * 16 = 0xD0 then
    ⟨[], some { t with pos := min tend (t.pos + 1) }⟩
  else ⟨[], some { t with pos := min tend (t.pos + 2) }⟩

/-- The event at `t`. -/
def eventLayout (d : List UInt8) (tend : Int) (t : TrackPoint) : EventLayout :=
  let delta := quantity d tend t.pos
  let tick := t.tick + delta.1
  if tend ≤ delta.2 then ⟨[delta.1, tick], none⟩ else
  let message := messageLayout d tend
    (TrackPoint.afterStatus { t with pos := delta.2, tick } (byte d delta.2))
  ⟨delta.1 :: tick :: message.numbers, message.next⟩

/-- The events of the track from `start` to `tend`. -/
inductive EventAt (d : List UInt8) (start tend : Int) : TrackPoint → Prop
  | first : EventAt d start tend { pos := start }
  | next {t t' : TrackPoint} : EventAt d start tend t → t.pos < tend →
      (eventLayout d tend t).next = some t' → EventAt d start tend t'

/-- Every number of the track is an `int`. -/
def TrackFits (d : List UInt8) (start tend : Int) : Prop :=
  ∀ t, EventAt d start tend t → t.pos < tend → ∀ x ∈ (eventLayout d tend t).numbers, x < 2147483648

/-- There is a track chunk at `pos`. -/
def IsTrack (d : List UInt8) (pos : Int) : Prop :=
  pos + 8 ≤ d.length ∧ bytesAt d pos 4 = .ok [0x4D, 0x54, 0x72, 0x6B]

/-- The end of the track chunk at `pos`, cut off at the end of the file. -/
def trackEnd (d : List UInt8) (pos : Int) : Int := min (pos + 8 + lengthAt d (pos + 4)) d.length

/-- The place of track chunk number `i`, where the first one is at `first`. -/
inductive TrackAt (d : List UInt8) (first : Int) : Nat → Int → Prop
  | first : TrackAt d first 0 first
  | next {i : Nat} {pos : Int} : TrackAt d first i pos → IsTrack d pos →
      TrackAt d first (i + 1) (trackEnd d pos)

/-- What the tracks from `first` on have to meet. -/
def TracksFit (d : List UInt8) (first ntrks : Int) : Prop :=
  ∀ (i : Nat) (pos : Int), i < ntrks → TrackAt d first i pos → IsTrack d pos →
    pos + 8 + lengthAt d (pos + 4) < 2147483648 ∧ TrackFits d (pos + 8) (trackEnd d pos)

/-- The number at `i`. -/
def halfAt (d : List UInt8) (i : Int) : Int := byte d i * 256 + byte d (i + 1)

/-- The lengths and numbers of a MIDI file stay below `2 ^ 31`. -/
def SmfFits (d : List UInt8) : Prop :=
  14 ≤ d.length → bytesAt d 0 4 = .ok [0x4D, 0x54, 0x68, 0x64] →
  lengthAt d 4 < 2147483648 ∧ (6 ≤ lengthAt d 4 → 8 + lengthAt d 4 < 2147483648 ∧
    (8 + lengthAt d 4 ≤ d.length → 0 < halfAt d 12 → halfAt d 12 < 0x8000 →
      TracksFit d (8 + lengthAt d 4) (halfAt d 10)))

/-! ## Reading -/

theorem byteAt_eq {i : Int} (h : 0 ≤ i ∧ i < d.length) : byteAt d i = .ok (byte d i) := by
  have hlt : i.toNat < d.length := by omega
  rw [byteAt, if_pos h.1, List.getElem?_eq_getElem hlt, byte, List.getD_eq_getElem?_getD,
    List.getElem?_eq_getElem hlt]
  rfl

theorem readAt_eq {i : Int} (h : 0 ≤ i ∧ i < d.length) : readAt d i = .ok (byte d i) := by
  rw [readAt, byteAt_eq h]
  rfl

theorem int32_eq {x : Int} (h : 0 ≤ x) :
    int32 x = if x < 2147483648 then .ok x else .error .overflow := by
  unfold int32
  split <;> split <;> first | rfl | omega

theorem int32_ok {x y : Int} (h : int32 x = .ok y) : y = x ∧ i32 x = x := by
  unfold int32 at h
  split at h
  · rename_i hfit
    exact ⟨(Except.ok.inj h).symm, i32_of_range hfit⟩
  · cases h

theorem forward_ok {pos pos' x : Int} (h : forward pos pos' = .ok x) : x = pos' := by
  unfold forward at h
  split at h
  · exact (Except.ok.inj h).symm
  · cases h

theorem lengthAt_nonneg (d : List UInt8) (i : Int) : 0 ≤ lengthAt d i := by
  unfold lengthAt
  omega

theorem checkBe32_eq {i : Int} (h₀ : 0 ≤ i) (h : i + 4 ≤ d.length) :
    checkBe32 d i = if lengthAt d i < 2147483648 then .ok (lengthAt d i)
      else .error .overflow := by
  unfold checkBe32
  rw [readAt_eq ⟨h₀, by omega⟩, readAt_eq ⟨by omega, by omega⟩, readAt_eq ⟨by omega, by omega⟩,
    readAt_eq ⟨by omega, by omega⟩, ok_bind, ok_bind, ok_bind, ok_bind, int32_eq (by omega)]
  unfold lengthAt
  rfl

/-! ## Quantities -/

/-- A quantity grows with every byte. -/
theorem le_quantityLoop (d : List UInt8) (fin : Int) {k : Nat} : ∀ {value pos : Int}, 0 ≤ value →
    value ≤ (quantityLoop d fin k value pos).1 := by
  induction k with
  | zero => exact fun _ => le_refl _
  | succ k ih =>
    intro value pos h₀
    unfold quantityLoop
    split
    · dsimp only
      split
      · dsimp only
        omega
      · exact le_trans (by omega) (ih (by omega))
    · exact le_refl _

theorem quantityLoop_range (d : List UInt8) (fin : Int) {k : Nat} : ∀ {value pos : Int},
    pos ≤ fin → pos ≤ (quantityLoop d fin k value pos).2 ∧
      (quantityLoop d fin k value pos).2 ≤ fin := by
  induction k with
  | zero => exact fun h => ⟨le_refl _, h⟩
  | succ k ih =>
    intro value pos h
    unfold quantityLoop
    split
    · dsimp only
      split
      · dsimp only
        omega
      · have := @ih (value * 128 + (byte d pos % 128 : Nat)) (pos + 1) (by omega)
        omega
    · exact ⟨le_refl _, h⟩

theorem quantity_nonneg (d : List UInt8) (fin pos : Int) : 0 ≤ (quantity d fin pos).1 :=
  le_quantityLoop d fin (le_refl 0)

theorem quantity_range (d : List UInt8) {fin pos : Int} (h : pos ≤ fin) :
    pos ≤ (quantity d fin pos).2 ∧ (quantity d fin pos).2 ≤ fin :=
  quantityLoop_range d fin h

/-- A quantity has at least one byte. -/
theorem lt_quantity (d : List UInt8) {fin pos : Int} (h : pos < fin) :
    pos < (quantity d fin pos).2 := by
  unfold quantity
  obtain ⟨k, hk⟩ : ∃ k, (fin - pos).toNat = k + 1 := ⟨(fin - pos).toNat - 1, by omega⟩
  rw [hk, quantityLoop, if_pos h]
  dsimp only
  split
  · dsimp only
    omega
  · have := @quantityLoop_range d fin k (0 * 128 + (byte d pos % 128 : Nat)) (pos + 1)
      (by omega)
    omega

theorem checkVlqLoop_eq {fin : Int} (hfin : fin ≤ d.length) {k : Nat} : ∀ {value pos : Int},
    0 ≤ value → value < 2147483648 → 0 ≤ pos → (fin - pos).toNat = k →
    checkVlqLoop d fin (k + 1) value pos =
      if (quantityLoop d fin k value pos).1 < 2147483648 then .ok (quantityLoop d fin k value pos)
      else .error .overflow := by
  induction k with
  | zero =>
    intro value pos h₀ hlt hpos hk
    rw [checkVlqLoop, if_neg (by omega), quantityLoop, if_pos hlt]
  | succ k ih =>
    intro value pos h₀ hlt hpos hk
    have hin : pos < fin := by omega
    rw [checkVlqLoop, if_pos hin, quantityLoop, if_pos hin, readAt_eq ⟨hpos, by omega⟩]
    change (int32 _ >>= _) = _
    rw [int32_eq (by omega)]
    by_cases hfit : value * 128 + (byte d pos % 128 : Nat) < 2147483648
    · rw [if_pos hfit]
      change (if byte d pos < 128 then _ else _) = _
      split
      · dsimp only
        rfl
      · exact ih (by omega) hfit (by omega) (by omega)
    · -- the value only grows from here
      rw [if_neg hfit, if_neg]
      · rfl
      · dsimp only
        split
        · exact hfit
        · have := @le_quantityLoop d fin k _ (pos + 1)
            (show 0 ≤ value * 128 + (byte d pos % 128 : Nat) by omega)
          omega

/-- **A quantity is read, or overflows.** -/
theorem checkVlq_eq {fin pos : Int} (hfin : fin ≤ d.length) (hpos : 0 ≤ pos) :
    checkVlq d fin pos = if (quantity d fin pos).1 < 2147483648 then .ok (quantity d fin pos)
      else .error .overflow :=
  checkVlqLoop_eq hfin (le_refl 0) (by omega) hpos rfl

/-! ## One event -/

theorem checkDataByte_eq {tend pos : Int} (htend : tend ≤ d.length) (hpos : 0 ≤ pos)
    (hle : pos ≤ tend) : checkDataByte d tend pos = .ok (min tend (pos + 1)) := by
  unfold checkDataByte
  split
  · rw [readAt_eq ⟨hpos, by omega⟩, ok_bind, min_eq_right (by omega)]
    rfl
  · rw [min_eq_left (by omega), show pos = tend by omega]

/-- A length is read and added to the position behind it, or something overflows. -/
theorem skip_eq {tend pos : Int} (htend : tend ≤ d.length) (hpos : 0 ≤ pos) (hle : pos ≤ tend)
    {α : Type} (f : Int → α) :
    (checkVlq d tend pos >>= fun len => int32 (len.2 + len.1) >>= fun pos' => .ok (f pos')) =
      if (quantity d tend pos).1 < 2147483648 ∧
          (quantity d tend pos).2 + (quantity d tend pos).1 < 2147483648 then
        .ok (f ((quantity d tend pos).2 + (quantity d tend pos).1))
      else .error .overflow := by
  have hnonneg := quantity_nonneg d tend pos
  have hrange := quantity_range d hle
  rw [checkVlq_eq htend hpos]
  by_cases hlen : (quantity d tend pos).1 < 2147483648
  · rw [if_pos hlen, ok_bind, int32_eq (by omega)]
    by_cases hend : (quantity d tend pos).2 + (quantity d tend pos).1 < 2147483648
    · rw [if_pos hend, if_pos ⟨hlen, hend⟩, ok_bind]
    · rw [if_neg hend, if_neg fun h => hend h.2]
      rfl
  · rw [if_neg hlen, if_neg fun h => hlen h.1]
    rfl

theorem checkMetaEvent_eq {tend pos : Int} (htend : tend ≤ d.length) (hpos : 0 ≤ pos)
    (hlt : pos < tend) {α : Type} (f : Int → α) :
    (checkMetaEvent d tend pos >>= fun pos' => .ok (f pos')) =
      if (quantity d tend (pos + 1)).1 < 2147483648 ∧
          (quantity d tend (pos + 1)).2 + (quantity d tend (pos + 1)).1 < 2147483648 then
        .ok (f ((quantity d tend (pos + 1)).2 + (quantity d tend (pos + 1)).1))
      else .error .overflow := by
  rw [← skip_eq htend (by omega) (by omega) f]
  unfold checkMetaEvent
  rw [readAt_eq ⟨hpos, by omega⟩, ok_bind, bind_assoc, checkVlq_eq htend (by omega)]
  split
  · rw [ok_bind, ok_bind]
    dsimp only
    have hrange := quantity_range d (show pos + 1 ≤ tend by omega)
    split
    · -- the bytes of a tempo are in the track
      rename_i htempo
      rw [readAt_eq ⟨by omega, by omega⟩, ok_bind, readAt_eq ⟨by omega, by omega⟩, ok_bind,
        readAt_eq ⟨by omega, by omega⟩, ok_bind]
    · rfl
  · rfl

theorem checkMessage_eq {tend : Int} {t : TrackPoint} (htend : tend ≤ d.length) (hpos : 0 ≤ t.pos)
    (hle : t.pos ≤ tend) :
    checkMessage d tend t =
      if ∀ x ∈ (messageLayout d tend t).numbers, x < 2147483648 then
        .ok (messageLayout d tend t).next
      else .error .overflow := by
  unfold checkMessage messageLayout
  by_cases hmeta : t.running = 0xFF
  · simp only [if_pos hmeta]
    by_cases hend : tend ≤ t.pos
    · simp only [if_pos hend, List.not_mem_nil, false_implies, implies_true, if_true]
      rfl
    · simp only [if_neg hend, List.forall_mem_cons, List.not_mem_nil, false_implies, implies_true,
        and_true]
      exact checkMetaEvent_eq htend hpos (by omega) fun pos => some { t with pos }
  simp only [if_neg hmeta]
  by_cases hsysex : t.running = 0xF0 ∨ t.running = 0xF7
  · simp only [if_pos hsysex, List.forall_mem_cons, List.not_mem_nil, false_implies, implies_true,
      and_true]
    exact skip_eq htend hpos hle fun pos => some { t with pos }
  simp only [if_neg hsysex, checkDataByte_eq htend hpos hle, ok_bind]
  by_cases hone : t.running / 16 * 16 = 0xC0 ∨ t.running / 16 * 16 = 0xD0
  · simp only [if_pos hone, List.not_mem_nil, false_implies, implies_true, if_true]
    rfl
  · simp only [if_neg hone, checkDataByte_eq htend (show 0 ≤ min tend (t.pos + 1) by omega)
      (by omega), ok_bind, List.not_mem_nil, false_implies, implies_true, if_true]
    rw [show min tend (min tend (t.pos + 1) + 1) = min tend (t.pos + 2) by omega]
    rfl

theorem TrackPoint.afterStatus_pos (t : TrackPoint) (b : Nat) :
    t.pos ≤ (t.afterStatus b).pos ∧ (t.afterStatus b).pos ≤ t.pos + 1 ∧
      (t.afterStatus b).tick = t.tick := by
  unfold TrackPoint.afterStatus
  split
  · exact ⟨(Int.lt_succ _).le, le_refl _, rfl⟩
  · exact ⟨le_refl _, by omega, rfl⟩

/-- **One event**: the parser finds the next one, or overflows in one of its numbers. -/
theorem checkTrackBody_eq {tend : Int} {t : TrackPoint} (htend : tend ≤ d.length) (hpos : 0 ≤ t.pos)
    (hlt : t.pos < tend) (htick : 0 ≤ t.tick) :
    checkTrackBody d tend t =
      if ∀ x ∈ (eventLayout d tend t).numbers, x < 2147483648 then .ok (eventLayout d tend t).next
      else .error .overflow := by
  have hnonneg := quantity_nonneg d tend t.pos
  have hrange := quantity_range d hlt.le
  unfold checkTrackBody eventLayout
  rw [checkVlq_eq htend hpos]
  generalize quantity d tend t.pos = delta at *
  dsimp only
  by_cases hdelta : delta.1 < 2147483648
  case neg =>
    rw [if_neg hdelta, if_neg]
    · rfl
    · split <;> exact fun h => hdelta (h _ (List.mem_cons_self ..))
  rw [if_pos hdelta, ok_bind, int32_eq (by omega)]
  by_cases htick' : t.tick + delta.1 < 2147483648
  case neg =>
    rw [if_neg htick', if_neg]
    · rfl
    · split <;> exact fun h => htick' (h _ (List.mem_cons_of_mem _ (List.mem_cons_self ..)))
  rw [if_pos htick', ok_bind]
  by_cases hend : tend ≤ delta.2
  · simp only [if_pos hend, List.forall_mem_cons, hdelta, htick', List.not_mem_nil, false_implies,
      implies_true, and_self, if_true]
    rfl
  · simp only [if_neg hend, List.forall_mem_cons, hdelta, htick', true_and]
    rw [readAt_eq ⟨by omega, by omega⟩, ok_bind]
    have hafter := TrackPoint.afterStatus_pos { t with pos := delta.2, tick := t.tick + delta.1 }
      (byte d delta.2)
    dsimp only at hafter
    exact checkMessage_eq htend (by lia) (by lia)

theorem messageLayout_next {tend : Int} {t t' : TrackPoint} (hle : t.pos ≤ tend)
    (h : (messageLayout d tend t).next = some t') : t.pos ≤ t'.pos ∧ t'.tick = t.tick := by
  unfold messageLayout at h
  split at h
  · split at h
    · cases h
    · obtain rfl := Option.some.inj h
      have hnonneg := quantity_nonneg d tend (t.pos + 1)
      have hrange := quantity_range d (show t.pos + 1 ≤ tend by omega)
      exact ⟨by dsimp only; omega, rfl⟩
  · split at h
    · obtain rfl := Option.some.inj h
      have hnonneg := quantity_nonneg d tend t.pos
      have hrange := quantity_range d hle
      exact ⟨by dsimp only; omega, rfl⟩
    · split at h <;> obtain rfl := Option.some.inj h <;> exact ⟨by dsimp only; omega, rfl⟩

/-- **The next event is behind this one.** -/
theorem eventLayout_next {tend : Int} {t t' : TrackPoint} (hlt : t.pos < tend) (htick : 0 ≤ t.tick)
    (h : (eventLayout d tend t).next = some t') : t.pos < t'.pos ∧ 0 ≤ t'.tick := by
  have hnonneg := quantity_nonneg d tend t.pos
  have hrange := quantity_range d hlt.le
  have hforward := lt_quantity d hlt
  unfold eventLayout at h
  dsimp only at h
  split at h
  · cases h
  · have hafter := TrackPoint.afterStatus_pos
      { t with pos := (quantity d tend t.pos).2, tick := t.tick + (quantity d tend t.pos).1 }
      (byte d (quantity d tend t.pos).2)
    dsimp only at hafter
    obtain ⟨hpos, htick'⟩ := messageLayout_next (by omega) h
    exact ⟨by omega, by omega⟩

/-! ## Tracks -/

section Track

variable {start tend : Int} {t : TrackPoint}

theorem EventAt.range (h : EventAt d start tend t) : start ≤ t.pos ∧ 0 ≤ t.tick := by
  induction h with
  | first => exact ⟨le_refl _, le_refl _⟩
  | next _ hlt hnext ih =>
    obtain ⟨hpos, htick⟩ := eventLayout_next hlt ih.2 hnext
    exact ⟨by omega, htick⟩

/-- Where a track is read without a violation, it is so from each of its events on. -/
theorem EventAt.checked (htend : tend ≤ d.length) (hstart : 0 ≤ start) {fuel : Nat}
    (hcheck : checkTrackLoop d tend fuel { pos := start } = .ok ()) (h : EventAt d start tend t) :
    ∃ fuel, checkTrackLoop d tend fuel t = .ok () := by
  induction h with
  | first => exact ⟨fuel, hcheck⟩
  | @next t t' hat hlt hnext ih =>
    obtain ⟨fuel, hfuel⟩ := ih
    have hrange := hat.range
    cases fuel with
    | zero => cases hfuel
    | succ fuel =>
      rw [checkTrackLoop, if_pos hlt, checkTrackBody_eq htend (by omega) hlt hrange.2] at hfuel
      split at hfuel
      · rw [ok_bind, hnext] at hfuel
        obtain ⟨_, -, hrest⟩ := ok_of_bind hfuel
        exact ⟨fuel, hrest⟩
      · cases hfuel

/-- **A track is read without a violation exactly when its numbers fit.** -/
theorem checkTrackLoop_iff (htend : tend ≤ d.length) (hstart : 0 ≤ start) {fuel : Nat}
    (hfuel : (tend - start).toNat < fuel) :
    checkTrackLoop d tend fuel { pos := start } = .ok () ↔ TrackFits d start tend := by
  constructor
  · intro hcheck t hat hlt
    obtain ⟨fuel, hrest⟩ := hat.checked htend hstart hcheck
    have hrange := hat.range
    cases fuel with
    | zero => cases hrest
    | succ fuel =>
      rw [checkTrackLoop, if_pos hlt, checkTrackBody_eq htend (by omega) hlt hrange.2] at hrest
      split at hrest
      · assumption
      · cases hrest
  · intro hfits
    -- from every event on, by the bytes that are left
    have hloop : ∀ (fuel : Nat) (t : TrackPoint), EventAt d start tend t →
        (tend - t.pos).toNat < fuel → checkTrackLoop d tend fuel t = .ok () := by
      intro fuel
      induction fuel with
      | zero => exact fun _ _ h => absurd h (by omega)
      | succ fuel ih =>
        intro t hat hfuel
        have hrange := hat.range
        rw [checkTrackLoop]
        split
        · rename_i hlt
          rw [checkTrackBody_eq htend (by omega) hlt hrange.2, if_pos (hfits t hat hlt), ok_bind]
          cases hnext : (eventLayout d tend t).next with
          | none => rfl
          | some t' =>
            have hforward := (eventLayout_next hlt hrange.2 hnext).1
            dsimp only
            rw [forward, if_pos hforward, ok_bind]
            exact ih t' (hat.next hlt hnext) (by omega)
        · rfl
    exact hloop fuel _ .first hfuel

end Track

theorem checkTracks_of_not_track {fuel ntrks : Nat} {pos : Int} (hpos : 0 ≤ pos)
    (h : ¬ IsTrack d pos) : checkTracks fuel d (ntrks + 1) pos = .ok () := by
  rw [checkTracks]
  split
  · rename_i hroom
    obtain ⟨magic, hmagic, -⟩ := bytesAt_inside (d := d) (k := 4) hpos (by omega)
    rw [hmagic]
    change (if magic ≠ _ then _ else _) = _
    split
    · rfl
    · rename_i heq
      rw [not_not] at heq
      exact absurd ⟨hroom, heq ▸ hmagic⟩ h
  · rfl

/-- One track chunk, and the others behind it. -/
theorem checkTracks_of_track {fuel ntrks : Nat} {pos : Int} (hpos : 0 ≤ pos) (h : IsTrack d pos) :
    checkTracks fuel d (ntrks + 1) pos =
      if pos + 8 + lengthAt d (pos + 4) < 2147483648 then
        checkTrackLoop d (trackEnd d pos) fuel { pos := pos + 8 } >>= fun _ =>
          checkTracks fuel d ntrks (trackEnd d pos)
      else .error .overflow := by
  have hlen := lengthAt_nonneg d (pos + 4)
  have hroom := h.1
  rw [checkTracks, if_pos h.1, h.2]
  change (checkBe32 d (pos + 4) >>= _) = _
  rw [checkBe32_eq (by omega) (by omega)]
  by_cases hfit : pos + 8 + lengthAt d (pos + 4) < 2147483648
  · rw [if_pos (by omega), ok_bind, int32_eq (by omega), if_pos hfit, if_pos hfit, ok_bind]
    have hend : (if pos + 8 + lengthAt d (pos + 4) > d.length then (d.length : Int)
        else pos + 8 + lengthAt d (pos + 4)) = trackEnd d pos := by
      unfold trackEnd
      split <;> omega
    have hforward : pos < trackEnd d pos := by
      unfold trackEnd
      omega
    dsimp only
    rw [hend, forward, if_pos hforward]
    rfl
  · rw [if_neg hfit]
    split
    · rw [ok_bind, int32_eq (by omega), if_neg hfit]
      rfl
    · rfl

theorem TrackAt.le {first pos : Int} {i : Nat} (h : TrackAt d first i pos) : first ≤ pos := by
  induction h with
  | first => exact le_refl _
  | @next i pos _ htrack ih =>
    have := lengthAt_nonneg d (pos + 4)
    have := htrack.1
    unfold trackEnd
    omega

theorem checkTracks_iff {first : Int} (hfirst : 0 ≤ first) {ntrks : Nat} :
    checkTracks (d.length + 1) d ntrks first = .ok () ↔ TracksFit d first ntrks := by
  have hend : ∀ pos, trackEnd d pos ≤ d.length := fun pos => min_le_right _ _
  constructor
  · intro hcheck
    -- what is left to check, at each chunk
    have hat : ∀ i pos, TrackAt d first i pos → i ≤ ntrks →
        checkTracks (d.length + 1) d (ntrks - i) pos = .ok () := by
      intro i pos h
      induction h with
      | first => exact fun _ => hcheck
      | @next i pos hat htrack ih =>
        intro hi
        have hrest := ih (by omega)
        have hpos := hat.le
        rw [show ntrks - i = ntrks - (i + 1) + 1 by omega,
          checkTracks_of_track (by omega) htrack] at hrest
        split at hrest
        · obtain ⟨_, -, hrest⟩ := ok_of_bind hrest
          exact hrest
        · cases hrest
    intro i pos hi h htrack
    have hpos := h.le
    have hrest := hat i pos h (by omega)
    rw [show ntrks - i = ntrks - i - 1 + 1 by omega,
      checkTracks_of_track (by omega) htrack] at hrest
    split at hrest
    · rename_i hfit
      obtain ⟨_, htrackOk, -⟩ := ok_of_bind hrest
      have := hend pos
      exact ⟨hfit, (checkTrackLoop_iff (hend pos) (by omega) (by omega)).1 htrackOk⟩
    · cases hrest
  · intro hfits
    have hloop : ∀ (k i : Nat) (pos : Int), TrackAt d first i pos → i + k = ntrks →
        checkTracks (d.length + 1) d k pos = .ok () := by
      intro k
      induction k with
      | zero => exact fun _ _ _ _ => rfl
      | succ k ih =>
        intro i pos hat hik
        have hpos := hat.le
        by_cases htrack : IsTrack d pos
        · obtain ⟨hfit, htrackFits⟩ := hfits i pos (by omega) hat htrack
          have := hend pos
          rw [checkTracks_of_track (by omega) htrack, if_pos hfit,
            (checkTrackLoop_iff (hend pos) (by omega) (by omega)).2 htrackFits, ok_bind]
          exact ih (i + 1) _ (hat.next htrack) (by omega)
        · exact checkTracks_of_not_track (by omega) htrack
    exact hloop ntrks 0 first .first (by omega)

theorem be16At_eq {i : Int} (h₀ : 0 ≤ i) (h : i + 2 ≤ d.length) :
    be16At d i = .ok (halfAt d i) := by
  rw [be16At, byteAt_eq ⟨h₀, by omega⟩, byteAt_eq ⟨by omega, by omega⟩]
  rfl

/-- **The parser keeps to the rules exactly on the files whose numbers fit.** -/
theorem checkParse_iff : checkParse (d.length + 1) d = .ok () ↔ SmfFits d := by
  unfold checkParse SmfFits
  by_cases hshort : d.length < 14
  · simp only [if_pos hshort]
    exact ⟨fun _ h => absurd h (by omega), fun _ => rfl⟩
  rw [if_neg hshort, forall_prop_of_true (by omega)]
  obtain ⟨magic, hmagic, -⟩ := bytesAt_inside (d := d) (k := 4) (i := 0) (by omega) (by omega)
  rw [hmagic]
  change (if magic ≠ _ then _ else _) = _ ↔ _
  by_cases hsmf : magic = [0x4D, 0x54, 0x68, 0x64]
  case neg =>
    rw [if_pos hsmf]
    exact ⟨fun _ h => absurd (Except.ok.inj h) hsmf, fun _ => rfl⟩
  rw [if_neg (not_not.2 hsmf), hsmf, forall_prop_of_true rfl,
    checkBe32_eq (by omega) (by omega)]
  have hlen := lengthAt_nonneg d 4
  by_cases hfit : lengthAt d 4 < 2147483648
  case neg =>
    rw [if_neg hfit]
    exact ⟨nofun, fun h => absurd h.1 hfit⟩
  rw [if_pos hfit, ok_bind]
  by_cases hsix : lengthAt d 4 < 6
  · simp only [if_pos hsix]
    exact ⟨fun _ => ⟨hfit, fun h => absurd h (by omega)⟩, fun _ => rfl⟩
  rw [if_neg hsix, int32_eq (by omega)]
  by_cases hfirst : 8 + lengthAt d 4 < 2147483648
  case neg =>
    rw [if_neg hfirst]
    exact ⟨nofun, fun h => absurd (h.2 (by omega)).1 hfirst⟩
  rw [if_pos hfirst, ok_bind]
  have hrest : (lengthAt d 4 < 2147483648 ∧ (6 ≤ lengthAt d 4 → 8 + lengthAt d 4 < 2147483648 ∧
      (8 + lengthAt d 4 ≤ d.length → 0 < halfAt d 12 → halfAt d 12 < 0x8000 →
        TracksFit d (8 + lengthAt d 4) (halfAt d 10)))) ↔
      (8 + lengthAt d 4 ≤ d.length → 0 < halfAt d 12 → halfAt d 12 < 0x8000 →
        TracksFit d (8 + lengthAt d 4) (halfAt d 10)) :=
    ⟨fun h => (h.2 (by omega)).2, fun h => ⟨hfit, fun _ => ⟨hfirst, h⟩⟩⟩
  rw [hrest]
  by_cases hin : 8 + lengthAt d 4 > d.length
  · simp only [if_pos hin]
    exact ⟨fun _ h => absurd h (by lia), fun _ => rfl⟩
  rw [if_neg hin, forall_prop_of_true (by omega), be16At_eq (by omega) (by omega),
    be16At_eq (by omega) (by omega)]
  change (if halfAt d 12 ≤ 0 ∨ 0x8000 ≤ halfAt d 12 then _ else _) = _ ↔ _
  split
  · exact ⟨fun _ h₁ h₂ => absurd h₂ (by omega), fun _ => rfl⟩
  · have hnum : ((halfAt d 10).toNat : Int) = halfAt d 10 := by
      unfold halfAt
      omega
    rw [checkTracks_iff (by omega), hnum]
    exact ⟨fun h _ _ => h, fun h => h (by lia) (by lia)⟩

/-! ## The parser itself -/

theorem byteAt_of_readAt {i : Int} {b : Nat} (h : readAt d i = .ok b) : byteAt d i = .ok b := by
  unfold readAt at h
  cases hb : byteAt d i with
  | error f =>
    rw [hb] at h
    cases h
  | ok b' =>
    rw [hb] at h
    cases h
    rfl

theorem ok_of_mapError {α : Type} {x : Except Fault α} {a : α}
    (h : x.mapError Violation.fault = .ok a) : x = .ok a := by
  cases x with
  | error f => cases h
  | ok a' =>
    cases h
    rfl

theorem be32At_of_check {i x : Int} (h : checkBe32 d i = .ok x) : be32At d i = .ok x := by
  obtain ⟨b0, h0, h⟩ := ok_of_bind h
  obtain ⟨b1, h1, h⟩ := ok_of_bind h
  obtain ⟨b2, h2, h⟩ := ok_of_bind h
  obtain ⟨b3, h3, h⟩ := ok_of_bind h
  obtain ⟨rfl, hwrap⟩ := int32_ok h
  rw [be32At, byteAt_of_readAt h0, byteAt_of_readAt h1, byteAt_of_readAt h2, byteAt_of_readAt h3,
    ok_bind, ok_bind, ok_bind, ok_bind, hwrap]
  rfl

theorem midiVlqLoop_of_check {fin : Int} {fuel : Nat} : ∀ {value pos : Int} {r : Int × Int},
    checkVlqLoop d fin fuel value pos = .ok r → midiVlqLoop d fin fuel value pos = .ok r := by
  induction fuel with
  | zero => exact nofun
  | succ fuel ih =>
    intro value pos r h
    rw [checkVlqLoop] at h
    rw [midiVlqLoop]
    split at h
    · rw [if_pos (by assumption)]
      obtain ⟨b, hb, h⟩ := ok_of_bind h
      obtain ⟨_, hvalue, h⟩ := ok_of_bind h
      obtain ⟨rfl, hwrap⟩ := int32_ok hvalue
      rw [byteAt_of_readAt hb, ok_bind]
      dsimp only
      rw [hwrap]
      split at h
      · rw [if_pos (by assumption)]
        obtain rfl := Except.ok.inj h
        rfl
      · rw [if_neg (by assumption)]
        exact ih h
    · rw [if_neg (by assumption)]
      obtain rfl := Except.ok.inj h
      rfl

theorem midiVlq_of_check {fin pos : Int} {r : Int × Int} (h : checkVlq d fin pos = .ok r) :
    midiVlq d fin pos = .ok r := midiVlqLoop_of_check h

theorem dataByte_of_check {tend pos pos' : Int} (h : checkDataByte d tend pos = .ok pos') :
    ∃ b, dataByte d tend pos = .ok (b, pos') := by
  unfold checkDataByte at h
  unfold dataByte
  split at h
  · rw [if_pos (by assumption)]
    obtain ⟨b, hb, h⟩ := ok_of_bind h
    obtain rfl := Except.ok.inj h
    exact ⟨b, by rw [byteAt_of_readAt hb]; rfl⟩
  · rw [if_neg (by assumption)]
    obtain rfl := Except.ok.inj h
    exact ⟨0, rfl⟩

/-- Where the track stands, without its events. -/
def TrackState.point (t : TrackState) : TrackPoint := ⟨t.pos, t.tick, t.running⟩

variable (mallocOk : Nat → Bool)

theorem midiMetaEvent_of_check {tend pos : Int} {t : TrackState}
    (h : checkMetaEvent d tend t.pos = .ok pos) :
    ∃ buf, midiMetaEvent mallocOk d tend t = .ok { t with pos, buf } := by
  obtain ⟨mtype, hmtype, h⟩ := ok_of_bind h
  obtain ⟨len, hlen, h⟩ := ok_of_bind h
  rw [midiMetaEvent, byteAt_of_readAt hmtype, ok_bind, midiVlq_of_check hlen, ok_bind]
  dsimp only at h ⊢
  split at h
  · rw [if_pos (by assumption)]
    obtain ⟨b0, h0, h⟩ := ok_of_bind h
    obtain ⟨b1, h1, h⟩ := ok_of_bind h
    obtain ⟨b2, h2, h⟩ := ok_of_bind h
    obtain ⟨rfl, hwrap⟩ := int32_ok h
    rw [byteAt_of_readAt h0, byteAt_of_readAt h1, byteAt_of_readAt h2, ok_bind, ok_bind, ok_bind,
      hwrap]
    exact ⟨_, rfl⟩
  · rw [if_neg (by assumption)]
    obtain ⟨rfl, hwrap⟩ := int32_ok h
    rw [hwrap]
    exact ⟨t.buf, rfl⟩

/-- A channel message moves behind its data bytes, whatever it does to the events. -/
theorem midiChannelMessage_of_check {tend : Int} {t : TrackState} {o : Option TrackPoint}
    (h : (do
      let pos ← checkDataByte d tend t.pos
      if t.running / 16 * 16 = 0xC0 ∨ t.running / 16 * 16 = 0xD0 then
        return some { t.point with pos }
      let pos ← checkDataByte d tend pos
      return some { t.point with pos }) = (.ok o : Except Violation (Option TrackPoint))) :
    ∃ t', midiChannelMessage mallocOk d tend t.running t = .ok t' ∧ some t'.point = o := by
  obtain ⟨pos₁, h₁, h⟩ := ok_of_bind h
  obtain ⟨d1, hd1⟩ := dataByte_of_check h₁
  rw [midiChannelMessage, hd1, ok_bind]
  dsimp only
  by_cases hone : t.running / 16 * 16 = 0xC0 ∨ t.running / 16 * 16 = 0xD0
  · rw [if_pos hone] at h
    rw [if_pos hone]
    obtain rfl := Except.ok.inj h
    split <;> exact ⟨_, rfl, rfl⟩
  · rw [if_neg hone] at h
    rw [if_neg hone]
    obtain ⟨pos₂, h₂, h⟩ := ok_of_bind h
    obtain ⟨d2, hd2⟩ := dataByte_of_check h₂
    obtain rfl := Except.ok.inj h
    rw [hd2, ok_bind]
    dsimp only
    split_ifs <;> exact ⟨_, rfl, rfl⟩

theorem midiTrackBody_of_check {tend : Int} {t : TrackState} {o : Option TrackPoint}
    (h : checkTrackBody d tend t.point = .ok o) :
    ∃ o' buf, midiTrackBody mallocOk d tend t = .ok (o', buf) ∧ o'.map TrackState.point = o := by
  obtain ⟨delta, hdelta, h⟩ := ok_of_bind h
  obtain ⟨_, htick, h⟩ := ok_of_bind h
  obtain ⟨rfl, hwrap⟩ := int32_ok htick
  replace hwrap : i32 (t.tick + delta.1) = t.tick + delta.1 := hwrap
  have hvlq : midiVlq d tend t.pos = .ok delta := midiVlq_of_check hdelta
  rw [midiTrackBody, hvlq, ok_bind]
  dsimp only
  rw [hwrap]
  split at h
  · rw [if_pos (by assumption)]
    obtain rfl := Except.ok.inj h
    exact ⟨none, t.buf, rfl, rfl⟩
  rw [if_neg (by assumption)]
  obtain ⟨b, hb, h⟩ := ok_of_bind h
  rw [byteAt_of_readAt hb, ok_bind]
  -- the state behind the status byte
  obtain ⟨t₁, ht₁, hstate⟩ : ∃ t₁ : TrackState, t₁.point =
      TrackPoint.afterStatus { t.point with pos := delta.2, tick := t.tick + delta.1 } b ∧
      (if 128 ≤ b then (b, { t with pos := delta.2 + 1, tick := t.tick + delta.1, running := b })
        else (t.running, { t with pos := delta.2, tick := t.tick + delta.1 })) =
        (t₁.running, t₁) := by
    unfold TrackPoint.afterStatus
    split
    · exact ⟨{ t with pos := delta.2 + 1, tick := t.tick + delta.1, running := b }, rfl, rfl⟩
    · exact ⟨{ t with pos := delta.2, tick := t.tick + delta.1 }, rfl, rfl⟩
  replace h : checkMessage d tend t₁.point = .ok o := ht₁ ▸ h
  rw [hstate]
  dsimp only
  unfold checkMessage at h
  change (if t₁.running = 0xFF then _ else if t₁.running = 0xF0 ∨ t₁.running = 0xF7 then _ else _) =
    _ at h
  by_cases hmeta : t₁.running = 0xFF
  · rw [if_pos hmeta] at h
    rw [if_pos hmeta]
    split at h
    · rw [if_pos (by assumption)]
      obtain rfl := Except.ok.inj h
      exact ⟨none, t₁.buf, rfl, rfl⟩
    · rw [if_neg (by assumption)]
      obtain ⟨pos, hpos, h⟩ := ok_of_bind h
      obtain ⟨buf, heq⟩ : ∃ buf, midiMetaEvent mallocOk d tend t₁ = .ok { t₁ with pos, buf } :=
        midiMetaEvent_of_check mallocOk hpos
      obtain rfl := Except.ok.inj h
      rw [heq]
      exact ⟨_, buf, rfl, rfl⟩
  rw [if_neg hmeta] at h
  rw [if_neg hmeta]
  by_cases hsysex : t₁.running = 0xF0 ∨ t₁.running = 0xF7
  · rw [if_pos hsysex] at h
    rw [if_pos hsysex]
    obtain ⟨len, hlen, h⟩ := ok_of_bind h
    obtain ⟨_, hpos, h⟩ := ok_of_bind h
    obtain ⟨rfl, hskip⟩ := int32_ok hpos
    obtain rfl := Except.ok.inj h
    have hvlq' : midiVlq d tend t₁.pos = .ok len := midiVlq_of_check hlen
    rw [hvlq', ok_bind, hskip]
    exact ⟨_, t₁.buf, rfl, rfl⟩
  rw [if_neg hsysex] at h
  rw [if_neg hsysex]
  obtain ⟨t', heq, hpoint⟩ := midiChannelMessage_of_check mallocOk h
  rw [heq]
  exact ⟨some t', t'.buf, rfl, hpoint⟩

theorem midiTrackLoop_of_check {tend : Int} {fuel fuel' : Nat} (hfuel : fuel ≤ fuel') :
    ∀ {t : TrackState}, checkTrackLoop d tend fuel t.point = .ok () →
      ∃ buf, midiTrackLoop mallocOk d tend fuel' t = .ok buf := by
  induction fuel generalizing fuel' with
  | zero => exact nofun
  | succ fuel ih =>
    intro t h
    obtain ⟨k, rfl⟩ : ∃ k, fuel' = k + 1 := ⟨fuel' - 1, by omega⟩
    rw [midiTrackLoop]
    rw [checkTrackLoop] at h
    split
    · rename_i hlt
      rw [if_pos (show t.point.pos < tend from hlt)] at h
      obtain ⟨o, hbody, h⟩ := ok_of_bind h
      obtain ⟨o', buf, heq, rfl⟩ := midiTrackBody_of_check mallocOk hbody
      rw [heq, ok_bind]
      cases o' with
      | none => exact ⟨buf, rfl⟩
      | some t' =>
        obtain ⟨_, -, h⟩ := ok_of_bind h
        exact ih (by omega) h
    · exact ⟨t.buf, rfl⟩

theorem midiTracks_of_check {fuel fuel' : Nat} (hfuel : fuel ≤ fuel') {ntrks : Nat} :
    ∀ {pos : Int} {b : EventBuf}, checkTracks fuel d ntrks pos = .ok () →
      ∃ buf', midiTracks mallocOk fuel' d ntrks pos b = .ok buf' := by
  induction ntrks with
  | zero => exact fun {_ buf} _ => ⟨buf, rfl⟩
  | succ ntrks ih =>
    intro pos buf h
    rw [midiTracks]
    rw [checkTracks] at h
    split at h
    · rw [if_pos (by assumption)]
      obtain ⟨magic, hmagic, h⟩ := ok_of_bind h
      rw [ok_of_mapError hmagic, ok_bind]
      split at h
      · rw [if_pos (by assumption)]
        exact ⟨buf, rfl⟩
      · rw [if_neg (by assumption)]
        obtain ⟨tlen, htlen, h⟩ := ok_of_bind h
        obtain ⟨_, htend, h⟩ := ok_of_bind h
        obtain ⟨rfl, hwrap⟩ := int32_ok htend
        obtain ⟨_, htrack, h⟩ := ok_of_bind h
        obtain ⟨pos', hforward, h⟩ := ok_of_bind h
        rw [be32At_of_check htlen, ok_bind]
        dsimp only
        rw [hwrap]
        obtain ⟨buf', hbuf'⟩ := midiTrackLoop_of_check mallocOk hfuel
          (t := { pos := pos + 8, buf := buf }) htrack
        rw [hbuf', ok_bind]
        obtain rfl := forward_ok hforward
        exact ih h
    · rw [if_neg (by assumption)]
      exact ⟨buf, rfl⟩

theorem midiParse_of_check {fuel fuel' : Nat} (hfuel : fuel ≤ fuel') (heap : Nat)
    (h : checkParse fuel d = .ok ()) : ∃ r, midiParse mallocOk fuel' d heap = .ok r := by
  unfold checkParse at h
  unfold midiParse
  split at h
  · rw [if_pos (by assumption)]
    exact ⟨_, rfl⟩
  rw [if_neg (by assumption)]
  obtain ⟨magic, hmagic, h⟩ := ok_of_bind h
  rw [ok_of_mapError hmagic, ok_bind]
  split at h
  · rw [if_pos (by assumption)]
    exact ⟨_, rfl⟩
  rw [if_neg (by assumption)]
  obtain ⟨hlen, hhlen, h⟩ := ok_of_bind h
  rw [be32At_of_check hhlen, ok_bind]
  split at h
  · rw [if_pos (.inl (by assumption))]
    exact ⟨_, rfl⟩
  obtain ⟨_, hfirst, h⟩ := ok_of_bind h
  obtain ⟨rfl, hwrap⟩ := int32_ok hfirst
  rw [hwrap]
  split at h
  · rw [if_pos (.inr (by assumption))]
    exact ⟨_, rfl⟩
  rw [if_neg (by omega)]
  obtain ⟨ntrks, hntrks, h⟩ := ok_of_bind h
  obtain ⟨division, hdivision, h⟩ := ok_of_bind h
  rw [ok_of_mapError hntrks, ok_bind, ok_of_mapError hdivision, ok_bind]
  split at h
  · rw [if_pos (by assumption)]
    exact ⟨_, rfl⟩
  rw [if_neg (by assumption)]
  split
  · exact ⟨_, rfl⟩
  obtain ⟨buf, hbuf⟩ := midiTracks_of_check mallocOk hfuel
    (show checkTracks fuel d ntrks.toNat (8 + hlen) = .ok () from h) (b := { heap := heap + 1 })
  rw [hbuf, ok_bind]
  split <;> exact ⟨_, rfl⟩

/-! ## The claim about files -/

/-- The functions that contain the parser return when it does. -/
theorem midiStreamOpen_ok {env : Env σ} {c : Cell σ} (hraw : c.p.raw = some d)
    (hparse : ∃ r, midiParse env.mallocOk env.fuel d c.heap = .ok r) :
    ∃ r, midiStreamOpen env c = .ok r := by
  obtain ⟨⟨parsed, heap⟩, hparse⟩ := hparse
  unfold midiStreamOpen
  rw [hraw]
  dsimp only
  rw [hparse, ok_bind]
  dsimp only
  split
  · exact ⟨_, rfl⟩
  · split <;> exact ⟨_, rfl⟩

theorem midiRender_ok {env : Env σ} {c : Cell σ} (hraw : c.p.raw = some d)
    (hparse : ∃ r, midiParse env.mallocOk env.fuel d c.heap = .ok r) :
    ∃ r, midiRender env c = .ok r := by
  obtain ⟨⟨parsed, heap⟩, hparse⟩ := hparse
  unfold midiRender
  rw [hraw]
  dsimp only
  rw [hparse, ok_bind]
  dsimp only
  split
  · exact ⟨_, rfl⟩
  · split_ifs <;> exact ⟨_, rfl⟩

/-- **MIDI parsing stays inside the data, moves forward, ends and does not overflow, exactly for the
files whose lengths, quantities and ticks are below `2 ^ 31`.** -/
theorem smfSafe_iff : SmfSafe d ↔ SmfFits d := by
  rw [← checkParse_iff]
  refine ⟨fun h => h.1, fun h => ⟨h, fun env c hraw hfuel => ?_⟩⟩
  have hparse := midiParse_of_check env.mallocOk (show d.length + 1 ≤ env.fuel by omega) c.heap h
  exact ⟨midiStreamOpen_ok hraw hparse, midiRender_ok hraw hparse⟩

/-- **A header that leads back before the file.**  Eight bytes plus the header length `0x7FFFFFFF`
wrap to a negative position, which passes the test against the length of the file; the first track
is then read there. -/
theorem midiStreamOpen_leaves : ¬ ∀ d : List UInt8, SmfSafe d := by
  intro h
  let d : List UInt8 := [0x4D, 0x54, 0x68, 0x64, 0x7F, 0xFF, 0xFF, 0xFF, 0, 0, 0, 1, 0, 0x60]
  let c : Cell Unit := { p := { raw := some d }, rawTotal := 14, pcmTotal := 0, flProbed := true,
                         fl := none, heap := 0 }
  obtain ⟨⟨r, hr⟩, -⟩ := (h d).2 plainEnv c rfl (by decide)
  have hfault : (midiStreamOpen plainEnv c).toBool = false := by decide +kernel
  rw [hr] at hfault
  cases hfault

end FroggyKVM.Audio
