/-
# FroggyKVM.Events.Queue — the native event queue of an isolate (`midpEvents.c`).

`EventQueue` is a circular buffer of `MAX_EVENTS` events with the flag `isMonitorBlocked`.  An event
is copied by value: its string parameters are copied with their `data` pointers, so a heap string is
represented by the number of its allocation.  What the queue holds is `EventQueue.pending`.
-/
import FroggyKVM.Lib.Ring

namespace FroggyKVM.Events

/-! ## Events -/

/-- The number of a string allocated in the heap. -/
abbrev StringId := Nat

/-- `pcsl_string`: `PCSL_STRING_NULL`, a string that is not in the heap, or a heap string. -/
inductive PcslString where
  | null
  | literal (text : List Nat)
  | heap (id : StringId)
  deriving DecidableEq, Repr

/-- The allocation that `pcsl_string_free` gives back. -/
def PcslString.allocation : PcslString → List StringId
  | .heap id => [id]
  | .null | .literal _ => []

/-- `MidpEvent`; the default is what `MIDP_EVENT_INITIALIZE` makes. -/
structure MidpEvent where
  type : Int := 0
  intParam1 : Int := 0
  intParam2 : Int := 0
  intParam3 : Int := 0
  intParam4 : Int := 0
  intParam5 : Int := 0
  stringParam1 : PcslString := .null
  stringParam2 : PcslString := .null
  stringParam3 : PcslString := .null
  stringParam4 : PcslString := .null
  stringParam5 : PcslString := .null
  stringParam6 : PcslString := .null
  deriving DecidableEq, Repr

instance : Inhabited MidpEvent := ⟨{}⟩

/-- The allocations `freeMIDPEventFields` gives back, in order. -/
def MidpEvent.allocations (e : MidpEvent) : List StringId :=
  e.stringParam1.allocation ++ e.stringParam2.allocation ++ e.stringParam3.allocation ++
    e.stringParam4.allocation ++ e.stringParam5.allocation ++ e.stringParam6.allocation

/-! ## The queue -/

def MAX_EVENTS : Nat := 20

structure EventQueue where
  events : List MidpEvent := List.replicate MAX_EVENTS {}
  numEvents : Nat := 0
  eventIn : Nat := 0
  eventOut : Nat := 0
  isMonitorBlocked : Bool := false
  deriving DecidableEq, Repr

/-- The index after `i` in a queue that starts back at zero. -/
def nextIndex (i : Nat) : Nat := if i + 1 = MAX_EVENTS then 0 else i + 1

/-- The part of `StoreMIDPEventInVmThreadImp` that stores the event, when there is space. -/
def EventQueue.put (q : EventQueue) (e : MidpEvent) : EventQueue :=
  { q with events := q.events.set q.eventIn e, eventIn := nextIndex q.eventIn
           numEvents := q.numEvents + 1 }

/-- `getPendingMIDPEvent`: the event and the number of events pending after it. -/
def EventQueue.getPending (q : EventQueue) : Option (MidpEvent × Nat) × EventQueue :=
  if q.numEvents = 0 then (none, q)
  else
    let q' := { q with
      events := q.events.set q.eventOut {}
      numEvents := q.numEvents - 1
      eventOut := nextIndex q.eventOut }
    (some (q.events.getD q.eventOut {}, q'.numEvents), q')

/-- The loop of `resetEventQueue`: the events it reads, and the queue after.  Each round takes one
event off. -/
def EventQueue.drain : Nat → EventQueue → List MidpEvent × EventQueue
  | 0, q => ([], q)
  | n + 1, q =>
    match q.getPending with
    | (none, q) => ([], q)
    | (some (e, _), q) => (e :: (drain n q).1, (drain n q).2)

/-- `resetEventQueue`: the events whose fields it frees, and the queue after. -/
def EventQueue.reset (q : EventQueue) : List MidpEvent × EventQueue :=
  let q := { q with isMonitorBlocked := false }
  q.drain (q.numEvents + 1)

/-! ## What it holds -/

/-- The indices belong together. -/
structure EventQueue.Valid (q : EventQueue) : Prop where
  slots : q.events.length = MAX_EVENTS
  out_lt : q.eventOut < MAX_EVENTS
  count_le : q.numEvents ≤ MAX_EVENTS
  in_eq : q.eventIn = ringSlot MAX_EVENTS q.eventOut q.numEvents

/-- The events stored and not yet read, in order. -/
def EventQueue.pending (q : EventQueue) : List MidpEvent :=
  ringContents q.events q.eventOut q.numEvents

@[simp] theorem EventQueue.pending_length (q : EventQueue) : q.pending.length = q.numEvents :=
  ringContents_length

theorem nextIndex_eq {i : Nat} (hi : i < MAX_EVENTS) : nextIndex i = ringSlot MAX_EVENTS i 1 := by
  unfold nextIndex ringSlot
  split_ifs <;> omega

theorem EventQueue.put_valid {q : EventQueue} (hq : q.Valid) (e : MidpEvent)
    (hroom : q.numEvents ≠ MAX_EVENTS) :
    (q.put e).Valid ∧ (q.put e).pending = q.pending ++ [e] := by
  obtain ⟨hslots, hout, hcount, hin⟩ := hq
  have hlt : q.numEvents < q.events.length := by omega
  have hin' : q.eventIn = ringSlot q.events.length q.eventOut q.numEvents := by rw [hslots, hin]
  refine ⟨⟨by simpa [EventQueue.put] using hslots, hout, ?_, ?_⟩, ?_⟩
  · show q.numEvents + 1 ≤ MAX_EVENTS
    omega
  · show nextIndex q.eventIn = ringSlot MAX_EVENTS q.eventOut (q.numEvents + 1)
    rw [hin, nextIndex_eq (ringSlot_lt hout (by omega)), ringSlot_succ hout (by omega)]
  · show ringContents (q.events.set q.eventIn e) q.eventOut (q.numEvents + 1) = _
    rw [hin']
    exact ringContents_push (by omega) hlt e

theorem EventQueue.getPending_none {q : EventQueue} (h : q.numEvents = 0) :
    q.getPending = (none, q) := by
  unfold EventQueue.getPending
  rw [if_pos h]

/-- Reading takes the first pending event. -/
theorem EventQueue.getPending_some {q : EventQueue} (hq : q.Valid) (h : q.numEvents ≠ 0) :
    ∃ e q', q.getPending = (some (e, q'.numEvents), q') ∧ q'.Valid ∧
      q.pending = e :: q'.pending ∧ q'.isMonitorBlocked = q.isMonitorBlocked := by
  obtain ⟨hslots, hout, hcount, hin⟩ := hq
  obtain ⟨n, hn⟩ : ∃ n, q.numEvents = n + 1 := ⟨q.numEvents - 1, by omega⟩
  unfold EventQueue.getPending
  rw [if_neg h]
  refine ⟨_, _, rfl, ⟨by simpa using hslots, ?_, ?_, ?_⟩, ?_, rfl⟩
  · show nextIndex q.eventOut < MAX_EVENTS
    unfold nextIndex
    split_ifs <;> omega
  · show q.numEvents - 1 ≤ MAX_EVENTS
    omega
  · show q.eventIn = ringSlot MAX_EVENTS (nextIndex q.eventOut) (q.numEvents - 1)
    rw [hin, nextIndex_eq hout, ringSlot_next hout (by omega), Nat.sub_add_cancel (by omega)]
  · show ringContents q.events q.eventOut q.numEvents = q.events.getD q.eventOut {} ::
      ringContents (q.events.set q.eventOut {}) (nextIndex q.eventOut) (q.numEvents - 1)
    rw [hn, ringContents_succ (by lia) (by lia), nextIndex_eq hout, ← hslots]
    congr 1
    exact (ringContents_set_removed (by omega) (by omega) _).symm

theorem EventQueue.drain_spec :
    ∀ (n : Nat) {q : EventQueue}, q.Valid → q.numEvents ≤ n →
      (q.drain n).1 = q.pending ∧ (q.drain n).2.Valid ∧ (q.drain n).2.numEvents = 0 ∧
        (q.drain n).2.isMonitorBlocked = q.isMonitorBlocked
  | 0, q, hq, hn => by
    have h0 : q.numEvents = 0 := by omega
    refine ⟨?_, hq, h0, rfl⟩
    unfold EventQueue.pending
    rw [h0]
    rfl
  | n + 1, q, hq, hn => by
    unfold EventQueue.drain
    by_cases h0 : q.numEvents = 0
    · rw [EventQueue.getPending_none h0]
      refine ⟨?_, hq, h0, rfl⟩
      unfold EventQueue.pending
      rw [h0]
      rfl
    · obtain ⟨e, q', hget, hvalid, hpending, hflag⟩ := EventQueue.getPending_some hq h0
      have hlen : q'.numEvents + 1 = q.numEvents := by
        have := congrArg List.length hpending
        simpa using this.symm
      obtain ⟨h1, h2, h3, h4⟩ := EventQueue.drain_spec n hvalid (by omega)
      rw [hget]
      exact ⟨by rw [hpending, ← h1], h2, h3, h4.trans hflag⟩

/-- A reset frees every pending event and leaves the queue empty and the flag cleared. -/
theorem EventQueue.reset_spec {q : EventQueue} (hq : q.Valid) :
    q.reset.1 = q.pending ∧ q.reset.2.Valid ∧ q.reset.2.numEvents = 0 ∧
      q.reset.2.isMonitorBlocked = false := by
  have hclear : ({ q with isMonitorBlocked := false } : EventQueue).Valid :=
    ⟨hq.slots, hq.out_lt, hq.count_le, hq.in_eq⟩
  exact EventQueue.drain_spec (q.numEvents + 1) hclear (Nat.le_succ _)

theorem EventQueue.new_valid : EventQueue.Valid {} :=
  ⟨by decide, by decide, by decide, by decide⟩

end FroggyKVM.Events
