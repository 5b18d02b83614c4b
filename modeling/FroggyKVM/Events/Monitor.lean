/-
# FroggyKVM.Events.Monitor — the event queue and the Java thread that waits on it.

The monitor thread of an isolate calls `waitForNativeEvent`, which reads an event or blocks the
thread and records that in `isMonitorBlocked`; a store unblocks it.  The events read are those
stored, in order, whatever the order of calls.  A reset clears the flag but does not unblock the
thread, so the flag tells the truth only as long as no reset finds the thread blocked.
-/
import FroggyKVM.Events.Queue
import FroggyKVM.Lib.Lts

namespace FroggyKVM.Events

/-! ## Calls -/

/-- The queue of an isolate and its monitor thread. -/
structure Isolate where
  queue : EventQueue := {}
  /-- the thread is blocked by `SNI_BlockThread` -/
  monitorBlocked : Bool := false
  /-- the thread has been saved by `SNI_SetSpecialThread` -/
  special : Bool := false
  deriving DecidableEq, Repr

/-- `StoreMIDPEventInVmThreadImp` on the queue of the isolate: whether the event is stored. -/
def Isolate.store (s : Isolate) (e : MidpEvent) : Bool × Isolate :=
  if s.queue.numEvents ≠ MAX_EVENTS then
    let q := s.queue.put e
    if q.isMonitorBlocked && s.special then
      (true, { s with queue := { q with isMonitorBlocked := false }, monitorBlocked := false })
    else (true, { s with queue := q })
  else (false, s)

/-- `readNativeEventCommon`: the event read, if there is one. -/
def Isolate.read (s : Isolate) : Option MidpEvent × Isolate :=
  (s.queue.getPending.1.map Prod.fst, { s with queue := s.queue.getPending.2 })

/-- `waitForNativeEvent`. -/
def Isolate.wait (s : Isolate) : Option MidpEvent × Isolate :=
  match s.read with
  | (some e, s) => (some e, s)
  | (none, s) =>
    (none, { queue := { s.queue with isMonitorBlocked := true }
             monitorBlocked := true, special := true })

/-- `resetNativeEventQueue`. -/
def Isolate.reset (s : Isolate) : Isolate := { s with queue := s.queue.reset.2 }

/-- The calls, with their results. -/
inductive EventOp where
  | store (e : MidpEvent) (accepted : Bool)
  | wait (read : Option MidpEvent)
  | read (read : Option MidpEvent)
  | reset
  deriving DecidableEq, Repr

/-- A call with the result shown; the monitor thread calls `waitForNativeEvent` when it is not
blocked. -/
def Isolate.step (s : Isolate) : EventOp → Except Unit Isolate
  | .store e accepted => if (s.store e).1 = accepted then .ok (s.store e).2 else .error ()
  | .wait r => if !s.monitorBlocked ∧ s.wait.1 = r then .ok s.wait.2 else .error ()
  | .read r => if s.read.1 = r then .ok s.read.2 else .error ()
  | .reset => .ok s.reset

def Isolate.Step (s : Isolate) (op : EventOp) (s' : Isolate) : Prop := s.step op = .ok s'

/-! ## Events stored and read -/

/-- The events accepted by the calls, in order. -/
def accepted : List EventOp → List MidpEvent
  | [] => []
  | .store e true :: ops => e :: accepted ops
  | _ :: ops => accepted ops

/-- The events read by the calls, in order. -/
def reads : List EventOp → List MidpEvent
  | [] => []
  | .wait (some e) :: ops => e :: reads ops
  | .read (some e) :: ops => e :: reads ops
  | _ :: ops => reads ops

theorem Isolate.store_spec {s : Isolate} (hs : s.queue.Valid) (e : MidpEvent) :
    (s.store e).2.queue.Valid ∧
      (s.store e).2.queue.pending = s.queue.pending ++ if (s.store e).1 then [e] else [] := by
  unfold Isolate.store
  split
  case isTrue hroom =>
    obtain ⟨hvalid, hpending⟩ := EventQueue.put_valid hs e hroom
    simp only
    split
    · exact ⟨⟨hvalid.slots, hvalid.out_lt, hvalid.count_le, hvalid.in_eq⟩, hpending⟩
    · exact ⟨hvalid, hpending⟩
  case isFalse => exact ⟨hs, by simp⟩

theorem Isolate.read_spec {s : Isolate} (hs : s.queue.Valid) :
    s.read.2.queue.Valid ∧ s.queue.pending = s.read.1.toList ++ s.read.2.queue.pending := by
  unfold Isolate.read
  by_cases h0 : s.queue.numEvents = 0
  · rw [EventQueue.getPending_none h0]
    exact ⟨hs, rfl⟩
  · obtain ⟨e, q', hget, hvalid, hpending, -⟩ := EventQueue.getPending_some hs h0
    rw [hget]
    exact ⟨hvalid, hpending⟩

theorem Isolate.wait_spec {s : Isolate} (hs : s.queue.Valid) :
    s.wait.2.queue.Valid ∧ s.queue.pending = s.wait.1.toList ++ s.wait.2.queue.pending := by
  obtain ⟨hvalid, hpending⟩ := s.read_spec hs
  unfold Isolate.wait
  rcases hread : s.read with ⟨r, s'⟩
  rw [hread] at hvalid hpending
  cases r with
  | some e => exact ⟨hvalid, hpending⟩
  | none => exact ⟨⟨hvalid.slots, hvalid.out_lt, hvalid.count_le, hvalid.in_eq⟩, hpending⟩

/-- What one call that is not a reset does to the events pending. -/
theorem Isolate.step_pending {s s' : Isolate} (hs : s.queue.Valid) {op : EventOp}
    (hop : op ≠ .reset) (h : s.Step op s') :
    s.queue.pending ++ accepted [op] = reads [op] ++ s'.queue.pending := by
  cases op with
  | store e ok =>
    simp only [Isolate.Step, Isolate.step] at h
    split at h
    · rename_i hok
      obtain ⟨⟩ := h
      rw [(s.store_spec hs e).2, hok]
      cases ok <;> simp [accepted, reads]
    · cases h
  | wait r =>
    simp only [Isolate.Step, Isolate.step] at h
    split at h
    · rename_i hr
      obtain ⟨⟩ := h
      rw [(s.wait_spec hs).2, hr.2]
      cases r <;> simp [accepted, reads]
    · cases h
  | read r =>
    simp only [Isolate.Step, Isolate.step] at h
    split at h
    · rename_i hr
      obtain ⟨⟩ := h
      rw [(s.read_spec hs).2, hr]
      cases r <;> simp [accepted, reads]
    · cases h
  | reset => exact absurd rfl hop

theorem Isolate.step_valid {s s' : Isolate} {op : EventOp} (hs : s.queue.Valid)
    (h : s.Step op s') : s'.queue.Valid := by
  cases op with
  | store e ok =>
    simp only [Isolate.Step, Isolate.step] at h
    split at h <;> cases h
    exact (s.store_spec hs e).1
  | wait r =>
    simp only [Isolate.Step, Isolate.step] at h
    split at h <;> cases h
    exact (s.wait_spec hs).1
  | read r =>
    simp only [Isolate.Step, Isolate.step] at h
    split at h <;> cases h
    exact (s.read_spec hs).1
  | reset =>
    cases h
    exact (EventQueue.reset_spec hs).2.1

theorem accepted_cons (op : EventOp) (ops : List EventOp) :
    accepted (op :: ops) = accepted [op] ++ accepted ops := by
  cases op with
  | store e ok => cases ok <;> rfl
  | _ => rfl

theorem reads_cons (op : EventOp) (ops : List EventOp) :
    reads (op :: ops) = reads [op] ++ reads ops := by
  cases op with
  | wait r => cases r <;> rfl
  | read r => cases r <;> rfl
  | _ => rfl

/-- **First in, first out**: over calls that do not reset the queue, the events read are the events
that were pending and those accepted, in order, up to the events still pending. -/
theorem Isolate.run_pending {s s' : Isolate} {ops : List EventOp}
    (hrun : Lts.Run Isolate.Step s ops s') (hs : s.queue.Valid) (hops : .reset ∉ ops) :
    s.queue.pending ++ accepted ops = reads ops ++ s'.queue.pending := by
  induction hrun with
  | nil s => simp [accepted, reads]
  | @cons s s₁ s' op ops hstep _ ih =>
    obtain ⟨hop, hops⟩ := not_or.1 (fun h => hops (List.mem_cons.2 h))
    have hone := s.step_pending hs (Ne.symm hop) hstep
    have hrest := ih (s.step_valid hs hstep) hops
    calc s.queue.pending ++ accepted (op :: ops)
        = (s.queue.pending ++ accepted [op]) ++ accepted ops := by
          rw [accepted_cons, List.append_assoc]
      _ = reads [op] ++ (s₁.queue.pending ++ accepted ops) := by rw [hone, List.append_assoc]
      _ = reads (op :: ops) ++ s'.queue.pending := by
          rw [hrest, reads_cons op ops, List.append_assoc]

/-! ## The monitor thread -/

/-- The flag tells that the monitor thread is blocked, which it is only for want of events. -/
structure Isolate.Honest (s : Isolate) : Prop where
  valid : s.queue.Valid
  blocked : s.monitorBlocked = true → s.queue.numEvents = 0 ∧ s.queue.isMonitorBlocked = true
  flag : s.queue.isMonitorBlocked = true → s.special = true

/-- **The condition on a call**: no reset finds the monitor thread blocked. -/
def Isolate.Resets (s : Isolate) : EventOp → Prop
  | .reset => s.monitorBlocked = false
  | _ => True

instance (s : Isolate) : (op : EventOp) → Decidable (s.Resets op)
  | .reset => inferInstanceAs (Decidable (_ = _))
  | .store .. | .wait _ | .read _ => inferInstanceAs (Decidable True)

theorem Isolate.read_honest {s : Isolate} (hs : s.Honest) : s.read.2.Honest := by
  obtain ⟨hvalid, hblocked, hflag⟩ := hs
  refine ⟨(s.read_spec hvalid).1, ?_, ?_⟩
  · intro h
    obtain ⟨h0, hf⟩ := hblocked h
    unfold Isolate.read
    rw [EventQueue.getPending_none h0]
    exact ⟨h0, hf⟩
  · unfold Isolate.read EventQueue.getPending
    split
    · exact hflag
    · exact hflag

/-- A read that finds no event leaves none. -/
theorem Isolate.read_none {s : Isolate} (hs : s.queue.Valid) (h : s.read.1 = none) :
    s.read.2.queue.numEvents = 0 := by
  unfold Isolate.read at h ⊢
  by_cases h0 : s.queue.numEvents = 0
  · rw [EventQueue.getPending_none h0]
    exact h0
  · obtain ⟨e, q', hget, -⟩ := EventQueue.getPending_some hs h0
    rw [hget] at h
    cases h

theorem Isolate.wait_honest {s : Isolate} (hs : s.Honest) : s.wait.2.Honest := by
  have hread := s.read_honest hs
  have hvalid := (s.wait_spec hs.valid).1
  have hnone := s.read_none hs.valid
  unfold Isolate.wait at hvalid ⊢
  generalize s.read = r at hread hnone hvalid ⊢
  obtain ⟨r, s'⟩ := r
  cases r with
  | some e => exact hread
  | none => exact ⟨hvalid, fun _ => ⟨hnone rfl, rfl⟩, fun _ => rfl⟩

theorem Isolate.step_honest {s s' : Isolate} {op : EventOp} (hs : s.Honest) (hok : s.Resets op)
    (h : s.Step op s') : s'.Honest := by
  have hvalid := s.step_valid hs.valid h
  cases op with
  | store e ok =>
    simp only [Isolate.Step, Isolate.step] at h
    split at h <;> cases h
    refine ⟨hvalid, ?_, ?_⟩
    · unfold Isolate.store
      split
      · simp only
        split
        · intro hb
          cases hb
        · rename_i hnot
          intro hb
          -- a blocked monitor would have been woken
          have hf := (hs.blocked hb).2
          exact absurd (by simpa [EventQueue.put, hf] using hs.flag hf) hnot
      · exact hs.blocked
    · unfold Isolate.store
      split
      · simp only
        split
        · intro hf
          cases hf
        · exact hs.flag
      · exact hs.flag
  | wait r =>
    simp only [Isolate.Step, Isolate.step] at h
    split at h <;> cases h
    exact s.wait_honest hs
  | read r =>
    simp only [Isolate.Step, Isolate.step] at h
    split at h <;> cases h
    exact s.read_honest hs
  | reset =>
    cases h
    obtain ⟨-, -, h0, hf⟩ := EventQueue.reset_spec hs.valid
    refine ⟨hvalid, fun hb => ?_, fun h => ?_⟩
    · have hb : s.monitorBlocked = true := hb
      rw [hok] at hb
      cases hb
    · have h : s.queue.reset.2.isMonitorBlocked = true := h
      rw [hf] at h
      cases h

/-! ## Runs -/

theorem Isolate.new_honest : Isolate.Honest {} where
  valid := EventQueue.new_valid
  blocked := by simp
  flag := by simp

/-- **Events are delivered in order, and nobody sleeps through one**: in every run in which no reset
finds the monitor thread blocked, the events read since the last reset (or the start) are the first
of those accepted since then, the others are pending, there are at most `MAX_EVENTS` of these, and a
blocked monitor thread has no event to read and is known to be blocked. -/
theorem Isolate.delivers_of_run {ops : List EventOp} {s : Isolate}
    (hrun : Lts.Run (Lts.Guarded Isolate.Step Isolate.Resets) {} ops s) :
    (∀ before since, ops = before ++ since → (before = [] ∨ before.getLast? = some .reset) →
      .reset ∉ since → accepted since = reads since ++ s.queue.pending) ∧
    s.queue.numEvents ≤ MAX_EVENTS ∧ s.queue.pending.length = s.queue.numEvents ∧
    (s.monitorBlocked = true → s.queue.numEvents = 0 ∧ s.queue.isMonitorBlocked = true) := by
  have hs : s.Honest := hrun.invariant (I := Isolate.Honest)
    (fun s op _ hs h => s.step_honest hs h.1 h.2) Isolate.new_honest
  have hrun : Lts.Run Isolate.Step {} ops s := hrun.mono fun _ _ _ h => h.2
  refine ⟨?_, hs.valid.count_le, s.queue.pending_length, hs.blocked⟩
  rintro before since rfl hreset hsince
  obtain ⟨s₁, hbefore, hafter⟩ := hrun.append_inv
  have hvalid : s₁.queue.Valid := hbefore.invariant (I := fun s => s.queue.Valid)
    (fun s _ _ hs h => s.step_valid hs h) EventQueue.new_valid
  have hempty : s₁.queue.pending = [] := by
    rcases hreset with rfl | hlast
    · cases hbefore
      rfl
    · -- the last call before was a reset
      obtain ⟨init, rfl⟩ := List.getLast?_eq_some_iff.1 hlast
      obtain ⟨s₀, hinit, hlast⟩ := hbefore.append_inv
      have hvalid₀ : s₀.queue.Valid := hinit.invariant (I := fun s => s.queue.Valid)
        (fun s _ _ hs h => s.step_valid hs h) EventQueue.new_valid
      cases hlast with
      | cons hstep hnil =>
        cases hnil
        cases hstep
        have h0 := (EventQueue.reset_spec hvalid₀).2.2.1
        apply List.eq_nil_of_length_eq_zero
        rw [EventQueue.pending_length]
        exact h0
  have hfifo := Isolate.run_pending hafter hvalid hsince
  rw [hempty, List.nil_append] at hfifo
  exact hfifo

/-- Two key events: one read at once, one that wakes the monitor thread. -/
theorem Isolate.delivers_of_run_wakes :
    ∃ s, Lts.Run (Lts.Guarded Isolate.Step Isolate.Resets) {}
        [.reset, .store { type := 1 } true, .wait (some { type := 1 }), .wait none,
          .store { type := 2 } true] s ∧
      accepted [.store { type := 1 } true, .wait (some { type := 1 }), .wait none,
          .store { type := 2 } true] = [{ type := 1 }] ++ s.queue.pending ∧
      s.monitorBlocked = false := by
  obtain ⟨s, hrun, hawake⟩ := Lts.Run.exists_of_exec Isolate.step (fun s op => decide (s.Resets op))
    (fun s => s.monitorBlocked = false) {}
    [.reset, .store { type := 1 } true, .wait (some { type := 1 }), .wait none,
      .store { type := 2 } true] (by decide +kernel)
  have hrun : Lts.Run (Lts.Guarded Isolate.Step Isolate.Resets) {} _ s :=
    hrun.mono fun _ _ _ h => ⟨of_decide_eq_true h.1, h.2⟩
  have hfifo := (Isolate.delivers_of_run hrun).1 [.reset] _ rfl (.inr rfl) (by decide)
  exact ⟨s, hrun, hfifo, hawake⟩

/-- A reset while the monitor thread is blocked: the flag is cleared, and the next event does not
wake the thread. -/
theorem Isolate.monitor_frozen :
    ∃ s, Lts.Run Isolate.Step {} [.wait none, .reset, .store { type := 1 } true] s ∧
      s.monitorBlocked = true ∧ s.queue.isMonitorBlocked = false ∧ s.queue.numEvents = 1 := by
  obtain ⟨s, hrun, hfrozen⟩ := Lts.Run.exists_of_exec Isolate.step (fun _ _ => true)
    (fun s => s.monitorBlocked = true ∧ s.queue.isMonitorBlocked = false ∧ s.queue.numEvents = 1)
    {} [.wait none, .reset, .store { type := 1 } true] (by decide +kernel)
  exact ⟨s, hrun.mono fun _ _ _ h => h.2, hfrozen⟩

end FroggyKVM.Events
