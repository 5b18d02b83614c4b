/-
# FroggyKVM.Timers.TaskStates — the states of tasks, under the two locks.

`sched` and `mainLoop` hold the lock of the queue, and inside it, for part of the way, the lock of a
task; `TimerTask.cancel` takes the lock of the task alone.  So a task may be cancelled after `sched`
has accepted it and before it is on the queue, and after `mainLoop` has called `getMin` and before it
looks at the state.  A step here is what happens under one of the locks without letting go.

What the states are for is said over a `Ledger` of the tasks: a one-shot task starts once, not at all
when a `cancel` returned true, and is on the queue once.  A task of fixed delay starts again no earlier
than its period after the last decision to start it, unless the sum overflows.
-/
import FroggyKVM.Timers.Run
import FroggyKVM.Timers.Heap

namespace FroggyKVM.Timers

open Function

/-! ## Under the lock of the queue -/

/-- Where the thread that holds the lock of the queue has let go of the lock of a task, or has not
taken it. -/
inductive Holding where
  /-- `sched` is about to lock the task -/
  | scheduling (t : TaskId) (time period : Int)
  /-- `sched` has accepted the task and is about to call `queue.add` -/
  | adding (t : TaskId)
  /-- `mainLoop` of thread `i` has called `getMin` and is about to lock the task -/
  | looked (i : Nat) (t : TaskId)
  deriving DecidableEq, Repr

/-- A timer, what the holder of its lock is at, and what has happened to its tasks. -/
structure Observed where
  timer : Timer
  holder : Option Holding := none
  /-- the tasks that `sched` has accepted -/
  accepted : List TaskId := []
  /-- the tasks for which `cancel` has returned true -/
  cancelled : List TaskId := []
  /-- when it was decided to start a task, the latest first -/
  starts : TaskId → List Int := fun _ => []

/-- What `mainLoop` does under the lock of the task that `getMin` returned. -/
def Timer.decide (s : Timer) (i : Nat) (t : TaskId) (now : Int) : Except Fault Timer :=
  let task := s.tasks t
  if task.state = .CANCELLED then do
    let queue ← s.queue.removeMin s.time
    return { s with queue }.setPc i .loopTop
  else if task.nextExecutionTime ≤ now then
    if task.period = 0 then do
      let queue ← s.queue.removeMin s.time
      return ({ s with queue }.setTask t { task with state := .EXECUTED }).setPc i (.running t)
    else do
      let next := if task.period < 0 then i64 (now - task.period)
        else i64 (task.nextExecutionTime + task.period)
      let s := s.setTask t { task with nextExecutionTime := next }
      let queue ← s.queue.fixMin s.time
      return { s with queue }.setPc i (.running t)
  else .ok (s.setPc i .fireWait)

/-- What may happen next. -/
inductive Action where
  /-- `sched` takes the lock of the queue and sees to the thread -/
  | schedEnter (t : TaskId) (time period : Int)
  /-- `sched` takes the lock of the task -/
  | schedTask
  /-- `queue.add`, and `queue.notify` if need be -/
  | schedAdd
  /-- a call of `TimerTask.cancel` -/
  | cancelTask (t : TaskId)
  /-- a thread takes the lock of the queue in `mainLoop` -/
  | enter (i : Nat)
  /-- it takes the lock of the task it looked at -/
  | decide (now : Int)
  | catchException (i : Nat)
  /-- any other operation -/
  | other (op : TimerOp)
  /-- another timer changes a task -/
  | elsewhere (t : TaskId) (task : TimerTask)
  deriving DecidableEq, Repr

/-- An operation that locks the queue waits for the lock, and the thread that has it does nothing
else. -/
def permits (holder : Option Holding) : TimerOp → Bool
  | .cancel => holder.isNone
  | .catchError _ => holder.isNone
  | .timeOut i | .interrupt i | .runEnds i _ | .die i =>
    match holder with
    | some (.looked j _) => i ≠ j
    | _ => true
  | .sched .. | .monitor .. | .cancelTask _ | .catchException _ => false

/-- `TimerTask.cancel`, which returns whether the task was scheduled. -/
def Observed.cancelTask (s : Observed) (t : TaskId) : Observed :=
  { s with
    timer := s.timer.cancelTask t
    cancelled := if (s.timer.tasks t).state = .SCHEDULED then t :: s.cancelled else s.cancelled }

def Observed.look (s : Observed) (i : Nat) : Except Fault Observed := do
  let t ← s.timer.queue.getMin
  return { s with holder := some (.looked i t) }

/-- `mainLoop` of thread `i` up to the lock of a task. -/
def Observed.enter (s : Observed) (i : Nat) : Except Fault Observed :=
  match s.timer.threads[i]? with
  | some .loopTop =>
    if s.timer.queue.isEmpty then
      if s.timer.queue.newTasksMayBeScheduled then
        .ok { s with timer := s.timer.setPc i .idleWait }
      else .ok { s with timer := s.timer.setPc i .returned }
    else s.look i
  | some .idleWoken =>
    if s.timer.queue.isEmpty then .ok { s with timer := s.timer.setPc i .returned } else s.look i
  | some .fireWoken => .ok { s with timer := s.timer.setPc i .loopTop }
  | _ => .error .disabled

/-- The task that is started, and the clock. -/
def Observed.decision (s : Observed) : Action → Option (TaskId × Int)
  | .decide now =>
    match s.holder with
    | some (.looked _ t) =>
      if (s.timer.tasks t).state ≠ .CANCELLED ∧ (s.timer.tasks t).nextExecutionTime ≤ now then
        some (t, now)
      else none
    | _ => none
  | _ => none

def record (starts : TaskId → List Int) : Option (TaskId × Int) → TaskId → List Int
  | none => starts
  | some (t, now) => update starts t (now :: starts t)

def Observed.step (s : Observed) (a : Action) : Except Fault Observed :=
  match a with
  | .schedEnter t time period =>
    if s.holder.isSome then .error .disabled
    else if time < 0 then .ok s
    else if !s.timer.queue.newTasksMayBeScheduled then .ok s
    else .ok { s with timer := s.timer.startThread, holder := some (.scheduling t time period) }
  | .schedTask =>
    match s.holder with
    | some (.scheduling t time period) =>
      if (s.timer.tasks t).state ≠ .VIRGIN then .ok { s with holder := none }
      else
        let task := { state := .SCHEDULED, nextExecutionTime := time, period := period }
        .ok { s with
          timer := s.timer.setTask t task
          holder := some (.adding t)
          accepted := t :: s.accepted }
    | _ => .error .disabled
  | .schedAdd =>
    match s.holder with
    | some (.adding t) => do
      let queue ← s.timer.queue.add s.timer.time t
      let min ← queue.getMin
      let threads := if min = t then notify s.timer.threads else s.timer.threads
      return { s with timer := { s.timer with queue, threads }, holder := none }
    | _ => .error .disabled
  | .cancelTask t => .ok (s.cancelTask t)
  | .enter i => if s.holder.isSome then .error .disabled else s.enter i
  | .decide now =>
    match s.holder with
    | some (.looked i t) => do
      let timer ← s.timer.decide i t now
      return { s with timer, holder := none, starts := record s.starts (s.decision a) }
    | _ => .error .disabled
  | .catchException i =>
    match s.timer.threads[i]? with
    | some (.excepted t) =>
      let s := s.cancelTask t
      .ok { s with timer := s.timer.setPc i .loopTop }
    | _ => .error .disabled
  | .other op => do
    if !permits s.holder op then throw .disabled
    let timer ← s.timer.step op
    return { s with timer }
  | .elsewhere t task =>
    -- what another timer has accepted is not virgin, and stays so
    if t ∈ s.accepted ∨ task.state = .VIRGIN then .error .disabled
    else .ok { s with timer := s.timer.setTask t task }

/-! ## What the states are for -/

/-- The tasks of a timer, as its users see them. -/
structure Ledger where
  task : TaskId → TimerTask
  queued : Multiset TaskId
  /-- accepted, and not on the queue yet -/
  adding : Option TaskId
  accepted : List TaskId
  cancelled : List TaskId
  starts : TaskId → List Int

/-- One step, and the task it starts. -/
inductive Ledger.Step : Ledger → Option (TaskId × Int) → Ledger → Prop
  | quiet (l : Ledger) : Step l none l
  | clear (l : Ledger) : Step l none { l with queued := 0 }
  | accept {l : Ledger} {t : TaskId} (time period : Int) :
      (l.task t).state = .VIRGIN →
      Step l none { l with
        task := update l.task t { state := .SCHEDULED, nextExecutionTime := time, period := period }
        adding := some t
        accepted := t :: l.accepted }
  | add {l : Ledger} {t : TaskId} :
      l.adding = some t → Step l none { l with queued := t ::ₘ l.queued, adding := none }
  | cancel (l : Ledger) (t : TaskId) :
      Step l none { l with
        task := update l.task t { l.task t with state := .CANCELLED }
        cancelled := if (l.task t).state = .SCHEDULED then t :: l.cancelled else l.cancelled }
  | drop (l : Ledger) (t : TaskId) : Step l none { l with queued := l.queued.erase t }
  | once {l : Ledger} {t : TaskId} (now : Int) :
      t ∈ l.queued → (l.task t).state ≠ .CANCELLED → (l.task t).nextExecutionTime ≤ now →
      (l.task t).period = 0 →
      Step l (some (t, now)) { l with
        task := update l.task t { l.task t with state := .EXECUTED }
        queued := l.queued.erase t
        starts := record l.starts (some (t, now)) }
  | again {l : Ledger} {t : TaskId} (now next : Int) :
      t ∈ l.queued → (l.task t).state ≠ .CANCELLED → (l.task t).nextExecutionTime ≤ now →
      (l.task t).period ≠ 0 → ((l.task t).period < 0 → next = i64 (now - (l.task t).period)) →
      Step l (some (t, now)) { l with
        task := update l.task t { l.task t with nextExecutionTime := next }
        starts := record l.starts (some (t, now)) }
  | elsewhere {l : Ledger} {t : TaskId} (task : TimerTask) :
      t ∉ l.accepted → task.state ≠ .VIRGIN → Step l none { l with task := update l.task t task }

/-- What holds of one task, its state and its starts. -/
structure Sound (task : TimerTask) (isQueued isAdding isAccepted isCancelled : Prop)
    (starts : List Int) : Prop where
  queued : isQueued → isAccepted
  adding : isAdding → isAccepted ∧ ¬ isQueued ∧ starts = []
  accepted : isAccepted → task.state ≠ .VIRGIN
  started : starts ≠ [] → isAccepted
  oneShot : task.period = 0 → starts ≠ [] →
    starts.length = 1 ∧ ¬ isQueued ∧ task.state ≠ .SCHEDULED
  cancelled : isCancelled → task.state ≠ .VIRGIN ∧
    (isAccepted → task.state = .CANCELLED ∧ (task.period = 0 → starts = []))

/-- What the states of the tasks keep to. -/
structure Ledger.Inv (l : Ledger) : Prop where
  nodup : l.queued.Nodup
  each : ∀ t, Sound (l.task t) (t ∈ l.queued) (l.adding = some t) (t ∈ l.accepted)
    (t ∈ l.cancelled) (l.starts t)

section

variable {task : TimerTask} {isQueued isAdding isAccepted isCancelled : Prop} {starts : List Int}

/-- A one-shot task that is on the queue was not started. -/
theorem Sound.fresh (h : Sound task isQueued isAdding isAccepted isCancelled starts)
    (hqueued : isQueued) (hperiod : task.period = 0) : starts = [] := by
  by_contra hne
  exact (h.oneShot hperiod hne).2.1 hqueued

theorem Sound.not_started (h : Sound task isQueued isAdding isAccepted isCancelled starts)
    (hnew : ¬ isAccepted) : starts = [] := by
  by_contra hne
  exact hnew (h.started hne)

theorem Sound.unqueue (h : Sound task isQueued isAdding isAccepted isCancelled starts)
    {stillQueued : Prop} (hless : stillQueued → isQueued) :
    Sound task stillQueued isAdding isAccepted isCancelled starts :=
  { h with
    queued := fun hq => h.queued (hless hq)
    adding := fun ha => ⟨(h.adding ha).1, fun hq => (h.adding ha).2.1 (hless hq), (h.adding ha).2.2⟩
    oneShot := fun hp hne => ⟨(h.oneShot hp hne).1, fun hq => (h.oneShot hp hne).2.1 (hless hq),
      (h.oneShot hp hne).2.2⟩ }

theorem Sound.notAdding (h : Sound task isQueued isAdding isAccepted isCancelled starts) :
    Sound task isQueued False isAccepted isCancelled starts := { h with adding := nofun }

theorem Sound.accept (h : Sound task isQueued isAdding isAccepted isCancelled starts)
    (hvirgin : task.state = .VIRGIN) (time period : Int) :
    Sound { state := .SCHEDULED, nextExecutionTime := time, period := period }
      isQueued True True isCancelled starts := by
  have hnew : ¬ isAccepted := fun hacc => h.accepted hacc hvirgin
  have hstarts := h.not_started hnew
  constructor
  · exact fun _ => trivial
  · exact fun _ => ⟨trivial, fun hq => hnew (h.queued hq), hstarts⟩
  · exact fun _ => nofun
  · exact fun _ => trivial
  · exact fun _ hne => absurd hstarts hne
  · exact fun hc => absurd hvirgin (h.cancelled hc).1

theorem Sound.add (h : Sound task isQueued isAdding isAccepted isCancelled starts)
    (hadding : isAdding) : Sound task True False isAccepted isCancelled starts := by
  obtain ⟨hacc, -, hstarts⟩ := h.adding hadding
  exact { h with
    queued := fun _ => hacc
    adding := nofun
    oneShot := fun _ hne => absurd hstarts hne }

/-- `cancel` returns true only while a one-shot task has not been started. -/
theorem Sound.cancel (h : Sound task isQueued isAdding isAccepted isCancelled starts) :
    Sound { task with state := .CANCELLED } isQueued isAdding isAccepted
      (task.state = .SCHEDULED ∨ isCancelled) starts := by
  refine { h with
    accepted := fun _ => nofun
    oneShot := fun hp hne => ⟨(h.oneShot hp hne).1, (h.oneShot hp hne).2.1, nofun⟩
    cancelled := fun hc => ⟨nofun, fun hacc => ⟨rfl, fun hp => ?_⟩⟩ }
  rcases hc with hscheduled | hc
  · by_contra hne
    exact (h.oneShot hp hne).2.2 hscheduled
  · exact ((h.cancelled hc).2 hacc).2 hp

theorem Sound.once (h : Sound task isQueued isAdding isAccepted isCancelled starts)
    (hqueued : isQueued) (hnot : task.state ≠ .CANCELLED) (hperiod : task.period = 0) (now : Int) :
    Sound { task with state := .EXECUTED } False isAdding isAccepted isCancelled
      (now :: starts) := by
  have hacc := h.queued hqueued
  have hstarts := h.fresh hqueued hperiod
  constructor
  · exact nofun
  · exact fun ha => absurd hqueued (h.adding ha).2.1
  · exact fun _ => nofun
  · exact fun _ => hacc
  · intro _ _
    rw [hstarts]
    exact ⟨rfl, not_false, nofun⟩
  · exact fun hc => absurd ((h.cancelled hc).2 hacc).1 hnot

theorem Sound.again (h : Sound task isQueued isAdding isAccepted isCancelled starts)
    (hqueued : isQueued) (hnot : task.state ≠ .CANCELLED) (hperiod : task.period ≠ 0)
    (now next : Int) :
    Sound { task with nextExecutionTime := next } isQueued isAdding isAccepted isCancelled
      (now :: starts) := by
  have hacc := h.queued hqueued
  constructor
  · exact fun _ => hacc
  · exact fun ha => absurd hqueued (h.adding ha).2.1
  · exact h.accepted
  · exact fun _ => hacc
  · exact fun hp => absurd hp hperiod
  · exact fun hc => absurd ((h.cancelled hc).2 hacc).1 hnot

theorem Sound.elsewhere (h : Sound task isQueued isAdding isAccepted isCancelled starts)
    (hnew : ¬ isAccepted) {task' : TimerTask} (hstate : task'.state ≠ .VIRGIN) :
    Sound task' isQueued isAdding isAccepted isCancelled starts :=
  { h with
    accepted := fun hacc => absurd hacc hnew
    oneShot := fun _ hne => absurd (h.not_started hnew) hne
    cancelled := fun _ => ⟨hstate, fun hacc => absurd hacc hnew⟩ }

end

/-- **A step keeps what the states promise**, whatever the task. -/
theorem Ledger.Inv.step {l l' : Ledger} {e : Option (TaskId × Int)} (h : l.Inv)
    (hs : Ledger.Step l e l') : l'.Inv := by
  cases hs with
  | quiet => exact h
  | clear =>
    exact ⟨Multiset.nodup_zero,
      fun u => (h.each u).unqueue fun hq => absurd hq (Multiset.notMem_zero u)⟩
  | drop t => exact ⟨h.nodup.erase t, fun u => (h.each u).unqueue Multiset.mem_of_mem_erase⟩
  | @accept t time period hvirgin =>
    refine ⟨h.nodup, fun u => ?_⟩
    have hu := h.each u
    by_cases hut : u = t
    · subst hut
      simpa using hu.accept hvirgin time period
    · simpa [hut, Ne.symm hut] using hu.notAdding
  | @add t hadding =>
    obtain ⟨-, hnot, -⟩ := (h.each t).adding hadding
    refine ⟨Multiset.nodup_cons.2 ⟨hnot, h.nodup⟩, fun u => ?_⟩
    have hu := h.each u
    by_cases hut : u = t
    · subst hut
      simpa using hu.add hadding
    · simpa [hut] using hu.notAdding
  | cancel t =>
    refine ⟨h.nodup, fun u => ?_⟩
    have hu := h.each u
    by_cases hut : u = t
    · subst hut
      have hcancel := hu.cancel
      dsimp only
      split
      case isTrue hstate => simpa [hstate] using hcancel
      case isFalse hstate => simpa [hstate] using hcancel
    · dsimp only
      split
      · simpa [hut] using hu
      · simpa [hut] using hu
  | @once t now hqueued hnot hdue hperiod =>
    refine ⟨h.nodup.erase t, fun u => ?_⟩
    have hu := h.each u
    by_cases hut : u = t
    · subst hut
      simpa [record, Multiset.Nodup.notMem_erase h.nodup] using hu.once hqueued hnot hperiod now
    · simpa [record, hut] using hu.unqueue Multiset.mem_of_mem_erase
  | @again t now next hqueued hnot hdue hperiod hnext =>
    refine ⟨h.nodup, fun u => ?_⟩
    have hu := h.each u
    by_cases hut : u = t
    · subst hut
      simpa [record] using hu.again hqueued hnot hperiod now next
    · simpa [record, hut] using hu
  | @elsewhere t task hnew hstate =>
    refine ⟨h.nodup, fun u => ?_⟩
    have hu := h.each u
    by_cases hut : u = t
    · subst hut
      simpa using hu.elsewhere hnew hstate
    · simpa [hut] using hu

/-- The next execution time of a task of fixed delay can be represented. -/
def Ledger.Fits (l : Ledger) (e : Option (TaskId × Int)) : Prop :=
  ∀ t now, e = some (t, now) → (l.task t).period < 0 →
    -9223372036854775808 ≤ now ∧ now - (l.task t).period < 9223372036854775808

/-- The decisions to start a task are apart by the period. -/
def Apart (period : Int) (starts : List Int) : Prop :=
  starts.IsChain fun later earlier => earlier - period ≤ later

/-- The tasks of fixed delay: their starts, and the next one. -/
def Ledger.Spaced (l : Ledger) : Prop :=
  ∀ t, (l.task t).period < 0 → Apart (l.task t).period (l.starts t) ∧
    ∀ last rest, l.starts t = last :: rest →
      (l.task t).nextExecutionTime = last - (l.task t).period

theorem i64_eq {x : Int} (hlo : -9223372036854775808 ≤ x) (hhi : x < 9223372036854775808) :
    i64 x = x := Int.bmod_eq_of_le (by omega) (by omega)

theorem Ledger.Spaced.step {l l' : Ledger} {e : Option (TaskId × Int)} (h : l.Spaced) (hl : l.Inv)
    (hfits : l.Fits e) (hs : Ledger.Step l e l') : l'.Spaced := by
  cases hs with
  | quiet => exact h
  | clear => exact h
  | drop => exact h
  | add => exact h
  | @accept t time period hvirgin =>
    intro u hu
    dsimp only at hu ⊢
    by_cases hut : u = t
    · subst hut
      have hstarts : l.starts u = [] :=
        (hl.each u).not_started fun hacc => (hl.each u).accepted hacc hvirgin
      rw [hstarts]
      exact ⟨.nil, nofun⟩
    · rw [update_of_ne hut] at hu ⊢
      exact h u hu
  | cancel t =>
    intro u hu
    dsimp only at hu ⊢
    by_cases hut : u = t
    · subst hut
      rw [update_self] at hu ⊢
      exact h u hu
    · rw [update_of_ne hut] at hu ⊢
      exact h u hu
  | @once t now hqueued hnot hdue hperiod =>
    intro u hu
    dsimp only [record] at hu ⊢
    by_cases hut : u = t
    · subst hut
      rw [update_self] at hu
      exact absurd hu (by rw [hperiod]; decide)
    · rw [update_of_ne hut] at hu
      rw [update_of_ne hut, update_of_ne hut]
      exact h u hu
  | @again t now next hqueued hnot hdue hperiod hnext =>
    intro u hu
    dsimp only [record] at hu ⊢
    by_cases hut : u = t
    · subst hut
      rw [update_self] at hu
      rw [update_self, update_self]
      have hneg : (l.task u).period < 0 := hu
      obtain ⟨happart, hlast⟩ := h u hu
      obtain ⟨hlo, hhi⟩ := hfits u now rfl hu
      refine ⟨?_, fun last rest heq => ?_⟩
      · -- the task was due, so the clock has reached what the last decision set
        cases hstarts : l.starts u with
        | nil => exact .singleton now
        | cons last rest =>
          rw [hstarts] at happart
          refine .cons_cons ?_ happart
          rw [← hlast last rest hstarts]
          exact hdue
      · obtain rfl : now = last := List.head_eq_of_cons_eq heq
        rw [hnext hu, i64_eq (by omega) hhi]
    · rw [update_of_ne hut] at hu
      rw [update_of_ne hut, update_of_ne hut]
      exact h u hu
  | @elsewhere t task hnew hstate =>
    intro u hu
    dsimp only at hu ⊢
    by_cases hut : u = t
    · subst hut
      rw [(hl.each u).not_started hnew]
      exact ⟨.nil, nofun⟩
    · rw [update_of_ne hut] at hu ⊢
      exact h u hu

/-! ## The timer keeps the ledger -/

theorem Timer.time_setTask (s : Timer) (t : TaskId) (task : TimerTask) :
    (s.setTask t task).time = update s.time t task.nextExecutionTime := by
  funext u
  show (update s.tasks t task u).nextExecutionTime = update s.time t task.nextExecutionTime u
  by_cases hut : u = t
  · subst hut
    rw [update_self, update_self]
  · rw [update_of_ne hut, update_of_ne hut]
    rfl

/-- Changing a task without its time. -/
theorem Timer.time_setTask_self (s : Timer) (t : TaskId) (task : TimerTask)
    (h : task.nextExecutionTime = s.time t) : (s.setTask t task).time = s.time := by
  rw [Timer.time_setTask, h, update_eq_self]

def Holding.task : Option Holding → Option TaskId
  | some (.adding t) => some t
  | _ => none

def Observed.ledger (s : Observed) : Ledger where
  task := s.timer.tasks
  queued := s.timer.queue.tasks
  adding := Holding.task s.holder
  accepted := s.accepted
  cancelled := s.cancelled
  starts := s.starts

structure Observed.Inv (s : Observed) : Prop where
  heap : s.timer.queue.IsHeap s.timer.time
  looked : ∀ i t, s.holder = some (.looked i t) → s.timer.queue.queue[1]? = some (some t)
  ledger : s.ledger.Inv

/-- What the decision makes of the task at the head. -/
inductive Timer.Decided (s : Timer) (t : TaskId) (now : Int) (s' : Timer) : Prop
  | dropped : (s.tasks t).state = .CANCELLED → s'.tasks = s.tasks →
      s'.queue.tasks = s.queue.tasks.erase t → Decided s t now s'
  | once : (s.tasks t).state ≠ .CANCELLED → (s.tasks t).nextExecutionTime ≤ now →
      (s.tasks t).period = 0 →
      s'.tasks = update s.tasks t { s.tasks t with state := .EXECUTED } →
      s'.queue.tasks = s.queue.tasks.erase t → Decided s t now s'
  | again (next : Int) : (s.tasks t).state ≠ .CANCELLED → (s.tasks t).nextExecutionTime ≤ now →
      (s.tasks t).period ≠ 0 → ((s.tasks t).period < 0 → next = i64 (now - (s.tasks t).period)) →
      s'.tasks = update s.tasks t { s.tasks t with nextExecutionTime := next } →
      s'.queue.tasks = s.queue.tasks → Decided s t now s'
  | early : (s.tasks t).state ≠ .CANCELLED → ¬ (s.tasks t).nextExecutionTime ≤ now →
      s'.tasks = s.tasks → s'.queue.tasks = s.queue.tasks → Decided s t now s'

theorem Timer.decide_succeeds {s : Timer} (hheap : s.queue.IsHeap s.time)
    (hnodup : s.queue.tasks.Nodup) {t : TaskId} (ht : s.queue.queue[1]? = some (some t)) (i : Nat)
    (now : Int) :
    Succeeds (s.decide i t now) fun s' => s'.queue.IsHeap s'.time ∧ s.Decided t now s' := by
  have hne : s.queue.isEmpty = false := by
    have := hheap.packed.outside 1 t ht
    simp only [TaskQueue.isEmpty, decide_eq_false_iff_not]
    omega
  unfold Timer.decide
  dsimp only
  split
  case isTrue hcancelled =>
    refine .bind (TaskQueue.removeMin_holds hheap hne ht) fun Q hQ => .pure ?_
    exact ⟨hQ.1, .dropped hcancelled rfl hQ.2⟩
  case isFalse hnot =>
    split
    case isTrue hdue =>
      split
      case isTrue hperiod =>
        refine .bind (TaskQueue.removeMin_holds hheap hne ht) fun Q hQ => .pure ?_
        refine ⟨?_, .once hnot hdue hperiod rfl hQ.2⟩
        have htime := Timer.time_setTask_self { s with queue := Q } t
          { s.tasks t with state := .EXECUTED } rfl
        show Q.IsHeap (Timer.setTask { s with queue := Q } t _).time
        rw [htime]
        exact hQ.1
      case isFalse hperiod =>
        generalize hnext : (if (s.tasks t).period < 0 then i64 (now - (s.tasks t).period)
          else i64 ((s.tasks t).nextExecutionTime + (s.tasks t).period)) = next
        have hfix := TaskQueue.fixMin_holds hheap hnodup ht next
        have htime := Timer.time_setTask s t { s.tasks t with nextExecutionTime := next }
        rw [← htime] at hfix
        refine .bind hfix fun Q hQ => .pure ⟨hQ.1, .again next hnot hdue hperiod ?_ rfl hQ.2⟩
        intro hneg
        rw [← hnext, if_pos hneg]
    case isFalse hearly => exact .ok ⟨hheap, .early hnot hearly rfl rfl⟩

theorem Timer.startThread_same (s : Timer) :
    s.startThread.tasks = s.tasks ∧ s.startThread.queue = s.queue := by
  unfold Timer.startThread
  split
  · exact ⟨rfl, rfl⟩
  · exact ⟨rfl, rfl⟩

/-- The remaining operations leave the tasks alone, and empty the queue if anything. -/
theorem Timer.step_permitted {s s' : Timer} {holder : Option Holding} {op : TimerOp}
    (hpermits : permits holder op = true) (hs : s.step op = .ok s') :
    s'.tasks = s.tasks ∧ (s'.queue = s.queue ∨
      holder = none ∧ s'.queue = { s.queue.clear with newTasksMayBeScheduled := false }) := by
  cases op with
  | cancel =>
    obtain rfl := Except.ok.inj hs
    exact ⟨rfl, .inr ⟨Option.isNone_iff_eq_none.1 hpermits, rfl⟩⟩
  | catchError i =>
    simp only [Timer.step] at hs
    split at hs
    · obtain rfl := Except.ok.inj hs
      exact ⟨rfl, .inr ⟨Option.isNone_iff_eq_none.1 hpermits, rfl⟩⟩
    · cases hs
  | timeOut i | interrupt i | runEnds i how | die i =>
    simp only [Timer.step] at hs
    split at hs
    all_goals first
      | cases hs
        exact ⟨rfl, .inl rfl⟩
      | cases hs
  | sched | monitor | cancelTask | catchException => cases hpermits

/-- A step of the ledger, to a state whose queue is in order. -/
structure Observed.Follows (s : Observed) (e : Option (TaskId × Int)) (s' : Observed) : Prop where
  heap : s'.timer.queue.IsHeap s'.timer.time
  looked : ∀ i t, s'.holder = some (.looked i t) → s'.timer.queue.queue[1]? = some (some t)
  step : Ledger.Step s.ledger e s'.ledger

/-- Nothing happens to the tasks and the queue. -/
theorem Observed.Inv.quiet {s : Observed} (h : s.Inv) {timer : Timer} {holder : Option Holding}
    (htasks : timer.tasks = s.timer.tasks) (hqueue : timer.queue = s.timer.queue)
    (hlooked : ∀ i t, holder = some (.looked i t) → s.timer.queue.queue[1]? = some (some t))
    (hadding : Holding.task holder = Holding.task s.holder) :
    s.Follows none { s with timer, holder } := by
  have htime : timer.time = s.timer.time := by
    unfold Timer.time
    rw [htasks]
  have hledger : Observed.ledger { s with timer, holder } = s.ledger := by
    unfold Observed.ledger
    simp only [htasks, hqueue, hadding]
  refine ⟨?_, ?_, ?_⟩
  · show timer.queue.IsHeap timer.time
    rw [hqueue, htime]
    exact h.heap
  · show ∀ i t, holder = some (.looked i t) → timer.queue.queue[1]? = some (some t)
    rw [hqueue]
    exact hlooked
  · rw [hledger]
    exact .quiet _

theorem Observed.Inv.cancelTask {s : Observed} (h : s.Inv) (t : TaskId) (pcs : List Pc) :
    s.Follows none
      { s.cancelTask t with timer := { (s.cancelTask t).timer with threads := pcs } } := by
  refine ⟨?_, h.looked, .cancel s.ledger t⟩
  have htime := s.timer.time_setTask_self t { s.timer.tasks t with state := .CANCELLED } rfl
  show s.timer.queue.IsHeap (s.timer.setTask t _).time
  rw [htime]
  exact h.heap

theorem Observed.Inv.enter {s : Observed} (h : s.Inv) (hnone : s.holder = none) (i : Nat) :
    Returns (s.enter i) (s.Follows none) := by
  have hpc (pc : Pc) : s.Follows none { s with timer := s.timer.setPc i pc } :=
    h.quiet rfl rfl h.looked rfl
  have hlook (hne : ¬ s.timer.queue.isEmpty = true) : Returns (s.look i) (s.Follows none) := by
    obtain ⟨t, hmin, ht, -⟩ := TaskQueue.getMin_least h.heap (by simpa using hne)
    unfold Observed.look
    rw [hmin]
    refine .pure (h.quiet rfl rfl (fun j u hu => ?_) (by rw [hnone]; rfl))
    cases hu
    exact ht
  unfold Observed.enter
  split
  case h_1 =>
    split
    case isTrue =>
      split
      case isTrue => exact .ok (hpc _)
      case isFalse => exact .ok (hpc _)
    case isFalse hne => exact hlook hne
  case h_2 =>
    split
    case isTrue => exact .ok (hpc _)
    case isFalse hne => exact hlook hne
  case h_3 => exact .ok (hpc _)
  case h_4 => exact .error

theorem Observed.Inv.decide {s : Observed} (h : s.Inv) {i : Nat} {t : TaskId}
    (hholder : s.holder = some (.looked i t)) (now : Int) :
    Returns (s.timer.decide i t now) fun timer => s.Follows (s.decision (.decide now))
      { s with timer, holder := none, starts := record s.starts (s.decision (.decide now)) } := by
  have ht := h.looked i t hholder
  have hmem : t ∈ s.timer.queue.tasks := by
    rw [TaskQueue.tasks_eq h.heap.packed]
    exact mem_reduceOption_of_getElem? ht
  refine (Timer.decide_succeeds h.heap h.ledger.nodup ht i now).returns.mono ?_
  rintro timer ⟨hheap, hdecided⟩
  refine ⟨hheap, nofun, ?_⟩
  have hledger : s.ledger = ⟨s.timer.tasks, s.timer.queue.tasks, none, s.accepted, s.cancelled,
      s.starts⟩ := by
    unfold Observed.ledger
    rw [hholder]
    rfl
  have hdecision : s.decision (.decide now) =
      if (s.timer.tasks t).state ≠ .CANCELLED ∧ (s.timer.tasks t).nextExecutionTime ≤ now then
        some (t, now)
      else none := by
    unfold Observed.decision
    rw [hholder]
  show Ledger.Step s.ledger _ ⟨timer.tasks, timer.queue.tasks, none, s.accepted, s.cancelled,
    record s.starts _⟩
  rw [hledger, hdecision]
  cases hdecided with
  | dropped hcancelled htasks hqueue =>
    rw [if_neg fun hstart => hstart.1 hcancelled, htasks, hqueue]
    exact .drop _ t
  | once hnot hdue hperiod htasks hqueue =>
    rw [if_pos ⟨hnot, hdue⟩, htasks, hqueue]
    exact .once now hmem hnot hdue hperiod
  | again next hnot hdue hperiod hnext htasks hqueue =>
    rw [if_pos ⟨hnot, hdue⟩, htasks, hqueue]
    exact .again now next hmem hnot hdue hperiod hnext
  | early hnot hearly htasks hqueue =>
    rw [if_neg fun hstart => hearly hstart.2, htasks, hqueue]
    exact .quiet _

theorem Observed.Inv.schedTask {s : Observed} (h : s.Inv) {t : TaskId} (time period : Int)
    (hvirgin : (s.timer.tasks t).state = .VIRGIN) :
    s.Follows none { s with
      timer := s.timer.setTask t
        { state := .SCHEDULED, nextExecutionTime := time, period := period }
      holder := some (.adding t)
      accepted := t :: s.accepted } := by
  have hnew : t ∉ s.timer.queue.tasks := by
    intro hq
    have hsound := h.ledger.each t
    exact hsound.accepted (hsound.queued hq) hvirgin
  refine ⟨?_, nofun, .accept time period hvirgin⟩
  dsimp only
  rw [Timer.time_setTask]
  exact h.heap.update hnew time

theorem Observed.Inv.schedAdd {s : Observed} (h : s.Inv) {t : TaskId}
    (hholder : s.holder = some (.adding t)) :
    Returns (do
      let queue ← s.timer.queue.add s.timer.time t
      let min ← queue.getMin
      let threads := if min = t then notify s.timer.threads else s.timer.threads
      return { s with timer := { s.timer with queue, threads }, holder := none })
      (s.Follows none) := by
  refine .bind (TaskQueue.add_holds s.timer.time t h.heap).returns fun Q hQ => .bind_any fun min =>
    .pure ⟨hQ.1, nofun, ?_⟩
  have hadding : s.ledger.adding = some t := by
    unfold Observed.ledger
    rw [hholder]
    rfl
  show Ledger.Step s.ledger none ⟨s.timer.tasks, Q.tasks, none, s.accepted, s.cancelled, s.starts⟩
  rw [hQ.2]
  exact .add hadding

theorem Observed.Inv.other {s : Observed} (h : s.Inv) {op : TimerOp}
    (hpermits : permits s.holder op = true) :
    Returns (s.timer.step op) fun timer => s.Follows none { s with timer } := by
  intro timer hs
  obtain ⟨htasks, hqueue | ⟨hnone, hqueue⟩⟩ := Timer.step_permitted hpermits hs
  · exact h.quiet htasks hqueue h.looked rfl
  · have htime : timer.time = s.timer.time := by
      unfold Timer.time
      rw [htasks]
    obtain ⟨hheap, hempty⟩ := TaskQueue.clear_holds h.heap
    refine ⟨?_, fun i t hholder => absurd (hnone.symm.trans hholder) nofun, ?_⟩
    · show timer.queue.IsHeap timer.time
      rw [hqueue, htime]
      exact ⟨hheap.packed, hheap.length, hheap.ordered⟩
    · have hzero : timer.queue.tasks = 0 := by
        rw [hqueue]
        exact hempty
      show Ledger.Step s.ledger none
        ⟨timer.tasks, timer.queue.tasks, _, s.accepted, s.cancelled, s.starts⟩
      rw [htasks, hzero]
      exact .clear _

theorem Observed.Inv.elsewhere {s : Observed} (h : s.Inv) {t : TaskId} {task : TimerTask}
    (hnew : t ∉ s.accepted) (hstate : task.state ≠ .VIRGIN) :
    s.Follows none { s with timer := s.timer.setTask t task } := by
  refine ⟨?_, h.looked, .elsewhere task hnew hstate⟩
  show s.timer.queue.IsHeap (s.timer.setTask t task).time
  rw [Timer.time_setTask]
  exact h.heap.update (fun hq => hnew ((h.ledger.each t).queued hq)) task.nextExecutionTime

/-- **One step of the timer is one of the ledger**, with the same decision. -/
theorem Observed.Inv.step {s : Observed} (h : s.Inv) (a : Action) :
    Returns (s.step a) (s.Follows (s.decision a)) := by
  cases a with
  | schedEnter t time period =>
    simp only [Observed.step]
    split
    case isTrue => exact .error
    case isFalse hnone =>
      have hnone : s.holder = none := by simpa using hnone
      split
      case isTrue => exact .ok (h.quiet rfl rfl h.looked rfl)
      case isFalse =>
        split
        case isTrue => exact .ok (h.quiet rfl rfl h.looked rfl)
        case isFalse =>
          obtain ⟨htasks, hqueue⟩ := s.timer.startThread_same
          exact .ok (h.quiet htasks hqueue nofun (by rw [hnone]; rfl))
  | schedTask =>
    simp only [Observed.step]
    split
    case h_1 t time period hholder =>
      split
      case isTrue => exact .ok (h.quiet rfl rfl nofun (by rw [hholder]; rfl))
      case isFalse hvirgin => exact .ok (h.schedTask time period (Decidable.not_not.1 hvirgin))
    case h_2 => exact .error
  | schedAdd =>
    simp only [Observed.step]
    split
    case h_1 t hholder => exact h.schedAdd hholder
    case h_2 => exact .error
  | cancelTask t => exact .ok (h.cancelTask t s.timer.threads)
  | enter i =>
    simp only [Observed.step]
    split
    case isTrue => exact .error
    case isFalse hnone => exact h.enter (by simpa using hnone) i
  | decide now =>
    simp only [Observed.step]
    split
    case h_1 i t hholder =>
      exact .bind (h.decide hholder now) fun timer hfollows => .pure hfollows
    case h_2 => exact .error
  | catchException i =>
    simp only [Observed.step]
    split
    case h_1 t ht => exact .ok (h.cancelTask t _)
    case h_2 => exact .error
  | other op =>
    simp only [Observed.step]
    split
    case isTrue => exact .error
    case isFalse hpermits =>
      exact .bind (h.other (by simpa using hpermits)) fun timer hfollows => .pure hfollows
  | elsewhere t task =>
    simp only [Observed.step]
    split
    case isTrue => exact .error
    case isFalse hnot =>
      obtain ⟨hnew, hstate⟩ := not_or.1 hnot
      exact .ok (h.elsewhere hnew hstate)

/-! ## Runs -/

def IsLong (x : Int) : Prop := -9223372036854775808 ≤ x ∧ x < 9223372036854775808

instance (x : Int) : Decidable (IsLong x) :=
  inferInstanceAs (Decidable (-9223372036854775808 ≤ x ∧ x < 9223372036854775808))

/-- Times are `long`s; `schedule` negates a positive `long` for a fixed delay. -/
def Action.Typed : Action → Prop
  | .schedEnter _ time period => IsLong time ∧ IsLong period ∧ IsLong (-period)
  | .decide now => IsLong now
  | .elsewhere _ task => IsLong task.nextExecutionTime ∧ IsLong task.period
  | _ => True

instance : DecidablePred Action.Typed
  | .schedEnter _ time period =>
    inferInstanceAs (Decidable (IsLong time ∧ IsLong period ∧ IsLong (-period)))
  | .decide now => inferInstanceAs (Decidable (IsLong now))
  | .elsewhere _ task =>
    inferInstanceAs (Decidable (IsLong task.nextExecutionTime ∧ IsLong task.period))
  | .schedTask | .schedAdd | .cancelTask _ | .enter _ | .catchException _ | .other _ =>
    instDecidableTrue

def Observed.Step (s : Observed) (a : Action) (s' : Observed) : Prop := a.Typed ∧ s.step a = .ok s'

/-- A new timer among the tasks there are. -/
def Observed.new (tasks : TaskId → TimerTask) : Observed := { timer := Timer.new tasks }

/-- Where a task of fixed delay is due, the clock and its period have a sum. -/
def Observed.Fits (s : Observed) (a : Action) : Prop :=
  ∀ t now, s.decision a = some (t, now) → (s.timer.tasks t).period < 0 →
    now - (s.timer.tasks t).period < 9223372036854775808

instance (s : Observed) (a : Action) : Decidable (s.Fits a) :=
  match h : s.decision a with
  | none => isTrue fun _ _ hdecision => nomatch h.symm.trans hdecision
  | some (t, now) =>
    decidable_of_iff ((s.timer.tasks t).period < 0 →
        now - (s.timer.tasks t).period < 9223372036854775808) <| by
      refine ⟨fun hfits u now' hdecision hneg => ?_, fun hfits => hfits t now h⟩
      cases Option.some.inj (h.symm.trans hdecision)
      exact hfits hneg

/-- The states of the tasks are honoured. -/
structure Observed.Honours (s : Observed) : Prop where
  once : ∀ t, (s.timer.tasks t).period = 0 → (s.starts t).length ≤ 1
  cancelled : ∀ t ∈ s.cancelled, (s.timer.tasks t).period = 0 → s.starts t = []
  queued : s.timer.queue.tasks.Nodup
  apart : ∀ t, (s.timer.tasks t).period < 0 → Apart (s.timer.tasks t).period (s.starts t)

theorem Observed.Inv.of_step {s s' : Observed} (h : s.Inv) {a : Action} (hs : s.Step a s') :
    s'.Inv ∧ Ledger.Step s.ledger (s.decision a) s'.ledger := by
  obtain ⟨hheap, hlooked, hstep⟩ := h.step a s' hs.2
  exact ⟨⟨hheap, hlooked, h.ledger.step hstep⟩, hstep⟩

theorem Observed.Fits.ledger {s s' : Observed} {a : Action} (h : s.Fits a) (hs : s.Step a s') :
    s.ledger.Fits (s.decision a) := by
  intro t now hdecision hneg
  refine ⟨?_, h t now hdecision hneg⟩
  cases a with
  | decide now' =>
    obtain rfl : now' = now := by
      simp only [Observed.decision] at hdecision
      split at hdecision
      · split at hdecision
        · exact congrArg Prod.snd (Option.some.inj hdecision)
        · cases hdecision
      · cases hdecision
    exact hs.1.1
  | _ => cases hdecision

theorem Observed.new_inv (tasks : TaskId → TimerTask) : (Observed.new tasks).Inv where
  heap := TaskQueue.new_isHeap _
  looked := nofun
  ledger := by
    have hempty : (Observed.new tasks).ledger.queued = 0 := by
      show TaskQueue.tasks {} = 0
      rw [TaskQueue.tasks_eq (TaskQueue.new_isHeap fun _ => 0).packed]
      rfl
    refine ⟨by rw [hempty]; exact Multiset.nodup_zero, fun t => ?_⟩
    rw [hempty]
    constructor
    · exact fun hq => absurd hq (Multiset.notMem_zero t)
    · exact nofun
    · exact nofun
    · exact fun hne => absurd rfl hne
    · exact fun _ hne => absurd rfl hne
    · exact nofun

theorem Observed.Inv.once {s : Observed} (h : s.Inv) (t : TaskId)
    (hperiod : (s.timer.tasks t).period = 0) : (s.starts t).length ≤ 1 := by
  by_cases hne : s.starts t = []
  · rw [hne]
    exact Nat.zero_le 1
  · exact Nat.le_of_eq ((h.ledger.each t).oneShot hperiod hne).1

theorem Observed.Inv.kept {s : Observed} (h : s.Inv) {t : TaskId} (ht : t ∈ s.cancelled)
    (hperiod : (s.timer.tasks t).period = 0) : s.starts t = [] := by
  by_contra hne
  have hsound := h.ledger.each t
  exact hne (((hsound.cancelled ht).2 (hsound.started hne)).2 hperiod)

/-- **The states of tasks are honoured in every run**: one-shots and cancellations always, fixed
delays while the sum of the clock and a period fits. -/
theorem Observed.honours_of_run (tasks : TaskId → TimerTask) :
    (∀ actions s, Lts.Run Observed.Step (Observed.new tasks) actions s →
      (∀ t, (s.timer.tasks t).period = 0 → (s.starts t).length ≤ 1) ∧
      (∀ t ∈ s.cancelled, (s.timer.tasks t).period = 0 → s.starts t = []) ∧
      s.timer.queue.tasks.Nodup) ∧
    ∀ actions s, Lts.Run (Lts.Guarded Observed.Step Observed.Fits) (Observed.new tasks) actions s →
      s.Honours := by
  refine ⟨fun actions s hrun => ?_, fun actions s hrun => ?_⟩
  · have hinv : s.Inv :=
      hrun.invariant (fun _ _ _ h hs => (h.of_step hs).1) (Observed.new_inv tasks)
    exact ⟨hinv.once, fun t => hinv.kept, hinv.ledger.nodup⟩
  · have hboth : s.Inv ∧ s.ledger.Spaced := by
      refine hrun.invariant (I := fun s => s.Inv ∧ s.ledger.Spaced) (fun s₁ a s₂ h hs => ?_)
        ⟨Observed.new_inv tasks, fun t _ => ?_⟩
      · obtain ⟨hinv, hstep⟩ := h.1.of_step hs.2
        exact ⟨hinv, h.2.step h.1.ledger (hs.1.ledger hs.2) hstep⟩
      · exact ⟨.nil, nofun⟩
    obtain ⟨hinv, hspaced⟩ := hboth
    exact ⟨hinv.once, fun t => hinv.kept, hinv.ledger.nodup, fun t hneg => (hspaced t hneg).1⟩

/-- A task is scheduled at 0, is started at `now`, and its thread looks at it again at `later`. -/
def twice (period now later : Int) : List Action :=
  [.schedEnter 0 0 period, .schedTask, .schedAdd, .enter 0, .decide now,
    .other (.runEnds 0 .normal), .enter 0, .decide later]

theorem Observed.honours_of_run_twice :
    ∃ s, Lts.Run (Lts.Guarded Observed.Step Observed.Fits) (Observed.new fun _ => {})
      (twice (-10) 0 10) s ∧ s.starts 0 = [10, 0] ∧ s.Honours := by
  obtain ⟨s, hrun, hstarts⟩ := Lts.Run.exists_of_exec Observed.step
    (fun s a => decide (a.Typed ∧ s.Fits a)) (fun s => s.starts 0 = [10, 0])
    (Observed.new fun _ => {}) (twice (-10) 0 10) (by decide +kernel)
  have hrun : Lts.Run (Lts.Guarded Observed.Step Observed.Fits) (Observed.new fun _ => {}) _ s :=
    hrun.mono fun _ _ _ h => ⟨(of_decide_eq_true h.1).2, (of_decide_eq_true h.1).1, h.2⟩
  exact ⟨s, hrun, hstarts, (Observed.honours_of_run _).2 _ s hrun⟩

/-- With the longest delay there is, the sum overflows and the task is due at once. -/
theorem Observed.not_honours :
    ¬ ∀ tasks actions s, Lts.Run Observed.Step (Observed.new tasks) actions s → s.Honours := by
  intro h
  obtain ⟨s, hrun, hperiod, hstarts⟩ := Lts.Run.exists_of_exec Observed.step
    (fun _ a => decide a.Typed)
    (fun s => (s.timer.tasks 0).period = -9223372036854775807 ∧ s.starts 0 = [2, 1])
    (Observed.new fun _ => {}) (twice (-9223372036854775807) 1 2) (by decide +kernel)
  have hrun : Lts.Run Observed.Step (Observed.new fun _ => {}) _ s :=
    hrun.mono fun _ _ _ h => ⟨of_decide_eq_true h.1, h.2⟩
  have happart := (h _ _ s hrun).apart 0 (by rw [hperiod]; decide)
  rw [hperiod, hstarts] at happart
  exact absurd (List.isChain_cons_cons.1 happart).1 (by decide)

end FroggyKVM.Timers
