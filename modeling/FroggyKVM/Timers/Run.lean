/-
# FroggyKVM.Timers.Run — `java.util.Timer` and its thread, step by step.

`sched`, `cancel` and `TimerTask.cancel` may be called at any moment; the timer thread runs
`mainLoop`, whose monitor-protected sections are single steps here, as are a time-out of a wait, the
end of a task's `run`, and the death of a thread after `run` has returned.  An idle thread leaves the
loop when its wait times out, but it is alive until it dies, and `sched` starts a new thread only
when the old one is not alive: a task scheduled in between stays on the queue with nobody to run it.
`Timer.Attends` is the condition on a step that this does not happen.
-/
import FroggyKVM.Timers.Queue
import FroggyKVM.Lib.Lts

namespace FroggyKVM.Timers

/-- Conversion to a `long`. -/
def i64 (x : Int) : Int := Int.bmod x 18446744073709551616

/-! ## The timer and its threads -/

/-- Where a `TimerThread` stands. -/
inductive Pc where
  /-- at the head of the loop, outside the monitor -/
  | loopTop
  /-- in `queue.wait(THREAD_TIMEOUT)` -/
  | idleWait
  | idleWoken
  /-- in `queue.wait(executionTime - currentTime)` -/
  | fireWait
  | fireWoken
  /-- in `task.run()`, holding no locks -/
  | running (task : TaskId)
  /-- `task.run()` threw an `Exception` -/
  | excepted (task : TaskId)
  /-- `task.run()` threw an `Error`, which ends `mainLoop` -/
  | failed
  /-- `run` has returned, or has nothing left to do -/
  | returned
  | dead
  deriving DecidableEq, Repr

/-- The thread has not left the loop of `mainLoop`. -/
def Pc.inLoop : Pc → Bool
  | .failed | .returned | .dead => false
  | _ => true

/-- A `Timer`, the tasks there are, and the threads it has started. -/
structure Timer where
  tasks : TaskId → TimerTask
  queue : TaskQueue := {}
  threads : List Pc := []
  /-- the field `thread` -/
  thread : Option Nat := none

def Timer.time (s : Timer) (t : TaskId) : Int := (s.tasks t).nextExecutionTime

def Timer.setPc (s : Timer) (i : Nat) (pc : Pc) : Timer := { s with threads := s.threads.set i pc }

def Timer.setTask (s : Timer) (t : TaskId) (task : TimerTask) : Timer :=
  { s with tasks := Function.update s.tasks t task }

@[simp] theorem Timer.setPc_threads (s : Timer) (i : Nat) (pc : Pc) :
    (s.setPc i pc).threads = s.threads.set i pc := rfl

/-- `queue.notify()`; no more than one thread waits. -/
def notify : List Pc → List Pc
  | [] => []
  | .idleWait :: ps => .idleWoken :: ps
  | .fireWait :: ps => .fireWoken :: ps
  | p :: ps => p :: notify ps

/-! ## Calls -/

/-- `thread != null && thread.isAlive()`. -/
def Timer.threadAlive (s : Timer) : Bool :=
  match s.thread with
  | none => false
  | some i => s.threads[i]? ≠ some .dead

/-- `thread = new TimerThread(queue); thread.start()`, unless there is a thread that is alive. -/
def Timer.startThread (s : Timer) : Timer :=
  if s.threadAlive then s
  else { s with threads := s.threads ++ [.loopTop], thread := some s.threads.length }

/-- `sched`; a call that throws `IllegalArgumentException` or `IllegalStateException` does not get
to the queue. -/
def Timer.sched (s : Timer) (t : TaskId) (time period : Int) : Except Fault Timer :=
  if time < 0 then .ok s
  else if !s.queue.newTasksMayBeScheduled then .ok s
  else
    let s := s.startThread
    if (s.tasks t).state ≠ .VIRGIN then .ok s
    else do
      let s := s.setTask t { state := .SCHEDULED, nextExecutionTime := time, period := period }
      let queue ← s.queue.add s.time t
      let min ← queue.getMin
      return { s with queue, threads := if min = t then notify s.threads else s.threads }

/-- `Timer.cancel`. -/
def Timer.cancel (s : Timer) : Timer :=
  { s with queue := { s.queue.clear with newTasksMayBeScheduled := false }
           threads := notify s.threads }

/-- `TimerTask.cancel`. -/
def Timer.cancelTask (s : Timer) (t : TaskId) : Timer :=
  s.setTask t { s.tasks t with state := .CANCELLED }

/-! ## Steps of the thread -/

/-- The part of the monitor section that looks at the head task of a queue that is not empty, with
the clock at `now`. -/
def Timer.dispatch (s : Timer) (i : Nat) (now : Int) : Except Fault Timer := do
  let t ← s.queue.getMin
  let task := s.tasks t
  if task.state = .CANCELLED then
    let queue ← s.queue.removeMin s.time
    return { s with queue }.setPc i .loopTop
  if task.nextExecutionTime ≤ now then
    if task.period = 0 then
      let queue ← s.queue.removeMin s.time
      return ({ s with queue }.setTask t { task with state := .EXECUTED }).setPc i (.running t)
    let next := if task.period < 0 then i64 (now - task.period)
      else i64 (task.nextExecutionTime + task.period)
    let s := s.setTask t { task with nextExecutionTime := next }
    let queue ← s.queue.fixMin s.time
    return { s with queue }.setPc i (.running t)
  return s.setPc i .fireWait

/-- A monitor section of thread `i`. -/
def Timer.monitorSection (s : Timer) (i : Nat) (now : Int) : Except Fault Timer :=
  match s.threads[i]? with
  | some .loopTop =>
    if s.queue.isEmpty then
      if s.queue.newTasksMayBeScheduled then .ok (s.setPc i .idleWait)
      else .ok (s.setPc i .returned)
    else s.dispatch i now
  | some .idleWoken =>
    if s.queue.isEmpty then .ok (s.setPc i .returned) else s.dispatch i now
  | some .fireWoken => .ok (s.setPc i .loopTop)
  | _ => .error .disabled

/-- How a task's `run` ends. -/
inductive RunEnd where
  | normal
  | exception
  | error
  deriving DecidableEq, Repr

/-- What may happen next. -/
inductive TimerOp where
  | sched (t : TaskId) (time period : Int)
  | cancel
  | cancelTask (t : TaskId)
  | monitor (i : Nat) (now : Int)
  /-- the wait of a thread times out -/
  | timeOut (i : Nat)
  /-- the wait of a thread is interrupted; `mainLoop` catches that and loops -/
  | interrupt (i : Nat)
  | runEnds (i : Nat) (how : RunEnd)
  /-- `catch (Exception e) { task.cancel(); }` -/
  | catchException (i : Nat)
  /-- the handler in `TimerThread.run`, which behaves as if the timer was cancelled -/
  | catchError (i : Nat)
  | die (i : Nat)
  deriving DecidableEq, Repr

def Timer.step (s : Timer) : TimerOp → Except Fault Timer
  | .sched t time period => s.sched t time period
  | .cancel => .ok s.cancel
  | .cancelTask t => .ok (s.cancelTask t)
  | .monitor i now => s.monitorSection i now
  | .timeOut i =>
    match s.threads[i]? with
    | some .idleWait => .ok (s.setPc i .idleWoken)
    | some .fireWait => .ok (s.setPc i .fireWoken)
    | _ => .error .disabled
  | .interrupt i =>
    match s.threads[i]? with
    | some .idleWait | some .idleWoken | some .fireWait | some .fireWoken =>
      .ok (s.setPc i .loopTop)
    | _ => .error .disabled
  | .runEnds i how =>
    match s.threads[i]?, how with
    | some (.running _), .normal => .ok (s.setPc i .loopTop)
    | some (.running t), .exception => .ok (s.setPc i (.excepted t))
    | some (.running _), .error => .ok (s.setPc i .failed)
    | _, _ => .error .disabled
  | .catchException i =>
    match s.threads[i]? with
    | some (.excepted t) => .ok ((s.cancelTask t).setPc i .loopTop)
    | _ => .error .disabled
  | .catchError i =>
    match s.threads[i]? with
    | some .failed =>
      .ok ({ s with queue := { s.queue.clear with newTasksMayBeScheduled := false } }.setPc i
        .returned)
    | _ => .error .disabled
  | .die i =>
    match s.threads[i]? with
    | some .returned => .ok (s.setPc i .dead)
    | _ => .error .disabled

def Timer.Step (s : Timer) (op : TimerOp) (s' : Timer) : Prop := s.step op = .ok s'

/-- A new timer among the tasks there are. -/
def Timer.new (tasks : TaskId → TimerTask) : Timer := { tasks }

end FroggyKVM.Timers
