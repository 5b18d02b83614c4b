/-
# FroggyKVM.Threads.Synchronizer — monitors: stack locks, waiters and the scheduler's lists.

A locked object points at the near inside a `StackLock` on the stack of the thread that holds it;
the threads that `enter` put to sleep hang off that lock, linked through `next_waiting`.  The
scheduler's circular queues and its wait lists are a flag and lists here; a step that would put a
thread into a list twice, take it out of a list it is not in, or follow a null pointer has no
result.  Which thread runs next is left open.
-/
import FroggyKVM.Lib.Linked
import FroggyKVM.Lib.Lts

namespace FroggyKVM.Threads

open Linked

/-- The lock bits of a near. -/
inductive LockValue where
  | unlocked
  | locked
  | waiters
  deriving DecidableEq, Repr

/-- What an object's near pointer leads to: a near in the heap, which is never locked, or the copy
of one inside a stack lock. -/
inductive JavaNear (N L : Type) where
  | heap (near : N)
  | stack (lock : L)
  deriving DecidableEq

/-- A `StackLock`, with its owner and the lock bits of its copied near. -/
structure StackLock (T O N : Type) where
  thread : Option T := none
  realJavaNear : Option N := none
  waiters : Option T := none
  owner : Option O := none
  lockValue : LockValue := .unlocked
  deriving DecidableEq

/-- The fields that `StackLock::lock` writes. -/
def StackLock.taken {T O N : Type} (t : T) (o : O) (near : N) : StackLock T O N where
  thread := some t
  realJavaNear := some near
  owner := some o
  lockValue := .locked

/-- Threads, objects, heap nears and stack locks.  A field of a thread is a function of the thread.
`waiting` has the threads of the wait lists of all objects, in order of arrival. -/
structure State (T O N L : Type) where
  threads : List T := []
  active : T → Bool := fun _ => false
  nextWaiting : T → Option T := fun _ => none
  waitObj : T → Option O := fun _ => none
  waitStackLock : T → Option L := fun _ => none
  wakeupTime : T → Int := fun _ => 0
  waiting : List T := []
  sleeping : List T := []
  lock : L → StackLock T O N := fun _ => {}
  klass : O → JavaNear N L

variable {T O N L : Type} [DecidableEq T] [DecidableEq O] [DecidableEq L]

namespace State

/-! ## Fields -/

def setLock (l : L) (lock : StackLock T O N) (s : State T O N L) : State T O N L :=
  { s with lock := Function.update s.lock l lock }

def setOwner (l : L) (o : Option O) (s : State T O N L) : State T O N L :=
  s.setLock l { s.lock l with owner := o }

def clearRealJavaNear (l : L) (s : State T O N L) : State T O N L :=
  s.setLock l { s.lock l with realJavaNear := none }

def setKlass (o : O) (near : JavaNear N L) (s : State T O N L) : State T O N L :=
  { s with klass := Function.update s.klass o near }

def setWaitStackLock (t : T) (l : Option L) (s : State T O N L) : State T O N L :=
  { s with waitStackLock := Function.update s.waitStackLock t l }

def setWaitObj (t : T) (o : Option O) (s : State T O N L) : State T O N L :=
  { s with waitObj := Function.update s.waitObj t o }

/-- `is_locked`, of the near of an object. -/
def isLocked (s : State T O N L) (o : O) : Bool :=
  match s.klass o with
  | .heap _ => false
  | .stack l => (s.lock l).lockValue ≠ .unlocked

/-- `StackLock::from_java_oop`. -/
def fromJavaOop (s : State T O N L) (o : O) : Option L :=
  match s.klass o with
  | .heap _ => none
  | .stack l => some l

/-- `Synchronizer::is_locked_by`. -/
def isLockedBy (s : State T O N L) (o : O) (t : T) : Bool :=
  match s.klass o with
  | .heap _ => false
  | .stack l => (s.lock l).lockValue ≠ .unlocked ∧ (s.lock l).thread = some t

/-- `StackLock::set_waiters`. -/
def setWaiters (l : L) (t : T) (s : State T O N L) : State T O N L :=
  s.setLock l { s.lock l with lockValue := .waiters, waiters := some t }

/-- `StackLock::lock`: the near of the object is copied into the lock, and the object points at the
copy. -/
def lockStackLock (l : L) (t : T) (o : O) (s : State T O N L) : Option (State T O N L) :=
  match s.klass o with
  | .heap near => some ((s.setLock l (.taken t o near)).setKlass o (.stack l))
  | .stack _ => none

/-! ## The scheduler's lists -/

def addToActive (t : T) (s : State T O N L) : Option (State T O N L) :=
  if s.active t then none else some { s with active := Function.update s.active t true }

def removeFromActive (t : T) (s : State T O N L) : Option (State T O N L) :=
  if s.active t then some { s with active := Function.update s.active t false } else none

/-- `add_sync_thread`: the new head of the waiters, and the state. -/
def addSyncThread (t : T) (pendingWaiters : Option T) (o : O) (s : State T O N L) :
    Option (T × State T O N L) := do
  let s ← s.removeFromActive t
  let (head, s) ← match pendingWaiters with
    | none => some (t, s)
    | some head => do
      let tail ← tailOf s.nextWaiting s.threads.length head
      some (head, { s with nextWaiting := Function.update s.nextWaiting tail (some t) })
  let s := { s with nextWaiting := Function.update s.nextWaiting t none }
  some (head, s.setWaitObj t (some o))

/-- `add_waiting_thread`. -/
def addWaitingThread (t : T) (o : O) (s : State T O N L) : Option (State T O N L) := do
  let s ← s.removeFromActive t
  let s := { s with
    waiting := s.waiting ++ [t], nextWaiting := Function.update s.nextWaiting t none }
  some (s.setWaitObj t (some o))

/-- `remove_waiting_thread`: a thread without an object is sleeping. -/
def removeWaitingThread (t : T) (s : State T O N L) : Option (State T O N L) :=
  let s' := { s with nextWaiting := Function.update s.nextWaiting t none }
  match s.waitObj t with
  | none => if t ∈ s.sleeping then some { s' with sleeping := s.sleeping.erase t } else none
  | some _ => if t ∈ s.waiting then some { s' with waiting := s.waiting.erase t } else none

/-- The 64-bit integer with the same low 64 bits. -/
def i64 (x : Int) : Int := Int.bmod x 18446744073709551616

def maxJlong : Int := 9223372036854775807

/-- The time to wake up at, `millis` from `osTime`. -/
def wakeupAt (millis osTime : Int) : Int :=
  let wakeup := i64 (millis + osTime)
  if wakeup < osTime then maxJlong else wakeup

/-- `wait_for`; the `yield` of the current thread chooses the thread to run next. -/
def waitFor (t : T) (timeout osTime : Int) (s : State T O N L) : State T O N L :=
  let wakeup := if timeout > 0 then wakeupAt timeout osTime else timeout
  { s with wakeupTime := Function.update s.wakeupTime t wakeup }

/-! ## `Synchronizer` -/

/-- `enter`, for a stack lock whose owner is the object; the result says whether the thread has the
lock. -/
def enter (t : T) (l : L) (s : State T O N L) : Option (Bool × State T O N L) := do
  let o ← (s.lock l).owner
  if !s.isLocked o then
    let s ← s.lockStackLock l t o
    some (true, s)
  else
    let s := s.setWaitStackLock t (some l)
    let s := s.setOwner l none
    let l' ← s.fromJavaOop o
    let (head, s) ← s.addSyncThread t (s.lock l').waiters o
    let s := s.setWaiters l' head
    some (false, s.waitFor t 0 0)

/-- `signal_waiters`. -/
def signalWaiters (l : L) (s : State T O N L) : Option (State T O N L) := do
  let s' := s.clearRealJavaNear l
  match (s.lock l).waiters with
  | none => some s'
  | some firstWaiter => do
    let nextWaiter := s'.nextWaiting firstWaiter
    let s' ← s'.addToActive firstWaiter
    let o ← s'.waitObj firstWaiter
    let waitLock ← s'.waitStackLock firstWaiter
    let s' ← s'.lockStackLock waitLock firstWaiter o
    let s' := match nextWaiter with
      | some t => s'.setWaiters waitLock t
      | none => s'
    some ((s'.setWaitStackLock firstWaiter none).setWaitObj firstWaiter none)

/-- `exit`. -/
def exit (l : L) (s : State T O N L) : Option (State T O N L) := do
  let o ← (s.lock l).owner
  let near ← (s.lock l).realJavaNear
  ((s.setKlass o (.heap near)).setOwner l none).signalWaiters l

/-- `unlock_stack_lock`, which also takes a recursive lock. -/
def unlockStackLock (l : L) (s : State T O N L) : Option (State T O N L) := do
  let o ← (s.lock l).owner
  match (s.lock l).realJavaNear with
  | none => some (s.setOwner l none)
  | some near => ((s.setOwner l none).setKlass o (.heap near)).signalWaiters l

/-- The interpreter's `lock_object`: a recursive lock, the fast path, or `enter`. -/
def lockObject (t : T) (l : L) (o : O) (s : State T O N L) : Option (State T O N L) :=
  let s := s.setOwner l (some o)
  if s.isLocked o then
    if s.isLockedBy o t then some (s.clearRealJavaNear l)
    else ((s.clearRealJavaNear l).enter t l).map Prod.snd
  else s.lockStackLock l t o

/-- The interpreter's `unlock_object`; without the waiters bit nobody is signalled. -/
def unlockObject (o : O) (l : L) (s : State T O N L) : Option (State T O N L) :=
  let s' := s.setOwner l none
  match (s.lock l).realJavaNear with
  | none => some s'
  | some near =>
    let s' := s'.setKlass o (.heap near)
    if (s.lock l).lockValue = .waiters then s'.signalWaiters l else some s'

/-! ## `Scheduler` -/

/-- `notify_wakeup`. -/
def notifyWakeup (t : T) (s : State T O N L) : Option (State T O N L) := do
  let s ← s.addToActive t
  match s.waitObj t with
  | none => some s
  | some o => do
    let l ← s.waitStackLock t
    let s := s.setOwner l (some o)
    let s := (s.setWaitStackLock t none).setWaitObj t none
    (s.enter t l).map Prod.snd

/-- Take a thread out of its wait list and wake it up. -/
def wakeUp (t : T) (s : State T O N L) : Option (State T O N L) :=
  (s.removeWaitingThread t).bind (notifyWakeup t)

/-- The threads that wait for an object. -/
def waitersOf (s : State T O N L) (o : O) : List T := s.waiting.filter fun t => s.waitObj t = some o

/-- `wait`, with the clock; without the lock it throws. -/
def wait (t : T) (o : O) (millis osTime : Int) (s : State T O N L) : Option (State T O N L) :=
  if !s.isLockedBy o t then some s else do
    let l ← s.fromJavaOop o
    let s ← s.exit l
    let s := s.setWaitStackLock t (some l)
    let s ← s.addWaitingThread t o
    some (s.waitFor t millis osTime)

/-- `notify`; the loop follows the list of the threads that wait for the object. -/
def notify (t : T) (o : O) (all mustBeOwner : Bool) (s : State T O N L) :
    Option (State T O N L) :=
  if mustBeOwner && !s.isLockedBy o t then some s else
    (if all then s.waitersOf o else (s.waitersOf o).take 1).foldlM (fun s waker => s.wakeUp waker) s

/-- A thread that waits or sleeps is visited by `wake_up_timed_out_sleepers` at a time. -/
def timeOut (t : T) (time : Int) (s : State T O N L) : Option (State T O N L) :=
  if s.wakeupTime t ≠ 0 ∧ time ≥ s.wakeupTime t then s.wakeUp t else some s

/-- `start`. -/
def start (t : T) (s : State T O N L) : Option (State T O N L) :=
  { s with threads := t :: s.threads }.addToActive t

/-- `sleep_current_thread`. -/
def sleep (t : T) (millis osTime : Int) (s : State T O N L) : Option (State T O N L) := do
  let s ← s.removeFromActive t
  let s := { s with
    wakeupTime := Function.update s.wakeupTime t (wakeupAt millis osTime)
    sleeping := s.sleeping ++ [t] }
  some (s.setWaitObj t none)

end State

end FroggyKVM.Threads
