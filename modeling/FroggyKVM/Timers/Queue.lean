/-
# FroggyKVM.Timers.Queue — `java.util.TimerTask` and the binary heap of `java.util.Timer`.

`TaskQueue` keeps its tasks in an array from index 1 on, ordered by `nextExecutionTime`.  The array
holds references, so an entry is a task number or `null`; reading outside the array or following
`null` is a fault, and the two sifting loops take a fuel argument.  `TaskQueue.Filled` is the
invariant under which no operation faults.
-/
import FroggyKVM.Lib.Returns

namespace FroggyKVM.Timers

/-! ## Tasks -/

/-- A reference to a `TimerTask`. -/
abbrev TaskId := Nat

/-- `TimerTask.state`. -/
inductive TaskState where
  | VIRGIN
  | SCHEDULED
  | EXECUTED
  | CANCELLED
  deriving DecidableEq, Repr

/-- `TimerTask`; the times are `long`s. -/
structure TimerTask where
  state : TaskState := .VIRGIN
  nextExecutionTime : Int := 0
  period : Int := 0
  deriving DecidableEq, Repr

/-- Why a step has no successor: two exceptions of the Java code, a loop that did not come to its
end, and a step that is not the thread's next. -/
inductive Fault where
  | indexOutOfBounds
  | nullPointer
  | outOfFuel
  | disabled
  deriving DecidableEq, Repr

/-! ## The queue -/

structure TaskQueue where
  queue : List (Option TaskId) := List.replicate 4 none
  size : Nat := 0
  newTasksMayBeScheduled : Bool := true
  deriving DecidableEq, Repr

/-- The task that `queue[i]` refers to. -/
def taskAt (q : List (Option TaskId)) (i : Nat) : Except Fault TaskId :=
  match q[i]? with
  | none => .error .indexOutOfBounds
  | some none => .error .nullPointer
  | some (some t) => .ok t

/-- Exchange `queue[j]`, which is `a`, and `queue[k]`, which is `b`. -/
def exchange (q : List (Option TaskId)) (j k : Nat) (a b : TaskId) : List (Option TaskId) :=
  (q.set j (some b)).set k (some a)

/-- `fixUp`; `time` is the next execution time of a task. -/
def fixUp (time : TaskId → Int) : Nat → Nat → List (Option TaskId) →
    Except Fault (List (Option TaskId))
  | 0, _, _ => .error .outOfFuel
  | fuel + 1, k, q =>
    if k > 1 then do
      let j := k / 2
      let a ← taskAt q j
      let b ← taskAt q k
      if time a ≤ time b then return q
      fixUp time fuel j (exchange q j k a b)
    else .ok q

/-- The smallest kid of a node: `j` or `j + 1`. -/
def smallestKid (time : TaskId → Int) (size : Nat) (q : List (Option TaskId)) (j : Nat) :
    Except Fault Nat :=
  if j < size then do
    let a ← taskAt q j
    let b ← taskAt q (j + 1)
    return if time a > time b then j + 1 else j
  else .ok j

/-- `fixDown`. -/
def fixDown (time : TaskId → Int) (size : Nat) : Nat → Nat → List (Option TaskId) →
    Except Fault (List (Option TaskId))
  | 0, _, _ => .error .outOfFuel
  | fuel + 1, k, q =>
    if 2 * k ≤ size then do
      let j ← smallestKid time size q (2 * k)
      let a ← taskAt q k
      let b ← taskAt q j
      if time a ≤ time b then return q
      fixDown time size fuel j (exchange q k j a b)
    else .ok q

def TaskQueue.isEmpty (Q : TaskQueue) : Bool := Q.size = 0

def TaskQueue.getMin (Q : TaskQueue) : Except Fault TaskId := taskAt Q.queue 1

/-- `add`: the backing array doubles when it is full. -/
def TaskQueue.add (time : TaskId → Int) (t : TaskId) (Q : TaskQueue) : Except Fault TaskQueue := do
  let size := Q.size + 1
  let queue :=
    if size = Q.queue.length then
      Q.queue.take size ++ List.replicate (2 * Q.queue.length - size) none
    else Q.queue
  if queue.length ≤ size then throw .indexOutOfBounds
  let queue ← fixUp time size size (queue.set size (some t))
  return { Q with queue, size }

/-- `removeMin`, which is called on a queue that is not empty. -/
def TaskQueue.removeMin (time : TaskId → Int) (Q : TaskQueue) : Except Fault TaskQueue :=
  match Q.queue[Q.size]? with
  | none => .error .indexOutOfBounds
  | some last => do
    let queue := (Q.queue.set 1 last).set Q.size none
    let size := Q.size - 1
    let queue ← fixDown time size (size + 1) 1 queue
    return { Q with queue, size }

/-- The heap part of `rescheduleMin`, after the time of the head task has changed. -/
def TaskQueue.fixMin (time : TaskId → Int) (Q : TaskQueue) : Except Fault TaskQueue := do
  let queue ← fixDown time Q.size (Q.size + 1) 1 Q.queue
  return { Q with queue }

/-- `clear`. -/
def TaskQueue.clear (Q : TaskQueue) : TaskQueue :=
  { Q with
    queue := Q.queue.take 1 ++ List.replicate (min Q.size (Q.queue.length - 1)) none ++
      Q.queue.drop (Q.size + 1)
    size := 0 }

/-! ## No operation faults -/

/-- The array has room beyond the tasks, and the entries `1..size` are tasks. -/
structure Filled (q : List (Option TaskId)) (size : Nat) : Prop where
  room : size < q.length
  entry : ∀ i, 1 ≤ i → i ≤ size → ∃ t, q[i]? = some (some t)

/-- The queue between operations. -/
def TaskQueue.Filled (Q : TaskQueue) : Prop := Timers.Filled Q.queue Q.size ∧ 1 < Q.queue.length

theorem Filled.taskAt {q : List (Option TaskId)} {size i : Nat} (h : Filled q size) (h1 : 1 ≤ i)
    (hi : i ≤ size) : Succeeds (taskAt q i) fun _ => True := by
  obtain ⟨t, ht⟩ := h.entry i h1 hi
  exact ⟨t, by simp [Timers.taskAt, ht], trivial⟩

theorem Filled.set {q : List (Option TaskId)} {size : Nat} (h : Filled q size) (i : Nat)
    (t : TaskId) : Filled (q.set i (some t)) size where
  room := by
    rw [List.length_set]
    exact h.room
  entry := by
    intro j h1 hj
    have hlen := h.room
    rcases eq_or_ne i j with rfl | hne
    · exact ⟨t, List.getElem?_set_self (by omega)⟩
    · rw [List.getElem?_set_ne hne]
      exact h.entry j h1 hj

theorem Filled.exchange {q : List (Option TaskId)} {size : Nat} (h : Filled q size) (j k : Nat)
    (a b : TaskId) : Filled (exchange q j k a b) size := (h.set j b).set k a

theorem exchange_length (q : List (Option TaskId)) (j k : Nat) (a b : TaskId) :
    (exchange q j k a b).length = q.length := by simp [exchange]

/-- What sifting keeps. -/
def Sifted (q : List (Option TaskId)) (size : Nat) (q' : List (Option TaskId)) : Prop :=
  Filled q' size ∧ q'.length = q.length

/-- `fixUp` halves its index until the root. -/
theorem fixUp_ok (time : TaskId → Int) {size : Nat} :
    ∀ (fuel k : Nat) {q : List (Option TaskId)}, Filled q size → 1 ≤ k → k ≤ size → k ≤ fuel →
      Succeeds (fixUp time fuel k q) (Sifted q size)
  | 0, k, _, _, h1, _, hfuel => by omega
  | fuel + 1, k, q, hq, h1, hk, hfuel => by
    unfold fixUp
    split
    case isTrue hgt =>
      refine .bind (hq.taskAt (i := k / 2) (by omega) (by omega)) fun a _ => ?_
      refine .bind (hq.taskAt h1 hk) fun b _ => ?_
      split
      · exact .pure ⟨hq, rfl⟩
      · have hsift := fixUp_ok time fuel (k / 2) (hq.exchange (k / 2) k a b)
          (by omega) (by omega) (by omega)
        exact hsift.mono fun q' h => ⟨h.1, h.2.trans (exchange_length ..)⟩
    case isFalse => exact .ok ⟨hq, rfl⟩

theorem smallestKid_ok (time : TaskId → Int) {size j : Nat} {q : List (Option TaskId)}
    (hq : Filled q size) (h1 : 1 ≤ j) (hj : j ≤ size) :
    Succeeds (smallestKid time size q j) fun j' => j ≤ j' ∧ j' ≤ size := by
  unfold smallestKid
  split
  case isTrue hlt =>
    refine .bind (hq.taskAt h1 hj) fun a _ => ?_
    refine .bind (hq.taskAt (i := j + 1) (by omega) (by omega)) fun b _ => .pure ?_
    split <;> omega
  case isFalse => exact .ok ⟨Nat.le_refl j, hj⟩

/-- `fixDown` moves to a kid, whose index is larger, until there is none. -/
theorem fixDown_ok (time : TaskId → Int) {size : Nat} :
    ∀ (fuel k : Nat) {q : List (Option TaskId)}, Filled q size → 1 ≤ k → 1 ≤ fuel →
      size < k + fuel → Succeeds (fixDown time size fuel k q) (Sifted q size)
  | 0, _, _, _, _, h, _ => by omega
  | fuel + 1, k, q, hq, h1, _, hfuel => by
    unfold fixDown
    split
    case isTrue hle =>
      refine .bind (smallestKid_ok time hq (j := 2 * k) (by omega) hle) fun j hj => ?_
      refine .bind (hq.taskAt h1 (by omega)) fun a _ => ?_
      refine .bind (hq.taskAt (i := j) (by omega) hj.2) fun b _ => ?_
      split
      · exact .pure ⟨hq, rfl⟩
      · have hsift := fixDown_ok time fuel j (hq.exchange k j a b) (by omega) (by omega) (by omega)
        exact hsift.mono fun q' h => ⟨h.1, h.2.trans (exchange_length ..)⟩
    case isFalse => exact .ok ⟨hq, rfl⟩

theorem TaskQueue.new_filled : TaskQueue.Filled {} := by
  refine ⟨⟨by decide, fun i h1 hi => ?_⟩, by decide⟩
  have hi : i ≤ 0 := hi
  omega

theorem TaskQueue.getMin_ok {Q : TaskQueue} (hQ : Q.Filled) (hne : Q.isEmpty = false) :
    Succeeds Q.getMin fun _ => True := by
  have hsize : Q.size ≠ 0 := by simpa [TaskQueue.isEmpty] using hne
  exact hQ.1.taskAt (Nat.le_refl 1) (by omega)

/-- What an operation makes of the queue: `size` tasks, and the flag as it was. -/
structure TaskQueue.Becomes (Q : TaskQueue) (size : Nat) (Q' : TaskQueue) : Prop where
  filled : Q'.Filled
  size : Q'.size = size
  flag : Q'.newTasksMayBeScheduled = Q.newTasksMayBeScheduled

theorem TaskQueue.add_ok (time : TaskId → Int) (t : TaskId) {Q : TaskQueue} (hQ : Q.Filled) :
    Succeeds (Q.add time t) (Q.Becomes (Q.size + 1)) := by
  obtain ⟨⟨hroom, hentry⟩, hlen⟩ := hQ
  unfold TaskQueue.add
  simp only
  generalize hgrow : (if Q.size + 1 = Q.queue.length then
      Q.queue.take (Q.size + 1) ++ List.replicate (2 * Q.queue.length - (Q.size + 1)) none
    else Q.queue) = q
  have hq : Q.size + 1 < q.length ∧ ∀ i, i ≤ Q.size → q[i]? = Q.queue[i]? := by
    rw [← hgrow]
    split
    case isTrue hfull =>
      refine ⟨by simp; omega, fun i hi => ?_⟩
      rw [List.getElem?_append_left (by simp; omega), List.getElem?_take_of_lt (by omega)]
    case isFalse => exact ⟨by omega, fun _ _ => rfl⟩
  rw [if_neg (by omega)]
  have hfilled : Timers.Filled (q.set (Q.size + 1) (some t)) (Q.size + 1) := by
    refine ⟨by simpa using hq.1, fun i h1 hi => ?_⟩
    rcases eq_or_ne (Q.size + 1) i with rfl | hne
    · exact ⟨t, List.getElem?_set_self hq.1⟩
    · rw [List.getElem?_set_ne hne, hq.2 i (by omega)]
      exact hentry i h1 (by omega)
  refine .bind (fixUp_ok time _ _ hfilled (by omega) (Nat.le_refl _) (Nat.le_refl _)) fun q' h => .pure ?_
  refine ⟨⟨h.1, ?_⟩, rfl, rfl⟩
  show 1 < q'.length
  have := h.1.room
  omega

theorem TaskQueue.removeMin_ok (time : TaskId → Int) {Q : TaskQueue} (hQ : Q.Filled)
    (hne : Q.isEmpty = false) : Succeeds (Q.removeMin time) (Q.Becomes (Q.size - 1)) := by
  have hsize : Q.size ≠ 0 := by simpa [TaskQueue.isEmpty] using hne
  obtain ⟨⟨hroom, hentry⟩, hlen⟩ := hQ
  obtain ⟨last, hlast⟩ := hentry Q.size (by omega) (Nat.le_refl _)
  unfold TaskQueue.removeMin
  rw [hlast]
  have hfilled : Timers.Filled ((Q.queue.set 1 (some last)).set Q.size none) (Q.size - 1) := by
    refine ⟨by simp; omega, fun i h1 hi => ?_⟩
    rw [List.getElem?_set_ne (by omega)]
    rcases eq_or_ne 1 i with rfl | hne
    · exact ⟨last, List.getElem?_set_self (by omega)⟩
    · rw [List.getElem?_set_ne hne]
      exact hentry i h1 (by omega)
  refine .bind (fixDown_ok time _ 1 hfilled (Nat.le_refl _) (by omega) (by omega)) fun q' h => .pure ?_
  refine ⟨⟨h.1, ?_⟩, rfl, rfl⟩
  show 1 < q'.length
  rw [h.2]
  simpa using hlen

theorem TaskQueue.fixMin_ok (time : TaskId → Int) {Q : TaskQueue} (hQ : Q.Filled) :
    Succeeds (Q.fixMin time) (Q.Becomes Q.size) := by
  unfold TaskQueue.fixMin
  refine .bind (fixDown_ok time _ 1 hQ.1 (Nat.le_refl _) (by omega) (by omega)) fun q' h => .pure ?_
  refine ⟨⟨h.1, ?_⟩, rfl, rfl⟩
  show 1 < q'.length
  rw [h.2]
  exact hQ.2

theorem TaskQueue.clear_filled {Q : TaskQueue} (hQ : Q.Filled) : Q.clear.Filled := by
  obtain ⟨⟨hroom, -⟩, hlen⟩ := hQ
  have hlength : Q.clear.queue.length = Q.queue.length := by
    simp only [TaskQueue.clear, List.length_append, List.length_take, List.length_replicate,
      List.length_drop]
    omega
  refine ⟨⟨by rw [hlength]; show 0 < _; omega, fun i h1 hi => ?_⟩, by rw [hlength]; exact hlen⟩
  have hi : i ≤ 0 := hi
  omega

end FroggyKVM.Timers
