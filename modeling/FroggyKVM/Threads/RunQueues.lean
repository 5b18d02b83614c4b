/-
# FroggyKVM.Threads.RunQueues — which thread runs next.

An isolate has a circular queue of active threads for each priority, a mask of the queues that are
not empty, the priority it last ran, and for each priority a count of the threads it has chosen since
the counts were last reset.  `get_next_runnable_thread` looks down from the highest priority, or from
the last one when nothing is above it, passes over priorities that have had `2 * priority + 1` turns,
and resets the counts for a second pass when it has passed over them all.

**A search finds a thread exactly when there is one, and passes over no priority that has turns
left.**  It does not search when a thread is cached and the caller does not yield: then the cached
thread is returned, whoever has become active since.
-/
import FroggyKVM.Lib.BitMask
import FroggyKVM.Lib.Lts

namespace FroggyKVM.Threads

open Function

/-- `ThreadObj::NUM_PRIORITY_SLOTS`. -/
def numPrioritySlots : Nat := 10

def maxTasks : Nat := 16

/-! ## The queues -/

/-- The queues of the one isolate, its row of `_thread_execute_counts`, and the cache.  A circular
queue is the list of its threads from its head; `selections` is what was chosen since the last reset,
the latest first. -/
structure RunQueues (T : Type) where
  /-- the priority in the `ThreadObj` of a thread -/
  priority : T → Nat
  priorityQueue : Nat → List T := fun _ => []
  priorityQueueValid : BitVec 32 := 0
  lastPriorityQueue : Nat := 0
  threadExecuteCounts : Nat → Nat := fun _ => 0
  nextRunnableThread : Option T := none
  selections : List Nat := []

/-- No bit above the last priority is set, and some bit is. -/
def noHigherPriorityThreads (priorityQueueValid : BitVec 32) (lastPriorityQueue : Nat) : Bool :=
  priorityQueueValid ≠ 0 ∧
    priorityQueueValid &&& ~~~(BitVec.twoPow 32 (lastPriorityQueue + 1) - 1) = 0

variable {T : Type} [DecidableEq T]

namespace RunQueues

def setPriorityValid (p : Nat) (s : RunQueues T) : RunQueues T :=
  { s with priorityQueueValid := s.priorityQueueValid ||| BitVec.twoPow 32 p }

def clearPriorityValid (p : Nat) (s : RunQueues T) : RunQueues T :=
  { s with priorityQueueValid := s.priorityQueueValid &&& ~~~BitVec.twoPow 32 p }

def setQueue (p : Nat) (queue : List T) (s : RunQueues T) : RunQueues T :=
  { s with priorityQueue := update s.priorityQueue p queue }

/-- `adjust_priority_list` for a thread that becomes active: it goes behind the others. -/
def addToActive (t : T) (s : RunQueues T) : RunQueues T :=
  let p := s.priority t
  (s.setQueue p (s.priorityQueue p ++ [t])).setPriorityValid p

/-- The thread leaves the queue `p`, and the mask follows. -/
def removeFromQueue (t : T) (p : Nat) (s : RunQueues T) : RunQueues T :=
  let queue := (s.priorityQueue p).erase t
  let s := s.setQueue p queue
  if queue = [] then s.clearPriorityValid p else s

/-- `adjust_priority_list` for a thread that stops being active; the new head takes its place in the
cache. -/
def removeFromActive (t : T) (s : RunQueues T) : RunQueues T :=
  let p := s.priority t
  let s' := s.removeFromQueue t p
  if s.nextRunnableThread = some t then
    { s' with nextRunnableThread := (s'.priorityQueue p).head? }
  else s'

/-- `setPriority0` on a thread that is alive. -/
def setPriority (t : T) (newPriority : Nat) (s : RunQueues T) : RunQueues T :=
  let oldPriority := s.priority t
  let s := { s with priority := update s.priority t newPriority }
  if t ∈ s.priorityQueue oldPriority then (s.removeFromQueue t oldPriority).addToActive t else s

/-- The end of `terminate` for the last thread of the isolate. -/
def terminateLast (t : T) (s : RunQueues T) : RunQueues T :=
  { (s.setQueue (s.priority t) []).clearPriorityValid (s.priority t) with
    nextRunnableThread := none }

/-! ## The search -/

def resetThreadCounts (s : RunQueues T) : RunQueues T :=
  { s with threadExecuteCounts := fun _ => 0, selections := [] }

/-- The loop over the priorities: one with a thread and with turns left, and whether one without was
passed over. -/
def scan (s : RunQueues T) : Nat → Bool → Option Nat × Bool
  | 0, threadQuotaExceeded => (none, threadQuotaExceeded)
  | p + 1, threadQuotaExceeded =>
    if s.priorityQueue (p + 1) = [] then s.scan p threadQuotaExceeded
    else if s.threadExecuteCounts (p + 1) > (p + 1) * 2 then s.scan p true
    else (some (p + 1), threadQuotaExceeded)

/-- The thread that runs is the head, or the one behind it; the queue is turned to it.  A count is an
`unsigned char`. -/
def choose (isYield : Bool) (p : Nat) (s : RunQueues T) : RunQueues T :=
  let queue := (s.priorityQueue p).rotate (if isYield then 1 else 0)
  { s with
    priorityQueue := update s.priorityQueue p queue
    lastPriorityQueue := p
    nextRunnableThread := queue.head?
    threadExecuteCounts :=
      update s.threadExecuteCounts p ((s.threadExecuteCounts p + 1) % 256)
    selections := p :: s.selections }

/-- The passes over the priorities, and whether a thread was chosen. -/
def passes (isYield : Bool) (startPriority : Nat) : Nat → RunQueues T → RunQueues T × Bool
  | 0, s => (s, false)
  | innerLoopCount + 1, s =>
    if s.priorityQueueValid = 0 then (s, false)
    else
      match s.scan startPriority false with
      | (some p, _) => (s.choose isYield p, true)
      | (none, true) => passes isYield startPriority innerLoopCount s.resetThreadCounts
      | (none, false) => (s, false)

/-- The search of the isolate. -/
def searchTask (isYield : Bool) (s : RunQueues T) : RunQueues T × Bool :=
  let startPriority :=
    if noHigherPriorityThreads s.priorityQueueValid s.lastPriorityQueue then s.lastPriorityQueue
    else numPrioritySlots
  passes isYield startPriority 2 s

/-- The loop over the tasks: the system task has nothing to run, the isolate is task 1, and there are
no others. -/
def visitTasks (isYield : Bool) : List Nat → RunQueues T → RunQueues T × Bool
  | [], s => (s, false)
  | tid :: tids, s =>
    if tid = 1 then
      match s.searchTask isYield with
      | (s, true) => (s, true)
      | (s, false) => visitTasks isYield tids s
    else visitTasks isYield tids s

/-- The tasks after the current one, and the current one last. -/
def tasksFrom (current : Nat) : List Nat :=
  (List.range maxTasks).map fun i => (current + 1 + i) % maxTasks

/-- `get_next_runnable_thread`, which leaves its result in the cache. -/
def getNextRunnableThread (current : Nat) (isYield : Bool) (s : RunQueues T) : RunQueues T :=
  if ¬ isYield ∧ s.nextRunnableThread ≠ none then s
  else
    match visitTasks isYield (tasksFrom current) s with
    | (s, true) => s
    | (s, false) => { s with nextRunnableThread := none }

/-! ## The invariant -/

/-- The mask shows the queues that are not empty, a thread is on the queue of its priority, and the
counts are those of the choices since the last reset. -/
structure Queued (s : RunQueues T) : Prop where
  typed : ∀ t, 1 ≤ s.priority t ∧ s.priority t ≤ numPrioritySlots
  mask : ∀ p < 32, s.priorityQueueValid.getLsbD p = true ↔ s.priorityQueue p ≠ []
  placed : ∀ p, ∀ t ∈ s.priorityQueue p, s.priority t = p
  nodup : ∀ p, (s.priorityQueue p).Nodup
  counts : ∀ p, s.threadExecuteCounts p = s.selections.count p
  turns : ∀ p, s.threadExecuteCounts p ≤ 2 * p + 1
  last : s.lastPriorityQueue ≤ numPrioritySlots

/-- And the cached thread is active. -/
structure Inv (s : RunQueues T) : Prop extends Queued s where
  cached : ∀ t, s.nextRunnableThread = some t → t ∈ s.priorityQueue (s.priority t)

namespace Queued

variable {s : RunQueues T}

omit [DecidableEq T]

theorem slot (h : s.Queued) {p : Nat} (hp : s.priorityQueue p ≠ []) :
    1 ≤ p ∧ p ≤ numPrioritySlots := by
  obtain ⟨t, ht⟩ := List.exists_mem_of_ne_nil _ hp
  rw [← h.placed p t ht]
  exact h.typed t

theorem slot_lt (h : s.Queued) {p : Nat} (hp : s.priorityQueue p ≠ []) : p < 32 :=
  Nat.lt_of_le_of_lt (h.slot hp).2 (by decide)

theorem priority_lt (h : s.Queued) (t : T) : s.priority t < 32 :=
  Nat.lt_of_le_of_lt (h.typed t).2 (by decide)

theorem valid_eq_zero_iff (h : s.Queued) :
    s.priorityQueueValid = 0 ↔ ∀ p, s.priorityQueue p = [] := by
  rw [eq_zero_iff_getLsbD]
  constructor
  · intro hzero p
    by_contra hp
    have hlt := h.slot_lt hp
    exact absurd ((h.mask p hlt).2 hp) (by rw [hzero p hlt]; decide)
  · intro hempty p hlt
    rw [Bool.eq_false_iff]
    exact fun hbit => (h.mask p hlt).1 hbit (hempty p)

/-- When nothing is above the last priority, nothing is. -/
theorem above_last (h : s.Queued)
    (hnone : noHigherPriorityThreads s.priorityQueueValid s.lastPriorityQueue = true) {p : Nat}
    (hp : s.priorityQueue p ≠ []) : p ≤ s.lastPriorityQueue := by
  have hlast := h.last
  have hbound : s.lastPriorityQueue + 1 < 32 := by
    unfold numPrioritySlots at hlast
    omega
  have hlt := h.slot_lt hp
  unfold noHigherPriorityThreads at hnone
  rw [decide_eq_true_eq] at hnone
  have hbits := (and_not_mask_eq_zero hbound).1 hnone.2
  by_contra hnot
  exact absurd ((h.mask p hlt).2 hp) (by rw [hbits p hlt (by omega)]; decide)

/-! ## One queue changes -/

/-- One queue and its bit change together. -/
theorem requeue (h : s.Queued) {p : Nat} {queue : List T} {valid : BitVec 32}
    (hnodup : queue.Nodup) (hplaced : ∀ t ∈ queue, s.priority t = p)
    (hself : valid.getLsbD p = true ↔ queue ≠ [])
    (hother : ∀ q < 32, q ≠ p → valid.getLsbD q = s.priorityQueueValid.getLsbD q) :
    Queued { s with
      priorityQueue := update s.priorityQueue p queue, priorityQueueValid := valid } where
  typed := h.typed
  mask q hq := by
    dsimp only
    by_cases hqp : q = p
    · subst hqp
      rw [update_self]
      exact hself
    · rw [update_of_ne hqp, hother q hq hqp]
      exact h.mask q hq
  placed q t ht := by
    dsimp only at ht ⊢
    by_cases hqp : q = p
    · subst hqp
      rw [update_self] at ht
      exact hplaced t ht
    · rw [update_of_ne hqp] at ht
      exact h.placed q t ht
  nodup q := by
    dsimp only
    by_cases hqp : q = p
    · subst hqp
      rw [update_self]
      exact hnodup
    · rw [update_of_ne hqp]
      exact h.nodup q
  counts := h.counts
  turns := h.turns
  last := h.last

theorem recache (h : s.Queued) (next : Option T) :
    Queued { s with nextRunnableThread := next } :=
  ⟨h.typed, h.mask, h.placed, h.nodup, h.counts, h.turns, h.last⟩

/-- A thread on no queue may change its priority. -/
theorem reprioritize [DecidableEq T] (h : s.Queued) {t : T} {newPriority : Nat}
    (hnew : 1 ≤ newPriority ∧ newPriority ≤ numPrioritySlots)
    (ht : t ∉ s.priorityQueue (s.priority t)) :
    Queued { s with priority := update s.priority t newPriority } where
  typed u := by
    dsimp only
    by_cases hut : u = t
    · subst hut
      rw [update_self]
      exact hnew
    · rw [update_of_ne hut]
      exact h.typed u
  mask := h.mask
  placed p u hu := by
    have hut : u ≠ t := by
      rintro rfl
      exact ht ((h.placed p u hu).symm ▸ hu)
    show update s.priority t newPriority u = p
    rw [update_of_ne hut]
    exact h.placed p u hu
  nodup := h.nodup
  counts := h.counts
  turns := h.turns
  last := h.last

theorem addToActive {t : T} (h : s.Queued) (ht : t ∉ s.priorityQueue (s.priority t)) :
    (s.addToActive t).Queued := by
  have hlt := h.priority_lt t
  refine @requeue _ _ h _ _ (s.priorityQueueValid ||| BitVec.twoPow 32 (s.priority t)) ?_ ?_ ?_ ?_
  · refine List.nodup_append.2 ⟨h.nodup _, List.nodup_cons.2 ⟨nofun, List.nodup_nil⟩, ?_⟩
    intro u hu v hv heq
    rw [List.mem_singleton.1 hv] at heq
    exact ht (heq ▸ hu)
  · intro u hu
    rcases List.mem_append.1 hu with hu | hu
    · exact h.placed _ u hu
    · rw [List.mem_singleton.1 hu]
  · rw [getLsbD_or_twoPow hlt]
    simp
  · intro q hq hne
    rw [Bool.eq_iff_iff, getLsbD_or_twoPow hlt]
    simp [hne]

theorem removeFromQueue [DecidableEq T] (h : s.Queued) (t : T) {p : Nat} (hp : p < 32) :
    (s.removeFromQueue t p).Queued := by
  have hnodup := (h.nodup p).erase t
  have hplaced : ∀ u ∈ (s.priorityQueue p).erase t, s.priority u = p :=
    fun u hu => h.placed p u (List.mem_of_mem_erase hu)
  unfold RunQueues.removeFromQueue
  dsimp only
  split
  case isTrue hempty =>
    refine @requeue _ _ h _ _ (s.priorityQueueValid &&& ~~~BitVec.twoPow 32 p) hnodup hplaced ?_ ?_
    · rw [getLsbD_and_not_twoPow hp hp, hempty]
      simp
    · intro q hq hne
      rw [Bool.eq_iff_iff, getLsbD_and_not_twoPow hp hq]
      simp [hne]
  case isFalse hmore =>
    refine @requeue _ _ h _ _ (s.priorityQueueValid) hnodup hplaced ?_ fun _ _ _ => rfl
    rw [h.mask p hp]
    refine ⟨fun _ => hmore, fun _ hnil => hmore ?_⟩
    rw [hnil]
    rfl

end Queued

namespace Inv

variable {s : RunQueues T}

omit [DecidableEq T] in
theorem addToActive {t : T} (h : s.Inv) (ht : t ∉ s.priorityQueue (s.priority t)) :
    (s.addToActive t).Inv := by
  refine ⟨h.toQueued.addToActive ht, fun u hu => ?_⟩
  have hold := h.cached u hu
  show u ∈ update s.priorityQueue (s.priority t) (s.priorityQueue (s.priority t) ++ [t])
    (s.priority u)
  by_cases hpt : s.priority u = s.priority t
  · rw [hpt, update_self]
    exact List.mem_append_left _ (hpt ▸ hold)
  · rw [update_of_ne hpt]
    exact hold

theorem removeFromQueue_queue (t : T) (p : Nat) (s : RunQueues T) :
    (s.removeFromQueue t p).priorityQueue = update s.priorityQueue p ((s.priorityQueue p).erase t) ∧
      (s.removeFromQueue t p).priority = s.priority ∧
      (s.removeFromQueue t p).nextRunnableThread = s.nextRunnableThread := by
  unfold RunQueues.removeFromQueue
  dsimp only
  split
  · exact ⟨rfl, rfl, rfl⟩
  · exact ⟨rfl, rfl, rfl⟩

/-- A thread other than the one that leaves stays on its queue. -/
theorem mem_removeFromQueue {t u : T} {p q : Nat} (hut : u ≠ t) (hu : u ∈ s.priorityQueue q) :
    u ∈ (s.removeFromQueue t p).priorityQueue q := by
  rw [(removeFromQueue_queue t p s).1]
  by_cases hqp : q = p
  · subst hqp
    rw [update_self]
    exact (List.mem_erase_of_ne hut).2 hu
  · rw [update_of_ne hqp]
    exact hu

theorem removeFromActive (h : s.Inv) (t : T) : (s.removeFromActive t).Inv := by
  have hqueued := h.toQueued.removeFromQueue t (h.priority_lt t)
  obtain ⟨hqueue, hpriority, hnext⟩ := removeFromQueue_queue t (s.priority t) s
  unfold RunQueues.removeFromActive
  dsimp only
  split
  case isTrue hcached =>
    refine ⟨hqueued.recache _, fun u hu => ?_⟩
    have hmem := List.mem_of_mem_head? hu
    show u ∈ (s.removeFromQueue t (s.priority t)).priorityQueue
      ((s.removeFromQueue t (s.priority t)).priority u)
    rw [hqueued.placed _ u hmem]
    exact hmem
  case isFalse hother =>
    refine ⟨hqueued, fun u hu => ?_⟩
    rw [hnext] at hu
    have hut : u ≠ t := by
      rintro rfl
      exact hother hu
    rw [hpriority]
    exact mem_removeFromQueue hut (h.cached u hu)

theorem setPriority (h : s.Inv) (t : T) {newPriority : Nat}
    (hnew : 1 ≤ newPriority ∧ newPriority ≤ numPrioritySlots) :
    (s.setPriority t newPriority).Inv := by
  have hremoved := h.toQueued.removeFromQueue t (h.priority_lt t)
  obtain ⟨hqueue, hpriority, hnext⟩ := removeFromQueue_queue t (s.priority t) s
  unfold RunQueues.setPriority
  dsimp only
  split
  case isTrue hactive =>
    -- the thread is on no queue between the two
    have hgone (p : Nat) : t ∉ (s.removeFromQueue t (s.priority t)).priorityQueue p := by
      intro ht
      obtain rfl := hremoved.placed p t ht
      rw [hpriority, hqueue, update_self] at ht
      exact (h.nodup _).not_mem_erase ht
    have hcomm : RunQueues.removeFromQueue t (s.priority t)
        { s with priority := update s.priority t newPriority } =
        { s.removeFromQueue t (s.priority t) with
          priority := update s.priority t newPriority } := by
      unfold RunQueues.removeFromQueue
      dsimp only [setQueue]
      split
      · rfl
      · rfl
    have hmoved := hremoved.reprioritize hnew (hgone _)
    rw [hpriority] at hmoved
    rw [hcomm]
    refine ⟨hmoved.addToActive (hgone _), fun u hu => ?_⟩
    replace hu : s.nextRunnableThread = some u := hnext.symm.trans hu
    show u ∈ update (s.removeFromQueue t (s.priority t)).priorityQueue
      (update s.priority t newPriority t)
      ((s.removeFromQueue t (s.priority t)).priorityQueue (update s.priority t newPriority t) ++ [t])
      (update s.priority t newPriority u)
    by_cases hut : u = t
    · subst hut
      rw [update_self, update_self]
      exact List.mem_append_right _ List.mem_cons_self
    · rw [update_of_ne hut, update_self]
      have hstays := mem_removeFromQueue (p := s.priority t) hut (h.cached u hu)
      by_cases hup : s.priority u = newPriority
      · rw [hup, update_self]
        exact List.mem_append_left _ (hup ▸ hstays)
      · rw [update_of_ne hup]
        exact hstays
  case isFalse hidle =>
    refine ⟨h.toQueued.reprioritize hnew hidle, fun u hu => ?_⟩
    have hold := h.cached u hu
    have hut : u ≠ t := by
      rintro rfl
      exact hidle hold
    show u ∈ s.priorityQueue (update s.priority t newPriority u)
    rw [update_of_ne hut]
    exact hold

omit [DecidableEq T] in
theorem terminateLast (h : s.Inv) (t : T) : (s.terminateLast t).Inv := by
  have hlt := h.priority_lt t
  refine ⟨?_, nofun⟩
  refine Queued.recache (s := (s.setQueue (s.priority t) []).clearPriorityValid (s.priority t))
    ?_ none
  refine @Queued.requeue _ _ h.toQueued _ _
    (s.priorityQueueValid &&& ~~~BitVec.twoPow 32 (s.priority t)) List.nodup_nil nofun ?_ ?_
  · rw [getLsbD_and_not_twoPow hlt hlt]
    simp
  · intro q hq hne
    rw [Bool.eq_iff_iff, getLsbD_and_not_twoPow hlt hq]
    simp [hne]

end Inv

/-! ## What a search finds -/

section

variable {s : RunQueues T}

omit [DecidableEq T]

/-- The first priority from above with a thread and with turns left. -/
theorem scan_some {n p : Nat} {exceeded exceeded' : Bool}
    (hscan : s.scan n exceeded = (some p, exceeded')) :
    s.priorityQueue p ≠ [] ∧ s.threadExecuteCounts p ≤ p * 2 ∧
      ∀ q, p < q → q ≤ n → s.priorityQueue q ≠ [] → s.threadExecuteCounts q > q * 2 := by
  induction n generalizing exceeded with
  | zero => cases hscan
  | succ n ih =>
    unfold scan at hscan
    split at hscan
    case isTrue hempty =>
      obtain ⟨hp, hturns, habove⟩ := ih hscan
      refine ⟨hp, hturns, fun q hpq hq hne => ?_⟩
      rcases Nat.lt_or_eq_of_le hq with hlt | rfl
      · exact habove q hpq (Nat.le_of_lt_succ hlt) hne
      · exact absurd hempty hne
    case isFalse hmore =>
      split at hscan
      case isTrue hused =>
        obtain ⟨hp, hturns, habove⟩ := ih hscan
        refine ⟨hp, hturns, fun q hpq hq hne => ?_⟩
        rcases Nat.lt_or_eq_of_le hq with hlt | rfl
        · exact habove q hpq (Nat.le_of_lt_succ hlt) hne
        · exact hused
      case isFalse hleft =>
        cases hscan
        exact ⟨hmore, Nat.not_lt.1 hleft, fun q hpq hq => by omega⟩

/-- Nothing is found: every priority with a thread was passed over, and there is none if none was. -/
theorem scan_none {n : Nat} {exceeded exceeded' : Bool}
    (hscan : s.scan n exceeded = (none, exceeded')) :
    (∀ q, 1 ≤ q → q ≤ n → s.priorityQueue q ≠ [] → s.threadExecuteCounts q > q * 2) ∧
      (exceeded' = false → exceeded = false ∧ ∀ q, 1 ≤ q → q ≤ n → s.priorityQueue q = []) := by
  induction n generalizing exceeded with
  | zero =>
    cases hscan
    exact ⟨fun q h1 h0 => by omega, fun he => ⟨he, fun q h1 h0 => by omega⟩⟩
  | succ n ih =>
    unfold scan at hscan
    split at hscan
    case isTrue hempty =>
      obtain ⟨hused, hnone⟩ := ih hscan
      refine ⟨fun q h1 hq hne => ?_, fun he => ⟨(hnone he).1, fun q h1 hq => ?_⟩⟩
      · rcases Nat.lt_or_eq_of_le hq with hlt | rfl
        · exact hused q h1 (Nat.le_of_lt_succ hlt) hne
        · exact absurd hempty hne
      · rcases Nat.lt_or_eq_of_le hq with hlt | rfl
        · exact (hnone he).2 q h1 (Nat.le_of_lt_succ hlt)
        · exact hempty
    case isFalse hmore =>
      split at hscan
      case isTrue hused' =>
        obtain ⟨hused, hnone⟩ := ih hscan
        refine ⟨fun q h1 hq hne => ?_, fun he => absurd (hnone he).1 (by decide)⟩
        rcases Nat.lt_or_eq_of_le hq with hlt | rfl
        · exact hused q h1 (Nat.le_of_lt_succ hlt) hne
        · exact hused'
      case isFalse hleft => cases hscan

/-- The search ends with a choice at a priority that has turns left, and none above it has. -/
structure Found (s s₀ : RunQueues T) (p : Nat) : Prop where
  state : s₀ = s ∨ s₀ = s.resetThreadCounts
  active : s.priorityQueue p ≠ []
  turns : s₀.threadExecuteCounts p ≤ p * 2
  above : ∀ q, p < q → s.priorityQueue q ≠ [] → s₀.threadExecuteCounts q > q * 2

theorem searchTask_spec (h : s.Queued) (isYield : Bool) :
    (∃ s₀ p, Found s s₀ p ∧ s.searchTask isYield = (s₀.choose isYield p, true)) ∨
      ((∀ p, s.priorityQueue p = []) ∧ s.searchTask isYield = (s, false)) := by
  unfold searchTask
  generalize hstart : (if noHigherPriorityThreads s.priorityQueueValid s.lastPriorityQueue then
    s.lastPriorityQueue else numPrioritySlots) = start
  have hbelow {q : Nat} (hq : s.priorityQueue q ≠ []) : q ≤ start := by
    rw [← hstart]
    split
    case isTrue hnone => exact h.above_last hnone hq
    case isFalse => exact (h.slot hq).2
  by_cases hvalid : s.priorityQueueValid = 0
  · refine .inr ⟨h.valid_eq_zero_iff.1 hvalid, ?_⟩
    show passes isYield start 2 s = _
    unfold passes
    rw [if_pos hvalid]
  · refine .inl ?_
    -- there is a thread, so the first pass finds one or passes over a priority
    obtain ⟨q, hq⟩ : ∃ q, s.priorityQueue q ≠ [] := by
      by_contra hnone
      refine hvalid (h.valid_eq_zero_iff.2 fun p => ?_)
      by_contra hp
      exact hnone ⟨p, hp⟩
    show ∃ s₀ p, Found s s₀ p ∧ passes isYield start 2 s = _
    unfold passes
    rw [if_neg hvalid]
    cases hscan : s.scan start false with
    | mk found exceeded =>
      cases found with
      | some p =>
        obtain ⟨hp, hturns, habove⟩ := scan_some hscan
        exact ⟨s, p, ⟨.inl rfl, hp, hturns, fun q hpq hq => habove q hpq (hbelow hq) hq⟩, rfl⟩
      | none =>
        obtain ⟨hused, hnone⟩ := scan_none hscan
        cases exceeded with
        | false => exact absurd ((hnone rfl).2 q (h.slot hq).1 (hbelow hq)) hq
        | true =>
          show ∃ s₀ p, Found s s₀ p ∧ passes isYield start 1 s.resetThreadCounts = _
          unfold passes
          rw [if_neg (show s.resetThreadCounts.priorityQueueValid ≠ 0 from hvalid)]
          cases hscan' : s.resetThreadCounts.scan start false with
          | mk found' exceeded' =>
            cases found' with
            | none =>
              have hzero := (scan_none hscan').1 q (h.slot hq).1 (hbelow hq) hq
              exact absurd hzero (Nat.not_lt_zero _)
            | some p =>
              obtain ⟨hp, hturns, habove⟩ := scan_some hscan'
              exact ⟨_, p, ⟨.inr rfl, hp, hturns, fun q hpq hq => habove q hpq (hbelow hq) hq⟩, rfl⟩

theorem visitTasks_none (isYield : Bool) {tids : List Nat} (hnone : 1 ∉ tids) :
    visitTasks isYield tids s = (s, false) := by
  induction tids with
  | nil => rfl
  | cons tid tids ih =>
    obtain ⟨hne, hnone⟩ := not_or.1 (mt List.mem_cons.2 hnone)
    unfold visitTasks
    rw [if_neg (Ne.symm hne)]
    exact ih hnone

/-- A search that finds nothing changes nothing, so the isolate may be visited again. -/
theorem visitTasks_eq (h : s.Queued) (isYield : Bool) {tids : List Nat} (hmem : 1 ∈ tids) :
    visitTasks isYield tids s = s.searchTask isYield := by
  induction tids with
  | nil => cases hmem
  | cons tid tids ih =>
    unfold visitTasks
    by_cases htid : tid = 1
    · rw [if_pos htid]
      rcases searchTask_spec h isYield with ⟨s₀, p, -, hsearch⟩ | ⟨-, hsearch⟩
      · rw [hsearch]
      · rw [hsearch]
        show visitTasks isYield tids s = (s, false)
        by_cases hmore : 1 ∈ tids
        · rw [ih hmore, hsearch]
        · exact visitTasks_none isYield hmore
    · rw [if_neg htid]
      exact ih ((List.mem_cons.1 hmem).resolve_left (Ne.symm htid))

theorem one_mem_tasksFrom (current : Nat) : 1 ∈ tasksFrom current := by
  unfold tasksFrom maxTasks
  refine List.mem_map.2 ⟨(16 - current % 16) % 16, List.mem_range.2 ?_, ?_⟩
  · omega
  · omega

theorem Queued.resetThreadCounts (h : s.Queued) : s.resetThreadCounts.Queued :=
  ⟨h.typed, h.mask, h.placed, h.nodup, fun _ => rfl, fun _ => Nat.zero_le _, h.last⟩

theorem Found.queued {s₀ : RunQueues T} {p : Nat} (h : s.Queued) (hfound : Found s s₀ p) :
    s₀.Queued ∧ s₀.priorityQueue = s.priorityQueue := by
  rcases hfound.state with rfl | rfl
  · exact ⟨h, rfl⟩
  · exact ⟨h.resetThreadCounts, rfl⟩

theorem choose_inv (h : s.Queued) {p : Nat} (hp : s.priorityQueue p ≠ [])
    (hturns : s.threadExecuteCounts p ≤ p * 2) (isYield : Bool) : (s.choose isYield p).Inv := by
  have hslot := h.slot hp
  unfold numPrioritySlots at hslot
  have hcount : (s.threadExecuteCounts p + 1) % 256 = s.threadExecuteCounts p + 1 :=
    Nat.mod_eq_of_lt (by omega)
  generalize hturn : (if isYield then 1 else 0) = turn
  have hperm : ((s.priorityQueue p).rotate turn).Perm (s.priorityQueue p) := List.rotate_perm _ _
  have hqueued := @Queued.requeue _ _ h p ((s.priorityQueue p).rotate turn) s.priorityQueueValid
    (hperm.nodup_iff.2 (h.nodup p)) (fun t ht => h.placed p t (hperm.mem_iff.1 ht))
    ((h.mask p (h.slot_lt hp)).trans (not_congr List.rotate_eq_nil_iff.symm)) (fun _ _ _ => rfl)
  refine ⟨⟨hqueued.typed, ?_, ?_, ?_, fun q => ?_, fun q => ?_, hslot.2⟩, fun t ht => ?_⟩
  · unfold choose
    rw [hturn]
    exact hqueued.mask
  · unfold choose
    rw [hturn]
    exact hqueued.placed
  · unfold choose
    rw [hturn]
    exact hqueued.nodup
  · show update s.threadExecuteCounts p ((s.threadExecuteCounts p + 1) % 256) q =
      (p :: s.selections).count q
    rw [hcount]
    by_cases hqp : q = p
    · subst hqp
      rw [update_self, List.count_cons_self, h.counts q]
    · rw [update_of_ne hqp, List.count_cons_of_ne (Ne.symm hqp), h.counts q]
  · show update s.threadExecuteCounts p ((s.threadExecuteCounts p + 1) % 256) q ≤ 2 * q + 1
    rw [hcount]
    by_cases hqp : q = p
    · subst hqp
      rw [update_self]
      omega
    · rw [update_of_ne hqp]
      exact h.turns q
  · unfold choose at ht
    rw [hturn] at ht
    have hmem : t ∈ (s.priorityQueue p).rotate turn := List.mem_of_mem_head? ht
    unfold choose
    rw [hturn]
    show t ∈ update s.priorityQueue p ((s.priorityQueue p).rotate turn) (s.priority t)
    rw [h.placed p t (hperm.mem_iff.1 hmem), update_self]
    exact hmem

/-- What `get_next_runnable_thread` is for. -/
structure Selects (s : RunQueues T) (isYield : Bool) (s' : RunQueues T) : Prop where
  /-- the result is active -/
  active : ∀ t, s'.nextRunnableThread = some t → t ∈ s.priorityQueue (s.priority t)
  found : (∃ p, s.priorityQueue p ≠ []) → s'.nextRunnableThread ≠ none
  idle : (∀ p, s.priorityQueue p = []) → s'.nextRunnableThread = none
  /-- unless it is the cached one, nobody above it has turns left -/
  quota : isYield = true ∨ s.nextRunnableThread = none →
    ∀ t, s'.nextRunnableThread = some t → ∀ q, s.priority t < q → s.priorityQueue q ≠ [] →
      s'.selections.count q = 2 * q + 1
  cached : isYield = false → s.nextRunnableThread ≠ none → s' = s

theorem choose_head {p : Nat} (hp : s.priorityQueue p ≠ []) (isYield : Bool) :
    ∃ t, (s.choose isYield p).nextRunnableThread = some t ∧ t ∈ s.priorityQueue p := by
  generalize hqueue : (s.priorityQueue p).rotate (if isYield then 1 else 0) = queue
  have hperm : queue.Perm (s.priorityQueue p) := hqueue ▸ List.rotate_perm _ _
  cases queue with
  | nil => exact absurd (List.rotate_eq_nil_iff.1 hqueue) hp
  | cons t rest =>
    refine ⟨t, ?_, hperm.mem_iff.1 List.mem_cons_self⟩
    show ((s.priorityQueue p).rotate _).head? = _
    rw [hqueue]
    rfl

theorem getNextRunnableThread_spec (h : s.Inv) (current : Nat) (isYield : Bool) :
    (s.getNextRunnableThread current isYield).Inv ∧
      s.Selects isYield (s.getNextRunnableThread current isYield) := by
  unfold getNextRunnableThread
  split
  case isTrue hcached =>
    obtain ⟨hno, hsome⟩ := hcached
    have hempty (hall : ∀ p, s.priorityQueue p = []) : s.nextRunnableThread = none := by
      cases hnext : s.nextRunnableThread with
      | none => rfl
      | some t =>
        have hmem := h.cached t hnext
        rw [hall] at hmem
        cases hmem
    refine ⟨h, h.cached, fun _ => hsome, hempty, fun hsearch => ?_, fun _ _ => rfl⟩
    rcases hsearch with hyield | hnone
    · exact absurd hyield hno
    · exact absurd hnone hsome
  case isFalse hsearch =>
    rw [visitTasks_eq h.toQueued isYield (one_mem_tasksFrom current)]
    rcases searchTask_spec h.toQueued isYield with ⟨s₀, p, hfound, hs⟩ | ⟨hall, hs⟩
    · rw [hs]
      obtain ⟨hqueued, hsame⟩ := hfound.queued h.toQueued
      have hp : s₀.priorityQueue p ≠ [] := hsame.symm ▸ hfound.active
      obtain ⟨t, hnext, ht⟩ := choose_head hp isYield
      have hpriority : s.priority t = p := h.placed p t (hsame ▸ ht)
      have ht' : t ∈ s.priorityQueue (s.priority t) := by
        rw [hpriority, ← hsame]
        exact ht
      refine ⟨choose_inv hqueued hp hfound.turns isYield, fun u hu => ?_, fun _ hnone => ?_,
        fun hall => absurd (hall p) hfound.active, fun _ u hu q hq hne => ?_, fun hno hsome => ?_⟩
      · obtain rfl : t = u := Option.some.inj (hnext.symm.trans hu)
        exact ht'
      · cases hnext.symm.trans hnone
      · obtain rfl : t = u := Option.some.inj (hnext.symm.trans hu)
        rw [hpriority] at hq
        have hused := hfound.above q hq hne
        have hturns := hqueued.turns q
        show (p :: s₀.selections).count q = 2 * q + 1
        rw [List.count_cons_of_ne (Nat.ne_of_lt hq), ← hqueued.counts q]
        omega
      · exact absurd ⟨by rw [hno]; decide, hsome⟩ hsearch
    · rw [hs]
      refine ⟨⟨h.toQueued.recache none, nofun⟩, nofun, ?_, fun _ => rfl, fun _ => nofun, ?_⟩
      · rintro ⟨p, hp⟩
        exact absurd (hall p) hp
      · intro hno hsome
        exact absurd ⟨by rw [hno]; decide, hsome⟩ hsearch

end

/-! ## Runs -/

/-- The calls that change the queues. -/
inductive Op (T : Type) where
  | addToActive (t : T)
  | removeFromActive (t : T)
  | setPriority (t : T) (newPriority : Nat)
  | terminateLast (t : T)
  | select (current : Nat) (isYield : Bool)
  deriving DecidableEq, Repr

/-- One call; a thread is added once, and `setPriority` has checked the priority. -/
def step (s : RunQueues T) : Op T → Option (RunQueues T)
  | .addToActive t =>
    if t ∈ s.priorityQueue (s.priority t) then none else some (s.addToActive t)
  | .removeFromActive t =>
    if t ∈ s.priorityQueue (s.priority t) then some (s.removeFromActive t) else none
  | .setPriority t newPriority =>
    if 1 ≤ newPriority ∧ newPriority ≤ numPrioritySlots then some (s.setPriority t newPriority)
    else none
  | .terminateLast t =>
    if s.priorityQueue (s.priority t) = [t] then some (s.terminateLast t) else none
  | .select current isYield => some (s.getNextRunnableThread current isYield)

def Step (s : RunQueues T) (op : Op T) (s' : RunQueues T) : Prop := s.step op = some s'

theorem Inv.step {s s' : RunQueues T} (h : s.Inv) {op : Op T} (hs : s.Step op s') : s'.Inv := by
  unfold Step RunQueues.step at hs
  cases op with
  | addToActive t =>
    obtain ⟨ht, hs⟩ := Option.ite_none_left_eq_some.1 hs
    cases hs
    exact h.addToActive ht
  | removeFromActive t =>
    obtain ⟨-, hs⟩ := Option.ite_none_right_eq_some.1 hs
    cases hs
    exact h.removeFromActive t
  | setPriority t newPriority =>
    obtain ⟨hnew, hs⟩ := Option.ite_none_right_eq_some.1 hs
    cases hs
    exact h.setPriority t hnew
  | terminateLast t =>
    obtain ⟨-, hs⟩ := Option.ite_none_right_eq_some.1 hs
    cases hs
    exact h.terminateLast t
  | select current isYield =>
    cases hs
    exact (getNextRunnableThread_spec h current isYield).1

omit [DecidableEq T] in
theorem new_inv {priority : T → Nat}
    (htyped : ∀ t, 1 ≤ priority t ∧ priority t ≤ numPrioritySlots) :
    Inv { priority := priority } where
  typed := htyped
  mask p _ := by
    show (0 : BitVec 32).getLsbD p = true ↔ ([] : List T) ≠ []
    simp
  placed := nofun
  nodup _ := List.nodup_nil
  counts _ := rfl
  turns _ := Nat.zero_le _
  last := Nat.zero_le _
  cached := nofun

/-- **Thread selection**: the invariant holds in every state the scheduler reaches, and where it
holds a thread is found exactly when there is one, and a search passes over no turns. -/
theorem selects_of_inv :
    (∀ (priority : T → Nat) ops s, (∀ t, 1 ≤ priority t ∧ priority t ≤ numPrioritySlots) →
      Lts.Run Step { priority := priority } ops s → s.Inv) ∧
    ∀ s : RunQueues T, s.Inv → ∀ current isYield,
      s.Selects isYield (s.getNextRunnableThread current isYield) := by
  refine ⟨fun priority ops s htyped hrun => ?_, fun s h current isYield => ?_⟩
  · exact hrun.invariant (fun _ _ _ h hs => h.step hs) (new_inv htyped)
  · exact (getNextRunnableThread_spec h current isYield).2

/-- Thread `n` has priority `n`. -/
def byNumber : RunQueues (Fin 3) := { priority := fun t => t + 1 }

theorem byNumber_typed (t : Fin 3) : 1 ≤ byNumber.priority t ∧ byNumber.priority t ≤ numPrioritySlots := by
  revert t
  decide

/-- The thread of priority 1 has its first turn when that of priority 2 has had five. -/
theorem selects_of_inv_turns :
    ∃ s, Lts.Run Step byNumber [.addToActive 0, .addToActive 1, .select 1 true, .select 1 true,
      .select 1 true, .select 1 true, .select 1 true] s ∧ s.Inv ∧
      s.selections = [2, 2, 2, 2, 2] ∧ (s.getNextRunnableThread 1 true).nextRunnableThread = some 0 ∧
      s.Selects true (s.getNextRunnableThread 1 true) := by
  obtain ⟨s, hrun, hturns, hnext⟩ : ∃ s, Lts.Run Step byNumber [.addToActive 0, .addToActive 1,
      .select 1 true, .select 1 true, .select 1 true, .select 1 true, .select 1 true] s ∧
      s.selections = [2, 2, 2, 2, 2] ∧
      (s.getNextRunnableThread 1 true).nextRunnableThread = some 0 := by
    refine ⟨_, .cons rfl <| .cons rfl <| .cons rfl <| .cons rfl <| .cons rfl <| .cons rfl <|
      .cons rfl <| .nil _, ?_, ?_⟩
    · decide +kernel
    · decide +kernel
  have hinv := selects_of_inv.1 _ _ s byNumber_typed hrun
  exact ⟨s, hrun, hinv, hturns, hnext, selects_of_inv.2 s hinv 1 true⟩

/-- A thread of priority 2 becomes active while one of priority 1 is cached, and is not chosen. -/
theorem cached_passes_over :
    ¬ ∀ (s : RunQueues (Fin 3)) ops, Lts.Run Step byNumber ops s → ∀ current isYield t,
      (s.getNextRunnableThread current isYield).nextRunnableThread = some t →
      ∀ q, s.priority t < q → s.priorityQueue q ≠ [] →
        (s.getNextRunnableThread current isYield).selections.count q = 2 * q + 1 := by
  intro h
  obtain ⟨s, hrun, hnext, hlow, hactive, hcount⟩ : ∃ s, Lts.Run Step byNumber
      [.addToActive 0, .select 1 true, .addToActive 1] s ∧
      (s.getNextRunnableThread 1 false).nextRunnableThread = some 0 ∧ s.priority 0 < 2 ∧
      s.priorityQueue 2 ≠ [] ∧ (s.getNextRunnableThread 1 false).selections.count 2 = 0 := by
    refine ⟨_, .cons rfl <| .cons rfl <| .cons rfl <| .nil _, ?_, ?_, ?_, ?_⟩
    · decide +kernel
    · decide +kernel
    · decide +kernel
    · decide +kernel
  have hquota := h s _ hrun 1 false 0 hnext 2 hlow hactive
  rw [hcount] at hquota
  exact absurd hquota (by decide)

end RunQueues

end FroggyKVM.Threads
