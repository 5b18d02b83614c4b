/-
# FroggyKVM.Timers.Attended — no task waits without a thread to run it.

At most one thread of a timer is alive, the one in its field `thread`.  As long as no task is
accepted while that thread has left the loop but is still alive, and no task's `run` ends in an
`Error` with tasks on the queue, a thread in the loop attends every queue that is not empty.
-/
import FroggyKVM.Timers.Run

namespace FroggyKVM.Timers

/-! ## The invariant -/

/-- There are tasks to run: the timer is not cancelled and its queue is not empty. -/
def Timer.Pending (s : Timer) : Prop :=
  s.queue.newTasksMayBeScheduled = true ∧ s.queue.isEmpty = false

/-- A thread is in the loop. -/
def Timer.HasAttendant (s : Timer) : Prop := ∃ pc ∈ s.threads, pc.inLoop = true

/-- Only the thread of the timer is alive, and it is in the loop while there are tasks. -/
structure Timer.Attended (s : Timer) : Prop where
  started : ∀ i, s.thread = some i → i < s.threads.length
  alone : ∀ i pc, s.threads[i]? = some pc → pc ≠ .dead → s.thread = some i
  attended : s.Pending → s.HasAttendant

/-- `sched` puts the task on the queue. -/
def Timer.accepts (s : Timer) (t : TaskId) (time : Int) : Prop :=
  0 ≤ time ∧ s.queue.newTasksMayBeScheduled = true ∧ (s.tasks t).state = .VIRGIN

instance (s : Timer) (t : TaskId) (time : Int) : Decidable (s.accepts t time) :=
  inferInstanceAs (Decidable (_ ∧ _))

/-- Some thread has left the loop and is still alive. -/
def Timer.Leaving (s : Timer) : Prop := ∃ pc ∈ s.threads, pc.inLoop = false ∧ pc ≠ .dead

instance (s : Timer) : Decidable s.Leaving := inferInstanceAs (Decidable (∃ pc ∈ s.threads, _))

instance (s : Timer) : Decidable s.Pending := inferInstanceAs (Decidable (_ ∧ _))

instance (s : Timer) : Decidable s.HasAttendant :=
  inferInstanceAs (Decidable (∃ pc ∈ s.threads, _))

/-- **The condition on a step**: no task is accepted while a thread that has left the loop is still
alive, and no `run` of a task ends in an `Error` while there are tasks. -/
def Timer.Attends (s : Timer) : TimerOp → Prop
  | .sched t time _ => s.accepts t time → ¬ s.Leaving
  | .runEnds _ .error => ¬ s.Pending
  | _ => True

instance (s : Timer) : (op : TimerOp) → Decidable (s.Attends op)
  | .sched .. => inferInstanceAs (Decidable (_ → _))
  | .runEnds _ .error => inferInstanceAs (Decidable (¬ _))
  | .runEnds _ .normal | .runEnds _ .exception | .cancel | .cancelTask _ | .monitor .. | .timeOut _
  | .interrupt _ | .catchException _ | .catchError _ | .die _ => inferInstanceAs (Decidable True)

/-! ## What the operations keep -/

theorem notify_getElem? (ps : List Pc) (i : Nat) :
    (notify ps)[i]? = ps[i]? ∨
      (ps[i]? = some .idleWait ∧ (notify ps)[i]? = some .idleWoken) ∨
      (ps[i]? = some .fireWait ∧ (notify ps)[i]? = some .fireWoken) := by
  induction ps generalizing i with
  | nil => exact .inl rfl
  | cons p ps ih =>
    cases i with
    | zero => cases p <;> simp [notify]
    | succ i => cases p <;> simp [notify, ih]

@[simp] theorem notify_length (ps : List Pc) : (notify ps).length = ps.length := by
  induction ps with
  | nil => rfl
  | cons p ps ih => cases p <;> simp [notify, ih]

/-- Waking a thread leaves it in the loop. -/
theorem notify_attendant {ps : List Pc} (h : ∃ pc ∈ ps, pc.inLoop = true) :
    ∃ pc ∈ notify ps, pc.inLoop = true := by
  obtain ⟨pc, hmem, hpc⟩ := h
  obtain ⟨i, hi⟩ := List.mem_iff_getElem?.1 hmem
  rcases notify_getElem? ps i with h | ⟨-, h⟩ | ⟨-, h⟩
  · exact ⟨pc, List.mem_iff_getElem?.2 ⟨i, h.trans hi⟩, hpc⟩
  · exact ⟨.idleWoken, List.mem_iff_getElem?.2 ⟨i, h⟩, rfl⟩
  · exact ⟨.fireWoken, List.mem_iff_getElem?.2 ⟨i, h⟩, rfl⟩

theorem notify_alone {s : Timer}
    (h : ∀ i pc, s.threads[i]? = some pc → pc ≠ .dead → s.thread = some i) :
    ∀ i pc, (notify s.threads)[i]? = some pc → pc ≠ .dead → s.thread = some i := by
  intro i pc hi hpc
  rcases notify_getElem? s.threads i with hsame | ⟨hold, -⟩ | ⟨hold, -⟩
  · exact h i pc (hsame.symm.trans hi) hpc
  · exact h i .idleWait hold (by simp)
  · exact h i .fireWait hold (by simp)

/-- A thread that is alive moves: if there are tasks afterwards, it is in the loop. -/
theorem Timer.Attended.setPc {s s' : Timer} (hs : s.Attended) {i : Nat} {p pc : Pc}
    (hi : s.threads[i]? = some p) (hp : p ≠ .dead) (hthreads : s'.threads = s.threads.set i pc)
    (hthread : s'.thread = s.thread) (hpc : s'.Pending → pc.inLoop = true) : s'.Attended where
  started := by
    rw [hthreads, hthread, List.length_set]
    exact hs.started
  alone := by
    intro j q hj hq
    rw [hthreads] at hj
    rw [hthread]
    rcases eq_or_ne i j with rfl | hne
    · exact hs.alone i p hi hp
    · rw [List.getElem?_set_ne hne] at hj
      exact hs.alone j q hj hq
  attended := by
    intro hpending
    refine ⟨pc, ?_, hpc hpending⟩
    rw [hthreads]
    have hlt : i < s.threads.length := (List.getElem?_eq_some_iff.1 hi).1
    exact List.mem_iff_getElem?.2 ⟨i, List.getElem?_set_self hlt⟩

/-- The thread in the loop of a timer that is attended, when there is one. -/
theorem Timer.Attended.mono {s s' : Timer} (hs : s.Attended) (hthreads : s'.threads = s.threads)
    (hthread : s'.thread = s.thread) (hpending : s'.Pending → s.Pending) : s'.Attended where
  started := by
    rw [hthreads, hthread]
    exact hs.started
  alone := by
    rw [hthreads, hthread]
    exact hs.alone
  attended := by
    unfold Timer.HasAttendant
    rw [hthreads]
    exact fun h => hs.attended (hpending h)

/-- While the thread is leaving there are no tasks. -/
theorem Timer.Attended.not_pending {s : Timer} (hs : s.Attended) {i : Nat} {p : Pc}
    (hi : s.threads[i]? = some p) (hout : p.inLoop = false) (hp : p ≠ .dead) : ¬ s.Pending := by
  intro hpending
  obtain ⟨pc, hmem, hpc⟩ := hs.attended hpending
  obtain ⟨j, hj⟩ := List.mem_iff_getElem?.1 hmem
  have hne : pc ≠ .dead := by
    rintro rfl
    cases hpc
  have hij : some i = some j := (hs.alone i p hi hp).symm.trans (hs.alone j pc hj hne)
  obtain rfl := Option.some.inj hij
  obtain rfl : p = pc := Option.some.inj (hi.symm.trans hj)
  rw [hout] at hpc
  cases hpc

/-! ## Steps -/

/-- After `startThread` there is no other thread than that of the timer, and unless one is leaving,
it is in the loop. -/
theorem Timer.startThread_attended {s : Timer} (hs : s.Attended) :
    s.startThread.Attended ∧ (¬ s.Leaving → s.startThread.HasAttendant) := by
  unfold Timer.startThread
  split
  case isTrue halive =>
    refine ⟨hs, fun hleaving => ?_⟩
    unfold Timer.threadAlive at halive
    cases hthread : s.thread with
    | none => simp [hthread] at halive
    | some i =>
      obtain ⟨pc, hi⟩ : ∃ pc, s.threads[i]? = some pc :=
        ⟨_, List.getElem?_eq_getElem (hs.started i hthread)⟩
      have hne : s.threads[i]? ≠ some Pc.dead := by simpa [hthread] using halive
      have hmem := List.mem_iff_getElem?.2 ⟨i, hi⟩
      refine ⟨pc, hmem, ?_⟩
      by_contra hout
      refine hleaving ⟨pc, hmem, by simpa using hout, ?_⟩
      rintro rfl
      exact hne hi
  case isFalse hdead =>
    have hall : ∀ (i : Nat) (pc : Pc), s.threads[i]? = some pc → pc = .dead := by
      intro i pc hi
      by_contra hne
      have hthread := hs.alone i pc hi hne
      exact hdead (by simp [Timer.threadAlive, hthread, hi, hne])
    have hnew : (.loopTop : Pc) ∈ s.threads ++ [.loopTop] := by simp
    refine ⟨⟨?_, ?_, fun _ => ⟨.loopTop, hnew, rfl⟩⟩, fun _ => ⟨.loopTop, hnew, rfl⟩⟩
    · rintro i ⟨⟩
      simp
    · intro i pc hi hpc
      show some s.threads.length = some i
      rcases Nat.lt_trichotomy i s.threads.length with hlt | heq | hgt
      · rw [List.getElem?_append_left hlt] at hi
        exact absurd (hall i pc hi) hpc
      · rw [heq]
      · rw [List.getElem?_eq_none (by simp; omega)] at hi
        cases hi

theorem Timer.startThread_queue (s : Timer) : s.startThread.queue = s.queue := by
  unfold Timer.startThread
  split <;> rfl

theorem Timer.sched_attended {s : Timer} (hs : s.Attended) (t : TaskId) (time period : Int)
    (hok : s.accepts t time → ¬ s.Leaving) :
    Returns (s.sched t time period) Timer.Attended := by
  obtain ⟨hstart, hattendant⟩ := s.startThread_attended hs
  have htasks : s.startThread.tasks = s.tasks := by
    unfold Timer.startThread
    split <;> rfl
  unfold Timer.sched
  split
  · exact .ok hs
  · split
    · exact .ok hs
    · simp only [htasks]
      split
      · exact .ok hstart
      · rename_i htime hflag hstate
        have haccepts : s.accepts t time :=
          ⟨by omega, by simpa using hflag, by simpa using hstate⟩
        have hthere := hattendant (hok haccepts)
        refine .bind_any fun queue => .bind_any fun min => .pure ?_
        split
        · refine ⟨?_, notify_alone hstart.alone, fun _ => notify_attendant hthere⟩
          intro i hi
          rw [notify_length]
          exact hstart.started i hi
        · exact ⟨hstart.started, hstart.alone, fun _ => hthere⟩

theorem Timer.dispatch_attended {s : Timer} (hs : s.Attended) {i : Nat} {p : Pc}
    (hi : s.threads[i]? = some p) (hp : p ≠ .dead) (now : Int) :
    Returns (s.dispatch i now) Timer.Attended := by
  have hmove : ∀ (s' : Timer) (pc : Pc), s'.threads = s.threads → s'.thread = s.thread →
      pc.inLoop = true → (s'.setPc i pc).Attended := fun s' pc hthreads hthread hpc =>
    hs.setPc hi hp (by rw [Timer.setPc_threads, hthreads]) hthread fun _ => hpc
  unfold Timer.dispatch
  refine .bind_any fun t => ?_
  simp only
  split
  · exact .bind_any fun queue => .pure (hmove _ _ rfl rfl rfl)
  · split
    · split
      · exact .bind_any fun queue => .pure (hmove _ _ rfl rfl rfl)
      · exact .bind_any fun queue => .pure (hmove _ _ rfl rfl rfl)
    · exact .pure (hmove _ _ rfl rfl rfl)

theorem Timer.monitorSection_attended {s : Timer} (hs : s.Attended) (i : Nat) (now : Int) :
    Returns (s.monitorSection i now) Timer.Attended := by
  unfold Timer.monitorSection
  split
  case h_1 hi =>
    split
    case isTrue hempty =>
      split
      case isTrue => exact .ok (hs.setPc hi (by simp) rfl rfl fun _ => rfl)
      case isFalse hcancelled =>
        exact .ok (hs.setPc hi (by simp) rfl rfl fun h => absurd h.1 hcancelled)
    case isFalse => exact s.dispatch_attended hs hi (by simp) now
  case h_2 hi =>
    split
    case isTrue hempty =>
      -- the wait ended with an empty queue: the thread leaves the loop
      refine .ok (hs.setPc hi (by simp) rfl rfl fun h => ?_)
      have hne : s.queue.isEmpty = false := h.2
      rw [hempty] at hne
      cases hne
    case isFalse => exact s.dispatch_attended hs hi (by simp) now
  case h_3 hi => exact .ok (hs.setPc hi (by simp) rfl rfl fun _ => rfl)
  case h_4 => exact .error

theorem Timer.step_attended {s : Timer} (hs : s.Attended) (op : TimerOp) (hok : s.Attends op) :
    Returns (s.step op) Timer.Attended := by
  cases op with
  | sched t time period => exact s.sched_attended hs t time period hok
  | cancel =>
    refine .ok ⟨?_, notify_alone hs.alone, fun h => ?_⟩
    · intro i hi
      show i < (notify s.threads).length
      rw [notify_length]
      exact hs.started i hi
    · cases h.1
  | cancelTask t => exact .ok (hs.mono rfl rfl id)
  | monitor i now => exact s.monitorSection_attended hs i now
  | timeOut i =>
    simp only [Timer.step]
    split
    case h_1 hi => exact .ok (hs.setPc hi (by simp) rfl rfl fun _ => rfl)
    case h_2 hi => exact .ok (hs.setPc hi (by simp) rfl rfl fun _ => rfl)
    case h_3 => exact .error
  | interrupt i =>
    simp only [Timer.step]
    split
    case h_5 => exact .error
    all_goals
      rename_i hi
      exact .ok (hs.setPc hi (by simp) rfl rfl fun _ => rfl)
  | runEnds i how =>
    simp only [Timer.step]
    split
    case h_1 hi => exact .ok (hs.setPc hi (by simp) rfl rfl fun _ => rfl)
    case h_2 hi => exact .ok (hs.setPc hi (by simp) rfl rfl fun _ => rfl)
    case h_3 hi => exact .ok (hs.setPc hi (by simp) rfl rfl fun h => absurd h hok)
    case h_4 => exact .error
  | catchException i =>
    simp only [Timer.step]
    split
    case h_1 hi => exact .ok (hs.setPc hi (by simp) rfl rfl fun _ => rfl)
    case h_2 => exact .error
  | catchError i =>
    simp only [Timer.step]
    split
    case h_1 hi => exact .ok (hs.setPc hi (by simp) rfl rfl fun h => by cases h.1)
    case h_2 => exact .error
  | die i =>
    simp only [Timer.step]
    split
    case h_1 hi =>
      exact .ok (hs.setPc hi (by simp) rfl rfl fun h => absurd h (hs.not_pending hi rfl (by simp)))
    case h_2 => exact .error

theorem Timer.new_attended (tasks : TaskId → TimerTask) : (Timer.new tasks).Attended where
  started := by
    intro i hi
    cases hi
  alone := by
    intro i pc hi
    cases hi
  attended := by
    intro h
    cases h.2

/-! ## Runs -/

/-- **Where there are tasks, a thread is in the loop**, in every run in which no task is accepted
while a thread is leaving and no task's `run` ends in an `Error` with tasks on the queue. -/
theorem Timer.attended_of_run {tasks : TaskId → TimerTask} {ops : List TimerOp} {s : Timer}
    (hrun : Lts.Run (Lts.Guarded Timer.Step Timer.Attends) (Timer.new tasks) ops s)
    (hnew : s.queue.newTasksMayBeScheduled = true) (hne : s.queue.isEmpty = false) :
    ∃ pc ∈ s.threads, pc.inLoop = true := by
  have hs : s.Attended := hrun.invariant (I := Timer.Attended)
    (fun s op _ hs h => s.step_attended hs op h.1 _ h.2) (Timer.new_attended tasks)
  exact hs.attended ⟨hnew, hne⟩

/-- A task that is waited for, with the thread that waits. -/
theorem Timer.attended_of_run_waiting :
    ∃ s, Lts.Run (Lts.Guarded Timer.Step Timer.Attends) (Timer.new fun _ => {})
        [.sched 0 5 0, .monitor 0 3] s ∧ ∃ pc ∈ s.threads, pc.inLoop = true := by
  obtain ⟨s, hrun, hnew, hne⟩ := Lts.Run.exists_of_exec Timer.step
    (fun s op => decide (s.Attends op))
    (fun s => s.queue.newTasksMayBeScheduled = true ∧ s.queue.isEmpty = false)
    (Timer.new fun _ => {}) [.sched 0 5 0, .monitor 0 3] (by decide +kernel)
  have hrun : Lts.Run (Lts.Guarded Timer.Step Timer.Attends) (Timer.new fun _ => {}) _ s :=
    hrun.mono fun _ _ _ h => ⟨of_decide_eq_true h.1, h.2⟩
  exact ⟨s, hrun, Timer.attended_of_run hrun hnew hne⟩

/-- A second task is scheduled after the idle thread has left the loop and before it dies: the task
stays on the queue, and no thread is left. -/
theorem Timer.task_lost :
    ∃ s, Lts.Run Timer.Step (Timer.new fun _ => {})
        [.sched 0 0 0, .monitor 0 1, .runEnds 0 .normal, .monitor 0 1, .timeOut 0, .monitor 0 1,
          .sched 1 0 0, .die 0] s ∧
      s.queue.newTasksMayBeScheduled = true ∧ s.queue.isEmpty = false ∧
      ¬ ∃ pc ∈ s.threads, pc.inLoop = true := by
  obtain ⟨s, hrun, hlost⟩ := Lts.Run.exists_of_exec Timer.step (fun _ _ => true)
    (fun s => s.queue.newTasksMayBeScheduled = true ∧ s.queue.isEmpty = false ∧
      ¬ ∃ pc ∈ s.threads, pc.inLoop = true)
    (Timer.new fun _ => {})
    [.sched 0 0 0, .monitor 0 1, .runEnds 0 .normal, .monitor 0 1, .timeOut 0, .monitor 0 1,
      .sched 1 0 0, .die 0] (by decide +kernel)
  exact ⟨s, hrun.mono fun _ _ _ h => h.2, hlost⟩

/-! ## No step faults -/

theorem Timer.sched_ok {s : Timer} (hs : s.queue.Filled) (t : TaskId) (time period : Int) :
    Succeeds (s.sched t time period) fun s' => s'.queue.Filled := by
  have hstart : s.startThread.queue.Filled := by
    rw [Timer.startThread_queue]
    exact hs
  unfold Timer.sched
  split
  · exact .ok hs
  · split
    · exact .ok hs
    · simp only
      split
      · exact .ok hstart
      · refine .bind (TaskQueue.add_ok _ t hstart) fun queue hadd => ?_
        have hne : queue.isEmpty = false := by
          have := hadd.size
          simp [TaskQueue.isEmpty]
          omega
        exact .bind (TaskQueue.getMin_ok hadd.filled hne) fun min _ => .pure hadd.filled

theorem Timer.dispatch_ok {s : Timer} (hs : s.queue.Filled) (hne : s.queue.isEmpty = false)
    (i : Nat) (now : Int) : Succeeds (s.dispatch i now) fun s' => s'.queue.Filled := by
  unfold Timer.dispatch
  refine .bind (TaskQueue.getMin_ok hs hne) fun t _ => ?_
  simp only
  split
  · exact .bind (TaskQueue.removeMin_ok _ hs hne) fun queue h => .pure h.filled
  · split
    · split
      · exact .bind (TaskQueue.removeMin_ok _ hs hne) fun queue h => .pure h.filled
      · exact .bind (TaskQueue.fixMin_ok _ hs) fun queue h => .pure h.filled
    · exact .pure hs

/-- The step is not the thread's next, or it succeeds. -/
theorem Timer.step_ok {s : Timer} (hs : s.queue.Filled) (op : TimerOp) :
    s.step op = .error .disabled ∨ Succeeds (s.step op) fun s' => s'.queue.Filled := by
  cases op with
  | sched t time period => exact .inr (s.sched_ok hs t time period)
  | cancel => exact .inr (.ok (TaskQueue.clear_filled hs))
  | cancelTask t => exact .inr (.ok hs)
  | monitor i now =>
    simp only [Timer.step, Timer.monitorSection]
    split
    case h_1 =>
      split
      case isTrue => split <;> exact .inr (.ok hs)
      case isFalse hne => exact .inr (s.dispatch_ok hs (by simpa using hne) i now)
    case h_2 =>
      split
      case isTrue => exact .inr (.ok hs)
      case isFalse hne => exact .inr (s.dispatch_ok hs (by simpa using hne) i now)
    case h_3 => exact .inr (.ok hs)
    case h_4 => exact .inl rfl
  | timeOut i | interrupt i | runEnds i how | catchException i | die i =>
    simp only [Timer.step]
    split
    all_goals first
      | exact .inl rfl
      | exact .inr (.ok hs)
  | catchError i =>
    simp only [Timer.step]
    split
    case h_1 => exact .inr (.ok (TaskQueue.clear_filled hs))
    case h_2 => exact .inl rfl

/-- **No call and no step of a thread faults**, in any run. -/
theorem Timer.faultless_of_run {tasks : TaskId → TimerTask} {ops : List TimerOp} {s : Timer}
    (hrun : Lts.Run Timer.Step (Timer.new tasks) ops s) (op : TimerOp) :
    s.step op = .error .disabled ∨ ∃ s', s.Step op s' := by
  have hs : s.queue.Filled := by
    refine hrun.invariant (I := fun s => s.queue.Filled) (fun s op s' hs h => ?_) ?_
    · rcases s.step_ok hs op with hdisabled | hok
      · cases hdisabled.symm.trans h
      · exact hok.returns s' h
    · exact TaskQueue.new_filled
  rcases s.step_ok hs op with hdisabled | ⟨s', hstep, -⟩
  · exact .inl hdisabled
  · exact .inr ⟨s', hstep⟩

/-- The clock passes the time of a task, and the thread looks at it. -/
theorem Timer.faultless_of_run_fires :
    ∃ s, Lts.Run Timer.Step (Timer.new fun _ => {}) [.sched 0 5 0, .monitor 0 3, .timeOut 0] s ∧
      (s.step (.monitor 0 5) = .error .disabled ∨ ∃ s', s.Step (.monitor 0 5) s') := by
  obtain ⟨s, hrun, -⟩ := Lts.Run.exists_of_exec Timer.step (fun _ _ => true) (fun _ => True)
    (Timer.new fun _ => {}) [.sched 0 5 0, .monitor 0 3, .timeOut 0] (by decide +kernel)
  have hrun := hrun.mono fun _ _ _ h => h.2
  exact ⟨s, hrun, Timer.faultless_of_run hrun _⟩

end FroggyKVM.Timers
