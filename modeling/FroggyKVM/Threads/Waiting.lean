/-
# FroggyKVM.Threads.Waiting — threads wait, sleep, start and are woken up.

A thread that waits has given its lock back and keeps the stack lock.  Waking it up takes it out of
the wait list and has it enter again, on its own behalf but by the thread that runs, so it is active
only if it got the lock; until then it sleeps in the queue.
-/
import FroggyKVM.Threads.Monitors

namespace FroggyKVM.Threads

open Linked

variable {T O N L : Type} [DecidableEq T] [DecidableEq O] [DecidableEq L]

namespace State

/-- The thread got through `enter`, or sleeps in the queue of the object. -/
def AtDoor (s : State T O N L) (t : T) (o : O) : Prop :=
  (s.active t = true ∧ s.isLockedBy o t = true) ∨ (s.active t = false ∧ t ∈ s.queueOf o)

namespace Inv

variable {home : L → T} {s s' : State T O N L} {q q' : L → List T}

omit [DecidableEq O] [DecidableEq L] in
theorem isLockedBy_steady (h : s.Inv home q) (h' : s'.Inv home q') (hs : s.Steady s') {o : O}
    {t : T} (ht : s.isLockedBy o t = true) : s'.isLockedBy o t = true := by
  obtain ⟨l, hl, hhome⟩ := h.isLockedBy_iff.1 ht
  have hk := (hs o l ((h.near o l).2 hl)).1
  exact h'.isLockedBy_iff.2 ⟨l, (h'.near o l).1 hk, hhome⟩

omit [DecidableEq O] [DecidableEq L] in
theorem atDoor_steady (h : s.Inv home q) (h' : s'.Inv home q') (hs : s.Steady s') {o : O} {t : T}
    (hactive : s'.active t = s.active t) (ht : s.AtDoor t o) : s'.AtDoor t o := by
  rcases ht with ⟨hon, hlocked⟩ | ⟨hoff, hmem⟩
  · exact .inl ⟨hactive.trans hon, h.isLockedBy_steady h' hs hlocked⟩
  · refine .inr ⟨hactive.trans hoff, ?_⟩
    cases hk : s.klass o with
    | heap n =>
      rw [queueOf_heap hk] at hmem
      cases hmem
    | stack l => exact (hs o l hk).2.subset hmem

/-! ## Waking up -/

/-- What waking up a thread does that waits or sleeps. -/
structure Woken (home : L → T) (s s' : State T O N L) (t : T) : Prop where
  inv : ∃ q, s'.Inv home q
  steady : s.Steady s'
  waiting : s'.waiting = s.waiting.erase t
  active : ∀ t', t' ≠ t → s'.active t' = s.active t'
  waitObj : ∀ t', t' ≠ t → s'.waitObj t' = s.waitObj t'
  atDoor : ∀ o, s.waitObj t = some o → s'.AtDoor t o

theorem wakeUp_waiting (h : s.Inv home q) {t : T} (ht : t ∈ s.waiting) :
    ∃ s', s.wakeUp t = some s' ∧ Woken home s s' t := by
  obtain ⟨hlive, hoff, hns, o, hobj, l, hl, hhome, howner, hnear⟩ := h.waits t ht
  -- the thread is active again and registered for nothing, and its lock asks for the object
  let s₁ : State T O N L := { s with
    active := Function.update s.active t true
    nextWaiting := Function.update s.nextWaiting t none
    waitObj := Function.update s.waitObj t none
    waitStackLock := Function.update s.waitStackLock t none
    waiting := s.waiting.erase t }
  let s₂ := s₁.setOwner l (some o)
  have hwake : s.wakeUp t = (s₂.enter t l).map Prod.snd := by
    simp [wakeUp, removeWaitingThread, notifyWakeup, addToActive, hobj, hl, hoff, ht, s₂, s₁,
      setOwner, setLock, setWaitStackLock, setWaitObj]
  have hmoved : Moved s s₁ t := by
    constructor
    case active | waitObj | waitStackLock | nextWaiting =>
      exact fun t' ht' => Function.update_of_ne ht' _ _
    case waiting => exact fun t' ht' => List.mem_erase_of_ne ht'
    all_goals simp [s₁]
  have hq : ∀ l, t ∉ q l := by
    intro l' hmem
    obtain ⟨o', -, hb⟩ := h.blocked_of_mem hmem
    exact hb.notWaiting ht
  have hon : s₁.active t = true := Function.update_self ..
  have hinv₁ : s₁.Inv home q := h.moved hmoved hq
    ⟨hlive, .inl ⟨hon, h.waitingNodup.not_mem_erase, hns⟩⟩ (h.waitingNodup.erase t)
    h.sleepingNodup h.threadsNodup
  have hinv₂ : s₂.Inv home q := (hinv₁.setLock_unheld (l := l) { s₁.lock l with owner := some o }
    (.inl (by rw [hhome]; exact hon)) (fun o' ho' => ho'.2 hnear) (.inr hnear)).1
  obtain ⟨b, s', henter, hentered⟩ := hinv₂.entered (l := l) (t := t) (o := o) hon hhome
    (by simp [s₂, setOwner, setLock]) (by simpa [s₂, setOwner, setLock] using hnear)
  have hsteady : s.Steady s₂ := h.steady hinv₂ (fun _ _ hk => hk) fun _ => List.prefix_rfl
  rw [henter] at hwake
  refine ⟨s', hwake, hentered.inv, hsteady.trans hentered.steady, hentered.waiting, ?_, ?_,
    ?_⟩
  · intro t' ht'
    exact (hentered.active t' ht').trans (Function.update_of_ne ht' _ _)
  · intro t' ht'
    exact (hentered.waitObj t' ht').trans (Function.update_of_ne ht' _ _)
  · intro o' ho'
    rw [hobj] at ho'
    cases ho'
    rcases hentered.result with hin | ⟨hasleep, hqueue⟩
    · exact .inl hin
    · refine .inr ⟨hasleep, ?_⟩
      rw [hqueue]
      simp

theorem wakeUp_sleeping (h : s.Inv home q) {t : T} (ht : t ∈ s.sleeping) :
    ∃ s', s.wakeUp t = some s' ∧ Woken home s s' t := by
  obtain ⟨hlive, hoff, hobj⟩ := h.sleeps t ht
  have hnw : t ∉ s.waiting := fun hmem => (h.waits t hmem).2.2.1 ht
  let s₁ : State T O N L := { s with
    active := Function.update s.active t true
    nextWaiting := Function.update s.nextWaiting t none
    sleeping := s.sleeping.erase t }
  have hwake : s.wakeUp t = some s₁ := by
    simp [wakeUp, removeWaitingThread, notifyWakeup, addToActive, hobj, hoff, ht, s₁]
  have hmoved : Moved s s₁ t := by
    constructor
    case active | nextWaiting => exact fun t' ht' => Function.update_of_ne ht' _ _
    case sleeping => exact fun t' ht' => List.mem_erase_of_ne ht'
    all_goals simp [s₁]
  have hq : ∀ l, t ∉ q l := by
    intro l' hmem
    obtain ⟨o', -, hb⟩ := h.blocked_of_mem hmem
    exact hb.notSleeping ht
  have hinv₁ : s₁.Inv home q := h.moved hmoved hq
    ⟨hlive, .inl ⟨Function.update_self .., hnw, h.sleepingNodup.not_mem_erase⟩⟩ h.waitingNodup
    (h.sleepingNodup.erase t) h.threadsNodup
  refine ⟨s₁, hwake, ⟨q, hinv₁⟩, h.steady hinv₁ (fun _ _ hk => hk) fun _ => List.prefix_rfl,
    (List.erase_of_not_mem hnw).symm, fun t' ht' => Function.update_of_ne ht' _ _,
    fun _ _ => rfl, ?_⟩
  intro o ho
  rw [hobj] at ho
  cases ho

/-- The loop of `notify`: every thread of the list gets to the door of its object. -/
theorem wakeUp_all {ws : List T} {o : O} (h : s.Inv home q) (hnodup : ws.Nodup)
    (hws : ∀ t ∈ ws, t ∈ s.waiting ∧ s.waitObj t = some o) :
    ∃ s', ws.foldlM (fun s waker => s.wakeUp waker) s = some s' ∧ (∃ q', s'.Inv home q') ∧
      s.Steady s' ∧ (∀ t, t ∉ ws → s'.active t = s.active t) ∧
      (∀ t, t ∉ ws → t ∈ s.waiting → t ∈ s'.waiting) ∧ ∀ t ∈ ws, s'.AtDoor t o := by
  induction ws generalizing s q with
  | nil =>
    refine ⟨s, rfl, ⟨q, h⟩, .refl s, fun _ _ => rfl, fun _ _ hmem => hmem, ?_⟩
    intro t ht
    cases ht
  | cons w ws ih =>
    rw [List.nodup_cons] at hnodup
    obtain ⟨hw, hobj⟩ := hws w List.mem_cons_self
    obtain ⟨s₁, hwake, hwoken⟩ := h.wakeUp_waiting hw
    obtain ⟨q₁, h₁⟩ := hwoken.inv
    have hne : ∀ t ∈ ws, t ≠ w := by
      rintro t ht rfl
      exact hnodup.1 ht
    have hws₁ : ∀ t ∈ ws, t ∈ s₁.waiting ∧ s₁.waitObj t = some o := by
      intro t ht
      obtain ⟨hmem, ho⟩ := hws t (List.mem_cons_of_mem w ht)
      rw [hwoken.waiting, hwoken.waitObj t (hne t ht)]
      exact ⟨(List.mem_erase_of_ne (hne t ht)).2 hmem, ho⟩
    obtain ⟨s', hrest, ⟨q', h'⟩, hsteady, hactive, hwaiting, hdoor⟩ := ih h₁ hnodup.2 hws₁
    refine ⟨s', ?_, ⟨q', h'⟩, hwoken.steady.trans hsteady, ?_, ?_, ?_⟩
    · rw [List.foldlM_cons, hwake]
      exact hrest
    · intro t ht
      rw [List.mem_cons, not_or] at ht
      exact (hactive t ht.2).trans (hwoken.active t ht.1)
    · intro t ht hmem
      rw [List.mem_cons, not_or] at ht
      apply hwaiting t ht.2
      rw [hwoken.waiting]
      exact (List.mem_erase_of_ne ht.1).2 hmem
    · intro t ht
      rcases List.mem_cons.1 ht with rfl | ht
      · exact h₁.atDoor_steady h' hsteady (hactive t hnodup.1) (hwoken.atDoor o hobj)
      · exact hdoor t ht

/-- `notify`: who waits for the object goes on waiting or gets to its door. -/
theorem notified (h : s.Inv home q) (t : T) (o : O) (all mustBeOwner : Bool) :
    ∃ s', s.notify t o all mustBeOwner = some s' ∧ (∃ q', s'.Inv home q') ∧ s.Steady s' ∧
      ∀ t' o', t' ∈ s.waiting → s.waitObj t' = some o' →
        t' ∈ s'.waiting ∨ s'.AtDoor t' o' := by
  unfold notify
  split
  · exact ⟨s, rfl, ⟨q, h⟩, .refl s, fun t' o' ht' _ => .inl ht'⟩
  · have hwaiters : ∀ t' ∈ s.waitersOf o, t' ∈ s.waiting ∧ s.waitObj t' = some o := by
      intro t' ht'
      rw [waitersOf, List.mem_filter] at ht'
      exact ⟨ht'.1, of_decide_eq_true ht'.2⟩
    have hnodup : (s.waitersOf o).Nodup := h.waitingNodup.filter _
    generalize hws : (if all = true then s.waitersOf o else (s.waitersOf o).take 1) = ws
    have hsub : ws.Sublist (s.waitersOf o) := by
      rw [← hws]
      split
      · exact List.Sublist.refl _
      · exact List.take_sublist 1 _
    obtain ⟨s', hrun, hinv, hsteady, -, hwaiting, hdoor⟩ :=
      h.wakeUp_all (hsub.nodup hnodup) fun t' ht' => hwaiters t' (hsub.subset ht')
    refine ⟨s', hrun, hinv, hsteady, ?_⟩
    intro t' o' ht' ho'
    by_cases hmem : t' ∈ ws
    · right
      have hobj := (hwaiters t' (hsub.subset hmem)).2
      rw [ho'] at hobj
      cases hobj
      exact hdoor t' hmem
    · exact .inl (hwaiting t' hmem ht')

/-! ## The other operations -/

omit [DecidableEq O] [DecidableEq L] in
/-- Moving a thread that is in no queue changes no lock and no queue. -/
theorem Released.moved {s'' : State T O N L} {o : O} {t : T} (hr : Released home s s' o)
    (h' : s'.Inv home q') (h'' : s''.Inv home q') (hs : Moved s' s'' t) (ht : t ∉ s.queueOf o) :
    Released home s s'' o := by
  have hqueue : ∀ o', s''.queueOf o' = s'.queueOf o' := by
    intro o'
    cases hk : s'.klass o' with
    | heap n =>
      rw [queueOf_heap hk, queueOf_heap (hs.klass ▸ hk)]
    | stack l =>
      have hk' : s''.klass o' = .stack l := by
        rw [hs.klass]
        exact hk
      rw [h'.queueOf_stack hk, h''.queueOf_stack hk']
  refine ⟨⟨q', h''⟩, ?_, ?_, ?_⟩
  · intro o' l hne hk
    rw [hs.klass, hqueue]
    exact hr.other o' l hne hk
  · intro hnil
    have hfree := hr.idle hnil
    unfold isLocked at hfree ⊢
    rw [hs.klass, hs.lock]
    exact hfree
  · intro t' ts hcons
    obtain ⟨hon, hlocked, htail⟩ := hr.handed t' ts hcons
    have hne : t' ≠ t := by
      rintro rfl
      rw [hcons] at ht
      exact ht List.mem_cons_self
    refine ⟨(hs.active t' hne).trans hon, ?_, (hqueue o).trans htail⟩
    unfold isLockedBy at hlocked ⊢
    rw [hs.klass, hs.lock]
    exact hlocked

omit [DecidableEq T] [DecidableEq O] [DecidableEq L] in
theorem notMem_queueOf (h : s.Inv home q) {t : T} (ht : s.active t = true) (o : O) :
    t ∉ s.queueOf o := by
  cases hk : s.klass o with
  | heap n =>
    rw [queueOf_heap hk]
    exact List.not_mem_nil
  | stack l =>
    rw [h.queueOf_stack hk]
    exact h.notMem_queue ht l

/-- `wait`, by the owner. -/
theorem waited (h : s.Inv home q) {t : T} {o : O} (ht : s.active t = true)
    (hlocked : s.isLockedBy o t = true) (millis osTime : Int) :
    ∃ s', s.wait t o millis osTime = some s' ∧ Released home s s' o ∧
      s'.waiting = s.waiting ++ [t] := by
  obtain ⟨l, hl, hhome⟩ := h.isLockedBy_iff.1 hlocked
  have hk : s.klass o = .stack l := (h.near o l).2 hl
  obtain ⟨s₁, hexit, hr, hwaiting, hactive, hfree⟩ := h.exited hl
  obtain ⟨q₁, h₁⟩ := hr.inv
  have hon := hactive t ht
  let s₂ : State T O N L := { s₁ with
    active := Function.update s₁.active t false
    waiting := s₁.waiting ++ [t]
    nextWaiting := Function.update s₁.nextWaiting t none
    waitObj := Function.update s₁.waitObj t (some o)
    waitStackLock := Function.update s₁.waitStackLock t (some l) }
  have hwait : s.wait t o millis osTime = some (s₂.waitFor t millis osTime) := by
    simp [wait, hlocked, fromJavaOop, hk, hexit, addWaitingThread, removeFromActive, hon,
      setWaitStackLock, setWaitObj, s₂]
  have hmoved : Moved s₁ (s₂.waitFor t millis osTime) t := by
    constructor
    case active | waitObj | waitStackLock | nextWaiting =>
      exact fun t' ht' => Function.update_of_ne ht' _ _
    case waiting =>
      intro t' ht'
      show t' ∈ s₁.waiting ++ [t] ↔ t' ∈ s₁.waiting
      simp [ht']
    all_goals simp [waitFor, s₂]
  have hself : Settled home (s₂.waitFor t millis osTime) t := by
    refine ⟨h₁.live t hon, .inr (.inl ⟨Function.update_self .., ?_, h₁.notSleeping hon, o, ?_⟩)⟩
    · exact List.mem_append_right _ (List.mem_singleton_self t)
    · exact ⟨Function.update_self .., l, Function.update_self .., hhome, hfree⟩
  have hnodup : (s₁.waiting ++ [t]).Nodup := by
    refine List.nodup_append.2 ⟨h₁.waitingNodup, List.nodup_singleton t, ?_⟩
    rintro t' ht' _ hmem rfl
    rw [List.mem_singleton.1 hmem] at ht'
    exact h₁.notWaiting hon ht'
  have hinv := h₁.moved hmoved (h₁.notMem_queue hon) hself hnodup h₁.sleepingNodup h₁.threadsNodup
  refine ⟨_, hwait, hr.moved h₁ hinv hmoved (h.notMem_queueOf ht o), ?_⟩
  show s₁.waiting ++ [t] = _
  rw [hwaiting]

omit [DecidableEq O] [DecidableEq L] in
theorem slept (h : s.Inv home q) {t : T} (ht : s.active t = true) (millis osTime : Int) :
    ∃ s', s.sleep t millis osTime = some s' ∧ s'.Inv home q ∧ s.Steady s' ∧
      s'.waiting = s.waiting := by
  let s₁ : State T O N L := { s with
    active := Function.update s.active t false
    wakeupTime := Function.update s.wakeupTime t (wakeupAt millis osTime)
    sleeping := s.sleeping ++ [t]
    waitObj := Function.update s.waitObj t none }
  have hsleep : s.sleep t millis osTime = some s₁ := by
    simp [sleep, removeFromActive, ht, setWaitObj, s₁]
  have hmoved : Moved s s₁ t := by
    constructor
    case active | waitObj => exact fun t' ht' => Function.update_of_ne ht' _ _
    case sleeping =>
      intro t' ht'
      show t' ∈ s.sleeping ++ [t] ↔ t' ∈ s.sleeping
      simp [ht']
    all_goals simp [s₁]
  have hself : Settled home s₁ t := by
    refine ⟨h.live t ht, .inr (.inr ⟨Function.update_self .., ?_, h.notWaiting ht,
      Function.update_self ..⟩)⟩
    exact List.mem_append_right _ (List.mem_singleton_self t)
  have hnodup : (s.sleeping ++ [t]).Nodup := by
    refine List.nodup_append.2 ⟨h.sleepingNodup, List.nodup_singleton t, ?_⟩
    rintro t' ht' _ hmem rfl
    rw [List.mem_singleton.1 hmem] at ht'
    exact h.notSleeping ht ht'
  have hinv := h.moved hmoved (h.notMem_queue ht) hself h.waitingNodup hnodup h.threadsNodup
  exact ⟨s₁, hsleep, hinv, h.steady hinv (fun _ _ hk => hk) fun _ => List.prefix_rfl, rfl⟩

omit [DecidableEq O] [DecidableEq L] in
theorem started (h : s.Inv home q) {t : T} (ht : t ∉ s.threads) :
    ∃ s', s.start t = some s' ∧ s'.Inv home q ∧ s.Steady s' ∧ s'.waiting = s.waiting := by
  have hoff : s.active t = false := by
    by_contra hon
    exact ht (h.live t (by simpa using hon))
  let s₁ : State T O N L := { s with
    threads := t :: s.threads
    active := Function.update s.active t true }
  have hstart : s.start t = some s₁ := by
    simp [start, addToActive, hoff, s₁]
  have hmoved : Moved s s₁ t := by
    constructor
    case active => exact fun t' ht' => Function.update_of_ne ht' _ _
    case threads =>
      intro t' ht'
      show t' ∈ t :: s.threads ↔ t' ∈ s.threads
      simp [ht']
    all_goals simp [s₁]
  have hq : ∀ l, t ∉ q l := by
    intro l hmem
    obtain ⟨o, -, hb⟩ := h.blocked_of_mem hmem
    exact ht hb.live
  have hself : Settled home s₁ t :=
    ⟨List.mem_cons_self, .inl ⟨Function.update_self .., fun hmem => ht (h.waits t hmem).1,
      fun hmem => ht (h.sleeps t hmem).1⟩⟩
  have hinv := h.moved hmoved hq hself h.waitingNodup h.sleepingNodup
    (List.nodup_cons.2 ⟨ht, h.threadsNodup⟩)
  exact ⟨s₁, hstart, hinv, h.steady hinv (fun _ _ hk => hk) fun _ => List.prefix_rfl, rfl⟩

end Inv

end State

end FroggyKVM.Threads
