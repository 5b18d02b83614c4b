/-
# FroggyKVM.Threads.Exclusion — monitors exclude and hand over, over every run.

An event is one operation of one thread, or a timed wake-up of one thread.  The caller's part of the
contract is `Legal`: the thread runs, and the stack lock is its own and free.  **In every state that
a run of legal events reaches at most one lock holds an object, every thread that is asleep for a
lock is queued on a locked object, and the next event serves the queues first come, first served.**
-/
import FroggyKVM.Threads.Waiting

namespace FroggyKVM.Threads

open Linked

variable {T O N L : Type} [DecidableEq T] [DecidableEq O] [DecidableEq L]

namespace State

/-- A stack lock of the frame asks for an object: its near is cleared, and `enter` is called. -/
def enterFor (t : T) (l : L) (o : O) (s : State T O N L) : Option (State T O N L) :=
  (((s.setOwner l (some o)).clearRealJavaNear l).enter t l).map Prod.snd

/-- All objects are unlocked, and no thread has started. -/
def boot (near : O → N) : State T O N L where
  klass o := .heap (near o)

namespace Inv

variable {home : L → T} {s s' : State T O N L} {q q' : L → List T}

omit [DecidableEq T] [DecidableEq O] [DecidableEq L] in
theorem boot_inv (near : O → N) : (boot near : State T O N L).Inv home fun _ => [] := by
  have hfree : ∀ l o, ¬ (boot near : State T O N L).Holds l o := by
    rintro l o ⟨h, -⟩
    cases h
  constructor
  case near =>
    intro o l
    refine ⟨fun h => ?_, fun h => absurd h (hfree l o)⟩
    cases h
  case idle => exact fun l _ => rfl
  case nodup => exact fun l => List.nodup_nil
  case waitingNodup | sleepingNodup | threadsNodup => exact List.nodup_nil
  case value | holder | chain => exact fun l o h => absurd h (hfree l o)
  case blocked => exact fun l o t h => absurd h (hfree l o)
  case placed | waits | sleeps =>
    intro t h
    cases h
  case live =>
    intro t h
    cases h

/-! ## Asking for a lock -/

omit [DecidableEq T] [DecidableEq O] in
/-- A free stack lock that asks for an object holds nothing yet. -/
theorem request_inv (h : s.Inv home q) {l : L} {o : O} (hactive : s.active (home l) = true)
    (howner : (s.lock l).owner = none) :
    ((s.setOwner l (some o)).clearRealJavaNear l).Inv home q := by
  have hset : (s.setOwner l (some o)).clearRealJavaNear l =
      s.setLock l { s.lock l with owner := some o, realJavaNear := none } := by
    simp [clearRealJavaNear, setOwner, setLock]
  rw [hset]
  refine (h.setLock_unheld _ (.inl hactive) ?_ (.inr rfl)).1
  rintro o' ⟨ho', -⟩
  rw [howner] at ho'
  cases ho'

omit [DecidableEq T] [DecidableEq O] in
theorem request_queueOf (h : s.Inv home q) {l : L} {o o' : O} (hactive : s.active (home l) = true)
    (howner : (s.lock l).owner = none) :
    ((s.setOwner l (some o)).clearRealJavaNear l).queueOf o' = s.queueOf o' := by
  have h' := h.request_inv (o := o) hactive howner
  cases hk : s.klass o' with
  | heap n =>
    have hk' : ((s.setOwner l (some o)).clearRealJavaNear l).klass o' = .heap n := hk
    rw [queueOf_heap hk', queueOf_heap hk]
  | stack l' => rw [h.queueOf_stack hk, h'.queueOf_stack (l := l') hk]

theorem enterFor_entered (h : s.Inv home q) {t : T} {l : L} {o : O} (ht : s.active t = true)
    (hl : home l = t) (howner : (s.lock l).owner = none) :
    ∃ s', s.enterFor t l o = some s' ∧ Entered home s s' t o := by
  have hactive : s.active (home l) = true := by rwa [hl]
  have h₁ := h.request_inv (o := o) hactive howner
  obtain ⟨b, s', henter, he⟩ := h₁.entered (l := l) (t := t) (o := o) ht hl
    (by simp [clearRealJavaNear, setOwner, setLock]) (by simp [clearRealJavaNear, setLock])
  refine ⟨s', ?_, he.inv, ?_, he.waiting, he.active, he.waitObj, ?_⟩
  · unfold enterFor
    rw [henter]
    rfl
  · intro o' l' hk
    rw [← h.request_queueOf (o := o) hactive howner]
    exact he.steady o' l' hk
  · rw [← h.request_queueOf (o := o) hactive howner]
    exact he.result

omit [DecidableEq T] [DecidableEq O] in
@[simp] theorem setOwner_klass (l : L) (o : Option O) : (s.setOwner l o).klass = s.klass := rfl

omit [DecidableEq T] [DecidableEq O] in
theorem setOwner_lockValue (l l' : L) (o : Option O) :
    ((s.setOwner l o).lock l').lockValue = (s.lock l').lockValue := by
  by_cases heq : l' = l <;> simp [setOwner, setLock, heq]

omit [DecidableEq T] [DecidableEq O] in
theorem setOwner_thread (l l' : L) (o : Option O) :
    ((s.setOwner l o).lock l').thread = (s.lock l').thread := by
  by_cases heq : l' = l <;> simp [setOwner, setLock, heq]

omit [DecidableEq T] [DecidableEq O] in
/-- The owner field says nothing about the near of an object. -/
theorem isLocked_setOwner (l : L) (o' : Option O) (o : O) :
    (s.setOwner l o').isLocked o = s.isLocked o := by
  unfold isLocked
  simp only [setOwner_klass, setOwner_lockValue]

omit [DecidableEq O] in
theorem isLockedBy_setOwner (l : L) (o' : Option O) (o : O) (t : T) :
    (s.setOwner l o').isLockedBy o t = s.isLockedBy o t := by
  unfold isLockedBy
  simp only [setOwner_klass, setOwner_lockValue, setOwner_thread]

theorem lockObject_entered (h : s.Inv home q) {t : T} {l : L} {o : O} (ht : s.active t = true)
    (hl : home l = t) (howner : (s.lock l).owner = none) :
    ∃ s', s.lockObject t l o = some s' ∧ Entered home s s' t o := by
  have hactive : s.active (home l) = true := by rwa [hl]
  unfold lockObject
  simp only [isLocked_setOwner, isLockedBy_setOwner]
  by_cases hlocked : s.isLocked o = true
  · rw [if_pos hlocked]
    by_cases hmine : s.isLockedBy o t = true
    · rw [if_pos hmine]
      have h₁ := h.request_inv (o := o) hactive howner
      have hsteady := h.steady h₁ (fun _ _ hk => hk) fun _ => List.prefix_rfl
      exact ⟨_, rfl, ⟨q, h₁⟩, hsteady, rfl, fun _ _ => rfl, fun _ _ => rfl,
        .inl ⟨ht, h.isLockedBy_steady h₁ hsteady hmine⟩⟩
    · rw [if_neg hmine]
      exact h.enterFor_entered ht hl howner
  · rw [if_neg hlocked]
    cases hk : s.klass o with
    | stack l' => exact absurd (h.isLocked_iff.2 ⟨l', (h.near o l').1 hk⟩) hlocked
    | heap n =>
      have htaken : (s.setOwner l (some o)).lockStackLock l t o =
          some ((s.setLock l (.taken t o n)).setKlass o (.stack l)) := by
        unfold lockStackLock
        rw [show (s.setOwner l (some o)).klass o = .heap n from hk]
        simp [setOwner, setLock]
      refine ⟨_, htaken, h.acquired ht hl ?_ hk⟩
      rintro o' ⟨ho', -⟩
      rw [howner] at ho'
      cases ho'

/-! ## Giving a lock back -/

omit [DecidableEq T] [DecidableEq O] in
/-- A recursive lock is given back by clearing its owner. -/
theorem unlock_recursive (h : s.Inv home q) {l : L} (hnear : (s.lock l).realJavaNear = none) :
    (s.setOwner l none).Inv home q := by
  have hset := h.setLock_unheld (l := l) { s.lock l with owner := none }
    (.inr ⟨rfl, hnear⟩) (fun _ ho => ho.2 hnear) (.inl rfl)
  exact hset.1

theorem unlockStackLock_eq_exit {l : L} (hnear : (s.lock l).realJavaNear ≠ none) :
    s.unlockStackLock l = s.exit l := by
  obtain ⟨n, hn⟩ := Option.ne_none_iff_exists'.1 hnear
  unfold unlockStackLock exit
  rw [hn]
  rfl

/-- `unlock_object` of a lock that holds the object. -/
theorem unlockObject_released (h : s.Inv home q) {l : L} {o : O} (hl : s.Holds l o) :
    ∃ s', s.unlockObject o l = some s' ∧ Released home s s' o ∧ s'.waiting = s.waiting := by
  obtain ⟨n, hn⟩ := Option.ne_none_iff_exists'.1 hl.2
  by_cases hw : (s.lock l).lockValue = .waiters
  · obtain ⟨s', hexit, hr, hwaiting, -⟩ := h.exited hl
    refine ⟨s', ?_, hr, hwaiting⟩
    unfold unlockObject
    rw [hn]
    show (if _ then _ else _) = _
    rw [if_pos hw, ← hexit]
    unfold exit
    rw [hl.1, hn]
    rfl
  · have hq : q l = [] := by
      by_contra hq
      apply hw
      rw [h.value l o hl, if_neg hq]
    refine ⟨_, ?_, h.released_freed (n := n) { s.lock l with owner := none } hl hq rfl,
      rfl⟩
    unfold unlockObject
    rw [hn]
    show (if _ then _ else _) = _
    rw [if_neg hw]
    rfl

end Inv

end State

/-! ## Events -/

/-- An operation of a thread, or a timed wake-up.  `enter` is the slow path of a thread that does
not have the object. -/
inductive Event (T O L : Type) where
  | start (t : T)
  | lockObject (t : T) (l : L) (o : O)
  | enter (t : T) (l : L) (o : O)
  | exit (l : L)
  | unlockStackLock (l : L)
  | unlockObject (o : O) (l : L)
  | wait (t : T) (o : O) (millis osTime : Int)
  | notify (t : T) (o : O) (all mustBeOwner : Bool)
  | timeOut (t : T) (time : Int)
  | sleep (t : T) (millis osTime : Int)

namespace Event

def step (s : State T O N L) : Event T O L → Option (State T O N L)
  | start t => s.start t
  | lockObject t l o => s.lockObject t l o
  | enter t l o => s.enterFor t l o
  | exit l => s.exit l
  | unlockStackLock l => s.unlockStackLock l
  | unlockObject o l => s.unlockObject o l
  | wait t o millis osTime => s.wait t o millis osTime
  | notify t o all mustBeOwner => s.notify t o all mustBeOwner
  | timeOut t time => s.timeOut t time
  | sleep t millis osTime => s.sleep t millis osTime

/-- What the callers see to.  A thread that acts is active, and the stack lock it uses lies on its
own stack and is free; only locks in use are given back.  A walk over the wait lists finds only
threads due that are still in a list. -/
def Legal (home : L → T) (s : State T O N L) : Event T O L → Prop
  | start t => t ∉ s.threads
  | lockObject t l _ => s.active t = true ∧ home l = t ∧ (s.lock l).owner = none
  | enter t l o => (s.active t = true ∧ home l = t ∧ (s.lock l).owner = none) ∧
      s.isLockedBy o t = false
  | exit l => (s.lock l).owner.isSome ∧ (s.lock l).realJavaNear.isSome
  | unlockStackLock l => (s.lock l).owner.isSome
  | unlockObject o l => (s.lock l).owner = some o
  | wait t _ _ _ | sleep t _ _ => s.active t = true
  | notify _ _ _ _ => True
  | timeOut t time => s.wakeupTime t ≠ 0 ∧ time ≥ s.wakeupTime t → t ∈ s.waiting ∨ t ∈ s.sleeping

instance (home : L → T) (s : State T O N L) : (e : Event T O L) → Decidable (e.Legal home s)
  | start t => inferInstanceAs (Decidable (t ∉ s.threads))
  | lockObject t l _ =>
    inferInstanceAs (Decidable (s.active t = true ∧ home l = t ∧ (s.lock l).owner = none))
  | enter t l o =>
    inferInstanceAs (Decidable ((s.active t = true ∧ home l = t ∧ (s.lock l).owner = none) ∧
      s.isLockedBy o t = false))
  | exit l =>
    inferInstanceAs (Decidable ((s.lock l).owner.isSome ∧ (s.lock l).realJavaNear.isSome))
  | unlockStackLock l => inferInstanceAs (Decidable ((s.lock l).owner.isSome = true))
  | unlockObject o l => inferInstanceAs (Decidable ((s.lock l).owner = some o))
  | wait t _ _ _ | sleep t _ _ => inferInstanceAs (Decidable (s.active t = true))
  | notify _ _ _ _ => inferInstanceAs (Decidable True)
  | timeOut t time =>
    inferInstanceAs (Decidable (s.wakeupTime t ≠ 0 ∧ time ≥ s.wakeupTime t →
      t ∈ s.waiting ∨ t ∈ s.sleeping))

/-- The thread and the object of an event that asks for a lock. -/
def asks : Event T O L → Option (T × O)
  | lockObject t _ o | enter t _ o => some (t, o)
  | _ => none

/-- The object whose lock an event gives back. -/
def releases (s : State T O N L) : Event T O L → Option O
  | exit l => (s.lock l).owner
  | unlockStackLock l | unlockObject _ l =>
    if (s.lock l).realJavaNear.isSome then (s.lock l).owner else none
  | wait t o _ _ => if s.isLockedBy o t then some o else none
  | _ => none

end Event

namespace State

/-- What holds in a state. -/
structure Excludes (home : L → T) (s : State T O N L) : Prop where
  one : ∀ l l' o, s.Holds l o → s.Holds l' o → l = l'
  owner : ∀ o t, s.isLockedBy o t = true ↔ ∃ l, s.Holds l o ∧ home l = t
  asleep : ∀ t ∈ s.threads, s.active t = false → t ∉ s.waiting → t ∉ s.sleeping →
    ∃ o, s.waitObj t = some o ∧ s.isLocked o = true ∧ t ∈ s.queueOf o
  queued : ∀ o, (s.queueOf o).Nodup ∧
    ∀ t ∈ s.queueOf o, s.active t = false ∧ s.isLocked o = true

/-- What an event does to the queues and the owners. -/
structure Serves (s s' : State T O N L) (e : Event T O L) : Prop where
  queued : ∀ o t, t ∈ s.queueOf o →
    t ∈ s'.queueOf o ∨ (s'.active t = true ∧ s'.isLockedBy o t = true)
  waiting : ∀ t o, t ∈ s.waiting → s.waitObj t = some o → t ∈ s'.waiting ∨ s'.AtDoor t o
  asked : ∀ t o, e.asks = some (t, o) →
    (s'.active t = true ∧ s'.isLockedBy o t = true) ∨
      (s'.active t = false ∧ s'.queueOf o = s.queueOf o ++ [t])
  released : ∀ o, e.releases s = some o →
    (s.queueOf o = [] → s'.isLocked o = false) ∧
      ∀ t ts, s.queueOf o = t :: ts →
        s'.active t = true ∧ s'.isLockedBy o t = true ∧ s'.queueOf o = ts
  kept : ∀ o, e.releases s ≠ some o →
    s.queueOf o <+: s'.queueOf o ∧ ∀ t, s.isLockedBy o t = true → s'.isLockedBy o t = true

namespace Inv

variable {home : L → T} {s s' : State T O N L} {q q' : L → List T} {e : Event T O L}

omit [DecidableEq O] [DecidableEq L] in
theorem serves_steady (h : s.Inv home q) (h' : s'.Inv home q') (hs : s.Steady s')
    (hw : ∀ t o, t ∈ s.waiting → s.waitObj t = some o → t ∈ s'.waiting ∨ s'.AtDoor t o)
    (hask : ∀ t o, e.asks = some (t, o) →
      (s'.active t = true ∧ s'.isLockedBy o t = true) ∨
        (s'.active t = false ∧ s'.queueOf o = s.queueOf o ++ [t]))
    (hrel : e.releases s = none) : s.Serves s' e := by
  have hpre : ∀ o, s.queueOf o <+: s'.queueOf o := by
    intro o
    cases hk : s.klass o with
    | heap n =>
      rw [queueOf_heap hk]
      exact List.nil_prefix
    | stack l => exact (hs o l hk).2
  refine ⟨?_, hw, hask, ?_, ?_⟩
  · intro o t ht
    exact .inl ((hpre o).subset ht)
  · intro o ho
    rw [hrel] at ho
    cases ho
  · intro o _
    exact ⟨hpre o, fun t ht => h.isLockedBy_steady h' hs ht⟩

omit [DecidableEq L] in
theorem serves_released (h : s.Inv home q) {o : O} (hr : Released home s s' o)
    (hw : ∀ t o, t ∈ s.waiting → s.waitObj t = some o → t ∈ s'.waiting ∨ s'.AtDoor t o)
    (hask : e.asks = none) (hrel : e.releases s = some o) : s.Serves s' e := by
  obtain ⟨q', h'⟩ := hr.inv
  have hother : ∀ o', o' ≠ o → s.queueOf o' <+: s'.queueOf o' := by
    intro o' hne
    cases hk : s.klass o' with
    | heap n =>
      rw [queueOf_heap hk]
      exact List.nil_prefix
    | stack l => exact ⟨[], by rw [List.append_nil, (hr.other o' l hne hk).2]⟩
  refine ⟨?_, hw, ?_, ?_, ?_⟩
  · intro o' t ht
    by_cases heq : o' = o
    · subst heq
      cases hq : s.queueOf o' with
      | nil =>
        rw [hq] at ht
        cases ht
      | cons t' ts =>
        obtain ⟨hon, hlocked, htail⟩ := hr.handed t' ts hq
        rw [hq] at ht
        rcases List.mem_cons.1 ht with rfl | ht
        · exact .inr ⟨hon, hlocked⟩
        · rw [htail]
          exact .inl ht
    · exact .inl ((hother o' heq).subset ht)
  · intro t o' hc
    rw [hask] at hc
    cases hc
  · intro o' ho'
    rw [hrel] at ho'
    cases ho'
    exact ⟨hr.idle, hr.handed⟩
  · intro o' hne
    have heq : o' ≠ o := by
      rintro rfl
      exact hne hrel
    refine ⟨hother o' heq, fun t ht => ?_⟩
    obtain ⟨l, hl, hhome⟩ := h.isLockedBy_iff.1 ht
    have hk := (hr.other o' l heq ((h.near o' l).2 hl)).1
    exact h'.isLockedBy_iff.2 ⟨l, (h'.near o' l).1 hk, hhome⟩

omit [DecidableEq O] [DecidableEq L] in
theorem excludes (h : s.Inv home q) : s.Excludes home := by
  refine ⟨fun l l' o => h.holds_unique, fun o t => h.isLockedBy_iff, ?_, ?_⟩
  · intro t h₁ h₂ h₃ h₄
    obtain ⟨l, o, hl, ht⟩ := h.placed t h₁ h₂ h₃ h₄
    refine ⟨o, (h.blocked l o t hl ht).parked.1, h.isLocked_iff.2 ⟨l, hl⟩, ?_⟩
    rw [h.queueOf_stack ((h.near o l).2 hl)]
    exact ht
  · intro o
    cases hk : s.klass o with
    | heap n =>
      rw [queueOf_heap hk]
      exact ⟨List.nodup_nil, fun t ht => nomatch ht⟩
    | stack l =>
      have hl := (h.near o l).1 hk
      rw [h.queueOf_stack hk]
      exact ⟨h.nodup l, fun t ht =>
        ⟨(h.blocked l o t hl ht).inactive, h.isLocked_iff.2 ⟨l, hl⟩⟩⟩

/-- **One event.** -/
theorem step_serves (h : s.Inv home q) (e : Event T O L) (he : e.Legal home s) :
    ∃ s', e.step s = some s' ∧ (∃ q', s'.Inv home q') ∧ s.Serves s' e := by
  have hsame : ∀ {s' : State T O N L}, s'.waiting = s.waiting → ∀ t o, t ∈ s.waiting →
      s.waitObj t = some o → t ∈ s'.waiting ∨ s'.AtDoor t o := by
    intro s' hw t o ht _
    rw [hw]
    exact .inl ht
  have hentered : ∀ {t : T} {o : O}, e.asks = some (t, o) → e.releases s = none →
      ∀ {s' : State T O N L}, Entered home s s' t o → (∃ q', s'.Inv home q') ∧ s.Serves s' e := by
    intro t o hask hrel s' hs'
    obtain ⟨q', h'⟩ := hs'.inv
    refine ⟨⟨q', h'⟩, h.serves_steady h' hs'.steady (hsame hs'.waiting) ?_ hrel⟩
    intro t' o' heq
    rw [hask] at heq
    cases heq
    exact hs'.result
  have hexited : ∀ {l : L}, (s.lock l).owner.isSome → (s.lock l).realJavaNear.isSome →
      ∃ o, s.Holds l o := by
    intro l ho hn
    obtain ⟨o, ho⟩ := Option.isSome_iff_exists.1 ho
    exact ⟨o, ho, Option.isSome_iff_ne_none.1 hn⟩
  cases e with
  | start t =>
    obtain ⟨s', hstep, h', hs, hw⟩ := h.started he
    exact ⟨s', hstep, ⟨q, h'⟩, h.serves_steady h' hs (hsame hw) (fun _ _ hc => by cases hc) rfl⟩
  | lockObject t l o =>
    obtain ⟨s', hstep, hs'⟩ := h.lockObject_entered (o := o) he.1 he.2.1 he.2.2
    exact ⟨s', hstep, hentered rfl rfl hs'⟩
  | enter t l o =>
    obtain ⟨s', hstep, hs'⟩ := h.enterFor_entered (o := o) he.1.1 he.1.2.1 he.1.2.2
    exact ⟨s', hstep, hentered rfl rfl hs'⟩
  | exit l =>
    obtain ⟨o, hl⟩ := hexited he.1 he.2
    obtain ⟨s', hstep, hr, hw, -⟩ := h.exited hl
    exact ⟨s', hstep, hr.inv, h.serves_released hr (hsame hw) rfl hl.1⟩
  | unlockStackLock l =>
    by_cases hn : (s.lock l).realJavaNear.isSome
    · obtain ⟨o, hl⟩ := hexited he hn
      obtain ⟨s', hstep, hr, hw, -⟩ := h.exited hl
      refine ⟨s', (unlockStackLock_eq_exit hl.2).trans hstep, hr.inv,
        h.serves_released hr (hsame hw) rfl ?_⟩
      rw [Event.releases, if_pos hn]
      exact hl.1
    · have hnone : (s.lock l).realJavaNear = none := by simpa using hn
      obtain ⟨o, ho⟩ := Option.isSome_iff_exists.1 he
      have h' := h.unlock_recursive hnone
      refine ⟨s.setOwner l none, ?_, ⟨q, h'⟩, h.serves_steady h'
        (h.steady h' (fun _ _ hk => hk) fun _ => List.prefix_rfl) (hsame rfl)
        (fun _ _ hc => by cases hc) ?_⟩
      · simp [Event.step, unlockStackLock, ho, hnone]
      · rw [Event.releases, if_neg hn]
  | unlockObject o l =>
    by_cases hn : (s.lock l).realJavaNear.isSome
    · have hl : s.Holds l o := ⟨he, Option.isSome_iff_ne_none.1 hn⟩
      obtain ⟨s', hstep, hr, hw⟩ := h.unlockObject_released hl
      refine ⟨s', hstep, hr.inv, h.serves_released hr (hsame hw) rfl ?_⟩
      rw [Event.releases, if_pos hn]
      exact hl.1
    · have hnone : (s.lock l).realJavaNear = none := by simpa using hn
      have h' := h.unlock_recursive hnone
      refine ⟨s.setOwner l none, ?_, ⟨q, h'⟩, h.serves_steady h'
        (h.steady h' (fun _ _ hk => hk) fun _ => List.prefix_rfl) (hsame rfl)
        (fun _ _ hc => by cases hc) ?_⟩
      · simp [Event.step, unlockObject, hnone]
      · rw [Event.releases, if_neg hn]
  | wait t o millis osTime =>
    by_cases hlocked : s.isLockedBy o t = true
    · obtain ⟨s', hstep, hr, hw⟩ := h.waited he hlocked millis osTime
      refine ⟨s', hstep, hr.inv, h.serves_released hr ?_ rfl ?_⟩
      · intro t' o' ht' _
        rw [hw]
        exact .inl (List.mem_append_left _ ht')
      · rw [Event.releases, if_pos hlocked]
    · refine ⟨s, ?_, ⟨q, h⟩, h.serves_steady h (.refl s) (hsame rfl) (fun _ _ hc => by cases hc) ?_⟩
      · simp [Event.step, wait, hlocked]
      · rw [Event.releases, if_neg hlocked]
  | notify t o all mustBeOwner =>
    obtain ⟨s', hstep, ⟨q', h'⟩, hs, hw⟩ := h.notified t o all mustBeOwner
    exact ⟨s', hstep, ⟨q', h'⟩, h.serves_steady h' hs hw (fun _ _ hc => by cases hc) rfl⟩
  | timeOut t time =>
    by_cases hdue : s.wakeupTime t ≠ 0 ∧ time ≥ s.wakeupTime t
    · have hwake : ∃ s', s.wakeUp t = some s' ∧ Woken home s s' t := by
        rcases he hdue with ht | ht
        · exact h.wakeUp_waiting ht
        · exact h.wakeUp_sleeping ht
      obtain ⟨s', hstep, hwoken⟩ := hwake
      obtain ⟨q', h'⟩ := hwoken.inv
      refine ⟨s', (if_pos hdue).trans hstep, ⟨q', h'⟩,
        h.serves_steady h' hwoken.steady ?_ (fun _ _ hc => by cases hc) rfl⟩
      intro t' o' ht' ho'
      by_cases heq : t' = t
      · subst heq
        exact .inr (hwoken.atDoor o' ho')
      · rw [hwoken.waiting]
        exact .inl ((List.mem_erase_of_ne heq).2 ht')
    · exact ⟨s, if_neg hdue, ⟨q, h⟩,
        h.serves_steady h (.refl s) (hsame rfl) (fun _ _ hc => by cases hc) rfl⟩
  | sleep t millis osTime =>
    obtain ⟨s', hstep, h', hs, hw⟩ := h.slept he millis osTime
    exact ⟨s', hstep, ⟨q, h'⟩, h.serves_steady h' hs (hsame hw) (fun _ _ hc => by cases hc) rfl⟩

end Inv

end State

/-! ## Runs -/

/-- The runs of legal events. -/
abbrev MonitorRun (home : L → T) : State T O N L → List (Event T O L) → State T O N L → Prop :=
  Lts.Run (Lts.Guarded (fun s e s' => e.step s = some s') fun s e => e.Legal home s)

theorem run_inv {home : L → T} {s s' : State T O N L} {es : List (Event T O L)}
    (hrun : MonitorRun home s es s') (h : ∃ q, s.Inv home q) : ∃ q, s'.Inv home q := by
  refine Lts.Run.invariant (I := fun s => ∃ q, s.Inv home q) ?_ hrun h
  rintro s e s' ⟨q, hinv⟩ ⟨he, hstep⟩
  obtain ⟨s'', hstep', hinv', -⟩ := hinv.step_serves e he
  rw [hstep] at hstep'
  cases hstep'
  exact hinv'

/-- **Monitors exclude and hand over.** -/
theorem monitors_exclude_and_hand_over (home : L → T) (near : O → N) {es : List (Event T O L)}
    {s : State T O N L} (hrun : MonitorRun home (.boot near) es s) :
    s.Excludes home ∧
      ∀ e : Event T O L, e.Legal home s → ∃ s', e.step s = some s' ∧ s.Serves s' e := by
  obtain ⟨q, h⟩ := run_inv hrun ⟨_, .boot_inv near⟩
  refine ⟨h.excludes, fun e he => ?_⟩
  obtain ⟨s', hstep, -, hs⟩ := h.step_serves e he
  exact ⟨s', hstep, hs⟩

/-- Three threads ask for one object, and the first gives it back: the second has it, and the
third goes on waiting. -/
theorem monitors_exclude_and_hand_over_three :
    ∃ s : State ℕ ℕ ℕ ℕ,
      MonitorRun id (.boot id) [.start 1, .start 2, .start 3, .lockObject 1 1 0,
        .lockObject 2 2 0, .lockObject 3 3 0, .exit 1] s ∧
      (s.isLockedBy 0 2 = true ∧ s.queueOf 0 = [3]) ∧ s.Excludes id ∧
      ∀ e : Event ℕ ℕ ℕ, e.Legal id s → ∃ s', e.step s = some s' ∧ s.Serves s' e := by
  obtain ⟨s, hrun, hend⟩ := Lts.Run.exists_of_exec
    (fun s (e : Event ℕ ℕ ℕ) => (e.step s).elim (Except.error ()) Except.ok)
    (fun s e => decide (e.Legal id s)) (fun s => s.isLockedBy 0 2 = true ∧ s.queueOf 0 = [3])
    (.boot id : State ℕ ℕ ℕ ℕ) [.start 1, .start 2, .start 3, .lockObject 1 1 0,
      .lockObject 2 2 0, .lockObject 3 3 0, .exit 1] (by decide +kernel)
  have hlegal : MonitorRun id (.boot id) [.start 1, .start 2, .start 3, .lockObject 1 1 0,
      .lockObject 2 2 0, .lockObject 3 3 0, .exit 1] s := by
    refine hrun.mono fun s e s' ⟨he, hstep⟩ => ⟨of_decide_eq_true he, ?_⟩
    dsimp only at hstep ⊢
    cases hs : e.step s with
    | none =>
      rw [hs] at hstep
      cases hstep
    | some s'' =>
      rw [hs] at hstep
      cases hstep
      rfl
  exact ⟨s, hlegal, hend, monitors_exclude_and_hand_over id id hlegal⟩

end FroggyKVM.Threads
