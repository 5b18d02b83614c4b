/-
# FroggyKVM.Threads.Handover — the invariant of the monitors.

`queue l` is the list of the threads asleep on the lock `l`, linked from its `waiters`.  An object
points at a lock exactly when the lock has it as owner and keeps its near; a thread that is not
active, does not wait and does not sleep is in the queue of the lock of its object.
-/
import FroggyKVM.Threads.Synchronizer

namespace FroggyKVM.Threads

open Linked

variable {T O N L : Type}

namespace State

/-- The lock has the object as owner and keeps its near: it locks the object. -/
def Holds (s : State T O N L) (l : L) (o : O) : Prop :=
  (s.lock l).owner = some o ∧ (s.lock l).realJavaNear ≠ none

/-- The thread is registered for an object, with a stack lock of its own that is not in use. -/
def Parked (home : L → T) (s : State T O N L) (t : T) (o : O) : Prop :=
  s.waitObj t = some o ∧ ∃ l, s.waitStackLock t = some l ∧ home l = t ∧
    (s.lock l).owner = none ∧ (s.lock l).realJavaNear = none

theorem Parked.congr {home : L → T} {s s' : State T O N L} {t : T} {o : O}
    (h : s.Parked home t o) (hobj : s'.waitObj t = s.waitObj t)
    (hlock : s'.waitStackLock t = s.waitStackLock t)
    (hfields : ∀ l, home l = t → (s.lock l).owner = none → (s.lock l).realJavaNear = none →
      (s'.lock l).owner = none ∧ (s'.lock l).realJavaNear = none) : s'.Parked home t o := by
  obtain ⟨ho, l, hl, hhome, howner, hnear⟩ := h
  exact ⟨hobj.trans ho, l, hlock.trans hl, hhome, hfields l hhome howner hnear⟩

/-- The thread sleeps on the lock of an object. -/
structure BlockedOn (home : L → T) (s : State T O N L) (t : T) (o : O) : Prop where
  live : t ∈ s.threads
  inactive : s.active t = false
  notWaiting : t ∉ s.waiting
  notSleeping : t ∉ s.sleeping
  parked : s.Parked home t o

/-- The invariant, for the queue of each lock; `home` says on whose stack a lock lies. -/
structure Inv (home : L → T) (s : State T O N L) (q : L → List T) : Prop where
  near : ∀ o l, s.klass o = .stack l ↔ s.Holds l o
  value : ∀ l o, s.Holds l o →
    (s.lock l).lockValue = if q l = [] then .locked else .waiters
  holder : ∀ l o, s.Holds l o → (s.lock l).thread = some (home l)
  chain : ∀ l o, s.Holds l o → Chain s.nextWaiting (s.lock l).waiters (q l)
  idle : ∀ l, (∀ o, ¬ s.Holds l o) → q l = []
  blocked : ∀ l o t, s.Holds l o → t ∈ q l → s.BlockedOn home t o
  nodup : ∀ l, (q l).Nodup
  placed : ∀ t, t ∈ s.threads → s.active t = false → t ∉ s.waiting → t ∉ s.sleeping →
    ∃ l o, s.Holds l o ∧ t ∈ q l
  waits : ∀ t, t ∈ s.waiting → t ∈ s.threads ∧ s.active t = false ∧ t ∉ s.sleeping ∧
    ∃ o, s.Parked home t o
  sleeps : ∀ t, t ∈ s.sleeping → t ∈ s.threads ∧ s.active t = false ∧ s.waitObj t = none
  waitingNodup : s.waiting.Nodup
  sleepingNodup : s.sleeping.Nodup
  threadsNodup : s.threads.Nodup
  live : ∀ t, s.active t = true → t ∈ s.threads

/-- The object is unlocked; `lock` is what remains in its stack lock. -/
def freed [DecidableEq O] [DecidableEq L] (l : L) (lock : StackLock T O N) (o : O) (n : N)
    (s : State T O N L) : State T O N L :=
  (s.setLock l lock).setKlass o (.heap n)

/-- The object of the lock `l` is locked again by the waiter `t`, through its lock `wl`; `next` is
the waiter behind it. -/
structure Handed (s s' : State T O N L) (l : L) (t : T) (wl : L) (o : O) (n : N)
    (next : Option T) : Prop where
  threads : s'.threads = s.threads
  waiting : s'.waiting = s.waiting
  sleeping : s'.sleeping = s.sleeping
  nextWaiting : s'.nextWaiting = s.nextWaiting
  activated : s'.active t = true
  active : ∀ t', t' ≠ t → s'.active t' = s.active t'
  waitObj : ∀ t', t' ≠ t → s'.waitObj t' = s.waitObj t'
  waitStackLock : ∀ t', t' ≠ t → s'.waitStackLock t' = s.waitStackLock t'
  locked : s'.klass o = .stack wl
  klass : ∀ o', o' ≠ o → s'.klass o' = s.klass o'
  released : (s'.lock l).owner = none ∧ (s'.lock l).realJavaNear = none
  taken : s'.lock wl = { StackLock.taken t o n with
    waiters := next, lockValue := if next.isSome then .waiters else .locked }
  lock : ∀ l', l' ≠ wl → l' ≠ l → s'.lock l' = s.lock l'

/-- A thread sleeps on the lock `l'` of an object, registered with its stack lock `l`; `head` and
`next` are the first waiter and the links from now on. -/
def queued [DecidableEq T] [DecidableEq L] (t : T) (l : L) (o : O) (l' : L) (head : T)
    (next : T → Option T) (s : State T O N L) : State T O N L :=
  let s' := (s.setOwner l none).setWaiters l' head
  { s' with
    active := Function.update s.active t false, nextWaiting := next
    waitObj := Function.update s.waitObj t (some o)
    waitStackLock := Function.update s.waitStackLock t (some l)
    wakeupTime := Function.update s.wakeupTime t 0 }

namespace Inv

variable {home : L → T} {s : State T O N L} {q : L → List T}

/-- At most one lock holds an object. -/
theorem holds_unique (h : s.Inv home q) {l l' : L} {o : O} (hl : s.Holds l o)
    (hl' : s.Holds l' o) : l = l' := by
  have heq := ((h.near o l).2 hl).symm.trans ((h.near o l').2 hl')
  cases heq
  rfl

theorem isLocked_iff (h : s.Inv home q) {o : O} :
    s.isLocked o = true ↔ ∃ l, s.Holds l o := by
  unfold isLocked
  cases hk : s.klass o with
  | heap n =>
    constructor
    · intro hc
      cases hc
    · rintro ⟨l, hl⟩
      rw [← h.near, hk] at hl
      cases hl
  | stack l =>
    have hl := (h.near o l).1 hk
    have hv := h.value l o hl
    constructor
    · exact fun _ => ⟨l, hl⟩
    · intro _
      show decide ((s.lock l).lockValue ≠ .unlocked) = true
      rw [hv]
      split <;> rfl

theorem isLockedBy_iff [DecidableEq T] (h : s.Inv home q) {o : O} {t : T} :
    s.isLockedBy o t = true ↔ ∃ l, s.Holds l o ∧ home l = t := by
  unfold isLockedBy
  cases hk : s.klass o with
  | heap n =>
    constructor
    · intro hc
      cases hc
    · rintro ⟨l, hl, -⟩
      rw [← h.near, hk] at hl
      cases hl
  | stack l =>
    have hl := (h.near o l).1 hk
    have hv := h.value l o hl
    have hne : (s.lock l).lockValue ≠ .unlocked := by
      rw [hv]
      split <;> simp
    simp only [hne, h.holder l o hl, ne_eq, not_false_eq_true, true_and, Option.some.injEq,
      decide_eq_true_eq]
    constructor
    · exact fun ht => ⟨l, hl, ht⟩
    · rintro ⟨l', hl', ht⟩
      rw [h.holds_unique hl hl']
      exact ht

/-- A queued thread is asleep on the lock of an object. -/
theorem blocked_of_mem (h : s.Inv home q) {l : L} {t : T} (ht : t ∈ q l) :
    ∃ o, s.Holds l o ∧ s.BlockedOn home t o := by
  by_cases hheld : ∃ o, s.Holds l o
  · obtain ⟨o, ho⟩ := hheld
    exact ⟨o, ho, h.blocked l o t ho ht⟩
  · rw [h.idle l fun o ho => hheld ⟨o, ho⟩] at ht
    cases ht

/-- The queues are disjoint. -/
theorem queue_unique (h : s.Inv home q) {l l' : L} {t : T} (ht : t ∈ q l) (ht' : t ∈ q l') :
    l = l' := by
  obtain ⟨o, ho, hb⟩ := h.blocked_of_mem ht
  obtain ⟨o', ho', hb'⟩ := h.blocked_of_mem ht'
  have hobj := hb.parked.1
  rw [hb'.parked.1] at hobj
  cases hobj
  exact h.holds_unique ho ho'

/-- An active thread is in no queue. -/
theorem notMem_queue (h : s.Inv home q) {t : T} (ht : s.active t = true) (l : L) : t ∉ q l := by
  intro hmem
  obtain ⟨o, -, hb⟩ := h.blocked_of_mem hmem
  have hoff := hb.inactive
  rw [ht] at hoff
  cases hoff

theorem length_le (h : s.Inv home q) (l : L) : (q l).length ≤ s.threads.length := by
  have hsub : ∀ t ∈ q l, t ∈ s.threads := by
    intro t ht
    obtain ⟨o, -, hb⟩ := h.blocked_of_mem ht
    exact hb.live
  exact (List.subperm_of_subset (h.nodup l) hsub).length_le

theorem holds_object {l : L} {o o' : O} (hl : s.Holds l o) (hl' : s.Holds l o') : o = o' :=
  Option.some.inj (hl.1.symm.trans hl'.1)

/-! ## Locks change hands -/

variable [DecidableEq T] [DecidableEq O] [DecidableEq L]

omit [DecidableEq T] in
theorem holds_taken {l l' : L} {t : T} {o o' : O} {n : N} :
    ((s.setLock l (.taken t o n)).setKlass o (.stack l)).Holds l' o' ↔
      (l' = l ∧ o' = o) ∨ (l' ≠ l ∧ s.Holds l' o') := by
  unfold Holds setKlass setLock
  by_cases hl : l' = l
  · subst hl
    simp [StackLock.taken, eq_comm]
  · simp [hl]

omit [DecidableEq T] in
/-- **Taking a free lock.** -/
theorem acquire (h : s.Inv home q) {l : L} {t : T} {o : O} {n : N} (ht : s.active t = true)
    (hl : home l = t) (hfree : ∀ o, ¬ s.Holds l o) (ho : s.klass o = .heap n) :
    ((s.setLock l (.taken t o n)).setKlass o (.stack l)).Inv home q := by
  have hunlocked : ∀ l', ¬ s.Holds l' o := by
    intro l' hl'
    rw [← h.near, ho] at hl'
    cases hl'
  have hparked : ∀ t' o', s.active t' = false → s.Parked home t' o' →
      ((s.setLock l (.taken t o n)).setKlass o (.stack l)).Parked home t' o' := by
    rintro t' o' hoff ⟨hobj, wl, hwl, hhome, hfields⟩
    refine ⟨hobj, wl, hwl, hhome, ?_⟩
    have hne : wl ≠ l := by
      rintro rfl
      rw [hl] at hhome
      rw [hhome, hoff] at ht
      cases ht
    simpa [setKlass, setLock, Function.update_of_ne hne] using hfields
  constructor
  case near =>
    intro o' l'
    rw [holds_taken]
    by_cases ho' : o' = o
    · subst ho'
      show Function.update s.klass o' (.stack l) o' = .stack l' ↔ _
      rw [Function.update_self]
      simp [hunlocked, eq_comm]
    · show Function.update s.klass o (.stack l) o' = .stack l' ↔ _
      rw [Function.update_of_ne ho', h.near]
      constructor
      · intro hl'
        exact .inr ⟨fun heq => hfree o' (heq ▸ hl'), hl'⟩
      · rintro (⟨-, heq⟩ | ⟨-, hl'⟩)
        · exact absurd heq ho'
        · exact hl'
  case blocked =>
    intro l' o' t' hl' ht'
    rw [holds_taken] at hl'
    rcases hl' with ⟨rfl, rfl⟩ | ⟨-, hl'⟩
    · rw [h.idle l' hfree] at ht'
      cases ht'
    · have hb := h.blocked l' o' t' hl' ht'
      exact ⟨hb.live, hb.inactive, hb.notWaiting, hb.notSleeping, hparked t' o' hb.inactive hb.parked⟩
  case placed =>
    intro t' h1 h2 h3 h4
    obtain ⟨l', o', hl', ht'⟩ := h.placed t' h1 h2 h3 h4
    refine ⟨l', o', holds_taken.2 (.inr ⟨?_, hl'⟩), ht'⟩
    rintro rfl
    exact hfree o' hl'
  case waits =>
    intro t' ht'
    obtain ⟨h1, h2, h3, o', ho'⟩ := h.waits t' ht'
    exact ⟨h1, h2, h3, o', hparked t' o' h2 ho'⟩
  case idle =>
    intro l' hno
    by_cases hl' : l' = l
    · rw [hl']
      exact h.idle l hfree
    · exact h.idle l' fun o' ho' => hno o' (holds_taken.2 (.inr ⟨hl', ho'⟩))
  case nodup => exact h.nodup
  case sleeps => exact h.sleeps
  case waitingNodup => exact h.waitingNodup
  case sleepingNodup => exact h.sleepingNodup
  case threadsNodup => exact h.threadsNodup
  case live => exact h.live
  all_goals
    intro l' o' hl'
    rw [holds_taken] at hl'
    rcases hl' with ⟨rfl, rfl⟩ | ⟨hne, hl'⟩
  case value.inl => simp [setKlass, setLock, StackLock.taken, h.idle l' hfree]
  case holder.inl => simp [setKlass, setLock, StackLock.taken, hl]
  case chain.inl => simp [setKlass, setLock, StackLock.taken, h.idle l' hfree, Chain]
  case value.inr => simpa [setKlass, setLock, Function.update_of_ne hne] using h.value l' o' hl'
  case holder.inr => simpa [setKlass, setLock, Function.update_of_ne hne] using h.holder l' o' hl'
  case chain.inr => simpa [setKlass, setLock, Function.update_of_ne hne] using h.chain l' o' hl'

/-! ## Locks are released -/

omit [DecidableEq T] in
theorem holds_freed {l l' : L} {lock : StackLock T O N} {o o' : O} {n : N}
    (hlock : lock.owner = none) :
    (s.freed l lock o n).Holds l' o' ↔ l' ≠ l ∧ s.Holds l' o' := by
  unfold Holds freed setKlass setLock
  by_cases hl : l' = l
  · subst hl
    simp [hlock]
  · simp [hl]

/-- Without waiters `signal_waiters` only clears the lock. -/
theorem release_idle (h : s.Inv home q) {l : L} {o : O} {n : N} (hl : s.Holds l o)
    (hq : q l = []) :
    ((s.setKlass o (.heap n)).setOwner l none).signalWaiters l =
      some (s.freed l { s.lock l with owner := none, realJavaNear := none } o n) := by
  have hwaiters : (s.lock l).waiters = none := (h.chain l o hl).eq_nil_iff.1 hq
  simp [signalWaiters, clearRealJavaNear, setOwner, setLock, setKlass, hwaiters, freed]

omit [DecidableEq T] in
/-- **Releasing a lock nobody waits for.** -/
theorem freed_inv (h : s.Inv home q) {l : L} {lock : StackLock T O N} {o : O} {n : N}
    (hl : s.Holds l o) (hq : q l = []) (hfree : lock.owner = none) :
    (s.freed l lock o n).Inv home q := by
  have hlock : ∀ l', l' ≠ l → (s.freed l lock o n).lock l' = s.lock l' :=
    fun l' hl' => Function.update_of_ne hl' _ _
  have hparked : ∀ t' o', s.Parked home t' o' → (s.freed l lock o n).Parked home t' o' := by
    intro t' o' hp
    refine hp.congr rfl rfl fun wl _ h₁ h₂ => ?_
    have hne : wl ≠ l := by
      rintro rfl
      exact hl.2 h₂
    rw [hlock wl hne]
    exact ⟨h₁, h₂⟩
  constructor
  case near =>
    intro o' l'
    rw [holds_freed hfree]
    by_cases ho' : o' = o
    · subst ho'
      show Function.update s.klass o' (.heap n) o' = .stack l' ↔ _
      rw [Function.update_self]
      constructor
      · intro hc
        cases hc
      · rintro ⟨hne, hl'⟩
        exact absurd (h.holds_unique hl' hl) hne
    · show Function.update s.klass o (.heap n) o' = .stack l' ↔ _
      rw [Function.update_of_ne ho', h.near]
      constructor
      · intro hl'
        refine ⟨?_, hl'⟩
        rintro rfl
        exact ho' (holds_object hl' hl)
      · exact And.right
  case value =>
    intro l' o' hl'
    rw [holds_freed hfree] at hl'
    rw [hlock l' hl'.1]
    exact h.value l' o' hl'.2
  case holder =>
    intro l' o' hl'
    rw [holds_freed hfree] at hl'
    rw [hlock l' hl'.1]
    exact h.holder l' o' hl'.2
  case chain =>
    intro l' o' hl'
    rw [holds_freed hfree] at hl'
    rw [hlock l' hl'.1]
    exact h.chain l' o' hl'.2
  case idle =>
    intro l' hno
    by_cases heq : l' = l
    · rw [heq]
      exact hq
    · exact h.idle l' fun o' ho' => hno o' ((holds_freed hfree).2 ⟨heq, ho'⟩)
  case blocked =>
    intro l' o' t' hl' ht'
    rw [holds_freed hfree] at hl'
    have hb := h.blocked l' o' t' hl'.2 ht'
    exact ⟨hb.live, hb.inactive, hb.notWaiting, hb.notSleeping, hparked t' o' hb.parked⟩
  case placed =>
    intro t' h₁ h₂ h₃ h₄
    obtain ⟨l', o', hl', ht'⟩ := h.placed t' h₁ h₂ h₃ h₄
    refine ⟨l', o', (holds_freed hfree).2 ⟨?_, hl'⟩, ht'⟩
    rintro rfl
    rw [hq] at ht'
    cases ht'
  case waits =>
    intro t' ht'
    obtain ⟨h₁, h₂, h₃, o', ho'⟩ := h.waits t' ht'
    exact ⟨h₁, h₂, h₃, o', hparked t' o' ho'⟩
  case nodup => exact h.nodup
  case sleeps => exact h.sleeps
  case waitingNodup => exact h.waitingNodup
  case sleepingNodup => exact h.sleepingNodup
  case threadsNodup => exact h.threadsNodup
  case live => exact h.live

omit [DecidableEq T] [DecidableEq O] [DecidableEq L] in
theorem holds_handed {s' : State T O N L} {l l' wl : L} {t : T} {o o' : O} {n : N}
    {next : Option T} (hs : Handed s s' l t wl o n next) :
    s'.Holds l' o' ↔ (l' = wl ∧ o' = o) ∨ (l' ≠ wl ∧ l' ≠ l ∧ s.Holds l' o') := by
  unfold Holds
  by_cases hwl : l' = wl
  · subst hwl
    rw [hs.taken]
    simp [StackLock.taken, eq_comm]
  · by_cases hl : l' = l
    · subst hl
      simp [hwl, hs.released.1]
    · rw [hs.lock l' hwl hl]
      simp [hwl, hl]

/-- What `signal_waiters` does for the first waiter, through the stack lock it is registered
with. -/
theorem release_links (h : s.Inv home q) {l : L} {o : O} {n : N} {t : T} {ts : List T}
    (hl : s.Holds l o) (hq : q l = t :: ts) :
    ∃ wl s', s.waitStackLock t = some wl ∧ home wl = t ∧ (∀ o, ¬ s.Holds wl o) ∧
      ((s.setKlass o (.heap n)).setOwner l none).signalWaiters l = some s' ∧
      Handed s s' l t wl o n (s.nextWaiting t) := by
  have hblocked := h.blocked l o t hl (by rw [hq]; exact List.mem_cons_self)
  obtain ⟨hobj, wl, hwl, hhome, hfree, hnear⟩ := hblocked.parked
  have hinactive := hblocked.inactive
  have hhead : (s.lock l).waiters = some t := by
    have hchain := h.chain l o hl
    rw [hq] at hchain
    exact hchain.1
  have hunheld : ∀ o, ¬ s.Holds wl o := fun o ho => ho.2 hnear
  have hne : wl ≠ l := by
    rintro rfl
    exact hunheld o hl
  let s₁ := ((s.setKlass o (.heap n)).setOwner l none).clearRealJavaNear l
  let s₂ : State T O N L := { s₁ with active := Function.update s₁.active t true }
  let s₃ := (s₂.setLock wl (.taken t o n)).setKlass o (.stack wl)
  let s₄ := (s.nextWaiting t).elim s₃ (s₃.setWaiters wl)
  have hwaiters : (((s.setKlass o (.heap n)).setOwner l none).lock l).waiters = some t := by
    simp [setOwner, setLock, setKlass, hhead]
  have hactive : s₁.addToActive t = some s₂ := if_neg (by rw [show s₁.active t = s.active t from rfl, hinactive]; simp)
  have hobj₂ : s₂.waitObj t = some o := hobj
  have hlock : s₂.lockStackLock wl t o = some s₃ := by
    unfold lockStackLock
    rw [show s₂.klass o = .heap n from Function.update_self ..]
  refine ⟨wl, (s₄.setWaitStackLock t none).setWaitObj t none, hwl, hhome, hunheld, ?_, ?_⟩
  · unfold signalWaiters
    rw [hwaiters]
    show (s₁.addToActive t).bind _ = _
    rw [hactive]
    show (s₂.waitObj t).bind _ = _
    rw [hobj₂]
    show (s₂.waitStackLock t).bind _ = _
    rw [show s₂.waitStackLock t = some wl from hwl]
    show (s₂.lockStackLock wl t o).bind _ = _
    rw [hlock, Option.bind_some]
    dsimp only
    rw [show s₁.nextWaiting t = s.nextWaiting t from rfl]
    unfold s₄
    cases s.nextWaiting t <;> rfl
  · cases hnext : s.nextWaiting t <;> simp only [s₄, hnext, Option.elim] <;> constructor
    case none.lock | some.lock =>
      intro l' h₁ h₂
      simp [s₃, s₂, s₁, setWaitObj, setWaitStackLock, setWaiters, setKlass, setLock,
        clearRealJavaNear, setOwner, h₁, h₂]
    case none.active | none.waitObj | none.waitStackLock | some.active | some.waitObj |
        some.waitStackLock =>
      intro t' ht'
      simp [s₃, s₂, s₁, setWaitObj, setWaitStackLock, setWaiters, setKlass, setLock,
        clearRealJavaNear, setOwner, ht']
    case none.klass | some.klass =>
      intro o' ho'
      simp [s₃, s₂, s₁, setWaitObj, setWaitStackLock, setWaiters, setKlass, setLock,
        clearRealJavaNear, setOwner, ho']
    all_goals
      simp [s₃, s₂, s₁, setWaitObj, setWaitStackLock, setWaiters, setKlass, setLock,
        clearRealJavaNear, setOwner, hne.symm, StackLock.taken]

omit [DecidableEq T] [DecidableEq O] in
/-- **Handing over.** The first waiter becomes the owner, and the others are queued behind it. -/
theorem handed_inv (h : s.Inv home q) {s' : State T O N L} {l wl : L} {o : O} {n : N} {t : T}
    {ts : List T} (hl : s.Holds l o) (hq : q l = t :: ts) (hhome : home wl = t)
    (hunheld : ∀ o, ¬ s.Holds wl o) (hs : Handed s s' l t wl o n (s.nextWaiting t)) :
    s'.Inv home (Function.update (Function.update q l []) wl ts) := by
  have hchain := h.chain l o hl
  rw [hq] at hchain
  have hrest : Chain s.nextWaiting (s.nextWaiting t) ts := hchain.2
  have hnodup := h.nodup l
  rw [hq, List.nodup_cons] at hnodup
  have hblocked : ∀ t', t' ∈ t :: ts → s.BlockedOn home t' o := by
    intro t' ht'
    exact h.blocked l o t' hl (by rw [hq]; exact ht')
  have hq' : ∀ l', l' ≠ wl → l' ≠ l →
      Function.update (Function.update q l []) wl ts l' = q l' := by
    intro l' h₁ h₂
    rw [Function.update_of_ne h₁, Function.update_of_ne h₂]
  have hparked : ∀ t' o', t' ≠ t → s.Parked home t' o' → s'.Parked home t' o' := by
    intro t' o' ht' hp
    refine hp.congr (hs.waitObj t' ht') (hs.waitStackLock t' ht') ?_
    intro wl' hwl' h₁ h₂
    have hw : wl' ≠ wl := by
      rintro rfl
      exact ht' (hwl'.symm.trans hhome)
    have hw' : wl' ≠ l := by
      rintro rfl
      exact hl.2 h₂
    rw [hs.lock wl' hw hw']
    exact ⟨h₁, h₂⟩
  have hout : ∀ l', l' ≠ l → t ∉ q l' := by
    intro l' hl' ht'
    exact hl' (h.queue_unique ht' (by rw [hq]; exact List.mem_cons_self))
  constructor
  case near =>
    intro o' l'
    rw [holds_handed hs]
    by_cases ho' : o' = o
    · subst ho'
      rw [hs.locked]
      constructor
      · intro heq
        cases heq
        exact .inl ⟨rfl, rfl⟩
      · rintro (⟨rfl, -⟩ | ⟨-, hl', hh⟩)
        · rfl
        · exact absurd (h.holds_unique hh hl) hl'
    · rw [hs.klass o' ho', h.near]
      constructor
      · intro hh
        right
        refine ⟨?_, ?_, hh⟩
        · rintro rfl
          exact hunheld o' hh
        · rintro rfl
          exact ho' (holds_object hh hl)
      · rintro (⟨-, heq⟩ | ⟨-, -, hh⟩)
        · exact absurd heq ho'
        · exact hh
  case value =>
    intro l' o' hl'
    rw [holds_handed hs] at hl'
    rcases hl' with ⟨rfl, -⟩ | ⟨h₁, h₂, hh⟩
    · rw [hs.taken, Function.update_self]
      have hnil := hrest.eq_nil_iff
      cases hnext : s.nextWaiting t with
      | none =>
        rw [hnext] at hnil
        rw [if_pos (hnil.2 rfl)]
        rfl
      | some t' =>
        rw [hnext] at hnil
        rw [if_neg (fun heq => nomatch hnil.1 heq)]
        rfl
    · rw [hs.lock l' h₁ h₂, hq' l' h₁ h₂]
      exact h.value l' o' hh
  case holder =>
    intro l' o' hl'
    rw [holds_handed hs] at hl'
    rcases hl' with ⟨rfl, -⟩ | ⟨h₁, h₂, hh⟩
    · rw [hs.taken, hhome]
      rfl
    · rw [hs.lock l' h₁ h₂]
      exact h.holder l' o' hh
  case chain =>
    intro l' o' hl'
    rw [hs.nextWaiting]
    rw [holds_handed hs] at hl'
    rcases hl' with ⟨rfl, -⟩ | ⟨h₁, h₂, hh⟩
    · rw [hs.taken, Function.update_self]
      exact hrest
    · rw [hs.lock l' h₁ h₂, hq' l' h₁ h₂]
      exact h.chain l' o' hh
  case idle =>
    intro l' hno
    have hw : l' ≠ wl := by
      rintro rfl
      exact hno o ((holds_handed hs).2 (.inl ⟨rfl, rfl⟩))
    rw [Function.update_of_ne hw]
    by_cases heq : l' = l
    · rw [heq, Function.update_self]
    · rw [Function.update_of_ne heq]
      exact h.idle l' fun o' ho' => hno o' ((holds_handed hs).2 (.inr ⟨hw, heq, ho'⟩))
  case blocked =>
    intro l' o' t' hl' ht'
    rw [holds_handed hs] at hl'
    have hb : t' ≠ t ∧ s.BlockedOn home t' o' := by
      rcases hl' with ⟨rfl, rfl⟩ | ⟨h₁, h₂, hh⟩
      · rw [Function.update_self] at ht'
        refine ⟨?_, hblocked t' (List.mem_cons_of_mem t ht')⟩
        rintro rfl
        exact hnodup.1 ht'
      · rw [hq' l' h₁ h₂] at ht'
        refine ⟨?_, h.blocked l' o' t' hh ht'⟩
        rintro rfl
        exact hout l' h₂ ht'
    obtain ⟨htt, hb⟩ := hb
    exact ⟨by rw [hs.threads]; exact hb.live, (hs.active t' htt).trans hb.inactive,
      by rw [hs.waiting]; exact hb.notWaiting, by rw [hs.sleeping]; exact hb.notSleeping,
      hparked t' o' htt hb.parked⟩
  case nodup =>
    intro l'
    by_cases hw : l' = wl
    · rw [hw, Function.update_self]
      exact hnodup.2
    · rw [Function.update_of_ne hw]
      by_cases heq : l' = l
      · rw [heq, Function.update_self]
        exact List.nodup_nil
      · rw [Function.update_of_ne heq]
        exact h.nodup l'
  case placed =>
    intro t' h₁ h₂ h₃ h₄
    rw [hs.threads] at h₁
    rw [hs.waiting] at h₃
    rw [hs.sleeping] at h₄
    have htt : t' ≠ t := by
      rintro rfl
      rw [hs.activated] at h₂
      cases h₂
    rw [hs.active t' htt] at h₂
    obtain ⟨l', o', hl', ht'⟩ := h.placed t' h₁ h₂ h₃ h₄
    by_cases heq : l' = l
    · refine ⟨wl, o, (holds_handed hs).2 (.inl ⟨rfl, rfl⟩), ?_⟩
      rw [Function.update_self]
      rw [heq, hq] at ht'
      exact (List.mem_cons.1 ht').resolve_left htt
    · have hw : l' ≠ wl := by
        rintro rfl
        exact hunheld o' hl'
      refine ⟨l', o', (holds_handed hs).2 (.inr ⟨hw, heq, hl'⟩), ?_⟩
      rwa [hq' l' hw heq]
  case waits =>
    intro t' ht'
    rw [hs.waiting] at ht'
    obtain ⟨h₁, h₂, h₃, o', ho'⟩ := h.waits t' ht'
    have htt : t' ≠ t := by
      rintro rfl
      exact (hblocked t' List.mem_cons_self).notWaiting ht'
    exact ⟨by rw [hs.threads]; exact h₁, (hs.active t' htt).trans h₂,
      by rw [hs.sleeping]; exact h₃, o', hparked t' o' htt ho'⟩
  case sleeps =>
    intro t' ht'
    rw [hs.sleeping] at ht'
    obtain ⟨h₁, h₂, h₃⟩ := h.sleeps t' ht'
    have htt : t' ≠ t := by
      rintro rfl
      exact (hblocked t' List.mem_cons_self).notSleeping ht'
    exact ⟨by rw [hs.threads]; exact h₁, (hs.active t' htt).trans h₂, (hs.waitObj t' htt).trans h₃⟩
  case waitingNodup =>
    rw [hs.waiting]
    exact h.waitingNodup
  case sleepingNodup =>
    rw [hs.sleeping]
    exact h.sleepingNodup
  case threadsNodup =>
    rw [hs.threads]
    exact h.threadsNodup
  case live =>
    intro t' ht'
    rw [hs.threads]
    by_cases htt : t' = t
    · subst htt
      exact (hblocked t' List.mem_cons_self).live
    · rw [hs.active t' htt] at ht'
      exact h.live t' ht'

/-! ## Threads fall asleep -/

/-- What `enter` does to the links: the thread comes behind the queue of the lock. -/
theorem enter_links (h : s.Inv home q) {l l' : L} {t : T} {o : O} (ht : s.active t = true)
    (howner : (s.lock l).owner = some o) (hnear : (s.lock l).realJavaNear = none)
    (hl' : s.Holds l' o) :
    ∃ head next, s.enter t l = some (false, s.queued t l o l' head next) ∧
      Chain next (some head) (q l' ++ [t]) ∧
      ∀ l'', l'' ≠ l' → ∀ t' ∈ q l'', next t' = s.nextWaiting t' := by
  have hlocked : s.isLocked o = true := h.isLocked_iff.2 ⟨l', hl'⟩
  have hne : l' ≠ l := by
    rintro rfl
    exact hl'.2 hnear
  have hout : ∀ l'', ∀ t' ∈ q l'', t' ≠ t := by
    rintro l'' t' ht' rfl
    exact h.notMem_queue ht l'' ht'
  have hk : s.klass o = .stack l' := (h.near o l').2 hl'
  have hchain := h.chain l' o hl'
  cases hwaiters : (s.lock l').waiters with
  | none =>
    rw [hwaiters, chain_none] at hchain
    refine ⟨t, Function.update s.nextWaiting t none, ?_, ?_, ?_⟩
    · simp [enter, howner, hlocked, fromJavaOop, hk, setWaitStackLock, setOwner, setLock,
        addSyncThread, removeFromActive, ht, Function.update_of_ne hne, hwaiters, setWaiters,
        setWaitObj, waitFor, queued]
    · rw [hchain]
      exact ⟨rfl, Function.update_self ..⟩
    · intro l'' _ t' ht'
      exact Function.update_of_ne (hout l'' t' ht') _ _
  | some head =>
    rw [hwaiters] at hchain
    obtain ⟨tail, htail, hlast⟩ := hchain.tailOf (h.length_le l')
    refine ⟨head, Function.update (Function.update s.nextWaiting tail (some t)) t none, ?_, ?_, ?_⟩
    · simp [enter, howner, hlocked, fromJavaOop, hk, setWaitStackLock, setOwner, setLock,
        addSyncThread, removeFromActive, ht, Function.update_of_ne hne, hwaiters, htail, setWaiters,
        setWaitObj, waitFor, queued]
    · exact hchain.concat (h.nodup l') hlast (h.notMem_queue ht l')
    · intro l'' hl'' t' ht'
      rw [Function.update_of_ne (hout l'' t' ht'), Function.update_of_ne]
      rintro rfl
      exact hl'' (h.queue_unique ht' (List.mem_of_getLast? hlast))

omit [DecidableEq O] in
theorem holds_queued {l l' l'' : L} {t head : T} {o o' o'' : O}
    {next : T → Option T} (hnear : (s.lock l).realJavaNear = none) (hl' : s.Holds l' o') :
    (s.queued t l o l' head next).Holds l'' o'' ↔ s.Holds l'' o'' := by
  have hne : l' ≠ l := by
    rintro rfl
    exact hl'.2 hnear
  unfold Holds queued setWaiters setOwner setLock
  simp only [Function.update_of_ne hne]
  by_cases h₁ : l'' = l'
  · subst h₁
    simp
  · rw [Function.update_of_ne h₁]
    by_cases h₂ : l'' = l
    · subst h₂
      simp [hnear]
    · rw [Function.update_of_ne h₂]

omit [DecidableEq O] in
/-- **Entering a lock that another thread has.** The thread comes to the end of the queue. -/
theorem queued_inv (h : s.Inv home q) {l l' : L} {t head : T} {o : O} {next : T → Option T}
    (ht : s.active t = true) (hl : home l = t) (hnear : (s.lock l).realJavaNear = none)
    (hl' : s.Holds l' o) (hchain : Chain next (some head) (q l' ++ [t]))
    (hnext : ∀ l'', l'' ≠ l' → ∀ t' ∈ q l'', next t' = s.nextWaiting t') :
    (s.queued t l o l' head next).Inv home (Function.update q l' (q l' ++ [t])) := by
  have hne : l' ≠ l := by
    rintro rfl
    exact hl'.2 hnear
  have hholds : ∀ l'' o'', (s.queued t l o l' head next).Holds l'' o'' ↔ s.Holds l'' o'' :=
    fun _ _ => holds_queued hnear hl'
  have hlock : ∀ l'', l'' ≠ l' → l'' ≠ l → (s.queued t l o l' head next).lock l'' = s.lock l'' := by
    intro l'' h₁ h₂
    simp [queued, setWaiters, setOwner, setLock, Function.update_of_ne h₁, Function.update_of_ne h₂]
  have hlock' : (s.queued t l o l' head next).lock l' =
      { s.lock l' with lockValue := .waiters, waiters := some head } := by
    simp [queued, setWaiters, setOwner, setLock, Function.update_of_ne hne]
  have hother : ∀ l'' o'', s.Holds l'' o'' → l'' ≠ l := by
    rintro l'' o'' hl'' rfl
    exact hl''.2 hnear
  have hqne : ∀ l'', l'' ≠ l' → Function.update q l' (q l' ++ [t]) l'' = q l'' :=
    fun l'' hl'' => Function.update_of_ne hl'' _ _
  -- a registration of another thread stays, and the thread is registered itself
  have hparked : ∀ t' o', t' ≠ t → s.Parked home t' o' →
      (s.queued t l o l' head next).Parked home t' o' := by
    intro t' o' ht' hp
    refine hp.congr (Function.update_of_ne ht' _ _) (Function.update_of_ne ht' _ _) ?_
    intro wl hwl h₁ h₂
    have hwl' : wl ≠ l' := by
      rintro rfl
      exact hl'.2 h₂
    have hwll : wl ≠ l := by
      rintro rfl
      exact ht' (hwl.symm.trans hl)
    rw [hlock wl hwl' hwll]
    exact ⟨h₁, h₂⟩
  have hself : (s.queued t l o l' head next).BlockedOn home t o := by
    have hnw : t ∉ s.waiting := by
      intro hmem
      have hoff := (h.waits t hmem).2.1
      rw [ht] at hoff
      cases hoff
    have hns : t ∉ s.sleeping := by
      intro hmem
      have hoff := (h.sleeps t hmem).2.1
      rw [ht] at hoff
      cases hoff
    refine ⟨h.live t ht, Function.update_self .., hnw, hns, Function.update_self .., l,
      Function.update_self .., hl, ?_⟩
    simp [queued, setWaiters, setOwner, setLock, Function.update_of_ne hne.symm, hnear]
  have hactive : ∀ t', t' ≠ t → (s.queued t l o l' head next).active t' = s.active t' :=
    fun t' ht' => Function.update_of_ne ht' _ _
  constructor
  case near =>
    intro o' l''
    rw [hholds]
    exact h.near o' l''
  case value =>
    intro l'' o' hl''
    rw [hholds] at hl''
    by_cases heq : l'' = l'
    · subst heq
      simp [hlock']
    · rw [hlock l'' heq (hother l'' o' hl''), hqne l'' heq]
      exact h.value l'' o' hl''
  case holder =>
    intro l'' o' hl''
    rw [hholds] at hl''
    by_cases heq : l'' = l'
    · subst heq
      rw [hlock']
      exact h.holder l'' o' hl''
    · rw [hlock l'' heq (hother l'' o' hl'')]
      exact h.holder l'' o' hl''
  case chain =>
    intro l'' o' hl''
    rw [hholds] at hl''
    by_cases heq : l'' = l'
    · subst heq
      rw [hlock', Function.update_self]
      exact hchain
    · rw [hlock l'' heq (hother l'' o' hl''), hqne l'' heq]
      exact (h.chain l'' o' hl'').congr (hnext l'' heq)
  case idle =>
    intro l'' hno
    have heq : l'' ≠ l' := by
      rintro rfl
      exact hno o ((hholds _ _).2 hl')
    rw [hqne l'' heq]
    exact h.idle l'' fun o' ho' => hno o' ((hholds _ _).2 ho')
  case blocked =>
    intro l'' o' t' hl'' ht'
    rw [hholds] at hl''
    by_cases htt : t' = t
    · subst htt
      by_cases heq : l'' = l'
      · subst heq
        rw [holds_object hl'' hl']
        exact hself
      · rw [hqne l'' heq] at ht'
        exact absurd ht' (h.notMem_queue ht l'')
    · have hmem : t' ∈ q l'' := by
        by_cases heq : l'' = l'
        · subst heq
          rw [Function.update_self, List.mem_append, List.mem_singleton] at ht'
          exact ht'.resolve_right htt
        · rwa [hqne l'' heq] at ht'
      have hb := h.blocked l'' o' t' hl'' hmem
      exact ⟨hb.live, (hactive t' htt).trans hb.inactive, hb.notWaiting, hb.notSleeping,
        hparked t' o' htt hb.parked⟩
  case nodup =>
    intro l''
    by_cases heq : l'' = l'
    · subst heq
      rw [Function.update_self]
      exact List.nodup_append.2 ⟨h.nodup l'', List.nodup_singleton t, by
        rintro a ha b hb rfl
        rw [List.mem_singleton.1 hb] at ha
        exact h.notMem_queue ht l'' ha⟩
    · rw [hqne l'' heq]
      exact h.nodup l''
  case placed =>
    intro t' h₁ h₂ h₃ h₄
    by_cases htt : t' = t
    · subst htt
      exact ⟨l', o, (hholds _ _).2 hl', by simp⟩
    · rw [hactive t' htt] at h₂
      obtain ⟨l'', o', hl'', hmem⟩ := h.placed t' h₁ h₂ h₃ h₄
      refine ⟨l'', o', (hholds _ _).2 hl'', ?_⟩
      by_cases heq : l'' = l'
      · subst heq
        rw [Function.update_self]
        exact List.mem_append_left _ hmem
      · rwa [hqne l'' heq]
  case waits =>
    intro t' ht'
    obtain ⟨h₁, h₂, h₃, o', ho'⟩ := h.waits t' ht'
    have htt : t' ≠ t := by
      rintro rfl
      rw [ht] at h₂
      cases h₂
    exact ⟨h₁, (hactive t' htt).trans h₂, h₃, o', hparked t' o' htt ho'⟩
  case sleeps =>
    intro t' ht'
    obtain ⟨h₁, h₂, h₃⟩ := h.sleeps t' ht'
    have htt : t' ≠ t := by
      rintro rfl
      rw [ht] at h₂
      cases h₂
    exact ⟨h₁, (hactive t' htt).trans h₂, (Function.update_of_ne htt _ _).trans h₃⟩
  case waitingNodup => exact h.waitingNodup
  case sleepingNodup => exact h.sleepingNodup
  case threadsNodup => exact h.threadsNodup
  case live =>
    intro t' ht'
    by_cases htt : t' = t
    · subst htt
      exact h.live t' ht
    · rw [hactive t' htt] at ht'
      exact h.live t' ht'

end Inv

end State

end FroggyKVM.Threads
