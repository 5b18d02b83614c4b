/-
# FroggyKVM.Threads.Monitors — every operation keeps the invariant of the monitors.

An operation either leaves every queue as it is, or puts one thread behind the queue of the object
that it enters, or takes the first waiter off the queue of the object that it unlocks.  Waking up a
thread that waits is a registration undone, followed by `enter`.
-/
import FroggyKVM.Threads.Handover

namespace FroggyKVM.Threads

open Linked

variable {T O N L : Type}

namespace State

/-- The threads queued on the lock that an object points at. -/
def queueOf (s : State T O N L) (o : O) : List T :=
  match s.klass o with
  | .heap _ => []
  | .stack l => follow s.nextWaiting s.threads.length (s.lock l).waiters

theorem queueOf_heap {s : State T O N L} {o : O} {n : N} (hk : s.klass o = .heap n) :
    s.queueOf o = [] := by
  unfold queueOf
  rw [hk]

/-- Locked objects keep their lock, and their queues at most grow. -/
def Steady (s s' : State T O N L) : Prop :=
  ∀ o l, s.klass o = .stack l → s'.klass o = .stack l ∧ s.queueOf o <+: s'.queueOf o

theorem Steady.refl (s : State T O N L) : s.Steady s :=
  fun _ _ hk => ⟨hk, List.prefix_rfl⟩

theorem Steady.trans {s s' s'' : State T O N L} (h : s.Steady s') (h' : s'.Steady s'') :
    s.Steady s'' := by
  intro o l hk
  obtain ⟨hk', hq⟩ := h o l hk
  obtain ⟨hk'', hq'⟩ := h' o l hk'
  exact ⟨hk'', hq.trans hq'⟩

namespace Inv

variable {home : L → T} {s : State T O N L} {q : L → List T}

theorem queueOf_stack (h : s.Inv home q) {o : O} {l : L} (hk : s.klass o = .stack l) :
    s.queueOf o = q l := by
  unfold queueOf
  rw [hk]
  exact (h.chain l o ((h.near o l).1 hk)).follow (h.length_le l)

theorem steady {s' : State T O N L} {q' : L → List T} (h : s.Inv home q) (h' : s'.Inv home q')
    (hk : ∀ o l, s.klass o = .stack l → s'.klass o = .stack l) (hq : ∀ l, q l <+: q' l) :
    s.Steady s' := by
  intro o l hl
  refine ⟨hk o l hl, ?_⟩
  rw [h.queueOf_stack hl, h'.queueOf_stack (hk o l hl)]
  exact hq l

/-! ## Registrations -/

theorem notWaiting (h : s.Inv home q) {t : T} (ht : s.active t = true) : t ∉ s.waiting := by
  intro hmem
  have hoff := (h.waits t hmem).2.1
  rw [ht] at hoff
  cases hoff

theorem notSleeping (h : s.Inv home q) {t : T} (ht : s.active t = true) : t ∉ s.sleeping := by
  intro hmem
  have hoff := (h.sleeps t hmem).2.1
  rw [ht] at hoff
  cases hoff

/-- A stack lock that holds nothing, of an active thread, may change: nothing depends on it. -/
theorem setLock_unheld [DecidableEq L] (h : s.Inv home q) {l : L} (lock : StackLock T O N)
    (hl : s.active (home l) = true ∨ lock.owner = none ∧ lock.realJavaNear = none)
    (hunheld : ∀ o, ¬ s.Holds l o) (hnew : lock.owner = none ∨ lock.realJavaNear = none) :
    (s.setLock l lock).Inv home q ∧ ∀ l' o, (s.setLock l lock).Holds l' o ↔ s.Holds l' o := by
  have hholds : ∀ l' o, (s.setLock l lock).Holds l' o ↔ s.Holds l' o := by
    intro l' o
    by_cases heq : l' = l
    · subst heq
      refine ⟨fun hh => ?_, fun hh => absurd hh (hunheld o)⟩
      simp only [Holds, setLock, Function.update_self] at hh
      rcases hnew with hnew | hnew
      · rw [hnew] at hh
        cases hh.1
      · exact absurd hnew hh.2
    · simp [Holds, setLock, heq]
  have hlock : ∀ l' o, s.Holds l' o → (s.setLock l lock).lock l' = s.lock l' := by
    rintro l' o hh
    refine Function.update_of_ne ?_ _ _
    rintro rfl
    exact hunheld o hh
  have hparked : ∀ t o, s.active t = false → s.Parked home t o →
      (s.setLock l lock).Parked home t o := by
    intro t o hoff hp
    refine hp.congr rfl rfl fun wl hwl h₁ h₂ => ?_
    by_cases heq : wl = l
    · subst heq
      simp only [setLock, Function.update_self]
      rcases hl with hl | hl
      · rw [hwl, hoff] at hl
        cases hl
      · exact hl
    · simp only [setLock, Function.update_of_ne heq]
      exact ⟨h₁, h₂⟩
  refine ⟨?_, hholds⟩
  constructor
  case near =>
    intro o l'
    rw [hholds]
    exact h.near o l'
  case value =>
    intro l' o hh
    rw [hholds] at hh
    rw [hlock l' o hh]
    exact h.value l' o hh
  case holder =>
    intro l' o hh
    rw [hholds] at hh
    rw [hlock l' o hh]
    exact h.holder l' o hh
  case chain =>
    intro l' o hh
    rw [hholds] at hh
    rw [hlock l' o hh]
    exact h.chain l' o hh
  case idle =>
    intro l' hno
    exact h.idle l' fun o hh => hno o ((hholds l' o).2 hh)
  case blocked =>
    intro l' o t hh ht
    rw [hholds] at hh
    have hb := h.blocked l' o t hh ht
    exact ⟨hb.live, hb.inactive, hb.notWaiting, hb.notSleeping, hparked t o hb.inactive hb.parked⟩
  case placed =>
    intro t h₁ h₂ h₃ h₄
    obtain ⟨l', o, hh, ht⟩ := h.placed t h₁ h₂ h₃ h₄
    exact ⟨l', o, (hholds l' o).2 hh, ht⟩
  case waits =>
    intro t ht
    obtain ⟨h₁, h₂, h₃, o, ho⟩ := h.waits t ht
    exact ⟨h₁, h₂, h₃, o, hparked t o h₂ ho⟩
  case nodup => exact h.nodup
  case sleeps => exact h.sleeps
  case waitingNodup => exact h.waitingNodup
  case sleepingNodup => exact h.sleepingNodup
  case threadsNodup => exact h.threadsNodup
  case live => exact h.live

/-- What a step does to one thread, when no lock changes hands. -/
structure Moved (s s' : State T O N L) (t : T) : Prop where
  lock : s'.lock = s.lock
  klass : s'.klass = s.klass
  active : ∀ t', t' ≠ t → s'.active t' = s.active t'
  waitObj : ∀ t', t' ≠ t → s'.waitObj t' = s.waitObj t'
  waitStackLock : ∀ t', t' ≠ t → s'.waitStackLock t' = s.waitStackLock t'
  nextWaiting : ∀ t', t' ≠ t → s'.nextWaiting t' = s.nextWaiting t'
  threads : ∀ t', t' ≠ t → (t' ∈ s'.threads ↔ t' ∈ s.threads)
  waiting : ∀ t', t' ≠ t → (t' ∈ s'.waiting ↔ t' ∈ s.waiting)
  sleeping : ∀ t', t' ≠ t → (t' ∈ s'.sleeping ↔ t' ∈ s.sleeping)

/-- Where a thread that is in no queue may be: active, waiting or sleeping. -/
def Settled (home : L → T) (s : State T O N L) (t : T) : Prop :=
  t ∈ s.threads ∧
  ((s.active t = true ∧ t ∉ s.waiting ∧ t ∉ s.sleeping) ∨
    (s.active t = false ∧ t ∈ s.waiting ∧ t ∉ s.sleeping ∧ ∃ o, s.Parked home t o) ∨
    (s.active t = false ∧ t ∈ s.sleeping ∧ t ∉ s.waiting ∧ s.waitObj t = none))

/-- **Moving a thread** that is in no queue from one settled place to another. -/
theorem moved (h : s.Inv home q) {s' : State T O N L} {t : T} (hs : Moved s s' t)
    (hq : ∀ l, t ∉ q l) (ht : Settled home s' t) (hw : s'.waiting.Nodup)
    (hsl : s'.sleeping.Nodup) (hth : s'.threads.Nodup) : s'.Inv home q := by
  obtain ⟨hlive, hplace⟩ := ht
  have hholds : ∀ l o, s'.Holds l o ↔ s.Holds l o := by
    intro l o
    unfold Holds
    rw [hs.lock]
  have hparked : ∀ t' o, t' ≠ t → s.Parked home t' o → s'.Parked home t' o := by
    intro t' o ht' hp
    refine hp.congr (hs.waitObj t' ht') (hs.waitStackLock t' ht') fun l _ h₁ h₂ => ?_
    rw [hs.lock]
    exact ⟨h₁, h₂⟩
  have hne : ∀ l t', t' ∈ q l → t' ≠ t := by
    rintro l t' ht' rfl
    exact hq l ht'
  constructor
  case near =>
    intro o l
    rw [hholds, hs.klass]
    exact h.near o l
  case value =>
    intro l o hh
    rw [hholds] at hh
    rw [hs.lock]
    exact h.value l o hh
  case holder =>
    intro l o hh
    rw [hholds] at hh
    rw [hs.lock]
    exact h.holder l o hh
  case chain =>
    intro l o hh
    rw [hholds] at hh
    rw [hs.lock]
    exact (h.chain l o hh).congr fun t' ht' => hs.nextWaiting t' (hne l t' ht')
  case idle =>
    intro l hno
    exact h.idle l fun o hh => hno o ((hholds l o).2 hh)
  case blocked =>
    intro l o t' hh ht'
    rw [hholds] at hh
    have hb := h.blocked l o t' hh ht'
    have htt := hne l t' ht'
    exact ⟨(hs.threads t' htt).2 hb.live, (hs.active t' htt).trans hb.inactive,
      fun hm => hb.notWaiting ((hs.waiting t' htt).1 hm),
      fun hm => hb.notSleeping ((hs.sleeping t' htt).1 hm), hparked t' o htt hb.parked⟩
  case placed =>
    intro t' h₁ h₂ h₃ h₄
    have htt : t' ≠ t := by
      rintro rfl
      rcases hplace with ⟨hon, -⟩ | ⟨-, hmem, -⟩ | ⟨-, hmem, -⟩
      · rw [hon] at h₂
        cases h₂
      · exact h₃ hmem
      · exact h₄ hmem
    obtain ⟨l, o, hh, ht'⟩ := h.placed t' ((hs.threads t' htt).1 h₁)
      ((hs.active t' htt).symm.trans h₂) (fun hm => h₃ ((hs.waiting t' htt).2 hm))
      (fun hm => h₄ ((hs.sleeping t' htt).2 hm))
    exact ⟨l, o, (hholds l o).2 hh, ht'⟩
  case waits =>
    intro t' ht'
    by_cases htt : t' = t
    · subst htt
      rcases hplace with ⟨-, hmem, -⟩ | ⟨hoff, -, hns, hp⟩ | ⟨-, -, hmem, -⟩
      · exact absurd ht' hmem
      · exact ⟨hlive, hoff, hns, hp⟩
      · exact absurd ht' hmem
    · obtain ⟨h₁, h₂, h₃, o, ho⟩ := h.waits t' ((hs.waiting t' htt).1 ht')
      exact ⟨(hs.threads t' htt).2 h₁, (hs.active t' htt).trans h₂,
        fun hm => h₃ ((hs.sleeping t' htt).1 hm), o, hparked t' o htt ho⟩
  case sleeps =>
    intro t' ht'
    by_cases htt : t' = t
    · subst htt
      rcases hplace with ⟨-, -, hmem⟩ | ⟨-, -, hmem, -⟩ | ⟨hoff, -, -, hobj⟩
      · exact absurd ht' hmem
      · exact absurd ht' hmem
      · exact ⟨hlive, hoff, hobj⟩
    · obtain ⟨h₁, h₂, h₃⟩ := h.sleeps t' ((hs.sleeping t' htt).1 ht')
      exact ⟨(hs.threads t' htt).2 h₁, (hs.active t' htt).trans h₂, (hs.waitObj t' htt).trans h₃⟩
  case nodup => exact h.nodup
  case waitingNodup => exact hw
  case sleepingNodup => exact hsl
  case threadsNodup => exact hth
  case live =>
    intro t' ht'
    by_cases htt : t' = t
    · subst htt
      exact hlive
    · exact (hs.threads t' htt).2 (h.live t' ((hs.active t' htt).symm.trans ht'))

/-! ## Entering -/

variable [DecidableEq T] [DecidableEq O] [DecidableEq L]

/-- What `enter` does for a thread and its stack lock: the thread has the lock, or it comes to the
end of the queue. -/
structure Entered (home : L → T) (s s' : State T O N L) (t : T) (o : O) : Prop where
  inv : ∃ q, s'.Inv home q
  steady : s.Steady s'
  waiting : s'.waiting = s.waiting
  active : ∀ t', t' ≠ t → s'.active t' = s.active t'
  waitObj : ∀ t', t' ≠ t → s'.waitObj t' = s.waitObj t'
  result : (s'.active t = true ∧ s'.isLockedBy o t = true) ∨
    (s'.active t = false ∧ s'.queueOf o = s.queueOf o ++ [t])

/-- A free lock of a free object is taken at once. -/
theorem acquired (h : s.Inv home q) {l : L} {t : T} {o : O} {n : N} (ht : s.active t = true)
    (hl : home l = t) (hfree : ∀ o, ¬ s.Holds l o) (hk : s.klass o = .heap n) :
    Entered home s ((s.setLock l (.taken t o n)).setKlass o (.stack l)) t o := by
  have hinv := h.acquire (n := n) ht hl hfree hk
  refine ⟨⟨_, hinv⟩, ?_, rfl, fun _ _ => rfl, fun _ _ => rfl, ?_⟩
  · refine h.steady hinv ?_ fun l' => List.prefix_rfl
    intro o' l' hk'
    have hne : o' ≠ o := by
      rintro rfl
      rw [hk] at hk'
      cases hk'
    show Function.update s.klass o _ o' = _
    rw [Function.update_of_ne hne]
    exact hk'
  · refine .inl ⟨ht, hinv.isLockedBy_iff.2 ⟨l, ?_, hl⟩⟩
    exact holds_taken.2 (.inl ⟨rfl, rfl⟩)

theorem entered (h : s.Inv home q) {l : L} {t : T} {o : O} (ht : s.active t = true)
    (hl : home l = t) (howner : (s.lock l).owner = some o)
    (hnear : (s.lock l).realJavaNear = none) :
    ∃ b s', s.enter t l = some (b, s') ∧ Entered home s s' t o := by
  have hfree : ∀ o, ¬ s.Holds l o := fun o ho => ho.2 hnear
  cases hk : s.klass o with
  | heap n =>
    have hlocked : s.isLocked o = false := by
      unfold isLocked
      rw [hk]
    refine ⟨true, _, ?_, h.acquired ht hl hfree hk⟩
    unfold enter
    rw [howner]
    show (if !s.isLocked o then _ else _) = _
    rw [hlocked]
    show (s.lockStackLock l t o).bind _ = _
    unfold lockStackLock
    rw [hk]
    rfl
  | stack l' =>
    have hl' := (h.near o l').1 hk
    obtain ⟨head, next, henter, hchain, hnext⟩ := h.enter_links ht howner hnear hl'
    have hinv := h.queued_inv ht hl hnear hl' hchain hnext
    refine ⟨false, _, henter, ⟨_, hinv⟩, ?_, rfl, fun t' ht' => Function.update_of_ne ht' _ _,
      fun t' ht' => Function.update_of_ne ht' _ _, ?_⟩
    · refine h.steady hinv (fun _ _ hk' => hk') fun l'' => ?_
      by_cases heq : l'' = l'
      · subst heq
        rw [Function.update_self]
        exact List.prefix_append ..
      · exact ⟨[], by rw [List.append_nil, Function.update_of_ne heq]⟩
    · refine .inr ⟨Function.update_self .., ?_⟩
      rw [hinv.queueOf_stack (o := o) (l := l') hk, h.queueOf_stack hk, Function.update_self]

/-! ## Releasing -/

/-- What releasing the lock of an object does: the first waiter becomes the owner, and the others
stay queued behind it in order. -/
structure Released (home : L → T) (s s' : State T O N L) (o : O) : Prop where
  inv : ∃ q, s'.Inv home q
  other : ∀ o' l, o' ≠ o → s.klass o' = .stack l →
    s'.klass o' = .stack l ∧ s'.queueOf o' = s.queueOf o'
  idle : s.queueOf o = [] → s'.isLocked o = false
  handed : ∀ t ts, s.queueOf o = t :: ts →
    s'.active t = true ∧ s'.isLockedBy o t = true ∧ s'.queueOf o = ts

theorem released_freed (h : s.Inv home q) {l : L} (lock : StackLock T O N) {o : O} {n : N}
    (hl : s.Holds l o) (hq : q l = []) (hfree : lock.owner = none) :
    Released home s (s.freed l lock o n) o := by
  have hinv := h.freed_inv (n := n) hl hq hfree
  have hk : s.klass o = .stack l := (h.near o l).2 hl
  refine ⟨⟨_, hinv⟩, ?_, ?_, ?_⟩
  · intro o' l' hne hk'
    have hk'' : (s.freed l lock o n).klass o' = .stack l' := by
      show Function.update s.klass o _ o' = _
      rw [Function.update_of_ne hne]
      exact hk'
    refine ⟨hk'', ?_⟩
    rw [hinv.queueOf_stack hk'', h.queueOf_stack hk']
  · intro _
    unfold isLocked
    rw [show (s.freed l lock o n).klass o = .heap n from Function.update_self ..]
  · intro t ts hqueue
    rw [h.queueOf_stack hk, hq] at hqueue
    cases hqueue

omit [DecidableEq O] in
theorem released_handed (h : s.Inv home q) {s' : State T O N L} {l wl : L} {o : O} {n : N} {t : T}
    {ts : List T} (hl : s.Holds l o) (hq : q l = t :: ts) (hhome : home wl = t)
    (hunheld : ∀ o, ¬ s.Holds wl o) (hs : Handed s s' l t wl o n (s.nextWaiting t)) :
    Released home s s' o := by
  have hinv := h.handed_inv hl hq hhome hunheld hs
  have hk : s.klass o = .stack l := (h.near o l).2 hl
  refine ⟨⟨_, hinv⟩, ?_, ?_, ?_⟩
  · intro o' l' hne hk'
    have hk'' : s'.klass o' = .stack l' := (hs.klass o' hne).trans hk'
    have hl' := (h.near o' l').1 hk'
    have hw : l' ≠ wl := by
      rintro rfl
      exact hunheld o' hl'
    have hw' : l' ≠ l := by
      rintro rfl
      exact hne (holds_object hl' hl)
    refine ⟨hk'', ?_⟩
    rw [hinv.queueOf_stack hk'', h.queueOf_stack hk', Function.update_of_ne hw,
      Function.update_of_ne hw']
  · intro hqueue
    rw [h.queueOf_stack hk, hq] at hqueue
    cases hqueue
  · intro t' ts' hqueue
    rw [h.queueOf_stack hk, hq] at hqueue
    cases hqueue
    refine ⟨hs.activated, hinv.isLockedBy_iff.2 ⟨wl, ?_, hhome⟩, ?_⟩
    · exact (holds_handed hs).2 (.inl ⟨rfl, rfl⟩)
    · rw [hinv.queueOf_stack hs.locked, Function.update_self]

/-- `exit`, for a lock that holds an object. -/
theorem exited (h : s.Inv home q) {l : L} {o : O} (hl : s.Holds l o) :
    ∃ s', s.exit l = some s' ∧ Released home s s' o ∧ s'.waiting = s.waiting ∧
      (∀ t, s.active t = true → s'.active t = true) ∧
      (s'.lock l).owner = none ∧ (s'.lock l).realJavaNear = none := by
  obtain ⟨howner, hnear⟩ := hl
  obtain ⟨n, hn⟩ := Option.ne_none_iff_exists'.1 hnear
  have hexit : s.exit l = ((s.setKlass o (.heap n)).setOwner l none).signalWaiters l := by
    unfold exit
    rw [howner, hn]
    rfl
  cases hq : q l with
  | nil =>
    refine ⟨_, hexit.trans (h.release_idle ⟨howner, hnear⟩ hq),
      h.released_freed _ ⟨howner, hnear⟩ hq rfl, rfl, fun _ ht => ht, ?_⟩
    simp [freed, setKlass, setLock]
  | cons t ts =>
    obtain ⟨wl, s', -, hhome, hunheld, hsignal, hs⟩ :=
      h.release_links (n := n) ⟨howner, hnear⟩ hq
    refine ⟨s', hexit.trans hsignal, h.released_handed ⟨howner, hnear⟩ hq hhome hunheld hs,
      hs.waiting, ?_, hs.released⟩
    intro t' ht'
    by_cases heq : t' = t
    · rw [heq]
      exact hs.activated
    · exact (hs.active t' heq).trans ht'

end Inv

end State

end FroggyKVM.Threads
