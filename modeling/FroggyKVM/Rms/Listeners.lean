/-
# FroggyKVM.Rms.Listeners — `RecordStore` notifies its listeners while they come and go.

The loop asks the vector for its size once and then indexes the live vector.  A callback runs under
the same lock, so it may register and remove listeners.  As long as somebody still waits, the vector
is the listeners called, those waiting and those added, in this order: removing one that was called
moves a waiting one behind the index, and nothing takes the index back.
-/
import Mathlib

namespace FroggyKVM.Rms

/-- What a callback does to the listeners. -/
inductive ListenerChange (L : Type) where
  | addRecordListener (listener : L)
  | removeRecordListener (listener : L)
  deriving DecidableEq, Repr

inductive NotifyError where
  | arrayIndexOutOfBounds
  deriving DecidableEq, Repr

/-- The changes a listener makes when it is called; `σ` is all that the application remembers. -/
abbrev Callback (L σ : Type) : Type := L → σ → List (ListenerChange L) × σ

/-- The vector in a notification.  `waiting` are the listeners that were registered at its start and
were neither called nor removed since, in their order; `called` is every call so far, and `turns`
are the listeners that were first among the waiting when a listener was called. -/
structure Notifying (L σ : Type) where
  recordListener : List L
  app : σ
  waiting : List L
  called : List L := []
  turns : List L := []

variable {L σ : Type} [DecidableEq L]

namespace Notifying

/-- A listener is not added a second time. -/
def addRecordListener (listener : L) (s : Notifying L σ) : Notifying L σ :=
  if listener ∈ s.recordListener then s
  else { s with recordListener := s.recordListener ++ [listener] }

def removeRecordListener (listener : L) (s : Notifying L σ) : Notifying L σ :=
  { s with recordListener := s.recordListener.erase listener, waiting := s.waiting.erase listener }

def change (s : Notifying L σ) : ListenerChange L → Notifying L σ
  | .addRecordListener listener => s.addRecordListener listener
  | .removeRecordListener listener => s.removeRecordListener listener

/-- `rl.recordChanged(this, recordId)`. -/
def call (callback : Callback L σ) (rl : L) (s : Notifying L σ) : Notifying L σ :=
  (callback rl s.app).1.foldl change
    { s with
      app := (callback rl s.app).2
      waiting := s.waiting.erase rl
      called := s.called ++ [rl]
      turns := s.turns ++ s.waiting.head?.toList }

end Notifying

open Notifying

/-- The body of the loop. -/
def turn (callback : Callback L σ) (i : Nat) (s : Notifying L σ) :
    Except NotifyError (Notifying L σ) :=
  match s.recordListener[i]? with
  | some rl => .ok (s.call callback rl)
  | none => .error .arrayIndexOutOfBounds

/-- What the loop has done before iteration `i`. -/
def before (callback : Callback L σ) (start : Notifying L σ) :
    Nat → Except NotifyError (Notifying L σ)
  | 0 => .ok start
  | i + 1 => do turn callback i (← before callback start i)

def starting (listeners : List L) (app : σ) : Notifying L σ :=
  { recordListener := listeners, app := app, waiting := listeners }

/-- The loop of the three methods. -/
def notifyListeners (callback : Callback L σ) (listeners : List L) (app : σ) :
    Except NotifyError (Notifying L σ) :=
  before callback (starting listeners app) listeners.length

/-- The methods of a `RecordListener`. -/
structure RecordListeners (L σ : Type) where
  recordAdded : Int → Callback L σ
  recordChanged : Int → Callback L σ
  recordDeleted : Int → Callback L σ

def notifyRecordChangedListeners (rl : RecordListeners L σ) (recordId : Int) :=
  notifyListeners (rl.recordChanged recordId)

def notifyRecordAddedListeners (rl : RecordListeners L σ) (recordId : Int) :=
  notifyListeners (rl.recordAdded recordId)

def notifyRecordDeletedListeners (rl : RecordListeners L σ) (recordId : Int) :=
  notifyListeners (rl.recordDeleted recordId)

/-! ## Complete notification, and what callbacks must leave alone -/

/-- **The notification completes; a listener whose turn comes (it is the first of those registered at
the start that were neither called nor removed) is called in this turn, and is not called again.** -/
structure Notifies (callback : Callback L σ) (listeners : List L) (app : σ) : Prop where
  completes : ∃ s, notifyListeners callback listeners app = .ok s
  inTurn : ∀ i s, i ≤ listeners.length → before callback (starting listeners app) i = .ok s →
    ∀ w, s.waiting.head? = some w → i < listeners.length ∧ s.recordListener[i]? = some w
  once : ∀ s, notifyListeners callback listeners app = .ok s → ∀ w ∈ s.turns, s.called.count w = 1

/-- While somebody waits after its callback, the listener in turn removes none that was called,
itself included. -/
def KeepsCalled (callback : Callback L σ) (s : Notifying L σ) : Prop :=
  ∀ w, s.waiting.head? = some w → (s.call callback w).waiting ≠ [] →
    ∀ l ∈ s.called ++ [w], .removeRecordListener l ∉ (callback w s.app).1

/-- Once nobody waits, there still is a listener at the index, and not one that had its turn. -/
def FillsPlace (i : Nat) (s : Notifying L σ) : Prop :=
  s.waiting = [] → ∃ l, s.recordListener[i]? = some l ∧ l ∉ s.turns

/-- In every iteration both hold. -/
def Considerate (callback : Callback L σ) (listeners : List L) (app : σ) : Prop :=
  ∀ i s, i < listeners.length → before callback (starting listeners app) i = .ok s →
    KeepsCalled callback s ∧ FillsPlace i s

/-! ## What a callback does to the three parts of the vector -/

/-- The vector starts with `front` and the waiting listeners. -/
def Split (front : List L) (s : Notifying L σ) : Prop :=
  s.recordListener.Nodup ∧ ∃ added, s.recordListener = front ++ (s.waiting ++ added)

/-- What a change leaves of the front. -/
def strip (front : List L) : ListenerChange L → List L
  | .addRecordListener _ => front
  | .removeRecordListener listener => front.erase listener

theorem Split.change {front : List L} {s : Notifying L σ} (h : Split front s)
    (c : ListenerChange L) : Split (strip front c) (s.change c) := by
  obtain ⟨hnodup, added, heq⟩ := h
  cases c with
  | addRecordListener listener =>
    show Split front (s.addRecordListener listener)
    unfold Notifying.addRecordListener
    split
    · exact ⟨hnodup, added, heq⟩
    · rename_i hnew
      refine ⟨List.concat_eq_append ▸ hnodup.concat hnew, added ++ [listener], ?_⟩
      show s.recordListener ++ [listener] = front ++ (s.waiting ++ (added ++ [listener]))
      rw [heq, List.append_assoc, List.append_assoc]
  | removeRecordListener listener =>
    refine ⟨hnodup.erase listener, ?_⟩
    show ∃ added, s.recordListener.erase listener =
      front.erase listener ++ (s.waiting.erase listener ++ added)
    rw [heq] at hnodup ⊢
    rw [List.erase_append]
    split
    · rename_i hfront
      have hout : listener ∉ s.waiting := fun hw =>
        List.disjoint_of_nodup_append hnodup hfront (List.mem_append_left _ hw)
      rw [List.erase_of_not_mem hout]
      exact ⟨added, rfl⟩
    · rename_i hfront
      rw [List.erase_append, List.erase_of_not_mem hfront]
      split
      · exact ⟨added, rfl⟩
      · rename_i hwaiting
        rw [List.erase_of_not_mem hwaiting]
        exact ⟨added.erase listener, rfl⟩

theorem Split.changes {front : List L} {s : Notifying L σ} (h : Split front s) :
    ∀ changes : List (ListenerChange L),
      Split (changes.foldl strip front) (changes.foldl Notifying.change s) := by
  intro changes
  induction changes generalizing front s with
  | nil => exact h
  | cons c changes ih => exact ih (h.change c)

theorem foldl_strip_sublist (changes : List (ListenerChange L)) :
    ∀ front : List L, (changes.foldl strip front).Sublist front := by
  induction changes with
  | nil => exact fun front => List.Sublist.refl front
  | cons c changes ih =>
    intro front
    refine (ih (strip front c)).trans ?_
    cases c with
    | addRecordListener _ => exact List.Sublist.refl front
    | removeRecordListener _ => exact List.erase_sublist

/-- A removed listener does not come back to the front. -/
theorem not_mem_foldl_strip {changes : List (ListenerChange L)} {l : L} :
    ∀ {front : List L}, front.Nodup → .removeRecordListener l ∈ changes →
      l ∉ changes.foldl strip front := by
  induction changes with
  | nil => exact fun _ h => absurd h List.not_mem_nil
  | cons c changes ih =>
    intro front hnodup hmem
    have hsub : (strip front c).Sublist front := foldl_strip_sublist [c] front
    rcases List.mem_cons.1 hmem with rfl | hmem
    · intro hl
      exact hnodup.not_mem_erase ((foldl_strip_sublist changes _).subset hl)
    · exact ih (hnodup.sublist hsub) hmem

/-- The front stays as it is exactly where no listener of it is removed. -/
theorem foldl_strip_eq_iff {changes : List (ListenerChange L)} {front : List L}
    (hnodup : front.Nodup) :
    changes.foldl strip front = front ↔ ∀ l ∈ front, .removeRecordListener l ∉ changes := by
  constructor
  · intro heq l hl hmem
    exact not_mem_foldl_strip hnodup hmem (heq.symm ▸ hl)
  · intro hkeep
    induction changes with
    | nil => rfl
    | cons c changes ih =>
      have hstrip : strip front c = front := by
        cases c with
        | addRecordListener _ => rfl
        | removeRecordListener listener =>
          apply List.erase_of_not_mem
          exact fun hl => hkeep listener hl List.mem_cons_self
      rw [List.foldl_cons, hstrip]
      exact ih fun l hl hmem => hkeep l hl (List.mem_cons_of_mem _ hmem)

@[simp] theorem called_changes (changes : List (ListenerChange L)) :
    ∀ s : Notifying L σ, (changes.foldl Notifying.change s).called = s.called := by
  induction changes with
  | nil => exact fun _ => rfl
  | cons c changes ih =>
    intro s
    rw [List.foldl_cons, ih]
    cases c with
    | addRecordListener _ =>
      show (addRecordListener _ s).called = _
      unfold addRecordListener
      split <;> rfl
    | removeRecordListener _ => rfl

@[simp] theorem turns_changes (changes : List (ListenerChange L)) :
    ∀ s : Notifying L σ, (changes.foldl Notifying.change s).turns = s.turns := by
  induction changes with
  | nil => exact fun _ => rfl
  | cons c changes ih =>
    intro s
    rw [List.foldl_cons, ih]
    cases c with
    | addRecordListener _ =>
      show (addRecordListener _ s).turns = _
      unfold addRecordListener
      split <;> rfl
    | removeRecordListener _ => rfl

theorem waiting_changes_sublist (changes : List (ListenerChange L)) :
    ∀ s : Notifying L σ, (changes.foldl Notifying.change s).waiting.Sublist s.waiting := by
  induction changes with
  | nil => exact fun s => List.Sublist.refl _
  | cons c changes ih =>
    intro s
    rw [List.foldl_cons]
    refine (ih _).trans ?_
    cases c with
    | addRecordListener _ =>
      show (addRecordListener _ s).waiting.Sublist _
      unfold addRecordListener
      split <;> exact List.Sublist.refl _
    | removeRecordListener _ => exact List.erase_sublist

/-! ## One turn -/

/-- Before iteration `i`. -/
structure Iterating (listeners : List L) (i : Nat) (s : Notifying L σ) : Prop where
  length : s.called.length = i
  turns : s.turns ⊆ s.called
  split : s.waiting ≠ [] →
    s.called = s.turns ∧ Split s.called s ∧ (s.called ++ s.waiting).Sublist listeners

theorem called_call (callback : Callback L σ) (rl : L) (s : Notifying L σ) :
    (s.call callback rl).called = s.called ++ [rl] := called_changes _ _

theorem turns_call (callback : Callback L σ) (rl : L) (s : Notifying L σ) :
    (s.call callback rl).turns = s.turns ++ s.waiting.head?.toList := turns_changes _ _

namespace Iterating

variable {listeners : List L} {i : Nat} {s : Notifying L σ} {w : L}

omit [DecidableEq L] in
/-- The first of the waiting is at the index, and the index is one of the loop's. -/
theorem inPlace (h : Iterating listeners i s) (hw : s.waiting.head? = some w) :
    i < listeners.length ∧ s.recordListener[i]? = some w := by
  obtain ⟨rest, hrest⟩ := List.head?_eq_some_iff.1 hw
  obtain ⟨-, ⟨-, added, heq⟩, hsub⟩ := h.split (by rw [hrest]; nofun)
  constructor
  · have hle := hsub.length_le
    rw [List.length_append, hrest, List.length_cons, h.length] at hle
    omega
  · rw [heq, hrest, List.getElem?_append_right (Nat.le_of_eq h.length), h.length, Nat.sub_self]
    rfl

/-- After the call of the first of the waiting, what is left of those called is in front. -/
theorem split_call (h : Iterating listeners i s) (callback : Callback L σ)
    (hw : s.waiting.head? = some w) :
    (s.called ++ [w]).Nodup ∧
      Split ((callback w s.app).1.foldl strip (s.called ++ [w])) (s.call callback w) := by
  obtain ⟨rest, hrest⟩ := List.head?_eq_some_iff.1 hw
  obtain ⟨-, ⟨hnodup, added, heq⟩, -⟩ := h.split (by rw [hrest]; nofun)
  have hfront : s.recordListener = (s.called ++ [w]) ++ (s.waiting.erase w ++ added) := by
    rw [heq, hrest, List.erase_cons_head, List.append_assoc, List.cons_append]
    rfl
  refine ⟨(List.nodup_append.1 (hfront ▸ hnodup)).1, Split.changes ?_ _⟩
  exact ⟨hnodup, added, hfront⟩

theorem call_first (h : Iterating listeners i s) {callback : Callback L σ}
    (hw : s.waiting.head? = some w) (hkeep : KeepsCalled callback s) :
    Iterating listeners (i + 1) (s.call callback w) := by
  obtain ⟨rest, hrest⟩ := List.head?_eq_some_iff.1 hw
  obtain ⟨hcalled, -, hsub⟩ := h.split (by rw [hrest]; nofun)
  obtain ⟨hnodup, hsplit⟩ := h.split_call callback hw
  refine ⟨?_, ?_, fun hne => ⟨?_, ?_, ?_⟩⟩
  · rw [called_call, List.length_append, h.length]
    rfl
  · rw [called_call, turns_call, hw]
    exact List.append_subset.2 ⟨fun x hx => List.mem_append_left _ (h.turns hx),
      fun x hx => List.mem_append_right _ hx⟩
  · rw [called_call, turns_call, hw, hcalled]
    rfl
  · rw [(foldl_strip_eq_iff hnodup).2 (hkeep w hw hne)] at hsplit
    rw [called_call]
    exact hsplit
  · rw [called_call, List.append_assoc]
    refine List.Sublist.trans (List.Sublist.append_left ?_ _) hsub
    rw [hrest]
    refine List.Sublist.cons_cons w ((waiting_changes_sublist _ _).trans ?_)
    show (s.waiting.erase w).Sublist rest
    rw [hrest, List.erase_cons_head]

theorem call_none (h : Iterating listeners i s) (callback : Callback L σ) (l : L)
    (hnone : s.waiting = []) : Iterating listeners (i + 1) (s.call callback l) := by
  have hwaiting : (s.call callback l).waiting = [] := by
    refine List.sublist_nil.1 ((waiting_changes_sublist _ _).trans ?_)
    show (s.waiting.erase l).Sublist []
    rw [hnone]
    exact List.Sublist.refl _
  refine ⟨?_, ?_, fun hne => absurd hwaiting hne⟩
  · rw [called_call, List.length_append, h.length]
    rfl
  · rw [called_call, turns_call, hnone]
    exact fun x hx => List.mem_append_left _ (h.turns (by simpa using hx))

/-- If the first of those still waiting is at the next index, nobody called was removed. -/
theorem keepsCalled (h : Iterating listeners i s) (callback : Callback L σ)
    (hnext : ∀ w, s.waiting.head? = some w → ∀ w', (s.call callback w).waiting.head? = some w' →
      (s.call callback w).recordListener[i + 1]? = some w') : KeepsCalled callback s := by
  intro w hw hne
  obtain ⟨hnodup, hnodup', added, heq⟩ := h.split_call callback hw
  rw [← foldl_strip_eq_iff hnodup]
  obtain ⟨w', rest, hrest⟩ := List.exists_cons_of_ne_nil hne
  have hat := hnext w hw w' (by rw [hrest]; rfl)
  have hsub := foldl_strip_sublist (callback w s.app).1 (s.called ++ [w])
  refine hsub.eq_of_length ?_
  -- `w'` stands behind the front, and only there
  have hat' : (s.call callback w).recordListener[
      ((callback w s.app).1.foldl strip (s.called ++ [w])).length]? = some w' := by
    rw [heq, List.getElem?_append_right (Nat.le_refl _), Nat.sub_self, hrest]
    rfl
  obtain ⟨_, hx⟩ := List.getElem?_eq_some_iff.1 hat
  obtain ⟨_, hx'⟩ := List.getElem?_eq_some_iff.1 hat'
  rw [(List.Nodup.getElem_inj_iff hnodup').1 (hx'.trans hx.symm), List.length_append, h.length]
  rfl

end Iterating

/-! ## The loop -/

theorem before_succ {callback : Callback L σ} {start s' : Notifying L σ} {i : Nat} :
    before callback start (i + 1) = .ok s' ↔
      ∃ s, before callback start i = .ok s ∧
        ∃ l, s.recordListener[i]? = some l ∧ s' = s.call callback l := by
  show before callback start i >>= turn callback i = _ ↔ _
  cases before callback start i with
  | error e => exact ⟨nofun, fun ⟨_, h, _⟩ => nomatch h⟩
  | ok s =>
    show turn callback i s = _ ↔ _
    unfold turn
    cases hl : s.recordListener[i]? with
    | none =>
      refine ⟨nofun, ?_⟩
      rintro ⟨_, ⟨⟩, l, h, -⟩
      rw [hl] at h
      cases h
    | some l =>
      constructor
      · rintro ⟨⟩
        exact ⟨s, rfl, l, hl, rfl⟩
      · rintro ⟨_, ⟨⟩, l', h, rfl⟩
        rw [Option.some.inj (hl.symm.trans h)]

/-- A loop that completes passed through every iteration, and only added to its records. -/
theorem before_le {callback : Callback L σ} {start t : Notifying L σ} {i j : Nat} (hij : i ≤ j)
    (h : before callback start j = .ok t) :
    ∃ s, before callback start i = .ok s ∧ s.called.Sublist t.called ∧ s.turns ⊆ t.turns := by
  induction hij generalizing t with
  | refl => exact ⟨t, h, List.Sublist.refl _, List.Subset.refl _⟩
  | step _ ih =>
    obtain ⟨u, hu, l, -, rfl⟩ := before_succ.1 h
    obtain ⟨s, hs, hcalled, hturns⟩ := ih hu
    refine ⟨s, hs, ?_, ?_⟩
    · rw [called_call]
      exact hcalled.trans (List.sublist_append_left _ _)
    · rw [turns_call]
      exact fun x hx => List.mem_append_left _ (hturns hx)

omit [DecidableEq L] in
theorem iterating_starting {listeners : List L} (hnodup : listeners.Nodup) (app : σ) :
    Iterating listeners 0 (starting listeners app) where
  length := rfl
  turns := List.Subset.refl _
  split _ := ⟨rfl, ⟨hnodup, [], (List.append_nil _).symm⟩, List.Sublist.refl _⟩

theorem Considerate.before {callback : Callback L σ} {listeners : List L} {app : σ}
    (h : Considerate callback listeners app) (hnodup : listeners.Nodup) :
    ∀ {i : Nat}, i ≤ listeners.length →
      ∃ s, before callback (starting listeners app) i = .ok s ∧ Iterating listeners i s ∧
        ∀ w ∈ s.turns, s.called.count w = 1
  | 0, _ => ⟨_, rfl, iterating_starting hnodup app, nofun⟩
  | i + 1, hi => by
    obtain ⟨s, hs, hiter, honce⟩ := h.before hnodup (Nat.le_of_succ_le hi)
    obtain ⟨hkeep, hfill⟩ := h i s hi hs
    cases hwaiting : s.waiting with
    | nil =>
      obtain ⟨l, hl, hnew⟩ := hfill hwaiting
      refine ⟨_, before_succ.2 ⟨s, hs, l, hl, rfl⟩, hiter.call_none callback l hwaiting, ?_⟩
      intro w hw
      rw [turns_call, hwaiting] at hw
      replace hw : w ∈ s.turns := by simpa using hw
      have hne : w ≠ l := fun h => hnew (h ▸ hw)
      rw [called_call, List.count_append, honce w hw, List.count_singleton]
      simp [hne.symm]
    | cons w rest =>
      have hw : s.waiting.head? = some w := by rw [hwaiting]; rfl
      refine ⟨_, before_succ.2 ⟨s, hs, w, (hiter.inPlace hw).2, rfl⟩, hiter.call_first hw hkeep, ?_⟩
      have hcalled := (hiter.split (by rw [hwaiting]; nofun)).1
      have hfront := (hiter.split_call callback hw).1
      intro x hx
      rw [turns_call, hw, ← hcalled] at hx
      rw [called_call]
      exact List.count_eq_one_of_mem hfront hx

theorem Notifies.iterating {callback : Callback L σ} {listeners : List L} {app : σ}
    (h : Notifies callback listeners app) (hnodup : listeners.Nodup) :
    ∀ {i : Nat} {s : Notifying L σ}, i ≤ listeners.length →
      FroggyKVM.Rms.before callback (starting listeners app) i = .ok s → Iterating listeners i s
  | 0, s, _, hs => by
    obtain rfl := Except.ok.inj hs
    exact iterating_starting hnodup app
  | i + 1, s', hi, hs' => by
    obtain ⟨s, hs, l, hl, rfl⟩ := before_succ.1 hs'
    have hiter := h.iterating hnodup (Nat.le_of_succ_le hi) hs
    cases hwaiting : s.waiting with
    | nil => exact hiter.call_none callback l hwaiting
    | cons w rest =>
      have hw : s.waiting.head? = some w := by rw [hwaiting]; rfl
      obtain rfl : l = w := Option.some.inj (hl.symm.trans (hiter.inPlace hw).2)
      refine hiter.call_first hw (hiter.keepsCalled callback fun x hx x' hx' => ?_)
      obtain rfl : l = x := Option.some.inj (hw.symm.trans hx)
      exact (h.inTurn (i + 1) _ hi hs' x' hx').2

/-- **A notification is complete exactly when no callback removes a listener that was called while
another one waits**, and, where listeners were removed before their turn, others fill their
places. -/
theorem notifies_iff (callback : Callback L σ) {listeners : List L} (hnodup : listeners.Nodup)
    (app : σ) : Notifies callback listeners app ↔ Considerate callback listeners app := by
  constructor
  · intro h i s hi hs
    have hiter := h.iterating hnodup (Nat.le_of_lt hi) hs
    constructor
    · refine hiter.keepsCalled callback fun w hw w' hw' => ?_
      have hnext := before_succ.2 ⟨s, hs, w, (hiter.inPlace hw).2, rfl⟩
      exact (h.inTurn (i + 1) _ hi hnext w' hw').2
    · intro hnone
      obtain ⟨t, ht⟩ := h.completes
      obtain ⟨s', hs', hcalled, hturns⟩ := before_le hi ht
      obtain ⟨_, hs₀, l, hl, rfl⟩ := before_succ.1 hs'
      obtain rfl := Except.ok.inj (hs.symm.trans hs₀)
      refine ⟨l, hl, fun hmem => ?_⟩
      have hturn : l ∈ t.turns := hturns (by
        rw [turns_call]
        exact List.mem_append_left _ hmem)
      -- called in its turn, and now again
      have htwice : 2 ≤ t.called.count l := by
        refine Nat.le_trans ?_ (hcalled.count_le l)
        rw [called_call, List.count_append, List.count_singleton_self]
        have := List.count_pos_iff.2 (hiter.turns hmem)
        omega
      rw [h.once t ht l hturn] at htwice
      omega
  · intro h
    obtain ⟨t, ht, -, honce⟩ := h.before hnodup (Nat.le_refl _)
    refine ⟨⟨t, ht⟩, fun i s hi hs w hw => ?_, fun s hs => ?_⟩
    · obtain ⟨s', hs', hiter, -⟩ := h.before hnodup hi
      obtain rfl := Except.ok.inj (hs.symm.trans hs')
      exact hiter.inPlace hw
    · obtain rfl := Except.ok.inj (hs.symm.trans ht)
      exact honce

/-- The first of two listeners removes itself, as a destroyed enumeration does. -/
def destroysItself : Callback Nat Unit := fun l app =>
  (if l = 0 then [.removeRecordListener 0] else [], app)

/-- The second listener is registered throughout and is never called. -/
theorem not_notifies_destroysItself :
    notifyListeners destroysItself [0, 1] () = .error .arrayIndexOutOfBounds ∧
      before destroysItself (starting [0, 1] ()) 1 =
        .ok { recordListener := [1], app := (), waiting := [1], called := [0], turns := [0] } ∧
      ¬ Notifies destroysItself [0, 1] () := by
  refine ⟨rfl, rfl, fun h => ?_⟩
  obtain ⟨s, hs⟩ := h.completes
  cases hs

/-- A listener that registers another one. -/
def registersAnother : Callback Nat Unit := fun l app => ([.addRecordListener (l + 7)], app)

theorem notifies_iff_registersAnother :
    Notifies registersAnother [0, 1] () ↔ Considerate registersAnother [0, 1] () :=
  notifies_iff registersAnother (by decide) ()

end FroggyKVM.Rms
