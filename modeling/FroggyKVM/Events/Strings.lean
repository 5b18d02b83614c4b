/-
# FroggyKVM.Events.Strings — who owns the strings of an event.

`StoreMIDPEventInVmThread` copies an event, string pointers included, into one queue or, for a
broadcast, into a queue for each of `MAX_ISOLATES` isolates; an isolate number that has no queue
stands for queue 0, and a full queue drops its copy.  Each copy that is read or reset frees the
strings.  So the strings of an event are freed once only if exactly one copy is stored, and a
broadcast reaches each queue once only if exactly one of the copies meant for it finds room.

The wake-up of the monitor thread, which touches no event, is left to `Events.Monitor`.
-/
import FroggyKVM.Events.Queue
import FroggyKVM.Lib.Lts

namespace FroggyKVM.Events

/-! ## Calls -/

/-- All event queues, and the heap strings handed over to them and given back so far. -/
structure Queues where
  pEventQueues : List EventQueue
  given : List StringId := []
  freed : List StringId := []
  deriving DecidableEq, Repr

/-- The index `getIsolateEventQueue` uses. -/
def Queues.indexOf (v : Queues) (isolateId : Int) : Nat :=
  if isolateId < 0 ∨ (v.pEventQueues.length : Int) ≤ isolateId then 0 else isolateId.toNat

/-- `StoreMIDPEventInVmThreadImp`. -/
def Queues.storeImp (e : MidpEvent) (v : Queues) (isolateId : Int) : Queues :=
  match v.pEventQueues[v.indexOf isolateId]? with
  | none => v
  | some q =>
    if q.numEvents ≠ MAX_EVENTS then
      { v with pEventQueues := v.pEventQueues.set (v.indexOf isolateId) (q.put e) }
    else v

/-- `StoreMIDPEventInVmThread`. -/
def Queues.store (maxIsolates : Nat) (v : Queues) (e : MidpEvent) (isolateId : Int) : Queues :=
  let v := { v with given := v.given ++ e.allocations }
  if isolateId ≠ -1 then v.storeImp e isolateId
  else (List.range maxIsolates).foldl (fun v i => v.storeImp e (i : Nat)) v

/-- `readNativeEventCommon` of an isolate: the fields of the event read are freed. -/
def Queues.read (v : Queues) (i : Nat) (q : EventQueue) : Queues :=
  { v with
    pEventQueues := v.pEventQueues.set i q.getPending.2
    freed := v.freed ++ q.getPending.1.toList.flatMap (·.1.allocations) }

/-- `resetEventQueue`. -/
def Queues.reset (v : Queues) (i : Nat) (q : EventQueue) : Queues :=
  { v with
    pEventQueues := v.pEventQueues.set i q.reset.2
    freed := v.freed ++ q.reset.1.flatMap (·.allocations) }

/-- The calls; a read may come from `waitForNativeEvent` or `readNativeEvent`. -/
inductive QueueOp where
  | store (e : MidpEvent) (isolateId : Int)
  | read (isolateId : Nat)
  | reset (handle : Nat)
  deriving DecidableEq, Repr

/-- The heap strings of the event are the caller's until now, and each is another one. -/
def Queues.Fresh (v : Queues) (e : MidpEvent) : Prop :=
  e.allocations.Nodup ∧ ∀ id ∈ e.allocations, id ∉ v.given

instance (v : Queues) (e : MidpEvent) : Decidable (v.Fresh e) :=
  inferInstanceAs (Decidable (_ ∧ _))

/-- A call: a store hands over freshly allocated strings, and a read or a reset is about the queue of
an isolate. -/
def Queues.step (maxIsolates : Nat) (v : Queues) : QueueOp → Except Unit Queues
  | .store e isolateId => if v.Fresh e then .ok (v.store maxIsolates e isolateId) else .error ()
  | .read i =>
    match v.pEventQueues[i]? with
    | some q => .ok (v.read i q)
    | none => .error ()
  | .reset i =>
    match v.pEventQueues[i]? with
    | some q => .ok (v.reset i q)
    | none => .error ()

def Queues.Step (maxIsolates : Nat) (v : Queues) (op : QueueOp) (v' : Queues) : Prop :=
  v.step maxIsolates op = .ok v'

/-- The queues after `InitializeEvents`, for `n` isolates. -/
def Queues.new (n : Nat) : Queues := { pEventQueues := List.replicate n {} }

/-! ## What is held -/

/-- The heap strings a queue refers to. -/
def EventQueue.held (q : EventQueue) : List StringId := q.pending.flatMap (·.allocations)

/-- The heap strings the queues refer to. -/
def Queues.held (v : Queues) : List StringId := (v.pEventQueues.map EventQueue.held).flatten

/-- Every string handed over is held or has been freed, once. -/
structure Queues.Owned (v : Queues) : Prop where
  valid : ∀ q ∈ v.pEventQueues, q.Valid
  owned : (v.freed ++ v.held).Perm v.given
  nodup : v.given.Nodup

/-- One list among others, and another in its place. -/
theorem flatten_set {ls : List (List StringId)} {i : Nat} {l : List StringId}
    (hi : ls[i]? = some l) :
    ∃ rest, ls.flatten.Perm (l ++ rest) ∧ ∀ l', (ls.set i l').flatten.Perm (l' ++ rest) := by
  have hlt : i < ls.length := (List.getElem?_eq_some_iff.1 hi).1
  have hl : ls[i] = l := (List.getElem?_eq_some_iff.1 hi).2
  refine ⟨(ls.take i).flatten ++ (ls.drop (i + 1)).flatten, ?_, ?_⟩
  · have hsplit : ls = ls.take i ++ l :: ls.drop (i + 1) := by
      rw [← hl, ← List.drop_eq_getElem_cons hlt, List.take_append_drop]
    conv_lhs => rw [hsplit]
    rw [List.flatten_append, List.flatten_cons]
    exact List.perm_append_comm_assoc _ _ _
  · intro l'
    rw [List.set_eq_take_append_cons_drop, if_pos hlt, List.flatten_append, List.flatten_cons]
    exact List.perm_append_comm_assoc _ _ _

theorem map_held {qs : List EventQueue} {i : Nat} {q : EventQueue} (hi : qs[i]? = some q) :
    (qs.map EventQueue.held)[i]? = some q.held := by
  rw [List.getElem?_map, hi]
  rfl

theorem valid_set {qs : List EventQueue} (h : ∀ q ∈ qs, q.Valid) {i : Nat} {q' : EventQueue}
    (hq' : q'.Valid) : ∀ q ∈ qs.set i q', q.Valid := by
  intro q hq
  rcases List.mem_or_eq_of_mem_set hq with hold | rfl
  · exact h q hold
  · exact hq'

/-- Events that leave queue `i` take their strings along. -/
theorem Queues.Owned.release {v : Queues} (hv : v.Owned) {i : Nat} {q q' : EventQueue}
    (hi : v.pEventQueues[i]? = some q) (hq' : q'.Valid) {es : List MidpEvent}
    (hes : q.pending = es ++ q'.pending) :
    Queues.Owned { v with pEventQueues := v.pEventQueues.set i q'
                          freed := v.freed ++ es.flatMap (·.allocations) } where
  valid := valid_set hv.valid hq'
  owned := by
    obtain ⟨rest, hbefore, hafter⟩ := flatten_set (map_held hi)
    have hheld : q.held = es.flatMap (·.allocations) ++ q'.held := by
      unfold EventQueue.held
      rw [hes, List.flatMap_append]
    refine List.Perm.trans ?_ hv.owned
    show (v.freed ++ es.flatMap (·.allocations) ++
      ((v.pEventQueues.set i q').map EventQueue.held).flatten).Perm (v.freed ++ v.held)
    rw [List.append_assoc, List.map_set]
    refine List.Perm.append_left _ ?_
    refine ((hafter q'.held).append_left _).trans ?_
    rw [← List.append_assoc, ← hheld]
    exact hbefore.symm
  nodup := hv.nodup

theorem Queues.read_owned {v : Queues} (hv : v.Owned) {i : Nat} {q : EventQueue}
    (hi : v.pEventQueues[i]? = some q) : (v.read i q).Owned := by
  have hq : q.Valid := hv.valid q (List.mem_of_getElem? hi)
  unfold Queues.read
  by_cases h0 : q.numEvents = 0
  · rw [EventQueue.getPending_none h0]
    exact hv.release hi hq (show q.pending = [] ++ q.pending from rfl)
  · obtain ⟨e, q', hget, hvalid, hpending, -⟩ := EventQueue.getPending_some hq h0
    rw [hget]
    have hone := hv.release hi hvalid (show q.pending = [e] ++ q'.pending from hpending)
    simpa using hone

theorem Queues.reset_owned {v : Queues} (hv : v.Owned) {i : Nat} {q : EventQueue}
    (hi : v.pEventQueues[i]? = some q) : (v.reset i q).Owned := by
  obtain ⟨hall, hvalid, h0, -⟩ := EventQueue.reset_spec (hv.valid q (List.mem_of_getElem? hi))
  have hnone : q.reset.2.pending = [] := List.eq_nil_of_length_eq_zero (by simpa using h0)
  unfold Queues.reset
  exact hv.release hi hvalid (by rw [hall, hnone, List.append_nil])

/-! ## Copies -/

/-- How many events queue `k` has room for. -/
def Queues.room (v : Queues) (k : Nat) : Nat :=
  match v.pEventQueues[k]? with
  | none => 0
  | some q => MAX_EVENTS - q.numEvents

/-- How many of the copies for the isolates `ids` queue `k` stores: those meant for it, as far as
there is room. -/
def Queues.copies (v : Queues) (ids : List Int) (k : Nat) : Nat :=
  min (ids.countP fun i => v.indexOf i = k) (v.room k)

/-- The isolates that `StoreMIDPEventInVmThread` goes through. -/
def isolatesOf (maxIsolates : Nat) (isolateId : Int) : List Int :=
  if isolateId ≠ -1 then [isolateId] else (List.range maxIsolates).map fun i : Nat => (i : Int)

theorem Queues.store_eq (maxIsolates : Nat) (v : Queues) (e : MidpEvent) (isolateId : Int) :
    v.store maxIsolates e isolateId = (isolatesOf maxIsolates isolateId).foldl (Queues.storeImp e)
      { v with given := v.given ++ e.allocations } := by
  unfold Queues.store isolatesOf
  simp only
  split
  · rfl
  · rw [List.foldl_map]

/-- `v'` has the queues of `v`, with `added k` more copies of `e` at the end of queue `k`. -/
structure Queues.Adds (e : MidpEvent) (v v' : Queues) (added : Nat → Nat) : Prop where
  length : v'.pEventQueues.length = v.pEventQueues.length
  given : v'.given = v.given
  freed : v'.freed = v.freed
  queue : ∀ k q, v.pEventQueues[k]? = some q → ∃ q', v'.pEventQueues[k]? = some q' ∧ q'.Valid ∧
    q'.pending = q.pending ++ List.replicate (added k) e

theorem Queues.storeImp_adds (e : MidpEvent) {v : Queues} (hv : ∀ q ∈ v.pEventQueues, q.Valid)
    (isolateId : Int) :
    v.Adds e (v.storeImp e isolateId)
      (fun k => min (if v.indexOf isolateId = k then 1 else 0) (v.room k)) := by
  have hsame : ∀ k q, v.pEventQueues[k]? = some q →
      min (if v.indexOf isolateId = k then 1 else 0) (v.room k) = 0 →
      ∃ q', v.pEventQueues[k]? = some q' ∧ q'.Valid ∧ q'.pending = q.pending ++
        List.replicate (min (if v.indexOf isolateId = k then 1 else 0) (v.room k)) e := by
    intro k q hk h0
    rw [h0]
    exact ⟨q, hk, hv q (List.mem_of_getElem? hk), by simp⟩
  unfold Queues.storeImp
  split
  case h_1 hnone =>
    refine ⟨rfl, rfl, rfl, fun k q hk => hsame k q hk ?_⟩
    rw [if_neg (by rintro rfl; rw [hnone] at hk; cases hk)]
    omega
  case h_2 q hq =>
    have hvalid := hv q (List.mem_of_getElem? hq)
    split
    case isTrue hroom =>
      refine ⟨by simp, rfl, rfl, fun k q₁ hk => ?_⟩
      by_cases hik : v.indexOf isolateId = k
      · subst hik
        obtain rfl : q = q₁ := Option.some.inj (hq.symm.trans hk)
        obtain ⟨hput, hpending⟩ := EventQueue.put_valid hvalid e hroom
        have hone : min (if v.indexOf isolateId = v.indexOf isolateId then 1 else 0)
            (v.room (v.indexOf isolateId)) = 1 := by
          have hle := hvalid.count_le
          simp only [Queues.room, hq, if_pos]
          omega
        rw [hone]
        exact ⟨q.put e, List.getElem?_set_self (List.getElem?_eq_some_iff.1 hq).1, hput, hpending⟩
      · obtain ⟨q', hq', h⟩ := hsame k q₁ hk (by rw [if_neg hik]; omega)
        exact ⟨q', by rw [List.getElem?_set_ne hik]; exact hq', h⟩
    case isFalse hfull =>
      refine ⟨rfl, rfl, rfl, fun k q₁ hk => hsame k q₁ hk ?_⟩
      split
      · rename_i hik
        subst hik
        simp only [Queues.room, hq]
        omega
      · omega

theorem Queues.Adds.valid {e : MidpEvent} {v v' : Queues} {added : Nat → Nat}
    (h : v.Adds e v' added) : ∀ q ∈ v'.pEventQueues, q.Valid := by
  intro q' hq'
  obtain ⟨k, hk⟩ := List.mem_iff_getElem?.1 hq'
  have hlt : k < v.pEventQueues.length := by
    rw [← h.length]
    exact (List.getElem?_eq_some_iff.1 hk).1
  obtain ⟨q'', hq'', hvalid, -⟩ := h.queue k _ (List.getElem?_eq_getElem hlt)
  obtain rfl : q' = q'' := Option.some.inj (hk.symm.trans hq'')
  exact hvalid

/-- The loop over the isolates stores in each queue the copies there is room for. -/
theorem Queues.storeAll_adds (e : MidpEvent) :
    ∀ (ids : List Int) {v : Queues}, (∀ q ∈ v.pEventQueues, q.Valid) →
      v.Adds e (ids.foldl (Queues.storeImp e) v) (v.copies ids)
  | [], v, hv => by
    refine ⟨rfl, rfl, rfl, fun k q hk => ⟨q, hk, hv q (List.mem_of_getElem? hk), ?_⟩⟩
    simp [Queues.copies]
  | i :: ids, v, hv => by
    have hone := v.storeImp_adds e hv i
    have hrest := Queues.storeAll_adds e ids hone.valid
    refine ⟨hrest.length.trans hone.length, hrest.given.trans hone.given,
      hrest.freed.trans hone.freed, fun k q hk => ?_⟩
    obtain ⟨q₁, hk₁, hvalid₁, hpending₁⟩ := hone.queue k q hk
    obtain ⟨q₂, hk₂, hvalid₂, hpending₂⟩ := hrest.queue k q₁ hk₁
    refine ⟨q₂, hk₂, hvalid₂, ?_⟩
    rw [hpending₂, hpending₁, List.append_assoc, List.replicate_append_replicate]
    congr 2
    -- the first copy takes its place from the room of the others
    have hnum : q₁.numEvents = q.numEvents + min (if v.indexOf i = k then 1 else 0) (v.room k) := by
      have := congrArg List.length hpending₁
      simpa using this
    have hindex : ∀ j, (v.storeImp e i).indexOf j = v.indexOf j := by
      intro j
      unfold Queues.indexOf
      rw [hone.length]
    have hle := hvalid₁.count_le
    simp only [Queues.copies, Queues.room, hk, hk₁, hindex, List.countP_cons] at hnum ⊢
    split at hnum
    · rename_i hik
      simp only [hik, decide_true, if_true] at hnum ⊢
      lia
    · rename_i hik
      simp only [hik, decide_false, if_false] at hnum ⊢
      simp only [Bool.false_eq_true, if_false]
      lia

/-! ## Stores -/

/-- The strings of the event get one owner: it has none, or one copy of it is stored. -/
def Queues.OneOwner (v : Queues) (e : MidpEvent) (ids : List Int) : Prop :=
  e.allocations = [] ∨ ∃ k < v.pEventQueues.length, v.copies ids k = 1 ∧
    ∀ j < v.pEventQueues.length, j ≠ k → v.copies ids j = 0

instance (v : Queues) (e : MidpEvent) (ids : List Int) : Decidable (v.OneOwner e ids) :=
  inferInstanceAs (Decidable (_ ∨ ∃ k < _, _))

/-- Each queue with room gets one copy. -/
def Queues.EachOnce (v : Queues) (ids : List Int) : Prop :=
  ∀ k < v.pEventQueues.length, v.room k ≠ 0 → v.copies ids k = 1

instance (v : Queues) (ids : List Int) : Decidable (v.EachOnce ids) :=
  inferInstanceAs (Decidable (∀ k < _, _))

/-- **The condition on a call**: a store with heap strings stores one copy, and a broadcast one in
each queue with room. -/
def Queues.Distributes (maxIsolates : Nat) (v : Queues) : QueueOp → Prop
  | .store e isolateId => v.OneOwner e (isolatesOf maxIsolates isolateId) ∧
      (isolateId = -1 → v.EachOnce (isolatesOf maxIsolates isolateId))
  | _ => True

instance (maxIsolates : Nat) (v : Queues) : (op : QueueOp) → Decidable (v.Distributes maxIsolates op)
  | .store .. => inferInstanceAs (Decidable (_ ∧ (_ → _)))
  | .read _ | .reset _ => inferInstanceAs (Decidable True)

theorem Queues.Adds.held_none {e : MidpEvent} {v v' : Queues} {added : Nat → Nat}
    (h : v.Adds e v' added) (he : e.allocations = []) : v'.held = v.held := by
  unfold Queues.held
  congr 1
  apply List.ext_getElem?
  intro k
  rw [List.getElem?_map, List.getElem?_map]
  cases hk : v.pEventQueues[k]? with
  | none =>
    have hlen := List.getElem?_eq_none_iff.1 hk
    rw [List.getElem?_eq_none (by rw [h.length]; exact hlen)]
  | some q =>
    obtain ⟨q', hq', -, hpending⟩ := h.queue k q hk
    rw [hq']
    simp [EventQueue.held, hpending, he]

theorem Queues.Adds.held_one {e : MidpEvent} {v v' : Queues} {added : Nat → Nat}
    (h : v.Adds e v' added) {k : Nat} (hk : k < v.pEventQueues.length) (hone : added k = 1)
    (hnone : ∀ j < v.pEventQueues.length, j ≠ k → added j = 0) :
    v'.held.Perm (v.held ++ e.allocations) := by
  obtain ⟨q, hq⟩ : ∃ q, v.pEventQueues[k]? = some q := ⟨_, List.getElem?_eq_getElem hk⟩
  have hmap : v'.pEventQueues.map EventQueue.held =
      (v.pEventQueues.map EventQueue.held).set k (q.held ++ e.allocations) := by
    apply List.ext_getElem?
    intro j
    rw [List.getElem?_map]
    rcases eq_or_ne k j with rfl | hne
    · obtain ⟨q', hq', -, hpending⟩ := h.queue k q hq
      rw [List.getElem?_set_self (by simpa using hk), hq']
      simp [EventQueue.held, hpending, hone]
    · rw [List.getElem?_set_ne hne, List.getElem?_map]
      cases hj : v.pEventQueues[j]? with
      | none =>
        have hlen := List.getElem?_eq_none_iff.1 hj
        rw [List.getElem?_eq_none (by rw [h.length]; exact hlen)]
      | some qj =>
        obtain ⟨q', hq', -, hpending⟩ := h.queue j qj hj
        have h0 := hnone j (List.getElem?_eq_some_iff.1 hj).1 (Ne.symm hne)
        rw [hq']
        simp [EventQueue.held, hpending, h0]
  obtain ⟨rest, hbefore, hafter⟩ := flatten_set (map_held hq)
  unfold Queues.held
  rw [hmap]
  refine (hafter _).trans ?_
  rw [List.append_assoc]
  refine (List.perm_append_comm.append_left q.held).trans ?_
  rw [← List.append_assoc]
  exact hbefore.symm.append_right _

theorem Queues.store_owned {maxIsolates : Nat} {v : Queues} (hv : v.Owned) {e : MidpEvent}
    {isolateId : Int} (hfresh : v.Fresh e)
    (hone : v.OneOwner e (isolatesOf maxIsolates isolateId)) :
    (v.store maxIsolates e isolateId).Owned := by
  rw [Queues.store_eq]
  have hadds := Queues.storeAll_adds e (isolatesOf maxIsolates isolateId)
    (v := { v with given := v.given ++ e.allocations }) hv.valid
  generalize (isolatesOf maxIsolates isolateId).foldl (Queues.storeImp e)
    { v with given := v.given ++ e.allocations } = v' at hadds
  have hheld : v'.held.Perm (v.held ++ e.allocations) := by
    rcases hone with hnil | ⟨k, hk, h1, h0⟩
    · rw [hadds.held_none hnil, hnil]
      show v.held.Perm (v.held ++ [])
      rw [List.append_nil]
    · exact hadds.held_one hk h1 h0
  exact
    { valid := hadds.valid
      owned := by
        rw [hadds.given, hadds.freed]
        show (v.freed ++ v'.held).Perm (v.given ++ e.allocations)
        refine (hheld.append_left _).trans ?_
        rw [← List.append_assoc]
        exact hv.owned.append_right _
      nodup := by
        rw [hadds.given]
        refine List.nodup_append.2 ⟨hv.nodup, hfresh.1, ?_⟩
        rintro a ha b hb rfl
        exact hfresh.2 a hb ha }

theorem Queues.step_owned {maxIsolates : Nat} {v v' : Queues} {op : QueueOp} (hv : v.Owned)
    (hok : v.Distributes maxIsolates op) (h : v.Step maxIsolates op v') : v'.Owned := by
  cases op with
  | store e isolateId =>
    simp only [Queues.Step, Queues.step] at h
    split at h
    · cases h
      exact Queues.store_owned hv ‹_› hok.1
    · cases h
  | read i =>
    simp only [Queues.Step, Queues.step] at h
    split at h
    · cases h
      exact Queues.read_owned hv ‹_›
    · cases h
  | reset i =>
    simp only [Queues.Step, Queues.step] at h
    split at h
    · cases h
      exact Queues.reset_owned hv ‹_›
    · cases h

theorem Queues.new_owned (n : Nat) : (Queues.new n).Owned where
  valid := by
    intro q hq
    rw [List.eq_of_mem_replicate hq]
    exact EventQueue.new_valid
  owned := by
    have hnone : (Queues.new n).held = [] := by
      unfold Queues.held Queues.new
      rw [List.map_replicate, List.flatten_eq_nil_iff]
      intro l hl
      rw [List.eq_of_mem_replicate hl]
      rfl
    rw [hnone]
    exact List.Perm.refl _
  nodup := List.nodup_nil

/-! ## Runs -/

/-- **Every string has one owner, and a broadcast reaches every queue**: in every run in which each
store with heap strings stores one copy and each broadcast one in every queue with room, a string
handed over is held by one event of one queue, or was freed once; and the next such broadcast puts
the event once behind the events of each queue with room, and leaves the others alone. -/
theorem Queues.owned_of_run {maxIsolates n : Nat} {ops : List QueueOp} {v : Queues}
    (hrun : Lts.Run (Lts.Guarded (Queues.Step maxIsolates) (Queues.Distributes maxIsolates))
      (Queues.new n) ops v) :
    (∀ id ∈ v.given, v.freed.count id + v.held.count id = 1) ∧
    ∀ e v', Lts.Guarded (Queues.Step maxIsolates) (Queues.Distributes maxIsolates) v
        (.store e (-1)) v' →
      ∀ (k : Nat) (q : EventQueue), v.pEventQueues[k]? = some q →
        ∃ q' : EventQueue, v'.pEventQueues[k]? = some q' ∧ q'.pending = q.pending ++
          if q.numEvents = MAX_EVENTS then [] else [e] := by
  have hv : v.Owned := hrun.invariant (I := Queues.Owned)
    (fun s op _ hs h => Queues.step_owned hs h.1 h.2) (Queues.new_owned n)
  refine ⟨fun id hid => ?_, ?_⟩
  · rw [← List.count_append, hv.owned.count_eq]
    exact List.count_eq_one_of_mem hv.nodup hid
  · rintro e v' ⟨⟨-, honce⟩, hstep⟩ k q hk
    simp only [Queues.Step, Queues.step] at hstep
    split at hstep <;> cases hstep
    rw [Queues.store_eq]
    have hadds := Queues.storeAll_adds e (isolatesOf maxIsolates (-1))
      (v := { v with given := v.given ++ e.allocations }) hv.valid
    obtain ⟨q', hq', -, hpending⟩ := hadds.queue k q hk
    refine ⟨q', hq', ?_⟩
    rw [hpending]
    congr 1
    have hle := (hv.valid q (List.mem_of_getElem? hk)).count_le
    have hcopies : Queues.copies { v with given := v.given ++ e.allocations }
        (isolatesOf maxIsolates (-1)) k = v.copies (isolatesOf maxIsolates (-1)) k := rfl
    rw [hcopies]
    split
    case isTrue hfull =>
      have h0 : v.copies (isolatesOf maxIsolates (-1)) k = 0 := by
        simp only [Queues.copies, Queues.room, hk]
        omega
      rw [h0]
      rfl
    case isFalse hroom =>
      rw [honce rfl k (List.getElem?_eq_some_iff.1 hk).1 (by
        simp only [Queues.room, hk]
        omega)]
      rfl

/-- A key event with a string, broadcast to one isolate and read there. -/
theorem Queues.owned_of_run_broadcast :
    ∃ v, Lts.Run (Lts.Guarded (Queues.Step 1) (Queues.Distributes 1)) (Queues.new 1)
        [.store { type := 1, stringParam1 := .heap 7 } (-1), .read 0] v ∧
      v.given = [7] ∧ v.freed.count 7 + v.held.count 7 = 1 := by
  obtain ⟨v, hrun, hgiven⟩ := Lts.Run.exists_of_exec (Queues.step 1)
    (fun v op => decide (v.Distributes 1 op)) (fun v => v.given = [7]) (Queues.new 1)
    [.store { type := 1, stringParam1 := .heap 7 } (-1), .read 0] (by decide +kernel)
  have hrun : Lts.Run (Lts.Guarded (Queues.Step 1) (Queues.Distributes 1)) (Queues.new 1) _ v :=
    hrun.mono fun _ _ _ h => ⟨of_decide_eq_true h.1, h.2⟩
  exact ⟨v, hrun, hgiven, (Queues.owned_of_run hrun).1 7 (by rw [hgiven]; decide)⟩

/-- Two isolates that read a broadcast event free its string twice; and the string of an event that
a full queue drops is neither held nor freed. -/
theorem Queues.strings_misowned :
    (∃ v, Lts.Run (Queues.Step 2) (Queues.new 2)
        [.store { type := 1, stringParam1 := .heap 7 } (-1), .read 0, .read 1] v ∧
      v.freed.count 7 = 2) ∧
    ∃ v, Lts.Run (Queues.Step 1) (Queues.new 1)
        (List.replicate 20 (.store {} 0) ++ [.store { type := 1, stringParam1 := .heap 7 } 0]) v ∧
      7 ∈ v.given ∧ v.freed.count 7 + v.held.count 7 = 0 := by
  constructor
  · obtain ⟨v, hrun, htwice⟩ := Lts.Run.exists_of_exec (Queues.step 2) (fun _ _ => true)
      (fun v => v.freed.count 7 = 2) (Queues.new 2)
      [.store { type := 1, stringParam1 := .heap 7 } (-1), .read 0, .read 1] (by decide +kernel)
    exact ⟨v, hrun.mono fun _ _ _ h => h.2, htwice⟩
  · obtain ⟨v, hrun, hlost⟩ := Lts.Run.exists_of_exec (Queues.step 1) (fun _ _ => true)
      (fun v => 7 ∈ v.given ∧ v.freed.count 7 + v.held.count 7 = 0) (Queues.new 1)
      (List.replicate 20 (.store {} 0) ++ [.store { type := 1, stringParam1 := .heap 7 } 0])
      (by decide +kernel)
    exact ⟨v, hrun.mono fun _ _ _ h => h.2, hlost⟩

end FroggyKVM.Events
