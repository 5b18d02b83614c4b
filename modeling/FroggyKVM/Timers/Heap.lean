/-
# FroggyKVM.Timers.Heap — `TaskQueue` is a priority queue.

The array holds its tasks at `1..size` and `null` everywhere else, so exchanging two of them keeps
the tasks, and sifting restores the heap order that the key of one task may break.  A task has one
`nextExecutionTime`, and `sched` adds only tasks that were never on a queue.
-/
import FroggyKVM.Lib.Heap
import FroggyKVM.Lib.Lts
import FroggyKVM.Timers.Queue

namespace FroggyKVM.Timers

open Function Heap

/-! ## Tasks and keys of an array -/

/-- The next execution time at an index; any number where there is no task. -/
def key (time : TaskId → Int) (q : List (Option TaskId)) (i : Nat) : Int :=
  match q[i]? with
  | some (some t) => time t
  | _ => 0

/-- The tasks are at `1..size`, and there is nothing else. -/
structure Packed (q : List (Option TaskId)) (size : Nat) : Prop extends Filled q size where
  outside : ∀ i t, q[i]? = some (some t) → 1 ≤ i ∧ i ≤ size

theorem taskAt_eq {q : List (Option TaskId)} {i : Nat} {t : TaskId} (h : q[i]? = some (some t)) :
    taskAt q i = .ok t := by
  unfold taskAt
  rw [h]

theorem taskAt_yields {q : List (Option TaskId)} {i : Nat} {t : TaskId}
    (h : q[i]? = some (some t)) : Succeeds (taskAt q i) (· = t) := ⟨t, taskAt_eq h, rfl⟩

theorem key_eq {time : TaskId → Int} {q : List (Option TaskId)} {i : Nat} {t : TaskId}
    (h : q[i]? = some (some t)) : key time q i = time t := by
  unfold key
  rw [h]

theorem exchange_getElem? {q : List (Option TaskId)} {j k : Nat} {a b : TaskId}
    (hj : q[j]? = some (some a)) (hk : q[k]? = some (some b)) (i : Nat) :
    (exchange q j k a b)[i]? = if i = k then q[j]? else if i = j then q[k]? else q[i]? := by
  have hjlt := (List.getElem?_eq_some_iff.1 hj).1
  have hklt := (List.getElem?_eq_some_iff.1 hk).1
  unfold exchange
  rw [List.getElem?_set, List.getElem?_set, List.length_set]
  by_cases hik : i = k
  · rw [if_pos hik.symm, if_pos hik, if_pos hklt, hj]
  · rw [if_neg (Ne.symm hik), if_neg hik]
    by_cases hij : i = j
    · rw [if_pos hij.symm, if_pos hij, if_pos hjlt, hk]
    · rw [if_neg (Ne.symm hij), if_neg hij]

theorem key_exchange {time : TaskId → Int} {q : List (Option TaskId)} {j k : Nat} {a b : TaskId}
    (hj : q[j]? = some (some a)) (hk : q[k]? = some (some b)) :
    key time (exchange q j k a b) = swapAt (key time q) j k := by
  funext i
  unfold key swapAt
  rw [exchange_getElem? hj hk]
  split_ifs <;> rfl

theorem exchange_perm {q : List (Option TaskId)} {j k : Nat} {a b : TaskId}
    (hj : q[j]? = some (some a)) (hk : q[k]? = some (some b)) : (exchange q j k a b).Perm q := by
  obtain ⟨hjlt, ha⟩ := List.getElem?_eq_some_iff.1 hj
  obtain ⟨hklt, hb⟩ := List.getElem?_eq_some_iff.1 hk
  have hperm := List.set_set_perm hjlt hklt
  rw [ha, hb] at hperm
  exact hperm

theorem Packed.exchange {q : List (Option TaskId)} {size j k : Nat} {a b : TaskId}
    (h : Packed q size) (hj : q[j]? = some (some a)) (hk : q[k]? = some (some b)) :
    Packed (exchange q j k a b) size where
  toFilled := h.toFilled.exchange j k a b
  outside i t hi := by
    rw [exchange_getElem? hj hk] at hi
    split at hi
    · rename_i hik
      exact hik ▸ h.outside k b hk
    · split at hi
      · rename_i hij
        exact hij ▸ h.outside j a hj
      · exact h.outside i t hi

/-- What sifting makes of an array. -/
structure Sorted (time : TaskId → Int) (size : Nat) (q q' : List (Option TaskId)) : Prop where
  packed : Packed q' size
  perm : q'.Perm q
  ordered : Ordered size (key time q')

theorem Sorted.exchange {time : TaskId → Int} {size j k : Nat} {q q' : List (Option TaskId)}
    {a b : TaskId} (h : Sorted time size (exchange q j k a b) q') (hj : q[j]? = some (some a))
    (hk : q[k]? = some (some b)) : Sorted time size q q' :=
  ⟨h.packed, h.perm.trans (exchange_perm hj hk), h.ordered⟩

/-! ## The two loops -/

/-- **`fixUp` restores the order** around the task at `k` and its parent. -/
theorem fixUp_sorts (time : TaskId → Int) {size : Nat} :
    ∀ (fuel k : Nat) {q : List (Option TaskId)}, Packed q size → Rising size k (key time q) →
      1 ≤ k → k ≤ size → k ≤ fuel → Succeeds (fixUp time fuel k q) (Sorted time size q)
  | 0, k, _, _, _, h1, _, hfuel => by omega
  | fuel + 1, k, q, hq, hrising, h1, hk, hfuel => by
    unfold fixUp
    split
    case isTrue hgt =>
      obtain ⟨a, ha⟩ := hq.entry (k / 2) (by omega) (by omega)
      obtain ⟨b, hb⟩ := hq.entry k h1 hk
      refine .bind (taskAt_yields ha) ?_
      rintro _ rfl
      refine .bind (taskAt_yields hb) ?_
      rintro _ rfl
      split
      case isTrue hle =>
        refine .pure ⟨hq, .refl _, hrising.ordered fun _ => ?_⟩
        rw [key_eq ha, key_eq hb]
        exact hle
      case isFalse hnot =>
        have hlt : key time q k < key time q (k / 2) := by
          rw [key_eq ha, key_eq hb]
          exact Int.not_le.1 hnot
        have hswap := hrising.swap hgt hk hlt
        rw [← key_exchange ha hb] at hswap
        have hsift := fixUp_sorts time fuel (k / 2) (hq.exchange ha hb) hswap (by omega) (by omega)
          (by omega)
        exact hsift.mono fun q' h => h.exchange ha hb
    case isFalse hle => exact .ok ⟨hq, .refl _, hrising.ordered fun h2 => absurd h2 hle⟩

theorem smallestKid_least (time : TaskId → Int) {size k : Nat} {q : List (Option TaskId)}
    (hq : Filled q size) (h1 : 1 ≤ k) (hk : 2 * k ≤ size) :
    Succeeds (smallestKid time size q (2 * k)) fun j => j / 2 = k ∧ j ≤ size ∧
      ∀ c, 2 ≤ c → c ≤ size → c / 2 = k → key time q j ≤ key time q c := by
  obtain ⟨a, ha⟩ := hq.entry (2 * k) (by omega) hk
  unfold smallestKid
  split
  case isTrue hlt =>
    obtain ⟨b, hb⟩ := hq.entry (2 * k + 1) (by omega) hlt
    refine .bind (taskAt_yields ha) ?_
    rintro _ rfl
    refine .bind (taskAt_yields hb) ?_
    rintro _ rfl
    refine .pure ?_
    split
    case isTrue hgt =>
      refine ⟨by omega, hlt, fun c _ _ hc => ?_⟩
      rcases show c = 2 * k ∨ c = 2 * k + 1 by omega with rfl | rfl
      · rw [key_eq ha, key_eq hb]
        exact hgt.le
      · exact Int.le_refl _
    case isFalse hle =>
      refine ⟨by omega, hk, fun c _ _ hc => ?_⟩
      rcases show c = 2 * k ∨ c = 2 * k + 1 by omega with rfl | rfl
      · exact Int.le_refl _
      · rw [key_eq ha, key_eq hb]
        exact Int.not_lt.1 hle
  case isFalse hge =>
    refine .ok ⟨by omega, hk, fun c _ hc hpar => ?_⟩
    obtain rfl : c = 2 * k := by omega
    exact Int.le_refl _

/-- **`fixDown` restores the order** around the task at `k` and its kids. -/
theorem fixDown_sorts (time : TaskId → Int) {size : Nat} :
    ∀ (fuel k : Nat) {q : List (Option TaskId)}, Packed q size → Sinking size k (key time q) →
      1 ≤ k → 1 ≤ fuel → size < k + fuel →
      Succeeds (fixDown time size fuel k q) (Sorted time size q)
  | 0, _, _, _, _, _, h, _ => by omega
  | fuel + 1, k, q, hq, hsinking, h1, _, hfuel => by
    unfold fixDown
    split
    case isTrue hle =>
      refine .bind (smallestKid_least time hq.toFilled h1 hle) fun j hj => ?_
      obtain ⟨hjk, hjsize, hmin⟩ := hj
      obtain ⟨a, ha⟩ := hq.entry k h1 (by omega)
      obtain ⟨b, hb⟩ := hq.entry j (by omega) hjsize
      refine .bind (taskAt_yields ha) ?_
      rintro _ rfl
      refine .bind (taskAt_yields hb) ?_
      rintro _ rfl
      split
      case isTrue hab =>
        refine .pure ⟨hq, .refl _, hsinking.ordered fun c hc2 hc hpar => ?_⟩
        refine Int.le_trans ?_ (hmin c hc2 hc hpar)
        rw [key_eq ha, key_eq hb]
        exact hab
      case isFalse hnot =>
        have hlt : key time q j < key time q k := by
          rw [key_eq ha, key_eq hb]
          exact Int.not_le.1 hnot
        have hswap := hsinking.swap h1 hjk hjsize hmin hlt
        rw [← key_exchange ha hb] at hswap
        have hsift := fixDown_sorts time fuel j (hq.exchange ha hb) hswap (by omega) (by omega)
          (by omega)
        exact hsift.mono fun q' h => h.exchange ha hb
    case isFalse hgt =>
      exact .ok ⟨hq, .refl _, hsinking.ordered fun c _ hc hpar => by omega⟩

/-! ## The operations -/

/-- The tasks of `queue[1..size]`. -/
def TaskQueue.tasks (Q : TaskQueue) : Multiset TaskId := ((Q.queue.drop 1).take Q.size).reduceOption

/-- **The queue between operations**: the tasks at `1..size`, in heap order. -/
structure TaskQueue.IsHeap (time : TaskId → Int) (Q : TaskQueue) : Prop where
  packed : Packed Q.queue Q.size
  length : 1 < Q.queue.length
  ordered : Ordered Q.size (key time Q.queue)

theorem reduceOption_eq_nil {q : List (Option TaskId)}
    (h : ∀ (i : Nat) (t : TaskId), q[i]? ≠ some (some t)) :
    q.reduceOption = [] := by
  refine List.eq_nil_iff_forall_not_mem.2 fun t ht => ?_
  obtain ⟨i, hi⟩ := List.mem_iff_getElem?.1 (List.reduceOption_mem_iff.1 ht)
  exact h i t hi

/-- Outside `1..size` there is nothing to find. -/
theorem TaskQueue.tasks_eq {Q : TaskQueue} (h : Packed Q.queue Q.size) :
    Q.tasks = (Q.queue.reduceOption : Multiset TaskId) := by
  have hsplit : Q.queue =
      Q.queue.take 1 ++ ((Q.queue.drop 1).take Q.size ++ Q.queue.drop (1 + Q.size)) := by
    rw [← List.drop_drop, List.take_append_drop, List.take_append_drop]
  have hfront : (Q.queue.take 1).reduceOption = [] := by
    refine reduceOption_eq_nil fun i t hi => ?_
    have hlt := (List.getElem?_eq_some_iff.1 hi).1
    rw [List.length_take] at hlt
    rw [List.getElem?_take_of_lt (by omega)] at hi
    have := h.outside i t hi
    omega
  have hback : (Q.queue.drop (1 + Q.size)).reduceOption = [] := by
    refine reduceOption_eq_nil fun i t hi => ?_
    rw [List.getElem?_drop] at hi
    have := h.outside _ t hi
    omega
  unfold TaskQueue.tasks
  conv_rhs => rw [hsplit]
  rw [List.reduceOption_append, List.reduceOption_append, hfront, hback, List.nil_append,
    List.append_nil]

theorem reduceOption_set_some {t : TaskId} :
    ∀ {q : List (Option TaskId)} {i : Nat}, q[i]? = some none →
      (q.set i (some t)).reduceOption.Perm (t :: q.reduceOption)
  | [], _, h => nomatch h
  | x :: q, 0, h => by
    obtain rfl : x = none := Option.some.inj h
    exact .refl _
  | none :: q, i + 1, h => reduceOption_set_some (q := q) h
  | some x :: q, i + 1, h =>
    ((reduceOption_set_some (q := q) h).cons x).trans (.swap t x q.reduceOption)

theorem reduceOption_set_none {t : TaskId} :
    ∀ {q : List (Option TaskId)} {i : Nat}, q[i]? = some (some t) →
      q.reduceOption.Perm (t :: (q.set i none).reduceOption)
  | [], _, h => nomatch h
  | x :: q, 0, h => by
    obtain rfl : x = some t := Option.some.inj h
    exact .refl _
  | none :: q, i + 1, h => reduceOption_set_none (q := q) h
  | some x :: q, i + 1, h =>
    ((reduceOption_set_none (q := q) h).cons x).trans (.swap t x (q.set i none).reduceOption)

theorem mem_reduceOption_of_getElem? {q : List (Option TaskId)} {i : Nat} {t : TaskId}
    (h : q[i]? = some (some t)) : t ∈ q.reduceOption :=
  List.reduceOption_mem_iff.2 (List.mem_of_getElem? h)

/-- A task that is on the queue once is at one index. -/
theorem index_unique {q : List (Option TaskId)} (hnodup : q.reduceOption.Nodup) {i j : Nat}
    {t : TaskId} (hi : q[i]? = some (some t)) (hj : q[j]? = some (some t)) : i = j := by
  by_contra hne
  have hnotin := (List.nodup_cons.1 ((reduceOption_set_none hi).nodup_iff.1 hnodup)).1
  refine hnotin (mem_reduceOption_of_getElem? (i := j) ?_)
  rw [List.getElem?_set_ne hne]
  exact hj

theorem TaskQueue.new_isHeap (time : TaskId → Int) : TaskQueue.IsHeap time {} := by
  refine ⟨⟨TaskQueue.new_filled.1, fun i t h => ?_⟩, by decide, fun c _ hc => ?_⟩
  · have hmem : some t ∈ List.replicate 4 (none : Option TaskId) := List.mem_of_getElem? h
    exact absurd (List.eq_of_mem_replicate hmem) (by nofun)
  · replace hc : c ≤ 0 := hc
    omega

/-- The tasks of `Q'` are `tasks`, in heap order. -/
def TaskQueue.Holds (time : TaskId → Int) (tasks : Multiset TaskId) (Q' : TaskQueue) : Prop :=
  Q'.IsHeap time ∧ Q'.tasks = tasks

theorem TaskQueue.add_holds (time : TaskId → Int) (t : TaskId) {Q : TaskQueue}
    (h : Q.IsHeap time) : Succeeds (Q.add time t) (TaskQueue.Holds time (t ::ₘ Q.tasks)) := by
  obtain ⟨hpacked, hlength, hordered⟩ := h
  have hroom := hpacked.room
  unfold TaskQueue.add
  simp only
  generalize hgrow : (if Q.size + 1 = Q.queue.length then
      Q.queue.take (Q.size + 1) ++ List.replicate (2 * Q.queue.length - (Q.size + 1)) none
    else Q.queue) = q
  -- the grown array is the old one and nothing else
  obtain ⟨n, hq, hlen⟩ : ∃ n, q = Q.queue ++ List.replicate n none ∧ Q.size + 1 < q.length := by
    rw [← hgrow]
    split
    case isTrue hfull =>
      refine ⟨2 * Q.queue.length - (Q.size + 1), ?_, ?_⟩
      · rw [List.take_of_length_le (Nat.le_of_eq hfull.symm)]
      · rw [List.length_append, List.length_take, List.length_replicate]
        omega
    case isFalse hnot =>
      exact ⟨0, (List.append_nil _).symm, by omega⟩
  have hold (i : Nat) (hi : i ≤ Q.size) : q[i]? = Q.queue[i]? := by
    rw [hq, List.getElem?_append_left (by omega)]
  have htasks (i : Nat) (t : TaskId) (hi : q[i]? = some (some t)) : Q.queue[i]? = some (some t) := by
    rw [hq, List.getElem?_append] at hi
    split at hi
    · exact hi
    · exact absurd (List.eq_of_mem_replicate (List.mem_of_getElem? hi)) (by nofun)
  have hfree : q[Q.size + 1]? = some none := by
    rw [List.getElem?_eq_getElem hlen]
    cases hx : q[Q.size + 1] with
    | none => rfl
    | some x =>
      have hx' : q[Q.size + 1]? = some (some x) := by rw [List.getElem?_eq_getElem hlen, hx]
      have := hpacked.outside _ x (htasks _ x hx')
      omega
  rw [if_neg (by omega)]
  have hpacked' : Packed (q.set (Q.size + 1) (some t)) (Q.size + 1) := by
    refine ⟨⟨by rw [List.length_set]; exact hlen, fun i h1 hi => ?_⟩, fun i u hi => ?_⟩
    · rcases eq_or_ne (Q.size + 1) i with rfl | hne
      · exact ⟨t, List.getElem?_set_self hlen⟩
      · rw [List.getElem?_set_ne hne, hold i (by omega)]
        exact hpacked.entry i h1 (by omega)
    · rcases eq_or_ne (Q.size + 1) i with rfl | hne
      · omega
      · rw [List.getElem?_set_ne hne] at hi
        have := hpacked.outside i u (htasks i u hi)
        omega
  have hrising : Rising (Q.size + 1) (Q.size + 1) (key time (q.set (Q.size + 1) (some t))) := by
    refine hordered.rising fun i h1 hi => ?_
    unfold key
    rw [List.getElem?_set_ne (by omega), hold i hi]
  refine .bind (fixUp_sorts time _ _ hpacked' hrising (by omega) (Nat.le_refl _) (Nat.le_refl _))
    fun q' h => .pure ?_
  have hroom' := h.packed.room
  refine ⟨⟨h.packed, by show 1 < q'.length; omega, h.ordered⟩, ?_⟩
  rw [TaskQueue.tasks_eq h.packed, TaskQueue.tasks_eq hpacked, Multiset.cons_coe]
  refine Multiset.coe_eq_coe.2 (((h.perm.filterMap _).trans (reduceOption_set_some hfree)).trans ?_)
  rw [hq, List.reduceOption_append, List.reduceOption_replicate_none, List.append_nil]

theorem TaskQueue.getMin_least {time : TaskId → Int} {Q : TaskQueue} (h : Q.IsHeap time)
    (hne : Q.isEmpty = false) :
    ∃ t, Q.getMin = .ok t ∧ Q.queue[1]? = some (some t) ∧ t ∈ Q.tasks ∧
      ∀ u ∈ Q.tasks, time t ≤ time u := by
  have hsize : Q.size ≠ 0 := by simpa [TaskQueue.isEmpty] using hne
  obtain ⟨t, ht⟩ := h.packed.entry 1 (Nat.le_refl 1) (by omega)
  refine ⟨t, taskAt_eq ht, ht, ?_, fun u hu => ?_⟩
  · rw [TaskQueue.tasks_eq h.packed]
    exact mem_reduceOption_of_getElem? ht
  · rw [TaskQueue.tasks_eq h.packed] at hu
    obtain ⟨i, hi⟩ := List.mem_iff_getElem?.1 (List.reduceOption_mem_iff.1 hu)
    obtain ⟨h1, hle⟩ := h.packed.outside i u hi
    have hroot := h.ordered.root_le i h1 hle
    rw [key_eq ht, key_eq hi] at hroot
    exact hroot

theorem TaskQueue.removeMin_holds {time : TaskId → Int} {Q : TaskQueue} (h : Q.IsHeap time)
    (hne : Q.isEmpty = false) {t : TaskId} (ht : Q.queue[1]? = some (some t)) :
    Succeeds (Q.removeMin time) (TaskQueue.Holds time (Q.tasks.erase t)) := by
  have hsize : Q.size ≠ 0 := by simpa [TaskQueue.isEmpty] using hne
  obtain ⟨hpacked, hlength, hordered⟩ := h
  have hroom := hpacked.room
  obtain ⟨last, hlast⟩ := hpacked.entry Q.size (by omega) (Nat.le_refl _)
  -- the head and the last task change places, and then the last place is emptied
  have hq : (Q.queue.set 1 (some last)).set Q.size none =
      (exchange Q.queue 1 Q.size t last).set Q.size none := by
    unfold exchange
    rw [List.set_set]
  have hat : (exchange Q.queue 1 Q.size t last)[Q.size]? = some (some t) := by
    rw [exchange_getElem? ht hlast, if_pos rfl, ht]
  have hpacked₁ := hpacked.exchange ht hlast
  have hpacked' : Packed ((exchange Q.queue 1 Q.size t last).set Q.size none) (Q.size - 1) := by
    refine ⟨⟨?_, fun i h1 hi => ?_⟩, fun i u hi => ?_⟩
    · rw [List.length_set, exchange_length]
      omega
    · rw [List.getElem?_set_ne (by omega)]
      exact hpacked₁.entry i h1 (by omega)
    · rw [List.getElem?_set] at hi
      split at hi
      · split at hi
        · cases hi
        · cases hi
      · have := hpacked₁.outside i u hi
        omega
  have hsinking : Sinking (Q.size - 1) 1
      (key time ((exchange Q.queue 1 Q.size t last).set Q.size none)) := by
    refine hordered.sinking (Nat.sub_le _ _) fun i h2 hi => ?_
    unfold key
    rw [List.getElem?_set_ne (by omega), exchange_getElem? ht hlast, if_neg (by omega),
      if_neg (by omega)]
  unfold TaskQueue.removeMin
  rw [hlast]
  show Succeeds (fixDown time (Q.size - 1) (Q.size - 1 + 1) 1
    ((Q.queue.set 1 (some last)).set Q.size none) >>= _) _
  rw [hq]
  refine .bind (fixDown_sorts time _ 1 hpacked' hsinking (Nat.le_refl _) (by omega) (by omega))
    fun q' h => .pure ?_
  have hlen := h.perm.length_eq
  rw [List.length_set, exchange_length] at hlen
  refine ⟨⟨h.packed, by show 1 < q'.length; omega, h.ordered⟩, ?_⟩
  rw [TaskQueue.tasks_eq h.packed, TaskQueue.tasks_eq hpacked]
  have hcons := ((exchange_perm ht hlast).filterMap id).symm.trans (reduceOption_set_none hat)
  have hsame := h.perm.filterMap id
  show (q'.reduceOption : Multiset TaskId) = _
  have heq : (Q.queue.reduceOption : Multiset TaskId) = t ::ₘ q'.reduceOption := by
    rw [Multiset.cons_coe]
    exact Multiset.coe_eq_coe.2 (hcons.trans (hsame.symm.cons t))
  rw [heq, Multiset.erase_cons_head]

theorem TaskQueue.fixMin_holds {time : TaskId → Int} {Q : TaskQueue} (h : Q.IsHeap time)
    (hnodup : Q.tasks.Nodup) {t : TaskId} (ht : Q.queue[1]? = some (some t)) (newTime : Int) :
    Succeeds (Q.fixMin (update time t newTime))
      (TaskQueue.Holds (update time t newTime) Q.tasks) := by
  obtain ⟨hpacked, hlength, hordered⟩ := h
  have hsinking : Sinking Q.size 1 (key (update time t newTime) Q.queue) := by
    refine hordered.sinking (Nat.le_refl _) fun i h2 hi => ?_
    obtain ⟨u, hu⟩ := hpacked.entry i (by omega) hi
    rw [key_eq hu, key_eq hu, update_of_ne]
    rintro rfl
    rw [TaskQueue.tasks_eq hpacked] at hnodup
    have := index_unique hnodup ht hu
    omega
  unfold TaskQueue.fixMin
  refine .bind (fixDown_sorts _ _ 1 hpacked hsinking (Nat.le_refl _) (by omega) (by omega))
    fun q' h => .pure ?_
  have hlen := h.perm.length_eq
  refine ⟨⟨h.packed, by show 1 < q'.length; omega, h.ordered⟩, ?_⟩
  rw [TaskQueue.tasks_eq h.packed, TaskQueue.tasks_eq hpacked]
  exact Multiset.coe_eq_coe.2 (h.perm.filterMap _)

theorem TaskQueue.clear_holds {time : TaskId → Int} {Q : TaskQueue} (h : Q.IsHeap time) :
    TaskQueue.Holds time 0 Q.clear := by
  have hroom := h.packed.room
  have hlen := h.length
  have hlength : Q.clear.queue.length = Q.queue.length := by
    simp only [TaskQueue.clear, List.length_append, List.length_take, List.length_replicate,
      List.length_drop]
    omega
  have hnone (i : Nat) (t : TaskId) : Q.clear.queue[i]? ≠ some (some t) := by
    intro hi
    have hmem := List.mem_of_getElem? hi
    simp only [TaskQueue.clear] at hmem
    rcases List.mem_append.1 hmem with hmem | hmem
    · rcases List.mem_append.1 hmem with hmem | hmem
      · obtain ⟨k, hk⟩ := List.mem_iff_getElem?.1 hmem
        have hlt := (List.getElem?_eq_some_iff.1 hk).1
        rw [List.length_take] at hlt
        rw [List.getElem?_take_of_lt (by omega)] at hk
        have := h.packed.outside k t hk
        omega
      · exact absurd (List.eq_of_mem_replicate hmem) (Option.some_ne_none t)
    · obtain ⟨k, hk⟩ := List.mem_iff_getElem?.1 hmem
      rw [List.getElem?_drop] at hk
      have := h.packed.outside _ t hk
      omega
  have hsize : Q.clear.size = 0 := rfl
  have hpacked : Packed Q.clear.queue Q.clear.size := by
    refine ⟨⟨by omega, fun i h1 hi => by omega⟩, fun i t hi => absurd hi (hnone i t)⟩
  refine ⟨⟨hpacked, by omega, fun c _ hc => by omega⟩, ?_⟩
  rw [TaskQueue.tasks_eq hpacked, reduceOption_eq_nil hnone]
  rfl

/-! ## Runs -/

/-- The queue and the next execution times of all tasks. -/
structure Queued where
  time : TaskId → Int
  queue : TaskQueue := {}

inductive QueueOp where
  | add (t : TaskId) (nextExecutionTime : Int)
  | removeMin
  | rescheduleMin (newTime : Int)
  | clear
  deriving DecidableEq, Repr

/-- One operation; `sched` sets the time of a task before it adds it. -/
def Queued.step (s : Queued) : QueueOp → Except Fault Queued
  | .add t nextExecutionTime => do
    let time := update s.time t nextExecutionTime
    let queue ← s.queue.add time t
    return { time, queue }
  | .removeMin => do
    let queue ← s.queue.removeMin s.time
    return { s with queue }
  | .rescheduleMin newTime => do
    let t ← s.queue.getMin
    let time := update s.time t newTime
    let queue ← s.queue.fixMin time
    return { time, queue }
  | .clear => .ok { s with queue := s.queue.clear }

/-- What the callers keep to: `sched` adds tasks that were never scheduled, and `mainLoop` looks at
the head of a queue that is not empty. -/
def Queued.Allows (s : Queued) : QueueOp → Prop
  | .add t _ => t ∉ s.queue.tasks
  | .removeMin | .rescheduleMin _ => s.queue.isEmpty = false
  | .clear => True

instance (s : Queued) : DecidablePred s.Allows
  | .add t _ => inferInstanceAs (Decidable (t ∉ s.queue.tasks))
  | .removeMin | .rescheduleMin _ => inferInstanceAs (Decidable (s.queue.isEmpty = false))
  | .clear => instDecidableTrue

/-- What a timer's queue is for: tasks, and one of least time. -/
structure Agenda where
  time : TaskId → Int
  tasks : Multiset TaskId

def Agenda.Least (a : Agenda) (t : TaskId) : Prop := t ∈ a.tasks ∧ ∀ u ∈ a.tasks, a.time t ≤ a.time u

inductive Agenda.Step : Agenda → QueueOp → Agenda → Prop
  | add (a : Agenda) (t : TaskId) (nextExecutionTime : Int) :
    Step a (.add t nextExecutionTime) ⟨update a.time t nextExecutionTime, t ::ₘ a.tasks⟩
  | removeMin {a : Agenda} {t : TaskId} :
    a.Least t → Step a .removeMin ⟨a.time, a.tasks.erase t⟩
  | rescheduleMin {a : Agenda} {t : TaskId} (newTime : Int) :
    a.Least t → Step a (.rescheduleMin newTime) ⟨update a.time t newTime, a.tasks⟩
  | clear (a : Agenda) : Step a .clear ⟨a.time, 0⟩

def Queued.agenda (s : Queued) : Agenda := ⟨s.time, s.queue.tasks⟩

/-- In heap order, and no task twice. -/
structure Queued.Inv (s : Queued) : Prop where
  heap : s.queue.IsHeap s.time
  nodup : s.queue.tasks.Nodup

/-- Times of tasks that are not on the queue do not matter to it. -/
theorem TaskQueue.IsHeap.update {time : TaskId → Int} {Q : TaskQueue} (h : Q.IsHeap time)
    {t : TaskId} (ht : t ∉ Q.tasks) (nextExecutionTime : Int) :
    Q.IsHeap (Function.update time t nextExecutionTime) := by
  have hkey : ∀ i, key (Function.update time t nextExecutionTime) Q.queue i = key time Q.queue i := by
    intro i
    unfold key
    split
    · rename_i u hu
      refine update_of_ne ?_ _ _
      rintro rfl
      rw [TaskQueue.tasks_eq h.packed] at ht
      exact ht (mem_reduceOption_of_getElem? hu)
    · rfl
  refine ⟨h.packed, h.length, fun c h2 hc => ?_⟩
  rw [hkey, hkey]
  exact h.ordered c h2 hc

/-- **One operation**: it returns, it does what it is for, and the order is restored. -/
theorem Queued.Inv.step {s : Queued} (h : s.Inv) {op : QueueOp} (hop : s.Allows op) :
    Succeeds (s.step op) fun s' => s'.Inv ∧ Agenda.Step s.agenda op s'.agenda := by
  cases op with
  | add t nextExecutionTime =>
    refine .bind (TaskQueue.add_holds _ t (h.heap.update hop nextExecutionTime)) fun Q hQ => .pure ?_
    obtain ⟨hheap, htasks⟩ := hQ
    refine ⟨⟨hheap, ?_⟩, ?_⟩
    · show Q.tasks.Nodup
      rw [htasks]
      exact Multiset.nodup_cons.2 ⟨hop, h.nodup⟩
    · unfold Queued.agenda
      rw [htasks]
      exact .add _ t nextExecutionTime
  | removeMin =>
    obtain ⟨t, -, ht, hleast⟩ := TaskQueue.getMin_least h.heap hop
    refine .bind (TaskQueue.removeMin_holds h.heap hop ht) fun Q hQ => .pure ?_
    obtain ⟨hheap, htasks⟩ := hQ
    refine ⟨⟨hheap, ?_⟩, ?_⟩
    · show Q.tasks.Nodup
      rw [htasks]
      exact h.nodup.erase t
    · unfold Queued.agenda
      rw [htasks]
      exact .removeMin hleast
  | rescheduleMin newTime =>
    obtain ⟨t, hmin, ht, hleast⟩ := TaskQueue.getMin_least h.heap hop
    refine .bind ⟨t, hmin, rfl⟩ ?_
    rintro _ rfl
    refine .bind (TaskQueue.fixMin_holds h.heap h.nodup ht newTime) fun Q hQ => .pure ?_
    obtain ⟨hheap, htasks⟩ := hQ
    refine ⟨⟨hheap, ?_⟩, ?_⟩
    · show Q.tasks.Nodup
      rw [htasks]
      exact h.nodup
    · unfold Queued.agenda
      rw [htasks]
      exact .rescheduleMin newTime hleast
  | clear =>
    obtain ⟨hheap, htasks⟩ := TaskQueue.clear_holds h.heap
    refine .ok ⟨⟨hheap, ?_⟩, ?_⟩
    · show s.queue.clear.tasks.Nodup
      rw [htasks]
      exact Multiset.nodup_zero
    · unfold Queued.agenda
      rw [htasks]
      exact .clear _

theorem Queued.new_inv (time : TaskId → Int) : Queued.Inv { time := time } where
  heap := TaskQueue.new_isHeap time
  nodup := by
    rw [TaskQueue.tasks_eq (TaskQueue.new_isHeap time).packed]
    exact Multiset.nodup_zero

/-- An operation that the callers may do, and that returns. -/
def Queued.Step (s : Queued) (op : QueueOp) (s' : Queued) : Prop := s.Allows op ∧ s.step op = .ok s'

theorem Queued.Inv.of_step {s s' : Queued} (h : s.Inv) {op : QueueOp} (hs : s.Step op s') :
    s'.Inv ∧ Agenda.Step s.agenda op s'.agenda := by
  obtain ⟨s₁, hs₁, hinv⟩ := h.step hs.1
  obtain rfl : s' = s₁ := Except.ok.inj (hs.2.symm.trans hs₁)
  exact hinv

/-- **The timer queue is a correct priority queue.** -/
theorem Queued.isPriorityQueue {time : TaskId → Int} {ops : List QueueOp} {s : Queued}
    (hrun : Lts.Run Queued.Step { time := time } ops s) :
    -- the heap order of `queue[1..size]`, and nothing outside
    (s.queue.IsHeap s.time ∧ s.queue.tasks.Nodup) ∧
    -- the tasks are those of an abstract run of the same operations
    Lts.Run Agenda.Step ⟨time, 0⟩ ops s.agenda ∧
    (s.queue.isEmpty = false → ∃ t, s.queue.getMin = .ok t ∧ s.agenda.Least t) ∧
    -- the next operation does not fault
    ∀ op, s.Allows op → ∃ s', s.step op = .ok s' := by
  have hinv : s.Inv :=
    hrun.invariant (fun _ _ _ h hs => (h.of_step hs).1) (Queued.new_inv time)
  obtain ⟨a, harun, ha⟩ := hrun.simulation (R := fun s a => s.Inv ∧ s.agenda = a)
    (fun s a op s' h hs => by
      obtain ⟨hs₁, rfl⟩ := h
      obtain ⟨hs'inv, habs⟩ := hs₁.of_step hs
      exact ⟨_, habs, hs'inv, rfl⟩) ⟨Queued.new_inv time, rfl⟩
  refine ⟨⟨hinv.heap, hinv.nodup⟩, ?_, fun hne => ?_, fun op hop => ?_⟩
  · rw [ha.2]
    have hnew : Queued.agenda { time := time } = ⟨time, 0⟩ := by
      unfold Queued.agenda
      rw [TaskQueue.tasks_eq (TaskQueue.new_isHeap time).packed]
      rfl
    rw [hnew] at harun
    exact harun
  · obtain ⟨t, hmin, -, hleast⟩ := TaskQueue.getMin_least hinv.heap hne
    exact ⟨t, hmin, hleast⟩
  · obtain ⟨s', hs', -⟩ := hinv.step hop
    exact ⟨s', hs'⟩

theorem Queued.isPriorityQueue_three :
    ∃ s, Lts.Run Queued.Step { time := fun _ => 0 }
      [.add 1 5, .add 2 3, .add 3 4, .rescheduleMin 9, .removeMin] s ∧
      s.queue.IsHeap s.time ∧ ∃ t, s.queue.getMin = .ok t ∧ s.agenda.Least t := by
  obtain ⟨s, hrun, hne⟩ : ∃ s, Lts.Run Queued.Step { time := fun _ => 0 }
      [.add 1 5, .add 2 3, .add 3 4, .rescheduleMin 9, .removeMin] s ∧
      s.queue.isEmpty = false := by
    refine ⟨_, .cons ⟨by decide, rfl⟩ <| .cons ⟨by decide, rfl⟩ <| .cons ⟨by decide, rfl⟩ <|
      .cons ⟨rfl, rfl⟩ <| .cons ⟨rfl, rfl⟩ (.nil _), rfl⟩
  obtain ⟨⟨hheap, -⟩, -, hmin, -⟩ := Queued.isPriorityQueue hrun
  exact ⟨s, hrun, hheap, hmin hne⟩

end FroggyKVM.Timers
