/-
# FroggyKVM.Threads.Blocked — the buffer that describes the blocked threads.

`start` makes room in `blocked_threads_buffer` for one thread more than there are, in case every one
of them becomes blocked, and `update_blocked_threads_buffer` writes a record for each of the threads
that are.  The buffer grows and shrinks by four records or more, so its size lags behind the number
of threads, and an allocation may fail.  **There is always a record for every blocked thread**: a
blocked thread is a live one, and neither a failed nor a lazy resize goes below the live threads.
-/
import FroggyKVM.Lib.Lts
import FroggyKVM.Lib.Returns

namespace FroggyKVM.Threads

/-! ## The buffer -/

/-- `sizeof(JVMSPI_BlockedThreadInfo)`: two pointers and an `int`. -/
def unitSize : Nat := 12

/-- How many records fit in a buffer, which is given by its length in bytes. -/
def countOf : Option Nat → Int
  | none => 0
  | some length => length / unitSize

/-- The size to adjust to, in records, unless the buffer is kept. -/
def adjustedCount (currentCount targetCount : Int) : Option Int :=
  let targetCount := if targetCount < 4 then 4 else targetCount
  if currentCount > targetCount then
    if currentCount - targetCount < 4 then none else some targetCount
  else if targetCount - currentCount < 4 then some (currentCount + 4)
  else some targetCount

/-- `allocate_blocked_threads_buffer`: the buffer, and whether an exception is pending.  `allocates`
says whether there is heap for a new buffer; a failure to shrink is quiet. -/
def allocateBlockedThreadsBuffer (targetCount : Int) (allocates pending : Bool)
    (buffer : Option Nat) : Option Nat × Bool :=
  match adjustedCount (countOf buffer) targetCount with
  | none => (buffer, pending)
  | some count =>
    if allocates then (some (count.toNat * unitSize), pending)
    else if count < countOf buffer then (buffer, pending)
    else (buffer, true)

theorem countOf_some (n : Nat) : countOf (some (n * unitSize)) = n := by
  show ((n * 12 : Nat) : Int) / ((12 : Nat) : Int) = n
  omega

theorem countOf_nonneg (buffer : Option Nat) : 0 ≤ countOf buffer := by
  cases buffer with
  | none => exact Int.le_refl 0
  | some length => exact Int.ediv_nonneg (Int.natCast_nonneg _) (Int.natCast_nonneg _)

/-- A buffer is kept when it is large enough, and a new one is. -/
theorem adjustedCount_spec {currentCount : Int} (h : 0 ≤ currentCount) (targetCount : Int) :
    match adjustedCount currentCount targetCount with
    | none => targetCount ≤ currentCount
    | some count => targetCount ≤ count ∧ 0 ≤ count := by
  have hmin : targetCount ≤ (if targetCount < 4 then 4 else targetCount) ∧
      0 ≤ (if targetCount < 4 then 4 else targetCount) := by
    split <;> omega
  unfold adjustedCount
  dsimp only
  generalize (if targetCount < 4 then 4 else targetCount) = target at hmin ⊢
  by_cases hmore : currentCount > target
  · rw [if_pos hmore]
    by_cases hclose : currentCount - target < 4
    · rw [if_pos hclose]
      show targetCount ≤ currentCount
      omega
    · rw [if_neg hclose]
      exact hmin
  · rw [if_neg hmore]
    by_cases hclose : target - currentCount < 4
    · rw [if_pos hclose]
      show targetCount ≤ currentCount + 4 ∧ 0 ≤ currentCount + 4
      omega
    · rw [if_neg hclose]
      exact hmin

/-- **A resize does not go below the target**, and reaches it unless an exception is pending. -/
theorem allocateBlockedThreadsBuffer_spec (targetCount : Int) (allocates pending : Bool)
    (buffer : Option Nat) {buffer' : Option Nat} {pending' : Bool}
    (h : allocateBlockedThreadsBuffer targetCount allocates pending buffer = (buffer', pending')) :
    (targetCount ≤ countOf buffer' ∨ countOf buffer ≤ countOf buffer') ∧
      (pending' = false → targetCount ≤ countOf buffer') := by
  have hcount := adjustedCount_spec (countOf_nonneg buffer) targetCount
  unfold allocateBlockedThreadsBuffer at h
  split at h
  case h_1 hkept =>
    rw [hkept] at hcount
    cases h
    exact ⟨.inr (Int.le_refl _), fun _ => hcount⟩
  case h_2 count hnew =>
    rw [hnew] at hcount
    obtain ⟨htarget, hnonneg⟩ := hcount
    split at h
    case isTrue =>
      cases h
      have hlarge : targetCount ≤ countOf (some (count.toNat * unitSize)) := by
        rw [countOf_some]
        lia
      exact ⟨.inl hlarge, fun _ => hlarge⟩
    case isFalse =>
      split at h
      case isTrue hshrinks =>
        cases h
        exact ⟨.inr (Int.le_refl _), fun _ => by omega⟩
      case isFalse =>
        cases h
        exact ⟨.inr (Int.le_refl _), nofun⟩

/-! ## The threads -/

variable {T : Type} [DecidableEq T]

/-- `global_threadlist`, the threads on priority queues, `scheduler_async`, the two counters and the
buffer.  A live thread in neither list sleeps, waits or is suspended. -/
structure Pool (T : Type) where
  globalThreadlist : List T := []
  active : List T := []
  schedulerAsync : List T := []
  activeCount : Int := 0
  asyncCount : Int := 0
  buffer : Option Nat := none

namespace Pool

/-- `start` past the buffer. -/
def launch (t : T) (s : Pool T) : Pool T :=
  { s with
    activeCount := s.activeCount + 1
    active := t :: s.active
    globalThreadlist := t :: s.globalThreadlist }

/-- The VM with a ROM: the main thread starts before there is a buffer, and `initialize_main`, which
must succeed, allocates one. -/
def bootWithRom (main : T) : Pool T :=
  let s := launch main {}
  { s with buffer := (allocateBlockedThreadsBuffer 1 true false s.buffer).1 }

/-- Without a ROM the main thread starts after booting, as any other. -/
def bootWithoutRom : Pool T := {}

inductive Op (T : Type) where
  /-- `start`, with the heap and the pending exception it finds -/
  | start (t : T) (allocates pending : Bool)
  /-- `terminate`, of the current thread -/
  | terminate (t : T)
  /-- the rest of `lightweight_thread_exit`, in another thread -/
  | exited (allocates pending : Bool)
  /-- `block_current_thread` -/
  | block (t : T)
  | unblock (t : T) (taskSuspended : Bool)
  /-- the thread goes to sleep, waits or is suspended -/
  | park (t : T)
  /-- it is active again -/
  | unpark (t : T)
  deriving DecidableEq, Repr

/-- One call; a thread starts once, and only threads on the right list leave it. -/
def step (s : Pool T) : Op T → Option (Pool T)
  | .start t allocates pending =>
    if t ∈ s.globalThreadlist then none
    else
      let (buffer, pending) :=
        allocateBlockedThreadsBuffer (s.activeCount + 1) allocates pending s.buffer
      if pending then some { s with buffer } else some (launch t { s with buffer })
  | .terminate t =>
    if t ∈ s.active then
      some { s with
        activeCount := s.activeCount - 1
        globalThreadlist := s.globalThreadlist.erase t
        active := s.active.erase t }
    else none
  | .exited allocates pending =>
    some { s with
      buffer := (allocateBlockedThreadsBuffer s.activeCount allocates pending s.buffer).1 }
  | .block t =>
    if t ∈ s.active then
      some { s with
        active := s.active.erase t
        asyncCount := s.asyncCount + 1
        schedulerAsync := s.schedulerAsync ++ [t] }
    else none
  | .unblock t taskSuspended =>
    if t ∈ s.schedulerAsync then
      some { s with
        schedulerAsync := s.schedulerAsync.erase t
        asyncCount := s.asyncCount - 1
        active := if taskSuspended then s.active else t :: s.active }
    else none
  | .park t => if t ∈ s.active then some { s with active := s.active.erase t } else none
  | .unpark t =>
    if t ∈ s.globalThreadlist ∧ t ∉ s.active ∧ t ∉ s.schedulerAsync then
      some { s with active := t :: s.active }
    else none

def Step (s : Pool T) (op : Op T) (s' : Pool T) : Prop := s.step op = some s'

/-! ## The records -/

/-- A `JVMSPI_BlockedThreadInfo`; the reentry data is a byte array, or null. -/
structure BlockedThreadInfo (T : Type) where
  threadId : T
  reentryData : Option (List UInt8)
  reentryDataSize : Nat

def blockedThreadInfo (asyncInfo : T → Option (List UInt8)) (t : T) : BlockedThreadInfo T :=
  match asyncInfo t with
  | none => ⟨t, none, 0⟩
  | some byteArray => ⟨t, some byteArray, byteArray.length⟩

/-- The loop of `update_blocked_threads_buffer` from index `i` on; `none` is a store past the end. -/
def storeInfos (asyncInfo : T → Option (List UInt8)) (count : Int) :
    Nat → List T → Option (List (BlockedThreadInfo T))
  | _, [] => some []
  | i, t :: ts =>
    if i < count then do
      let infos ← storeInfos asyncInfo count (i + 1) ts
      return blockedThreadInfo asyncInfo t :: infos
    else none

/-- `update_blocked_threads_buffer`: the first `_async_count` threads of the list. -/
def updateBlockedThreadsBuffer (asyncInfo : T → Option (List UInt8)) (s : Pool T) :
    Option (List (BlockedThreadInfo T)) :=
  storeInfos asyncInfo (countOf s.buffer) 0 (s.schedulerAsync.take s.asyncCount.toNat)

omit [DecidableEq T] in
theorem storeInfos_eq (asyncInfo : T → Option (List UInt8)) {count : Int} :
    ∀ {i : Nat} {ts : List T}, i + ts.length ≤ count →
      storeInfos asyncInfo count i ts = some (ts.map (blockedThreadInfo asyncInfo))
  | _, [], _ => rfl
  | i, t :: ts, h => by
    rw [List.length_cons] at h
    unfold storeInfos
    rw [if_pos (by omega), storeInfos_eq asyncInfo (by omega)]
    rfl

/-! ## Room for all -/

/-- The lists and their counters, and room for all live threads. -/
structure Inv (s : Pool T) : Prop where
  globalNodup : s.globalThreadlist.Nodup
  asyncNodup : s.schedulerAsync.Nodup
  activeLive : ∀ t ∈ s.active, t ∈ s.globalThreadlist
  asyncLive : ∀ t ∈ s.schedulerAsync, t ∈ s.globalThreadlist
  apart : ∀ t ∈ s.schedulerAsync, t ∉ s.active
  activeNodup : s.active.Nodup
  activeCount : s.activeCount = s.globalThreadlist.length
  asyncCount : s.asyncCount = s.schedulerAsync.length
  room : s.activeCount ≤ countOf s.buffer

namespace Inv

variable {s s' : Pool T}

omit [DecidableEq T] in
/-- Blocked threads are live. -/
theorem asyncCount_le (h : s.Inv) : s.asyncCount ≤ s.activeCount := by
  have hle := (List.subperm_of_subset h.asyncNodup h.asyncLive).length_le
  rw [h.asyncCount, h.activeCount]
  exact Int.ofNat_le.2 hle

omit [DecidableEq T] in
theorem setBuffer (h : s.Inv) {buffer : Option Nat} (hroom : s.activeCount ≤ countOf buffer) :
    Inv { s with buffer } :=
  { h with room := hroom }

omit [DecidableEq T] in
theorem launch {t : T} (h : s.Inv) (ht : t ∉ s.globalThreadlist)
    (hroom : s.activeCount + 1 ≤ countOf s.buffer) : (s.launch t).Inv where
  globalNodup := List.nodup_cons.2 ⟨ht, h.globalNodup⟩
  asyncNodup := h.asyncNodup
  activeLive u hu := by
    rcases List.mem_cons.1 hu with rfl | hu
    · exact List.mem_cons_self
    · exact List.mem_cons_of_mem t (h.activeLive u hu)
  asyncLive u hu := List.mem_cons_of_mem t (h.asyncLive u hu)
  apart u hu hactive := by
    rcases List.mem_cons.1 hactive with rfl | hactive
    · exact ht (h.asyncLive u hu)
    · exact h.apart u hu hactive
  activeNodup := List.nodup_cons.2 ⟨fun hactive => ht (h.activeLive t hactive), h.activeNodup⟩
  activeCount := by
    show s.activeCount + 1 = ((t :: s.globalThreadlist).length : Int)
    rw [h.activeCount, List.length_cons]
    rfl
  asyncCount := h.asyncCount
  room := hroom

omit [DecidableEq T] in
theorem start {t : T} (h : s.Inv) (ht : t ∉ s.globalThreadlist) {allocates pending : Bool}
    {buffer : Option Nat} {pending' : Bool}
    (hallocate : allocateBlockedThreadsBuffer (s.activeCount + 1) allocates pending s.buffer =
      (buffer, pending')) :
    (if pending' then { s with buffer } else { s with buffer }.launch t : Pool T).Inv := by
  obtain ⟨hkept, hreached⟩ := allocateBlockedThreadsBuffer_spec _ allocates pending _ hallocate
  have hroom := h.room
  have hbuffer : Inv { s with buffer } := h.setBuffer (by omega)
  split
  case isTrue => exact hbuffer
  case isFalse hpending => exact hbuffer.launch ht (hreached (by simpa using hpending))

theorem terminate {t : T} (h : s.Inv) (ht : t ∈ s.active) : Inv { s with
    activeCount := s.activeCount - 1
    globalThreadlist := s.globalThreadlist.erase t
    active := s.active.erase t } where
  globalNodup := h.globalNodup.erase t
  asyncNodup := h.asyncNodup
  activeLive u hu := by
    obtain ⟨hne, hu⟩ := (h.activeNodup.mem_erase_iff).1 hu
    exact (List.mem_erase_of_ne hne).2 (h.activeLive u hu)
  asyncLive u hu := by
    have hne : u ≠ t := fun heq => h.apart u hu (heq ▸ ht)
    exact (List.mem_erase_of_ne hne).2 (h.asyncLive u hu)
  apart u hu hactive := h.apart u hu (List.mem_of_mem_erase hactive)
  activeNodup := h.activeNodup.erase t
  activeCount := by
    have hlive := h.activeLive t ht
    have hpos := List.length_pos_of_mem hlive
    show s.activeCount - 1 = ((s.globalThreadlist.erase t).length : Int)
    rw [h.activeCount, List.length_erase_of_mem hlive]
    omega
  asyncCount := h.asyncCount
  room := by
    have hroom := h.room
    show s.activeCount - 1 ≤ countOf s.buffer
    omega

theorem block {t : T} (h : s.Inv) (ht : t ∈ s.active) : Inv { s with
    active := s.active.erase t
    asyncCount := s.asyncCount + 1
    schedulerAsync := s.schedulerAsync ++ [t] } where
  globalNodup := h.globalNodup
  asyncNodup := by
    refine List.nodup_append.2 ⟨h.asyncNodup, List.nodup_cons.2 ⟨nofun, List.nodup_nil⟩, fun u hu v hv => ?_⟩
    obtain rfl := List.mem_singleton.1 hv
    exact fun heq => h.apart u hu (heq ▸ ht)
  activeLive u hu := h.activeLive u (List.mem_of_mem_erase hu)
  asyncLive u hu := by
    rcases List.mem_append.1 hu with hu | hu
    · exact h.asyncLive u hu
    · exact List.mem_singleton.1 hu ▸ h.activeLive t ht
  apart u hu hactive := by
    obtain ⟨hne, hactive⟩ := h.activeNodup.mem_erase_iff.1 hactive
    rcases List.mem_append.1 hu with hu | hu
    · exact h.apart u hu hactive
    · exact hne (List.mem_singleton.1 hu)
  activeNodup := h.activeNodup.erase t
  activeCount := h.activeCount
  asyncCount := by
    show s.asyncCount + 1 = ((s.schedulerAsync ++ [t]).length : Int)
    rw [h.asyncCount, List.length_append]
    rfl
  room := h.room

omit [DecidableEq T] in
theorem unpark {t : T} (h : s.Inv) (hlive : t ∈ s.globalThreadlist) (hidle : t ∉ s.active)
    (ht : t ∉ s.schedulerAsync) : Inv { s with active := t :: s.active } :=
  { h with
    activeLive := fun u hu => by
      rcases List.mem_cons.1 hu with rfl | hu
      · exact hlive
      · exact h.activeLive u hu
    apart := fun u hu hactive => by
      rcases List.mem_cons.1 hactive with rfl | hactive
      · exact ht hu
      · exact h.apart u hu hactive
    activeNodup := List.nodup_cons.2 ⟨hidle, h.activeNodup⟩ }

theorem unblock {t : T} (h : s.Inv) (ht : t ∈ s.schedulerAsync) : Inv { s with
    schedulerAsync := s.schedulerAsync.erase t
    asyncCount := s.asyncCount - 1 } :=
  { h with
    asyncNodup := h.asyncNodup.erase t
    asyncLive := fun u hu => h.asyncLive u (List.mem_of_mem_erase hu)
    apart := fun u hu => h.apart u (List.mem_of_mem_erase hu)
    asyncCount := by
      have hpos := List.length_pos_of_mem ht
      show s.asyncCount - 1 = ((s.schedulerAsync.erase t).length : Int)
      rw [h.asyncCount, List.length_erase_of_mem ht]
      omega }

theorem park (h : s.Inv) (t : T) : Inv { s with active := s.active.erase t } :=
  { h with
    activeLive := fun u hu => h.activeLive u (List.mem_of_mem_erase hu)
    apart := fun u hu hactive => h.apart u hu (List.mem_of_mem_erase hactive)
    activeNodup := h.activeNodup.erase t }

/-- **Every call keeps room for the live threads.** -/
theorem step (h : s.Inv) {op : Op T} (hs : s.Step op s') : s'.Inv := by
  unfold Step Pool.step at hs
  cases op with
  | start t allocates pending =>
    dsimp only at hs
    split at hs
    · cases hs
    · rename_i ht
      cases hallocate :
        allocateBlockedThreadsBuffer (s.activeCount + 1) allocates pending s.buffer with
      | mk buffer pending' =>
        rw [hallocate] at hs
        have hstart := h.start ht hallocate
        cases pending' <;> cases hs <;> exact hstart
  | terminate t =>
    obtain ⟨ht, hs⟩ := Option.ite_none_right_eq_some.1 hs
    cases hs
    exact h.terminate ht
  | exited allocates pending =>
    cases hs
    have hroom := h.room
    generalize hresult :
      allocateBlockedThreadsBuffer s.activeCount allocates pending s.buffer = result
    obtain ⟨hkept, -⟩ := allocateBlockedThreadsBuffer_spec _ allocates pending _ hresult
    exact h.setBuffer (by omega)
  | block t =>
    obtain ⟨ht, hs⟩ := Option.ite_none_right_eq_some.1 hs
    cases hs
    exact h.block ht
  | unblock t taskSuspended =>
    obtain ⟨ht, hs⟩ := Option.ite_none_right_eq_some.1 hs
    cases hs
    have hunblock := h.unblock ht
    cases taskSuspended with
    | true => exact hunblock
    | false => exact hunblock.unpark (h.asyncLive t ht) (h.apart t ht) h.asyncNodup.not_mem_erase
  | park t =>
    obtain ⟨-, hs⟩ := Option.ite_none_right_eq_some.1 hs
    cases hs
    exact h.park t
  | unpark t =>
    obtain ⟨⟨hlive, hidle, ht⟩, hs⟩ := Option.ite_none_right_eq_some.1 hs
    cases hs
    exact h.unpark hlive hidle ht

end Inv

omit [DecidableEq T] in
theorem bootWithoutRom_inv : Inv (bootWithoutRom : Pool T) where
  globalNodup := List.nodup_nil
  asyncNodup := List.nodup_nil
  activeLive := nofun
  asyncLive := nofun
  apart := nofun
  activeNodup := List.nodup_nil
  activeCount := rfl
  asyncCount := rfl
  room := Int.le_refl 0

omit [DecidableEq T] in
theorem bootWithRom_inv (main : T) : (bootWithRom main).Inv := by
  have hempty : Inv (bootWithoutRom : Pool T) := bootWithoutRom_inv
  have hroom : (0 : Int) ≤ countOf (some 48) ∧ (0 : Int) + 1 ≤ countOf (some 48) := by decide
  exact (hempty.setBuffer hroom.1).launch nofun hroom.2

omit [DecidableEq T] in
/-- The store loop stays inside the buffer. -/
theorem Inv.update {s : Pool T} (h : s.Inv) (asyncInfo : T → Option (List UInt8)) :
    s.updateBlockedThreadsBuffer asyncInfo =
      some (s.schedulerAsync.map (blockedThreadInfo asyncInfo)) := by
  have hroom := h.room
  have hle := h.asyncCount_le
  have hcount := h.asyncCount
  unfold updateBlockedThreadsBuffer
  rw [List.take_of_length_le (by omega)]
  exact storeInfos_eq asyncInfo (by omega)

/-- **There is a record for every blocked thread**, whenever the records are written. -/
theorem buffer_large_enough {s₀ s : Pool T} {ops : List (Op T)}
    (hboot : s₀ = bootWithoutRom ∨ ∃ main, s₀ = bootWithRom main)
    (hrun : Lts.Run Step s₀ ops s) (asyncInfo : T → Option (List UInt8)) :
    s.asyncCount ≤ countOf s.buffer ∧ s.updateBlockedThreadsBuffer asyncInfo =
      some (s.schedulerAsync.map (blockedThreadInfo asyncInfo)) := by
  have hinv₀ : s₀.Inv := by
    rcases hboot with rfl | ⟨main, rfl⟩
    · exact bootWithoutRom_inv
    · exact bootWithRom_inv main
  have hinv : s.Inv := hrun.invariant (fun _ _ _ h hs => h.step hs) hinv₀
  exact ⟨Int.le_trans hinv.asyncCount_le hinv.room, hinv.update asyncInfo⟩

/-- The buffer shrinks when the second thread starts; the third finds no heap at first. -/
theorem buffer_large_enough_four :
    ∃ s : Pool Nat, Lts.Run Step (bootWithRom 0) [.start 1 true false, .start 2 true false,
      .start 3 false false, .start 3 true false, .block 1, .block 2, .park 3, .terminate 0,
      .exited true false, .unpark 3, .block 3] s ∧
      s.asyncCount = 3 ∧ s.asyncCount ≤ countOf s.buffer := by
  obtain ⟨s, hrun, hcount⟩ : ∃ s : Pool Nat, Lts.Run Step (bootWithRom 0) [.start 1 true false,
      .start 2 true false, .start 3 false false, .start 3 true false, .block 1, .block 2, .park 3,
      .terminate 0, .exited true false, .unpark 3, .block 3] s ∧ s.asyncCount = 3 := by
    refine ⟨_, .cons rfl <| .cons rfl <| .cons rfl <| .cons rfl <| .cons rfl <| .cons rfl <|
      .cons rfl <| .cons rfl <| .cons rfl <| .cons rfl <| .cons rfl <| .nil _, rfl⟩
  exact ⟨s, hrun, hcount, (buffer_large_enough (.inr ⟨0, rfl⟩) hrun fun _ => none).1⟩

end Pool

end FroggyKVM.Threads
