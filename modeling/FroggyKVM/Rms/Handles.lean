/-
# FroggyKVM.Rms.Handles — the handle table of `rms_posix.c` and the `RecordStoreFile`s over it.

A handle is a slot number of a table of 64 descriptors, and a slot is used again as soon as it is
free.  So an object must let go of its handle before the slot can be given to another one.  The
native methods run without interruption; between them, and between the statements of the
constructor and of `close`, other threads run.  A finalizer runs when no thread is inside the
object, and `RecordStoreImpl` closes a file under its lock, so one thread at a time is.
-/
import FroggyKVM.Lib.Lts

namespace FroggyKVM.Rms

open Function

/-! ## The table -/

def MAX_RMS_HANDLES : Int := 64

/-- The first free slot gets the descriptor; handles count from 1. -/
def alloc_rms_handle (fd : Int) : List Int → Option (Int × List Int)
  | [] => none
  | slot :: rest =>
    if slot < 0 then some (1, fd :: rest)
    else (alloc_rms_handle fd rest).map fun (handle, rest) => (handle + 1, slot :: rest)

def get_rms_fd (g_rms_fds : List Int) (handle : Int) : Int :=
  if handle < 1 ∨ handle > MAX_RMS_HANDLES then -1
  else g_rms_fds.getD (handle - 1).toNat (-1)

/-- The body of `closeFile`: the descriptor it closes, if any, and the table. -/
def closeFile (handle : Int) (g_rms_fds : List Int) : Option Int × List Int :=
  if 1 ≤ handle ∧ handle ≤ MAX_RMS_HANDLES then
    let idx := (handle - 1).toNat
    if 0 ≤ g_rms_fds.getD idx (-1) then (some (g_rms_fds.getD idx (-1)), g_rms_fds.set idx (-1))
    else (none, g_rms_fds)
  else (none, g_rms_fds)

/-! ## The objects -/

/-- Where the one thread inside an object is. -/
inductive Inside where
  /-- Allocated; the field initializer has not run. -/
  | allocated
  /-- `handle` is `-1`, and `openRecordStoreFile` has not returned. -/
  | opening
  /-- It returned a handle that is not stored yet. -/
  | storing (handle : Int)
  /-- Nobody is inside; the constructor returned or threw. -/
  | idle
  /-- In `close`, after `temp = handle`. -/
  | closing (temp : Int)
  /-- In `close`, after `handle = -1`. -/
  | closingFile (temp : Int)
  deriving DecidableEq, Repr

/-- A `RecordStoreFile`, with the descriptor that was opened for it and not closed yet. -/
structure RecordStoreFile where
  handle : Int := 0
  inside : Inside := .allocated
  fd : Option Int := none
  deriving DecidableEq, Repr

/-- The handle the object's file is open under, wherever the number is kept. -/
def RecordStoreFile.holds (f : RecordStoreFile) : Option Int :=
  match f.inside with
  | .allocated | .opening => none
  | .storing handle => some handle
  | .idle => if 1 ≤ f.handle then some f.handle else none
  | .closing temp => some temp
  | .closingFile temp => some temp

/-- All objects, the table, and the descriptors that are open elsewhere in the process. -/
structure Handles (O : Type) where
  files : O → RecordStoreFile
  g_rms_fds : List Int
  elsewhere : List Int

/-- What an object does; `closed` is the descriptor that the call gave to `close`. -/
inductive FileAction where
  | initHandle
  | openRecordStoreFile
  | openFails
  | store
  | close
  | closeAgain
  | forget
  | closeFile (closed : Option Int)
  | finalize (closed : Option Int)
  deriving DecidableEq, Repr

/-- An action of an object, or a descriptor opened or closed elsewhere. -/
inductive HandleEvent (O : Type) where
  | file (o : O) (action : FileAction)
  | elsewhere

variable {O : Type} [DecidableEq O]

/-- `open` returns a descriptor that is not open. -/
def Handles.Fresh (s : Handles O) (fd : Int) : Prop :=
  0 ≤ fd ∧ fd ∉ s.g_rms_fds ∧ fd ∉ s.elsewhere

def Handles.put (s : Handles O) (o : O) (f : RecordStoreFile) : O → RecordStoreFile :=
  update s.files o f

inductive Handles.Step : Handles O → HandleEvent O → Handles O → Prop
  /-- `private int handle = -1;` -/
  | initHandle {s : Handles O} {o : O} :
    (s.files o).inside = .allocated →
    Step s (.file o .initHandle)
      { s with files := s.put o { s.files o with handle := -1, inside := .opening } }
  | openRecordStoreFile {s : Handles O} {o : O} {fd handle : Int} {g_rms_fds : List Int} :
    (s.files o).inside = .opening → s.Fresh fd →
    alloc_rms_handle fd s.g_rms_fds = some (handle, g_rms_fds) →
    Step s (.file o .openRecordStoreFile)
      { s with
        files := s.put o { s.files o with inside := .storing handle, fd := some fd }
        g_rms_fds := g_rms_fds }
  /-- `open` failed, or no slot was free and the new descriptor was closed: the constructor
  throws. -/
  | openFails {s : Handles O} {o : O} :
    (s.files o).inside = .opening →
    Step s (.file o .openFails) { s with files := s.put o { s.files o with inside := .idle } }
  | store {s : Handles O} {o : O} {handle : Int} :
    (s.files o).inside = .storing handle →
    Step s (.file o .store)
      { s with files := s.put o { s.files o with handle := handle, inside := .idle } }
  | close {s : Handles O} {o : O} :
    (s.files o).inside = .idle → (s.files o).handle ≠ -1 →
    Step s (.file o .close)
      { s with files := s.put o { s.files o with inside := .closing (s.files o).handle } }
  | closeAgain {s : Handles O} {o : O} :
    (s.files o).inside = .idle → (s.files o).handle = -1 → Step s (.file o .closeAgain) s
  | forget {s : Handles O} {o : O} {temp : Int} :
    (s.files o).inside = .closing temp →
    Step s (.file o .forget)
      { s with files := s.put o { s.files o with handle := -1, inside := .closingFile temp } }
  | closeFile {s : Handles O} {o : O} {temp : Int} :
    (s.files o).inside = .closingFile temp →
    Step s (.file o (.closeFile (closeFile temp s.g_rms_fds).1))
      { s with
        files := s.put o { s.files o with inside := .idle, fd := none }
        g_rms_fds := (FroggyKVM.Rms.closeFile temp s.g_rms_fds).2 }
  /-- The field is reset where it is the number of a slot. -/
  | finalize {s : Handles O} {o : O} :
    (s.files o).inside = .idle ∨ (s.files o).inside = .allocated →
    1 ≤ (s.files o).handle ∧ (s.files o).handle ≤ MAX_RMS_HANDLES →
    Step s (.file o (.finalize (FroggyKVM.Rms.closeFile (s.files o).handle s.g_rms_fds).1))
      { s with
        files := s.put o { s.files o with handle := -1, fd := none }
        g_rms_fds := (FroggyKVM.Rms.closeFile (s.files o).handle s.g_rms_fds).2 }
  | finalizeNothing {s : Handles O} {o : O} :
    (s.files o).inside = .idle ∨ (s.files o).inside = .allocated →
    ¬ (1 ≤ (s.files o).handle ∧ (s.files o).handle ≤ MAX_RMS_HANDLES) →
    Step s (.file o (.finalize none)) s
  | opensElsewhere {s : Handles O} {fd : Int} :
    s.Fresh fd → Step s .elsewhere { s with elsewhere := fd :: s.elsewhere }
  | closesElsewhere {s : Handles O} {fd : Int} :
    Step s .elsewhere { s with elsewhere := s.elsewhere.erase fd }

/-- Every slot is free, and no object has run yet. -/
def Handles.start (elsewhere : List Int) : Handles O where
  files _ := {}
  g_rms_fds := List.replicate MAX_RMS_HANDLES.toNat (-1)
  elsewhere := elsewhere

/-! ## What the native methods do to the table -/

/-- 64 slots, each a descriptor or `-1`. -/
structure Table (g_rms_fds : List Int) : Prop where
  size : g_rms_fds.length = MAX_RMS_HANDLES.toNat
  free : ∀ fd ∈ g_rms_fds, fd < 0 → fd = -1

theorem get_rms_fd_eq {g_rms_fds : List Int} {handle : Int}
    (h : 1 ≤ handle ∧ handle ≤ MAX_RMS_HANDLES) :
    get_rms_fd g_rms_fds handle = g_rms_fds.getD (handle - 1).toNat (-1) :=
  if_neg (by omega)

theorem get_rms_fd_nonneg {g_rms_fds : List Int} {handle : Int}
    (h : 0 ≤ get_rms_fd g_rms_fds handle) :
    (1 ≤ handle ∧ handle ≤ MAX_RMS_HANDLES) ∧ get_rms_fd g_rms_fds handle ∈ g_rms_fds := by
  by_cases hr : 1 ≤ handle ∧ handle ≤ MAX_RMS_HANDLES
  · refine ⟨hr, ?_⟩
    rw [get_rms_fd_eq hr] at h ⊢
    rw [List.getD_eq_getElem?_getD] at h ⊢
    cases hg : g_rms_fds[(handle - 1).toNat]? with
    | none =>
      rw [hg] at h
      exact absurd h (by decide)
    | some fd => exact List.mem_of_getElem? hg
  · unfold get_rms_fd at h
    rw [if_pos (by omega)] at h
    exact absurd h (by decide)

theorem get_rms_fd_set {g_rms_fds : List Int} (ht : Table g_rms_fds) {handle : Int}
    (h : 1 ≤ handle ∧ handle ≤ MAX_RMS_HANDLES) (fd handle' : Int) :
    get_rms_fd (g_rms_fds.set (handle - 1).toNat fd) handle' =
      if handle' = handle then fd else get_rms_fd g_rms_fds handle' := by
  have hsize := ht.size
  unfold MAX_RMS_HANDLES at hsize h
  by_cases h' : 1 ≤ handle' ∧ handle' ≤ MAX_RMS_HANDLES
  · rw [get_rms_fd_eq h', get_rms_fd_eq h', List.getD_eq_getElem?_getD, List.getElem?_set]
    unfold MAX_RMS_HANDLES at h'
    by_cases heq : handle' = handle
    · rw [if_pos heq, if_pos (by omega), if_pos (by omega)]
      rfl
    · rw [if_neg heq, if_neg (by omega), List.getD_eq_getElem?_getD]
  · have hne : handle' ≠ handle := fun heq => h' (heq ▸ h)
    unfold get_rms_fd
    rw [if_pos (by omega), if_neg hne, if_pos (by omega)]

theorem table_set {g_rms_fds : List Int} (ht : Table g_rms_fds) (i : Nat) {fd : Int}
    (hfd : fd < 0 → fd = -1) : Table (g_rms_fds.set i fd) where
  size := by rw [List.length_set, ht.size]
  free fd' hmem hneg := by
    rcases List.mem_or_eq_of_mem_set hmem with hmem | rfl
    · exact ht.free fd' hmem hneg
    · exact hfd hneg

/-- Some free slot is taken, and its number is the handle. -/
theorem alloc_rms_handle_cases {fd handle : Int} :
    ∀ {g_rms_fds g_rms_fds' : List Int},
      alloc_rms_handle fd g_rms_fds = some (handle, g_rms_fds') →
      1 ≤ handle ∧ (handle - 1).toNat < g_rms_fds.length ∧
        g_rms_fds.getD (handle - 1).toNat (-1) < 0 ∧
        g_rms_fds' = g_rms_fds.set (handle - 1).toNat fd
  | [], _, h => by cases h
  | slot :: rest, _, h => by
    unfold alloc_rms_handle at h
    split at h
    · rename_i hneg
      obtain ⟨rfl, rfl⟩ := Prod.mk.inj (Option.some.inj h)
      exact ⟨by omega, Nat.succ_pos _, hneg, rfl⟩
    · obtain ⟨⟨handle₀, rest'⟩, hrest, heq⟩ := Option.map_eq_some_iff.1 h
      obtain ⟨rfl, rfl⟩ := Prod.mk.inj heq
      obtain ⟨h₁, h₂, h₃, rfl⟩ := alloc_rms_handle_cases hrest
      have hsucc : (handle₀ + 1 - 1).toNat = (handle₀ - 1).toNat + 1 := by omega
      rw [hsucc]
      refine ⟨by omega, Nat.succ_lt_succ h₂, h₃, rfl⟩

/-- Closing a used slot closes its descriptor and frees it. -/
theorem closeFile_eq {g_rms_fds : List Int} {handle : Int}
    (h : 0 ≤ get_rms_fd g_rms_fds handle) :
    closeFile handle g_rms_fds =
      (some (get_rms_fd g_rms_fds handle), g_rms_fds.set (handle - 1).toNat (-1)) := by
  have hr := (get_rms_fd_nonneg h).1
  rw [get_rms_fd_eq hr] at h ⊢
  exact (if_pos hr).trans (if_pos h)

/-! ## The invariant -/

/-- The field between the statements. -/
def RecordStoreFile.Consistent (f : RecordStoreFile) : Prop :=
  match f.inside with
  | .allocated => f.handle = 0
  | .opening | .storing _ | .closingFile _ => f.handle = -1
  | .idle => f.handle = -1 ∨ 1 ≤ f.handle
  | .closing temp => f.handle = temp

/-- **A handle leads to the descriptor of the one object that holds it, and a used slot is held.** -/
structure HandlesInv (files : O → RecordStoreFile) (g_rms_fds elsewhere : List Int) : Prop where
  table : Table g_rms_fds
  consistent : ∀ o, (files o).Consistent
  held : ∀ o handle, (files o).holds = some handle →
    0 ≤ get_rms_fd g_rms_fds handle ∧ (files o).fd = some (get_rms_fd g_rms_fds handle)
  closed : ∀ o, (files o).holds = none → (files o).fd = none
  used : ∀ handle, 0 ≤ get_rms_fd g_rms_fds handle → ∃ o, (files o).holds = some handle
  apart : ∀ o o' handle, (files o).holds = some handle → (files o').holds = some handle → o = o'
  distinct : ∀ handle handle', 0 ≤ get_rms_fd g_rms_fds handle →
    get_rms_fd g_rms_fds handle = get_rms_fd g_rms_fds handle' → handle = handle'
  elsewhere : ∀ fd ∈ g_rms_fds, 0 ≤ fd → fd ∉ elsewhere

def Handles.Inv (s : Handles O) : Prop := HandlesInv s.files s.g_rms_fds s.elsewhere

omit [DecidableEq O] in
theorem Handles.start_inv (elsewhere : List Int) : (Handles.start (O := O) elsewhere).Inv := by
  have hfree : ∀ handle, get_rms_fd (Handles.start (O := O) elsewhere).g_rms_fds handle < 0 := by
    intro handle
    by_contra h
    have hmem := (get_rms_fd_nonneg (Int.not_lt.1 h)).2
    rw [List.eq_of_mem_replicate hmem] at h
    exact h (by decide)
  refine ⟨⟨rfl, fun fd hmem _ => List.eq_of_mem_replicate hmem⟩, fun _ => rfl, nofun, fun _ _ => rfl,
    fun handle h => absurd h (Int.not_le.2 (hfree handle)), nofun,
    fun handle _ h => absurd h (Int.not_le.2 (hfree handle)), fun fd hmem h => ?_⟩
  rw [List.eq_of_mem_replicate hmem] at h
  exact absurd h (by decide)

section
variable {files : O → RecordStoreFile} {g_rms_fds elsewhere : List Int} {o : O}
  {f : RecordStoreFile} {handle fd : Int}

/-- A step inside an object that leaves its file and its handle alone. -/
theorem HandlesInv.put (h : HandlesInv files g_rms_fds elsewhere)
    (hholds : f.holds = (files o).holds) (hfd : f.fd = (files o).fd) (hf : f.Consistent) :
    HandlesInv (update files o f) g_rms_fds elsewhere := by
  have hholds' (o' : O) : (update files o f o').holds = (files o').holds := by
    by_cases ho : o' = o
    · rw [ho, update_self, hholds]
    · rw [update_of_ne ho]
  have hfd' (o' : O) : (update files o f o').fd = (files o').fd := by
    by_cases ho : o' = o
    · rw [ho, update_self, hfd]
    · rw [update_of_ne ho]
  refine ⟨h.table, fun o' => ?_, fun o' handle hh => ?_, fun o' hh => ?_, fun handle hh => ?_,
    fun o₁ o₂ handle h₁ h₂ => ?_, h.distinct, h.elsewhere⟩
  · by_cases ho : o' = o
    · rw [ho, update_self]
      exact hf
    · rw [update_of_ne ho]
      exact h.consistent o'
  · rw [hholds'] at hh
    rw [hfd']
    exact h.held o' handle hh
  · rw [hholds'] at hh
    rw [hfd']
    exact h.closed o' hh
  · obtain ⟨o', ho'⟩ := h.used handle hh
    exact ⟨o', (hholds' o').trans ho'⟩
  · rw [hholds'] at h₁ h₂
    exact h.apart o₁ o₂ handle h₁ h₂

/-- A fresh descriptor in a free slot, held by an object that held none. -/
theorem HandlesInv.alloc (h : HandlesInv files g_rms_fds elsewhere) {g_rms_fds' : List Int}
    (hfresh : 0 ≤ fd ∧ fd ∉ g_rms_fds ∧ fd ∉ elsewhere)
    (halloc : alloc_rms_handle fd g_rms_fds = some (handle, g_rms_fds'))
    (hnone : (files o).holds = none) (hholds : f.holds = some handle) (hfd : f.fd = some fd)
    (hf : f.Consistent) : HandlesInv (update files o f) g_rms_fds' elsewhere := by
  obtain ⟨hone, hlt, hslot, rfl⟩ := alloc_rms_handle_cases halloc
  have hsize := h.table.size
  have hr : 1 ≤ handle ∧ handle ≤ MAX_RMS_HANDLES := by
    unfold MAX_RMS_HANDLES at hsize ⊢
    omega
  have hget := get_rms_fd_set h.table hr fd
  have hfree : ¬ 0 ≤ get_rms_fd g_rms_fds handle := by
    rw [get_rms_fd_eq hr]
    omega
  have hunheld (o' : O) : (files o').holds ≠ some handle := fun hh => hfree (h.held o' handle hh).1
  have hother {o' : O} (ho : o' ≠ o) : update files o f o' = files o' := update_of_ne ho _ _
  have hself : update files o f o = f := update_self _ _ _
  refine ⟨table_set h.table _ fun hneg => absurd hfresh.1 (by omega), fun o' => ?_,
    fun o' k hk => ?_, fun o' hk => ?_, fun k hk => ?_, fun o₁ o₂ k h₁ h₂ => ?_,
    fun k k' hk hkk' => ?_, fun fd' hmem hpos => ?_⟩
  · by_cases ho : o' = o
    · rw [ho, hself]
      exact hf
    · rw [hother ho]
      exact h.consistent o'
  · by_cases ho : o' = o
    · rw [ho] at hk ⊢
      rw [hself, hholds] at hk
      obtain rfl := Option.some.inj hk
      rw [hself, hget, if_pos rfl]
      exact ⟨hfresh.1, hfd⟩
    · rw [hother ho] at hk ⊢
      have hne : k ≠ handle := fun heq => hunheld o' (heq ▸ hk)
      rw [hget, if_neg hne]
      exact h.held o' k hk
  · by_cases ho : o' = o
    · rw [ho, hself, hholds] at hk
      cases hk
    · rw [hother ho] at hk ⊢
      exact h.closed o' hk
  · rw [hget] at hk
    split at hk
    · rename_i heq
      refine ⟨o, ?_⟩
      rw [hself, hholds, heq]
    · obtain ⟨o', ho'⟩ := h.used k hk
      have ho : o' ≠ o := by
        rintro rfl
        rw [hnone] at ho'
        cases ho'
      exact ⟨o', by rw [hother ho, ho']⟩
  · by_cases ho₁ : o₁ = o
    · by_cases ho₂ : o₂ = o
      · rw [ho₁, ho₂]
      · rw [ho₁, hself, hholds] at h₁
        rw [hother ho₂, ← h₁] at h₂
        exact absurd h₂ (hunheld o₂)
    · by_cases ho₂ : o₂ = o
      · rw [ho₂, hself, hholds] at h₂
        rw [hother ho₁, ← h₂] at h₁
        exact absurd h₁ (hunheld o₁)
      · rw [hother ho₁] at h₁
        rw [hother ho₂] at h₂
        exact h.apart o₁ o₂ k h₁ h₂
  · rw [hget] at hk hkk'
    rw [hget] at hkk'
    have hnot : ∀ x, get_rms_fd g_rms_fds x ≠ fd := by
      rintro x rfl
      exact hfresh.2.1 (get_rms_fd_nonneg hfresh.1).2
    by_cases hkh : k = handle
    · by_cases hkh' : k' = handle
      · rw [hkh, hkh']
      · rw [if_pos hkh, if_neg hkh'] at hkk'
        exact absurd hkk'.symm (hnot k')
    · by_cases hkh' : k' = handle
      · rw [if_neg hkh, if_pos hkh'] at hkk'
        exact absurd hkk' (hnot k)
      · rw [if_neg hkh] at hk
        rw [if_neg hkh, if_neg hkh'] at hkk'
        exact h.distinct k k' hk hkk'
  · rcases List.mem_or_eq_of_mem_set hmem with hmem | rfl
    · exact h.elsewhere fd' hmem hpos
    · exact hfresh.2.2

/-- The holder of a handle closes its slot and lets go of it. -/
theorem HandlesInv.free (h : HandlesInv files g_rms_fds elsewhere)
    (hheld : (files o).holds = some handle) (hholds : f.holds = none) (hfd : f.fd = none)
    (hf : f.Consistent) :
    HandlesInv (update files o f) (closeFile handle g_rms_fds).2 elsewhere := by
  obtain ⟨hused, -⟩ := h.held o handle hheld
  have hr := (get_rms_fd_nonneg hused).1
  have hget := get_rms_fd_set h.table hr (-1)
  rw [closeFile_eq hused]
  have hother {o' : O} (ho : o' ≠ o) : update files o f o' = files o' := update_of_ne ho _ _
  have hself : update files o f o = f := update_self _ _ _
  refine ⟨table_set h.table _ fun _ => rfl, fun o' => ?_, fun o' k hk => ?_, fun o' hk => ?_,
    fun k hk => ?_, fun o₁ o₂ k h₁ h₂ => ?_, fun k k' hk hkk' => ?_, fun fd' hmem hpos => ?_⟩
  · by_cases ho : o' = o
    · rw [ho, hself]
      exact hf
    · rw [hother ho]
      exact h.consistent o'
  · have ho : o' ≠ o := by
      rintro rfl
      rw [hself, hholds] at hk
      cases hk
    rw [hother ho] at hk ⊢
    have hne : k ≠ handle := fun heq => ho (h.apart o' o handle (heq ▸ hk) hheld)
    rw [hget, if_neg hne]
    exact h.held o' k hk
  · by_cases ho : o' = o
    · rw [ho, hself]
      exact hfd
    · rw [hother ho] at hk ⊢
      exact h.closed o' hk
  · rw [hget] at hk
    split at hk
    · exact absurd hk (by decide)
    · rename_i hne
      obtain ⟨o', ho'⟩ := h.used k hk
      have ho : o' ≠ o := by
        rintro rfl
        exact hne (Option.some.inj (ho'.symm.trans hheld))
      exact ⟨o', by rw [hother ho, ho']⟩
  · have hne {x : O} (hx : (update files o f x).holds = some k) : x ≠ o := by
      rintro rfl
      rw [hself, hholds] at hx
      cases hx
    have ho₁ := hne h₁
    have ho₂ := hne h₂
    rw [hother ho₁] at h₁
    rw [hother ho₂] at h₂
    exact h.apart o₁ o₂ k h₁ h₂
  · rw [hget] at hk hkk'
    rw [hget] at hkk'
    split at hk
    · exact absurd hk (by decide)
    · rename_i hkh
      rw [if_neg hkh] at hkk'
      split at hkk'
      · rw [hkk'] at hk
        exact absurd hk (by decide)
      · exact h.distinct k k' hk hkk'
  · rcases List.mem_or_eq_of_mem_set hmem with hmem | rfl
    · exact h.elsewhere fd' hmem hpos
    · exact absurd hpos (by decide)

end

/-! ## One step -/

/-- An idle object that has a handle other than `-1` holds it. -/
theorem RecordStoreFile.Consistent.holds_idle {f : RecordStoreFile} (hf : f.Consistent)
    (hi : f.inside = .idle) (hne : f.handle ≠ -1) : 1 ≤ f.handle ∧ f.holds = some f.handle := by
  unfold RecordStoreFile.Consistent at hf
  rw [hi] at hf
  have hone : 1 ≤ f.handle := hf.resolve_left hne
  refine ⟨hone, ?_⟩
  unfold RecordStoreFile.holds
  rw [hi]
  exact if_pos hone

omit [DecidableEq O] in
/-- What a finalizer finds: a handle that the object holds, or a file that is not open. -/
theorem Handles.Inv.finalizable {s : Handles O} (h : s.Inv) {o : O}
    (hi : (s.files o).inside = .idle ∨ (s.files o).inside = .allocated) :
    (1 ≤ (s.files o).handle ∧ (s.files o).handle ≤ MAX_RMS_HANDLES ∧
      (s.files o).inside = .idle ∧ (s.files o).holds = some (s.files o).handle) ∨
    (¬ 1 ≤ (s.files o).handle ∧ (s.files o).fd = none) := by
  have hf := h.consistent o
  rcases hi with hi | hi
  · by_cases hne : (s.files o).handle = -1
    · right
      refine ⟨by omega, h.closed o ?_⟩
      unfold RecordStoreFile.holds
      rw [hi, hne]
      rfl
    · obtain ⟨hone, hholds⟩ := hf.holds_idle hi hne
      exact .inl ⟨hone, (get_rms_fd_nonneg (h.held o _ hholds).1).1.2, hi, hholds⟩
  · right
    unfold RecordStoreFile.Consistent at hf
    rw [hi] at hf
    refine ⟨by rw [hf]; decide, h.closed o ?_⟩
    unfold RecordStoreFile.holds
    rw [hi]

theorem Handles.Step.inv {s s' : Handles O} {l : HandleEvent O} (hs : Step s l s') (h : s.Inv) :
    s'.Inv := by
  cases hs with
  | @initHandle o hi =>
    refine HandlesInv.put h ?_ rfl rfl
    unfold RecordStoreFile.holds
    rw [hi]
  | @openRecordStoreFile o fd handle g_rms_fds hi hfresh halloc =>
    refine HandlesInv.alloc h hfresh halloc ?_ rfl rfl ?_
    · unfold RecordStoreFile.holds
      rw [hi]
    · have hf := h.consistent o
      unfold RecordStoreFile.Consistent at hf
      rw [hi] at hf
      exact hf
  | @openFails o hi =>
    have hf := h.consistent o
    unfold RecordStoreFile.Consistent at hf
    rw [hi] at hf
    refine HandlesInv.put h ?_ rfl (.inl hf)
    unfold RecordStoreFile.holds
    rw [hi]
    exact if_neg (by rw [hf]; decide)
  | @store o handle hi =>
    have hholds : (s.files o).holds = some handle := by
      unfold RecordStoreFile.holds
      rw [hi]
    have hone := (get_rms_fd_nonneg (h.held o handle hholds).1).1.1
    refine HandlesInv.put h ?_ rfl (.inr hone)
    rw [hholds]
    exact if_pos hone
  | @close o hi hne =>
    obtain ⟨-, hholds⟩ := (h.consistent o).holds_idle hi hne
    exact HandlesInv.put h hholds.symm rfl rfl
  | closeAgain => exact h
  | @forget o temp hi =>
    refine HandlesInv.put h ?_ rfl rfl
    unfold RecordStoreFile.holds
    rw [hi]
  | @closeFile o temp hi =>
    have hf := h.consistent o
    unfold RecordStoreFile.Consistent at hf
    rw [hi] at hf
    refine HandlesInv.free h ?_ ?_ rfl (.inl hf)
    · unfold RecordStoreFile.holds
      rw [hi]
    · exact if_neg (by rw [hf]; decide)
  | @finalize o hi hr =>
    obtain ⟨-, -, hidle, hholds⟩ | ⟨hnot, -⟩ := h.finalizable hi
    · refine HandlesInv.free h hholds ?_ rfl ?_
      · unfold RecordStoreFile.holds
        rw [hidle]
        rfl
      · unfold RecordStoreFile.Consistent
        rw [hidle]
        exact .inl rfl
    · exact absurd hr.1 hnot
  | finalizeNothing => exact h
  | opensElsewhere hfresh =>
    refine ⟨h.table, h.consistent, h.held, h.closed, h.used, h.apart, h.distinct, ?_⟩
    intro fd' hmem hpos hin
    rcases List.mem_cons.1 hin with rfl | hin
    · exact hfresh.2.1 hmem
    · exact h.elsewhere fd' hmem hpos hin
  | closesElsewhere =>
    refine ⟨h.table, h.consistent, h.held, h.closed, h.used, h.apart, h.distinct, ?_⟩
    exact fun fd' hmem hpos hin => h.elsewhere fd' hmem hpos (List.mem_of_mem_erase hin)

/-! ## Files never share a handle -/

/-- Open files hold different handles that lead to their own descriptors; without open files all
slots are free. -/
structure Handles.Separate (s : Handles O) : Prop where
  different : ∀ o o' handle handle', o ≠ o' → (s.files o).holds = some handle →
    (s.files o').holds = some handle' → handle ≠ handle' ∧ (s.files o).fd ≠ (s.files o').fd
  own : ∀ o handle, (s.files o).holds = some handle →
    ∃ fd, (s.files o).fd = some fd ∧ get_rms_fd s.g_rms_fds handle = fd ∧ 0 ≤ fd ∧ fd ∉ s.elsewhere
  free : (∀ o, (s.files o).holds = none) →
    s.g_rms_fds = List.replicate MAX_RMS_HANDLES.toNat (-1)

/-- What an object does leaves the other files open under their handles, and a close or a finalizer
closes the object's own descriptor, if it has one. -/
structure Handles.Harmless (s : Handles O) (o : O) (action : FileAction) (s' : Handles O) : Prop where
  closes : ∀ closed, action = .closeFile closed ∨ action = .finalize closed →
    closed = (s.files o).fd
  keeps : ∀ o', o' ≠ o → s'.files o' = s.files o' ∧
    ∀ handle, (s.files o').holds = some handle →
      get_rms_fd s'.g_rms_fds handle = get_rms_fd s.g_rms_fds handle

omit [DecidableEq O] in
theorem Handles.Inv.separate {s : Handles O} (h : s.Inv) : s.Separate := by
  refine ⟨fun o o' handle handle' hne hh hh' => ?_, fun o handle hh => ?_, fun hnone => ?_⟩
  · have hdiff : handle ≠ handle' := by
      rintro rfl
      exact hne (h.apart o o' handle hh hh')
    obtain ⟨hpos, hfd⟩ := h.held o handle hh
    refine ⟨hdiff, fun heq => hdiff (h.distinct handle handle' hpos ?_)⟩
    rw [hfd, (h.held o' handle' hh').2] at heq
    exact Option.some.inj heq
  · obtain ⟨hpos, hfd⟩ := h.held o handle hh
    exact ⟨_, hfd, rfl, hpos, h.elsewhere _ (get_rms_fd_nonneg hpos).2 hpos⟩
  · refine List.eq_replicate_iff.2 ⟨h.table.size, fun fd hmem => ?_⟩
    apply h.table.free fd hmem
    by_contra hpos
    obtain ⟨i, hi⟩ := List.mem_iff_getElem?.1 hmem
    have hsize := h.table.size
    have hlt := (List.getElem?_eq_some_iff.1 hi).1
    have hget : get_rms_fd s.g_rms_fds (i + 1) = fd := by
      unfold MAX_RMS_HANDLES at hsize
      rw [get_rms_fd_eq (by unfold MAX_RMS_HANDLES; omega), List.getD_eq_getElem?_getD,
        show ((i : Int) + 1 - 1).toNat = i by omega, hi]
      rfl
    obtain ⟨o, ho⟩ := h.used (i + 1) (by omega)
    rw [hnone o] at ho
    cases ho

omit [DecidableEq O] in
/-- Freeing the slot of one handle leaves every other handle's slot. -/
theorem Handles.Inv.get_closeFile {s : Handles O} (h : s.Inv) {o o' : O} {handle handle' : Int}
    (hne : o' ≠ o) (hh : (s.files o).holds = some handle) (hh' : (s.files o').holds = some handle') :
    get_rms_fd (closeFile handle s.g_rms_fds).2 handle' = get_rms_fd s.g_rms_fds handle' := by
  have hpos := (h.held o handle hh).1
  have hdiff : handle' ≠ handle := by
    rintro rfl
    exact hne (h.apart o' o handle' hh' hh)
  rw [closeFile_eq hpos, get_rms_fd_set h.table (get_rms_fd_nonneg hpos).1, if_neg hdiff]

omit [DecidableEq O] in
theorem Handles.Inv.closed_eq {s : Handles O} (h : s.Inv) {o : O} {handle : Int}
    (hh : (s.files o).holds = some handle) :
    (closeFile handle s.g_rms_fds).1 = (s.files o).fd := by
  obtain ⟨hpos, hfd⟩ := h.held o handle hh
  rw [closeFile_eq hpos, hfd]

theorem Handles.Step.harmless {s s' : Handles O} {o : O} {action : FileAction}
    (hs : Step s (.file o action) s') (h : s.Inv) : s.Harmless o action s' := by
  have hput {f : RecordStoreFile} {o' : O} (ho : o' ≠ o) : s.put o f o' = s.files o' :=
    update_of_ne ho _ _
  cases hs with
  | initHandle | openFails | store | close | forget =>
    exact ⟨by rintro _ (⟨⟨⟩⟩ | ⟨⟨⟩⟩), fun o' ho => ⟨hput ho, fun _ _ => rfl⟩⟩
  | closeAgain =>
    exact ⟨by rintro _ (⟨⟨⟩⟩ | ⟨⟨⟩⟩), fun _ _ => ⟨rfl, fun _ _ => rfl⟩⟩
  | openRecordStoreFile hi hfresh halloc =>
    refine ⟨by rintro _ (⟨⟨⟩⟩ | ⟨⟨⟩⟩), fun o' ho => ⟨hput ho, ?_⟩⟩
    intro handle' hh'
    obtain ⟨hone, hlt, hslot, rfl⟩ := alloc_rms_handle_cases halloc
    have hsize := h.table.size
    have hpos := (h.held o' handle' hh').1
    unfold MAX_RMS_HANDLES at hsize
    rw [get_rms_fd_set h.table ⟨hone, by unfold MAX_RMS_HANDLES; omega⟩, if_neg]
    rintro rfl
    rw [get_rms_fd_eq ⟨hone, by unfold MAX_RMS_HANDLES; omega⟩] at hpos
    omega
  | @closeFile _ temp hi =>
    have hh : (s.files o).holds = some temp := by
      unfold RecordStoreFile.holds
      rw [hi]
    refine ⟨fun closed hact => ?_, fun o' ho => ⟨hput ho, fun handle' => h.get_closeFile ho hh⟩⟩
    rcases hact with hact | hact <;> cases hact
    exact h.closed_eq hh
  | finalize hi hr =>
    obtain ⟨-, -, -, hh⟩ | ⟨hnot, -⟩ := h.finalizable hi
    · refine ⟨fun closed hact => ?_, fun o' ho => ⟨hput ho, fun handle' => h.get_closeFile ho hh⟩⟩
      rcases hact with hact | hact <;> cases hact
      exact h.closed_eq hh
    · exact absurd hr.1 hnot
  | finalizeNothing hi hnr =>
    refine ⟨fun closed hact => ?_, fun _ _ => ⟨rfl, fun _ _ => rfl⟩⟩
    obtain ⟨hone, hmax, -⟩ | ⟨-, hfd⟩ := h.finalizable hi
    · exact absurd ⟨hone, hmax⟩ hnr
    · rcases hact with hact | hact <;> cases hact
      exact hfd.symm

/-- **Open record store files never share a handle**, in any interleaving. -/
theorem handles_never_shared {elsewhere : List Int} {events : List (HandleEvent O)} {s : Handles O}
    (hrun : Lts.Run Handles.Step (Handles.start elsewhere) events s) :
    s.Separate ∧ ∀ o action s', Handles.Step s (.file o action) s' → s.Harmless o action s' := by
  have hinv : s.Inv := hrun.invariant (fun _ _ _ h hs => hs.inv h) (Handles.start_inv elsewhere)
  exact ⟨hinv.separate, fun _ _ _ hs => hs.harmless hinv⟩

/-- The second file gets the slot that the first one gave up, and then the first is finalized. -/
def reuse : List (HandleEvent Bool) :=
  [.file true .initHandle, .file true .openRecordStoreFile, .file true .store,
    .file true .close, .file true .forget, .file true (.closeFile (some 3)),
    .file false .initHandle, .file false .openRecordStoreFile, .file true (.finalize none)]

theorem handles_never_shared_reuse :
    ∃ s, Lts.Run Handles.Step (Handles.start [0, 1, 2]) reuse s ∧
      s.Separate ∧ ∀ o action s', Handles.Step s (.file o action) s' → s.Harmless o action s' := by
  obtain ⟨s, hrun⟩ : ∃ s, Lts.Run Handles.Step (Handles.start [0, 1, 2]) reuse s := by
    apply Lts.Run.exists_cons (.initHandle rfl)
    apply Lts.Run.exists_cons (@Handles.Step.openRecordStoreFile Bool _ _ true 3 1 _ rfl
      ⟨by decide, by decide, by decide⟩ rfl)
    apply Lts.Run.exists_cons (.store rfl)
    apply Lts.Run.exists_cons (.close rfl (by decide))
    apply Lts.Run.exists_cons (.forget rfl)
    apply Lts.Run.exists_cons (@Handles.Step.closeFile Bool _ _ true 1 rfl)
    apply Lts.Run.exists_cons (.initHandle rfl)
    apply Lts.Run.exists_cons (@Handles.Step.openRecordStoreFile Bool _ _ false 3 1 _ rfl
      ⟨by decide, by decide, by decide⟩ rfl)
    apply Lts.Run.exists_cons (.finalizeNothing (.inl rfl) (by decide))
    exact ⟨_, .nil _⟩
  exact ⟨s, hrun, handles_never_shared hrun⟩

end FroggyKVM.Rms
