/-
# FroggyKVM.Gc.DeadRanges — the dead-range list describes the heap.

The walk of `compute_new_object_locations` comes to each live object and each dead range in turn: it
finds the size of a live object although the near of the object may already be a forwarding word, and
it writes records into dead ranges only.  What it has written is the invariant `WalkInv`; in the end
compaction visits the live ranges.
-/
import FroggyKVM.Gc.LiveHeap

namespace FroggyKVM.Gc

namespace MarkedHeap

variable {heap : MarkedHeap}

/-! ## What the walk has recorded -/

/-- The run of live objects that has been open since the start of the walk. -/
def openAt (start p : Nat) : Option (Nat × Nat) := if p = start then none else some (start, p)

/-- The live range in front of the first dead range. -/
def lead (start f : Nat) : List (Nat × Nat) := if f = start then [] else [(start, f)]

/-- What the records of the walk over `start` to `s.p` tell: `run` is the live range that is still open,
`closed` are those before it.  `f` is the first dead range and `d` the last. -/
inductive Recorded (heap : MarkedHeap) (free : Nat → Prop) (start : Nat) (s : Scan) :
    Option (Nat × Nat) → List (Nat × Nat) → Prop
  | first (hlast : s.lastDead = none) (hprev : s.prevLastDead = none) (hfirst : s.firstDead = none)
      (hle : start ≤ s.p) (htop : s.p ≤ heap.inlineAllocationTop) :
      Recorded heap free start s (openAt start s.p) []
  | dead {f d : Nat} {rs : List (Nat × Nat)} (hlast : s.lastDead = some d)
      (hfirst : s.firstDead = some f) (hle : start ≤ f) (hrecords : Records free s.memory f rs d)
      (hlt : d < s.p) (htop : d < heap.inlineAllocationTop) (hfree : ∀ x, d ≤ x → x < s.p → free x)
      (hlive : s.p < heap.inlineAllocationTop → s.bits.testBitFor s.p = true) :
      Recorded heap free start s none (lead start f ++ rs)
  | live {f d a : Nat} {rs : List (Nat × Nat)} (hlast : s.lastDead = none)
      (hprev : s.prevLastDead = some d) (hfirst : s.firstDead = some f) (hle : start ≤ f)
      (hrecords : Records free s.memory f rs d) (hnext : LiveRange.HasNextLive s.memory d a)
      (hda : d < a) (hap : a < s.p) (htop : s.p ≤ heap.inlineAllocationTop)
      (hfree : ∀ x, d ≤ x → x < a → free x) :
      Recorded heap free start s (some (a, s.p)) (lead start f ++ rs)

/-- From `s` to `s'` the walk has passed a live object of `k` words. -/
structure Passed (s s' : Scan) (k : Nat) (klass : UInt32) : Prop where
  p : s'.p = s.p + k
  lastDead : s'.lastDead = none
  prevLastDead : s'.prevLastDead = s.lastDead.or s.prevLastDead
  firstDead : s'.firstDead = s.firstDead
  memory : s'.memory = s.lastDead.elim (Function.update s.memory s.p klass) fun last_dead =>
    LiveRange.setNextLive (Function.update s.memory s.p klass) last_dead s.p

namespace Recorded

variable {free : Nat → Prop} {start : Nat} {s s' : Scan} {run : Option (Nat × Nat)}
  {closed : List (Nat × Nat)}

theorem sameButSlices (h : heap.Recorded free start s run closed) (hs : SameButSlices s s') :
    heap.Recorded free start s' run closed := by
  rw [hs]
  cases h with
  | first hlast hprev hfirst hle htop => exact .first hlast hprev hfirst hle htop
  | dead hlast hfirst hle hrecords hlt htop hfree hlive =>
    exact .dead hlast hfirst hle hrecords hlt htop hfree hlive
  | live hlast hprev hfirst hle hrecords hnext hda hap htop hfree =>
    exact .live hlast hprev hfirst hle hrecords hnext hda hap htop hfree

/-- A live object prolongs the open live range, or opens one. -/
theorem passed (h : heap.Recorded free start s run closed) {k : Nat} {klass : UInt32}
    (hs : Passed s s' k klass) (hk : 0 < k) (hfit : s.p + k ≤ heap.inlineAllocationTop) :
    ∃ run', heap.Recorded free start s' run' closed ∧
      ∀ rest, joinFrom run' rest = joinFrom run ((s.p, s.p + k) :: rest) := by
  obtain ⟨hp, hlast', hprev', hfirst', hmemory⟩ := hs
  cases h with
  | first hlast hprev hfirst hle htop =>
    rw [hlast, hprev] at hprev'
    refine ⟨_, .first hlast' hprev' (hfirst'.trans hfirst) (by omega) (by omega), fun rest => ?_⟩
    unfold openAt
    rw [hp, if_neg (by omega)]
    split
    · next heq => rw [heq, joinFrom]
    · rw [joinFrom_adjacent]
  | @dead f d rs hlast hfirst hle hrecords hlt htop hfree hlive =>
    rw [hlast] at hprev' hmemory
    have hmemory' : s'.memory = LiveRange.setNextLive (Function.update s.memory s.p klass) d s.p := hmemory
    have hrecords' : Records free s'.memory f rs d := by
      refine hrecords.congr fun x _ hx _ => ?_
      rw [hmemory', LiveRange.setNextLive_of_ne (by omega), Function.update_of_ne (by omega)]
    have hnext : LiveRange.HasNextLive s'.memory d s.p := by
      rw [hmemory']
      exact LiveRange.setNextLive_hasNextLive
    refine ⟨some (s.p, s'.p), .live hlast' hprev' (hfirst'.trans hfirst) hle hrecords' hnext hlt
      (by omega) (by omega) hfree, fun rest => ?_⟩
    rw [hp, joinFrom]
  | @live f d a rs hlast hprev hfirst hle hrecords hnext hda hap htop hfree =>
    rw [hlast, hprev] at hprev'
    rw [hlast] at hmemory
    have hmemory' : s'.memory = Function.update s.memory s.p klass := hmemory
    have hrecords' : Records free s'.memory f rs d := by
      refine hrecords.congr fun x _ hx _ => ?_
      rw [hmemory', Function.update_of_ne (by omega)]
    have hnext' : LiveRange.HasNextLive s'.memory d a := by
      unfold LiveRange.HasNextLive at hnext ⊢
      rw [hmemory', Function.update_of_ne (by omega)]
      exact hnext
    refine ⟨some (a, s'.p), .live hlast' hprev' (hfirst'.trans hfirst) hle hrecords' hnext' hda
      (by omega) (by omega) hfree, fun rest => ?_⟩
    rw [hp, joinFrom_adjacent]

/-- Beside its own word, a live object changes a free word behind the start of the walk. -/
theorem passed_outside (h : heap.Recorded free start s run closed) {k : Nat} {klass : UInt32}
    (hs : Passed s s' k klass) {x : Nat} (hne : x ≠ s.p)
    (hx : x < start ∨ s.p ≤ x ∨ ¬ free x) : s'.memory x = s.memory x := by
  rw [hs.memory]
  cases h with
  | first hlast | live hlast =>
    rw [hlast]
    exact Function.update_of_ne hne _ _
  | @dead f d rs hlast hfirst hle hrecords hlt htop hfree hlive =>
    have hfd := hrecords.le
    have hxd : x ≠ d := by
      rintro rfl
      exact hx.elim (by omega) fun h => h.elim (by omega) fun h => h (hfree x (Nat.le_refl x) hlt)
    rw [hlast]
    exact (LiveRange.setNextLive_of_ne hxd).trans (Function.update_of_ne hne _ _)

/-- The word of a live object is written once. -/
theorem passed_self (h : heap.Recorded free start s run closed) {k : Nat} {klass : UInt32}
    (hs : Passed s s' k klass) : s'.memory s.p = klass := by
  rw [hs.memory]
  cases h with
  | first hlast | live hlast =>
    rw [hlast]
    exact Function.update_self _ _ _
  | @dead f d rs hlast hfirst hle hrecords hlt htop hfree hlive =>
    rw [hlast]
    exact (LiveRange.setNextLive_of_ne (by omega)).trans (Function.update_self _ _ _)

/-- A dead range closes the open live range. -/
theorem found (h : heap.Recorded free start s run closed) (hp : s.p < heap.inlineAllocationTop)
    (hdead : s.bits.testBitFor s.p = false)
    (hfree : ∀ x, s.p ≤ x → x < heap.findLive s.bits s.p → free x) :
    ∃ closed', heap.Recorded free start (heap.deadRange s) none closed' ∧
      ∀ rest, (∀ r ∈ rest.head?, s.p ≠ r.1) →
        closed' ++ joinFrom none rest = closed ++ joinFrom run rest := by
  obtain ⟨hgt, hlive', -⟩ := findLive_spec hp hdead
  cases h with
  | first hlast hprev hfirst hle htop =>
    have hfirst' : (heap.deadRange s).firstDead = some s.p := by
      unfold deadRange
      rw [hprev]
      rfl
    refine ⟨_, .dead rfl hfirst' hle (.nil s.p) hgt hp hfree hlive', fun rest hrest => ?_⟩
    unfold lead openAt
    split
    · rfl
    · rw [joinFrom_close hrest]
      rfl
  | dead hlast hfirst hle hrecords hlt htop hfree hlive =>
    rw [hlive hp] at hdead
    cases hdead
  | @live f d a rs hlast hprev hfirst hle hrecords hnext hda hap htop hfree' =>
    have hmemory : (heap.deadRange s).memory = LiveRange.setNextDead s.memory d s.p := by
      unfold deadRange
      rw [hprev]
      rfl
    have hfirst' : (heap.deadRange s).firstDead = some f := by
      unfold deadRange
      rw [hprev]
      exact hfirst
    have hrecords' : Records free (heap.deadRange s).memory f (rs ++ [(a, s.p)]) s.p := by
      rw [hmemory]
      refine Records.snoc (hrecords.congr fun x _ hx _ => ?_) (LiveRange.setNextDead_hasRange hnext)
        hda hap hfree'
      exact LiveRange.setNextDead_outside hnext hda (Or.inl hx)
    refine ⟨_, .dead rfl hfirst' hle hrecords' hgt hp hfree hlive', fun rest hrest => ?_⟩
    rw [joinFrom_close hrest]
    simp only [List.append_assoc, List.singleton_append]

/-- A dead range changes free words behind the start of the walk. -/
theorem found_outside (h : heap.Recorded free start s run closed) (hp : s.p < heap.inlineAllocationTop)
    (hdead : s.bits.testBitFor s.p = false) {x : Nat} (hx : x < start ∨ s.p ≤ x ∨ ¬ free x) :
    (heap.deadRange s).memory x = s.memory x := by
  unfold deadRange
  dsimp only
  cases h with
  | first hlast hprev =>
    rw [hprev]
    rfl
  | dead hlast hfirst hle hrecords hlt htop hfree hlive =>
    rw [hlive hp] at hdead
    cases hdead
  | @live f d a rs hlast hprev hfirst hle hrecords hnext hda hap htop hfree =>
    have hfd := hrecords.le
    rw [hprev]
    refine LiveRange.setNextDead_outside hnext hda ?_
    by_cases hin : d ≤ x ∧ x < a
    · exact hx.elim (by omega) fun h => h.elim (by omega) fun h => absurd (hfree x hin.1 hin.2) h
    · omega

/-- **What is recorded in the end**: no dead range at all, or a list of them that leads to the top. -/
theorem finish (h : heap.Recorded free start s run closed) (hp : heap.inlineAllocationTop ≤ s.p) :
    (s.firstDead = none ∧ start ≤ heap.inlineAllocationTop ∧
        closed ++ joinFrom run [] = lead start heap.inlineAllocationTop) ∨
      ∃ f rs, s.firstDead = some f ∧ start ≤ f ∧ f < heap.inlineAllocationTop ∧
        closed ++ joinFrom run [] = lead start f ++ rs ∧
        DeadList free (heap.lastRange s) heap.inlineAllocationTop f rs := by
  cases h with
  | first hlast hprev hfirst hle htop =>
    have hend : s.p = heap.inlineAllocationTop := Nat.le_antisymm htop hp
    refine Or.inl ⟨hfirst, by omega, ?_⟩
    unfold openAt lead
    rw [hend]
    split <;> rfl
  | @dead f d rs hlast hfirst hle hrecords hlt htop hfree hlive =>
    have hfd := hrecords.le
    have hmemory : heap.lastRange s = LiveRange.setNextDead
        (LiveRange.setNextLive s.memory d heap.inlineAllocationTop) d heap.inlineAllocationTop := by
      unfold lastRange
      rw [hlast]
    have hnext : LiveRange.HasNextLive (LiveRange.setNextLive s.memory d heap.inlineAllocationTop) d
        heap.inlineAllocationTop := LiveRange.setNextLive_hasNextLive
    refine Or.inr ⟨f, rs, hfirst, hle, by omega, by rw [joinFrom, List.append_nil], d, ?_,
      Or.inr ⟨htop, ?_, fun x hd ht => hfree x hd (by omega)⟩⟩
    · refine hrecords.congr fun x _ hx _ => ?_
      rw [hmemory, LiveRange.setNextDead_outside hnext htop (Or.inl hx),
        LiveRange.setNextLive_of_ne (by omega)]
    · rw [hmemory]
      exact LiveRange.setNextDead_hasRange hnext
  | @live f d a rs hlast hprev hfirst hle hrecords hnext hda hap htop hfree =>
    have hfd := hrecords.le
    have hend : s.p = heap.inlineAllocationTop := Nat.le_antisymm htop hp
    have hmemory : heap.lastRange s = LiveRange.setNextDead s.memory d heap.inlineAllocationTop := by
      unfold lastRange
      rw [hlast, hprev]
      rfl
    refine Or.inr ⟨f, rs ++ [(a, s.p)], hfirst, hle, by omega, by rw [joinFrom, List.append_assoc],
      s.p, ?_, Or.inl hend⟩
    rw [hmemory, hend]
    refine Records.snoc (hrecords.congr fun x _ hx _ => ?_) (LiveRange.setNextDead_hasRange hnext)
      hda (by omega) hfree
    exact LiveRange.setNextDead_outside hnext hda (Or.inl hx)

/-- The last record changes free words behind the start of the walk. -/
theorem finish_outside (h : heap.Recorded free start s run closed)
    (hp : heap.inlineAllocationTop ≤ s.p) {x : Nat} (hx : x < start ∨ ¬ free x) :
    heap.lastRange s x = s.memory x := by
  unfold lastRange
  cases h with
  | first hlast hprev =>
    rw [hlast, hprev]
    rfl
  | @dead f d rs hlast hfirst hle hrecords hlt htop hfree hlive =>
    have hfd := hrecords.le
    have hout : x < d ∨ heap.inlineAllocationTop ≤ x := by
      by_cases hin : d ≤ x ∧ x < heap.inlineAllocationTop
      · exact hx.elim (by omega) fun h => absurd (hfree x hin.1 (by omega)) h
      · omega
    rw [hlast]
    exact (LiveRange.setNextDead_outside LiveRange.setNextLive_hasNextLive htop hout).trans
      (LiveRange.setNextLive_of_ne (by omega))
  | @live f d a rs hlast hprev hfirst hle hrecords hnext hda hap htop hfree =>
    have hfd := hrecords.le
    rw [hlast, hprev]
    refine LiveRange.setNextDead_outside hnext hda ?_
    by_cases hin : d ≤ x ∧ x < a
    · exact hx.elim (by omega) fun h => absurd (hfree x hin.1 hin.2) h
    · omega

end Recorded

/-! ## The walk -/

/-- Where the walk starts: behind the objects that stay. -/
structure Prefixed (heap : MarkedHeap) (objects : List Nat) (start : Scan) (fixed moving : List Nat) :
    Prop where
  scan : heap.firstScan = .ok start
  initial : ∃ p top bits, start = heap.startScan p top bits
  objects_eq : objects = fixed ++ moving
  laid : heap.Laid start.bits start.p moving
  walkStart_le : heap.walkStart ≤ start.p
  le_top : start.p ≤ heap.inlineAllocationTop
  fixed_lt : ∀ o ∈ fixed, o < start.p
  split : heap.SplitCollection →
    start.p = heap.youngGenerationStart ∧ start.compactionTop = heap.oldGenerationEnd
  whole : ¬ heap.SplitCollection → start.compactionTop = start.p ∧ ∀ o ∈ moving, start.p < o

theorem LiveHeap.prefixed {objects : List Nat} (h : heap.LiveHeap objects) :
    ∃ start fixed moving, heap.Prefixed objects start fixed moving := by
  have hlaid := h.laid
  have hle := h.walkStart_le
  unfold walkStart at hlaid hle
  by_cases hsplit : heap.SplitCollection
  · rw [if_pos hsplit] at hlaid hle
    refine ⟨_, [], objects, if_pos hsplit, ⟨_, _, _, rfl⟩, rfl, hlaid, ?_, hle,
      fun o ho => absurd ho List.not_mem_nil, fun _ => ⟨rfl, rfl⟩, fun hwhole => absurd hsplit hwhole⟩
    unfold walkStart
    rw [if_pos hsplit]
    exact Nat.le_refl _
  · rw [if_neg hsplit] at hlaid hle
    obtain ⟨q, bits, fixed, moving, hmark, hobjects, hpq, hq, hmoving, hfixed, hbehind⟩ :=
      markForwardPointers_laid (Nat.lt_succ_self _) hle hlaid h.slots
    refine ⟨heap.startScan q q bits, fixed, moving, ?_, ⟨_, _, _, rfl⟩, hobjects, hmoving, ?_, hq,
      hfixed, fun h => absurd h hsplit, fun _ => ⟨rfl, hbehind⟩⟩
    · unfold firstScan
      rw [if_neg hsplit, hmark]
    · unfold walkStart
      rw [if_neg hsplit]
      exact hpq

/-- The object's word tells where it goes and what its near was; its other words are as before. -/
def Forwarded (heap : MarkedHeap) (memory : Memory) (o : Nat) : Prop :=
  (∃ so, so < heap.slices.sliceSize ∧
    memory o = encodeKlass heap.slices so (heap.nearOffset (heap.memory o))) ∧
  ∀ x, o < x → x < o + heap.objectSize o → memory x = heap.memory x

/-- Forwarding words give back the nears that they were made of. -/
def Decodes (heap : MarkedHeap) : Prop := ∀ so w, so < heap.slices.sliceSize → heap.IsNear w →
  decodeNear heap.slices heap.rom heap.heapStart
    (encodeKlass heap.slices so (heap.nearOffset w)) = w

/-- **The invariant of the walk**: it has passed the objects `passed`, the objects `rest` lie ahead. -/
structure WalkInv (heap : MarkedHeap) (start : Scan) (moving : List Nat) (s : Scan)
    (passed rest : List Nat) : Prop where
  moving_eq : moving = passed ++ rest
  le : start.p ≤ s.p
  laid : heap.Laid s.bits s.p rest
  ahead : ∀ x, x < start.p ∨ s.p ≤ x → s.memory x = heap.memory x
  behind : ∀ o ∈ passed, start.p ≤ o ∧ o + heap.objectSize o ≤ s.p ∧ s.bits.testBitFor o = true ∧
    heap.Forwarded s.memory o
  compactionStart : s.compactionStart = passed.head?.getD heap.collectionAreaEnd
  compactionStarted : s.compactionStarted = !passed.isEmpty
  compactionTop : s.compactionTop = start.compactionTop + (passed.map heap.objectSize).sum
  recorded : ∃ run closed, heap.Recorded (heap.Free moving) start.p s run closed ∧
    closed ++ joinFrom run (rest.map heap.span) = joinFrom none (moving.map heap.span)

namespace WalkInv

variable {objects fixed moving passed rest : List Nat} {start s t : Scan}

theorem initial (hpre : heap.Prefixed objects start fixed moving) :
    heap.WalkInv start moving start [] moving := by
  obtain ⟨p, top, bits, rfl⟩ := hpre.initial
  refine ⟨rfl, Nat.le_refl _, hpre.laid, fun _ _ => rfl, fun o ho => absurd ho List.not_mem_nil, rfl,
    rfl, rfl, none, [], ?_, rfl⟩
  have hfirst : heap.Recorded (heap.Free moving) p (heap.startScan p top bits) (openAt p p) [] :=
    .first rfl rfl rfl (Nat.le_refl p) hpre.le_top
  rwa [openAt, if_pos rfl] at hfirst

theorem sameButSlices (h : heap.WalkInv start moving s passed rest) (hs : SameButSlices s t) :
    heap.WalkInv start moving t passed rest := by
  obtain ⟨run, closed, hrecorded, hjoin⟩ := h.recorded
  have hrecorded' := hrecorded.sameButSlices hs
  rw [hs] at hrecorded' ⊢
  exact ⟨h.moving_eq, h.le, h.laid, h.ahead, h.behind, h.compactionStart, h.compactionStarted,
    h.compactionTop, run, closed, hrecorded', hjoin⟩

/-- Objects that have been passed lie behind the first of them. -/
theorem compactionStart_le (hpre : heap.Prefixed objects start fixed moving)
    (h : heap.WalkInv start moving s passed rest) : ∀ o ∈ passed, s.compactionStart ≤ o := by
  intro o ho
  cases passed with
  | nil => cases ho
  | cons o₀ os =>
    have hlaid := hpre.laid
    have heq := h.compactionStart
    rw [h.moving_eq] at hlaid
    obtain ⟨-, -, -, -, hrest⟩ := hlaid
    rw [List.head?_cons, Option.getD_some] at heq
    rcases List.mem_cons.1 ho with rfl | ho
    · omega
    · have hle := (hrest.bounds o (List.mem_append_left _ ho)).1
      omega

/-- An object behind the start of the walk has been passed. -/
theorem mem_passed (hpre : heap.Prefixed objects start fixed moving)
    (h : heap.WalkInv start moving s passed rest) {o : Nat} (ho : o ∈ objects) (hle : start.p ≤ o)
    (hlt : o < s.p) : o ∈ passed := by
  rw [hpre.objects_eq, h.moving_eq, List.mem_append, List.mem_append] at ho
  rcases ho with ho | ho | ho
  · have hfixed := hpre.fixed_lt o ho
    omega
  · exact ho
  · have hbounds := (h.laid.bounds o ho).1
    omega

/-- **The class of a live object** is found although its near may have been passed before. -/
theorem decode (hlive : heap.LiveHeap objects) (hpre : heap.Prefixed objects start fixed moving)
    (hdecode : heap.Decodes)
    (h : heap.WalkInv start moving s passed rest) (ho : s.p ∈ objects)
    (hp : s.p < heap.inlineAllocationTop) :
    heap.decodeFarClassWithRealNear s s.p = heap.blueprint s.p := by
  have hword : s.memory s.p = heap.memory s.p := h.ahead s.p (Or.inr (Nat.le_refl _))
  have htop := hlive.top_lt
  have hpointer : (pointer s.p).toNat = 4 * s.p := by
    unfold pointer
    exact UInt32.toNat_ofNat_of_lt' (show 4 * s.p < 2 ^ 32 by omega)
  -- a near between the start of the walk and the object has been passed
  have hpassed : start.p ≤ address (heap.memory s.p) → address (heap.memory s.p) < s.p →
      address (heap.memory s.p) ∈ passed := by
    intro hle hlt
    have hwalk := hpre.walkStart_le
    exact h.mem_passed hpre (hlive.near_live s.p ho (by omega) (by omega)) hle hlt
  unfold decodeFarClassWithRealNear blueprint
  dsimp only
  rw [hword]
  split
  · next hencoded =>
    obtain ⟨hstart, hlt, hcontains, hbit⟩ := hencoded
    rw [UInt32.lt_iff_toNat_lt, hpointer] at hlt
    have haddress : address (heap.memory s.p) < s.p := by
      unfold address
      omega
    have hstart' : start.p ≤ address (heap.memory s.p) := by
      rw [h.compactionStart] at hstart
      cases passed with
      | nil =>
        have harea := hlive.areaEnd
        rw [List.head?_nil, Option.getD_none] at hstart
        omega
      | cons o₀ os =>
        have hle := (h.behind o₀ List.mem_cons_self).1
        rw [List.head?_cons, Option.getD_some] at hstart
        omega
    obtain ⟨-, -, -, ⟨so, hso, hklass⟩, -⟩ := h.behind _ (hpassed hstart' haddress)
    rw [hklass, hdecode so _ hso (hlive.near s.p ho)]
  · next hraw =>
    by_cases hin : start.p ≤ address (heap.memory s.p) ∧ address (heap.memory s.p) < s.p
    · have hmem := hpassed hin.1 hin.2
      obtain ⟨-, -, hbit, -⟩ := h.behind _ hmem
      have hcstart := h.compactionStart_le hpre _ hmem
      have hheap : heap.heapStart ≤ start.p := by
        obtain ⟨p, top, bits, hfirst, hle⟩ := @firstScan_spec heap
        have heq := Except.ok.inj (hpre.scan.symm.trans hfirst)
        rw [heq]
        exact hle
      have hmark := heap.allocationTop_le
      have hlt : heap.memory s.p < pointer s.p := by
        rw [UInt32.lt_iff_toNat_lt, hpointer]
        unfold address at hin
        omega
      refine absurd ⟨hcstart, hlt, ⟨?_, ?_⟩, hbit⟩ hraw
      · unfold address at hin
        omega
      · unfold address at hin
        omega
    · rw [h.ahead _ (by omega)]

/-- Words of objects that have been passed are not free. -/
theorem not_free (h : heap.WalkInv start moving s passed rest) {o x : Nat} (ho : o ∈ passed)
    (hx : o ≤ x ∧ x < o + heap.objectSize o) : ¬ heap.Free moving x := by
  intro hfree
  rw [h.moving_eq] at hfree
  exact hfree o (List.mem_append_left _ ho) hx

/-- What is written outside of the objects that have been passed does not change them. -/
theorem forwarded_congr {memory' : Memory} (h : heap.WalkInv start moving s passed rest) {o : Nat}
    (ho : o ∈ passed) (heq : ∀ x, x < s.p → ¬ heap.Free moving x → memory' x = s.memory x) :
    heap.Forwarded memory' o := by
  obtain ⟨hstart, hend, -, ⟨so, hso, hklass⟩, hinside⟩ := h.behind o ho
  have hpos := @span_pos heap o
  refine ⟨⟨so, hso, ?_⟩, fun x hlow hhigh => ?_⟩
  · rw [heq o (by omega) (h.not_free ho ⟨Nat.le_refl o, by omega⟩), hklass]
  · rw [heq x (by omega) (h.not_free ho ⟨by omega, hhigh⟩), hinside x hlow hhigh]

/-- What a turn at a live object does, when the size of the object is known. -/
theorem liveObject_passed (hclass : heap.decodeFarClassWithRealNear s s.p = heap.blueprint s.p)
    (hstep : heap.liveObject s = .ok t) :
    (∃ so, so < heap.slices.sliceSize ∧ Passed s t (heap.objectSize s.p)
      (encodeKlass heap.slices so (heap.nearOffset (s.memory s.p)))) ∧
    (∀ x, x ≤ s.p ∨ s.p + heap.objectSize s.p ≤ x → t.bits.testBitFor x = s.bits.testBitFor x) ∧
    t.compactionStarted = true ∧
    t.compactionStart = (if s.compactionStarted then s.compactionStart else s.p) ∧
    t.compactionTop = s.compactionTop + heap.objectSize s.p := by
  unfold liveObject at hstep
  rw [hclass] at hstep
  dsimp only at hstep
  rw [← objectSize] at hstep
  split at hstep
  · next hoffset =>
    obtain rfl := Except.ok.inj hstep
    refine ⟨⟨_, ?_, ⟨rfl, rfl, rfl, rfl, rfl⟩⟩, fun x hx => ?_, rfl, rfl, rfl⟩
    · have hlt := heap.slices.sliceSize.toNat_lt
      rw [UInt32.lt_iff_toNat_lt, UInt32.toNat_ofNat_of_lt' (show _ < 2 ^ 32 by omega)]
      exact hoffset
    · dsimp only
      split
      · exact Bitvector.testBitFor_clearBitRange (by omega) _
      · rfl
  · cases hstep

/-- A turn of the walk at a live object. -/
theorem live (hlive : heap.LiveHeap objects) (hpre : heap.Prefixed objects start fixed moving)
    (hdecode : heap.Decodes)
    (h : heap.WalkInv start moving s passed rest) (hp : s.p < heap.inlineAllocationTop)
    (hbit : s.bits.testBitFor s.p = true) (hstep : heap.liveObject s = .ok t) :
    ∃ passed' rest', heap.WalkInv start moving t passed' rest' := by
  obtain ⟨os, rfl, htop, hrest⟩ := h.laid.at_live hp hbit
  have ho : s.p ∈ objects := by
    rw [hpre.objects_eq, h.moving_eq]
    simp
  have hpos := @span_pos heap s.p
  have hle := h.le
  have hword : s.memory s.p = heap.memory s.p := h.ahead s.p (Or.inr (Nat.le_refl _))
  obtain ⟨run, closed, hrecorded, hjoin⟩ := h.recorded
  obtain ⟨⟨so, hso, hpassed⟩, hbits, hstarted, hcstart, hctop⟩ :=
    liveObject_passed (h.decode hlive hpre hdecode ho hp) hstep
  obtain ⟨run', hrecorded', hjoin'⟩ := hrecorded.passed hpassed hpos htop
  have hp' := hpassed.p
  refine ⟨passed ++ [s.p], os, ?_⟩
  constructor
  case moving_eq => rw [h.moving_eq, List.append_assoc, List.singleton_append]
  case le => omega
  case laid =>
    rw [hp']
    exact hrest.congr fun x hx => hbits x (Or.inr hx)
  case ahead =>
    intro x hx
    have hout : x < start.p ∨ s.p ≤ x := by omega
    rw [hrecorded.passed_outside hpassed (by omega) (hout.imp_right Or.inl), h.ahead x hout]
  case behind =>
    intro o hmem
    rw [List.mem_append, List.mem_singleton] at hmem
    rcases hmem with hmem | rfl
    · obtain ⟨hstart, hend, hbit', -⟩ := h.behind o hmem
      have hpos' := @span_pos heap o
      refine ⟨hstart, by omega, (hbits o (Or.inl (by omega))).trans hbit', ?_⟩
      exact h.forwarded_congr hmem fun x hx hfree =>
        hrecorded.passed_outside hpassed (by omega) (Or.inr (Or.inr hfree))
    · refine ⟨hle, by omega, (hbits s.p (Or.inl (Nat.le_refl _))).trans hbit, ⟨so, hso, ?_⟩,
        fun x hlow hhigh => ?_⟩
      · rw [hrecorded.passed_self hpassed, hword]
      · rw [hrecorded.passed_outside hpassed (by omega) (Or.inr (Or.inl (by omega))),
          h.ahead x (Or.inr (by omega))]
  case compactionStart =>
    rw [hcstart, h.compactionStarted, h.compactionStart]
    cases passed <;> rfl
  case compactionStarted =>
    rw [hstarted]
    cases passed <;> rfl
  case compactionTop =>
    rw [hctop, h.compactionTop, List.map_append, List.sum_append, Nat.add_assoc]
    rfl
  case recorded => exact ⟨run', closed, hrecorded', by rw [hjoin', ← hjoin]; rfl⟩

/-- A turn of the walk at a dead range. -/
theorem dead (h : heap.WalkInv start moving s passed rest) (hp : s.p < heap.inlineAllocationTop)
    (hbit : s.bits.testBitFor s.p = false) :
    heap.WalkInv start moving (heap.deadRange s) passed rest := by
  obtain ⟨hgt, hlive', hnone⟩ := findLive_spec hp hbit
  obtain ⟨hlaid, hbehind⟩ := h.laid.skip (Nat.le_of_lt hgt) hnone
  have hle := h.le
  obtain ⟨run, closed, hrecorded, hjoin⟩ := h.recorded
  have hfree : ∀ x, s.p ≤ x → x < heap.findLive s.bits s.p → heap.Free moving x := by
    intro x hlow hhigh o ho hin
    rw [h.moving_eq, List.mem_append] at ho
    obtain ⟨hox, hxo⟩ := hin
    dsimp only [span] at hox hxo
    rcases ho with ho | ho
    · have hend := (h.behind o ho).2.1
      omega
    · have hstart := hbehind o ho
      omega
  obtain ⟨closed', hrecorded', hjoin'⟩ := hrecorded.found hp hbit hfree
  have hout : ∀ x, (x < start.p ∨ s.p ≤ x ∨ ¬ heap.Free moving x) →
      (heap.deadRange s).memory x = s.memory x := fun _ hx => hrecorded.found_outside hp hbit hx
  have hp' : (heap.deadRange s).p = heap.findLive s.bits s.p := rfl
  constructor
  case moving_eq => exact h.moving_eq
  case le => omega
  case laid => exact hlaid
  case ahead =>
    intro x hx
    have hx' : x < start.p ∨ s.p ≤ x := by omega
    rw [hout x (hx'.imp_right Or.inl), h.ahead x hx']
  case behind =>
    intro o ho
    obtain ⟨hstart, hend, hbit', -⟩ := h.behind o ho
    exact ⟨hstart, by omega, hbit', h.forwarded_congr ho fun x _ hx => hout x (Or.inr (Or.inr hx))⟩
  case compactionStart => exact h.compactionStart
  case compactionStarted => exact h.compactionStarted
  case compactionTop => exact h.compactionTop
  case recorded =>
    refine ⟨none, closed', hrecorded', (hjoin' _ fun r hr => ?_).trans hjoin⟩
    cases rest with
    | nil => cases hr
    | cons o os =>
      obtain rfl := Option.some.inj hr
      have hstart := hbehind o List.mem_cons_self
      dsimp only [span]
      omega

/-- **A turn of the walk keeps the invariant.** -/
theorem turn (hlive : heap.LiveHeap objects) (hpre : heap.Prefixed objects start fixed moving)
    (hdecode : heap.Decodes)
    (hfits : heap.TableFits) (h : heap.WalkInv start moving s passed rest) (hinv : heap.SlicesInv s)
    (hheap : heap.heapStart ≤ s.p) (hp : s.p < heap.inlineAllocationTop) :
    ∃ s' passed' rest', heap.scanStep s = .ok s' ∧ heap.WalkInv start moving s' passed' rest' ∧
      heap.SlicesInv s' ∧ s.p < s'.p := by
  obtain ⟨s', hstep, hinv', hgt⟩ := scanStep_spec hfits hinv hheap hp
  obtain ⟨t, hpass, hsame, -, -⟩ := passSlices_spec hfits hinv hp (Nat.lt_succ_self _)
  have ht := h.sameButSlices hsame
  have hpt : t.p < heap.inlineAllocationTop := by
    rw [hsame.p_eq]
    exact hp
  have hbody : heap.scanStep s =
      if t.bits.testBitFor t.p then heap.liveObject t else .ok (heap.deadRange t) := by
    unfold scanStep
    rw [hpass]
  rw [hbody] at hstep
  split at hstep
  · next hbit =>
    obtain ⟨passed', rest', hwalk⟩ := ht.live hlive hpre hdecode hpt hbit hstep
    exact ⟨s', passed', rest', hbody.trans ((if_pos hbit).trans hstep), hwalk, hinv', hgt⟩
  · next hbit =>
    obtain rfl := Except.ok.inj hstep
    exact ⟨_, passed, rest, hbody.trans (if_neg hbit), ht.dead hpt (Bool.eq_false_iff.2 hbit), hinv', hgt⟩

/-- **The walk** passes all live objects. -/
theorem run (hlive : heap.LiveHeap objects) (hpre : heap.Prefixed objects start fixed moving)
    (hdecode : heap.Decodes)
    (hfits : heap.TableFits) : ∀ {fuel : Nat} {s : Scan} {passed rest : List Nat},
      heap.WalkInv start moving s passed rest → heap.SlicesInv s → heap.heapStart ≤ s.p →
      heap.inlineAllocationTop - s.p < fuel →
      ∃ s', heap.scanLoop fuel s = .ok s' ∧ heap.WalkInv start moving s' moving [] ∧
        heap.inlineAllocationTop ≤ s'.p := by
  intro fuel
  induction fuel with
  | zero => exact fun _ _ _ hfuel => absurd hfuel (Nat.not_lt_zero _)
  | succ fuel ih =>
    intro s passed rest h hinv hheap hfuel
    unfold scanLoop
    split
    · next hp =>
      obtain ⟨s', passed', rest', hstep, hwalk, hinv', hgt⟩ :=
        h.turn hlive hpre hdecode hfits hinv hheap hp
      rw [hstep]
      exact ih hwalk hinv' (by omega) (by omega)
    · next hstop =>
      have hnil : rest = [] := by
        apply List.eq_nil_iff_forall_not_mem.2
        intro o ho
        have hbounds := h.laid.bounds o ho
        have hpos := @span_pos heap o
        omega
      subst hnil
      have hall := h.moving_eq
      rw [List.append_nil] at hall
      subst hall
      exact ⟨s, rfl, h, Nat.le_of_not_lt hstop⟩

end WalkInv

/-! ## The phase -/

/-- The live ranges of the objects that move. -/
def liveRanges (heap : MarkedHeap) (moving : List Nat) : List (Nat × Nat) :=
  joinFrom none (moving.map heap.span)

/-- The memory that the phase leaves. -/
def recordedMemory (heap : MarkedHeap) (s : Scan) : Memory :=
  if heap.SplitCollection then heap.splitRange s (heap.lastRange s) else heap.lastRange s

section Phase

variable {objects fixed moving : List Nat} {start s : Scan}

/-- The words before the first object that moves are free. -/
theorem Prefixed.free_before {o : Nat} {os : List Nat}
    (hpre : heap.Prefixed objects start fixed (o :: os)) {x : Nat} (hx : x < o) :
    heap.Free (o :: os) x := by
  intro o' ho' hin
  obtain ⟨-, -, -, -, hrest⟩ := hpre.laid
  have hle := hin.1
  dsimp only [span] at hle
  rcases List.mem_cons.1 ho' with rfl | ho'
  · omega
  · have hbounds := (hrest.bounds o' ho').1
    omega

/-- **The first live range**, and the list behind it: the walk started with it, or with a dead range
whose record tells of it. -/
theorem firstRange {o : Nat} {os : List Nat} (h : heap.WalkInv start (o :: os) s (o :: os) [])
    (hp : heap.inlineAllocationTop ≤ s.p) :
    ∃ b rs, heap.liveRanges (o :: os) = (o, b) :: rs ∧ o < b ∧ b ≤ heap.inlineAllocationTop ∧
      DeadList (heap.Free (o :: os)) (heap.lastRange s) heap.inlineAllocationTop b rs ∧
      (o = start.p ∧ b = s.firstDead.getD heap.inlineAllocationTop ∨
        start.p < o ∧ LiveRange.HasRange (heap.lastRange s) start.p o b) := by
  obtain ⟨run, closed, hrecorded, hjoin⟩ := h.recorded
  obtain ⟨b, tail, hhead⟩ := @joinFrom_head (os.map heap.span) (heap.span o)
  have hranges : heap.liveRanges (o :: os) = (o, b) :: tail := hhead
  have hjoin' : closed ++ joinFrom run [] = (o, b) :: tail := hjoin.trans hranges
  refine ⟨b, tail, hranges, ?_⟩
  rcases hrecorded.finish hp with ⟨hnone, hle, heq⟩ | ⟨f, rs, hsome, hle, hlt, heq, hlist⟩
  · rw [hjoin', lead] at heq
    split at heq
    · cases heq
    · next hne =>
      cases heq
      exact ⟨Nat.lt_of_le_of_ne hle (Ne.symm hne), Nat.le_refl _, ⟨_, .nil _, Or.inl rfl⟩,
        Or.inl ⟨rfl, by rw [hnone]; rfl⟩⟩
  · rw [hjoin', lead] at heq
    split at heq
    · next hf =>
      rw [List.nil_append] at heq
      rw [← heq, hf] at hlist
      obtain ⟨hrange, hda, hab, hbt, -, hrest⟩ := hlist.tail
      exact ⟨hab, hbt, hrest, Or.inr ⟨hda, hrange⟩⟩
    · next hne =>
      cases heq
      exact ⟨Nat.lt_of_le_of_ne hle (Ne.symm hne), Nat.le_of_lt hlt, hlist,
        Or.inl ⟨rfl, by rw [hsome]; rfl⟩⟩

/-- The record of the space between the generations tells of the first live range. -/
theorem splitRange_eq (hlive : heap.LiveHeap objects) {o : Nat} {os : List Nat}
    (hpre : heap.Prefixed objects start fixed (o :: os)) (hsplit : heap.SplitCollection)
    (h : heap.WalkInv start (o :: os) s (o :: os) []) {b : Nat}
    (hb : b ≤ heap.inlineAllocationTop) (hob : o < b)
    (hrange : o = start.p ∧ b = s.firstDead.getD heap.inlineAllocationTop ∨
      start.p < o ∧ LiveRange.HasRange (heap.lastRange s) start.p o b) :
    heap.splitRange s (heap.lastRange s) = LiveRange.setNextDead
      (LiveRange.setNextLive (heap.lastRange s) heap.oldGenerationEnd o) heap.oldGenerationEnd b := by
  have hcstart : s.compactionStart = o := h.compactionStart
  have hstart := (hpre.split hsplit).1
  have htop := hlive.top_lt
  unfold splitRange
  dsimp only
  rcases hrange with ⟨hfirst, hdead⟩ | ⟨hfirst, hrange⟩
  · rw [if_pos (by omega), hdead, hfirst, hstart]
  · rw [if_neg (by omega), ← hstart, hrange.getRange (by omega) (by omega)]

/-- **The list in the dead ranges** leads over the live ranges. -/
theorem deadList_spec (hlive : heap.LiveHeap objects) (hpre : heap.Prefixed objects start fixed moving)
    (h : heap.WalkInv start moving s moving []) (hp : heap.inlineAllocationTop ≤ s.p)
    (hne : moving ≠ []) :
    DeadList (heap.Free moving) (heap.recordedMemory s) heap.inlineAllocationTop start.compactionTop
      (heap.liveRanges moving) := by
  obtain ⟨o, os, rfl⟩ := List.exists_cons_of_ne_nil hne
  obtain ⟨b, rs, hranges, hob, hb, hlist, hfirst⟩ := firstRange h hp
  have hlaid := hpre.laid.1
  unfold recordedMemory
  rw [hranges]
  by_cases hsplit : heap.SplitCollection
  · obtain ⟨hstart, htop⟩ := hpre.split hsplit
    have hgap : heap.oldGenerationEnd < heap.youngGenerationStart :=
      Nat.lt_of_le_of_ne hlive.oldGenerationEnd_le hsplit.1
    rw [if_pos hsplit, splitRange_eq hlive hpre hsplit h hb hob hfirst, htop]
    exact hlist.cons (by omega) hob fun x _ hx => hpre.free_before hx
  · obtain ⟨htop, hbehind⟩ := hpre.whole hsplit
    have hlt := hbehind o List.mem_cons_self
    obtain ⟨-, hrange⟩ := hfirst.resolve_left fun hfirst => by omega
    obtain ⟨e, hrecords, hend⟩ := hlist
    rw [if_neg hsplit, htop]
    exact ⟨e, .cons hrange hlt hob (fun x _ hx => hpre.free_before hx) hrecords, hend⟩

/-- **No record overlaps a live word**, of the objects that stay or of those that move. -/
theorem recordedMemory_live (hlive : heap.LiveHeap objects)
    (hpre : heap.Prefixed objects start fixed moving) (h : heap.WalkInv start moving s moving [])
    (hp : heap.inlineAllocationTop ≤ s.p) :
    (∀ x < start.compactionTop, heap.recordedMemory s x = heap.memory x) ∧
      ∀ o ∈ moving, heap.Forwarded (heap.recordedMemory s) o := by
  obtain ⟨run, closed, hrecorded, -⟩ := h.recorded
  have hlast : ∀ x, (x < start.p ∨ ¬ heap.Free moving x) → heap.lastRange s x = s.memory x :=
    fun _ hx => hrecorded.finish_outside hp hx
  by_cases hsplit : heap.SplitCollection
  · obtain ⟨hstart, htop⟩ := hpre.split hsplit
    have hgap : heap.oldGenerationEnd < heap.youngGenerationStart :=
      Nat.lt_of_le_of_ne hlive.oldGenerationEnd_le hsplit.1
    unfold recordedMemory
    rw [if_pos hsplit]
    constructor
    · intro x hx
      have hbefore : heap.splitRange s (heap.lastRange s) x = heap.lastRange s x := by
        unfold splitRange
        dsimp only
        split
        · rw [LiveRange.setNextDead_of_lt (by omega), LiveRange.setNextLive_of_ne (by omega)]
        · rw [LiveRange.setNextDead_of_lt (by omega), LiveRange.setNextLive_of_ne (by omega)]
      rw [hbefore, hlast x (Or.inl (by omega)), h.ahead x (Or.inl (by omega))]
    · intro o' ho'
      cases moving with
      | nil => cases ho'
      | cons o os =>
        obtain ⟨b, rs, -, hob, hb, -, hfirst⟩ := firstRange h hp
        have hlaid := hpre.laid.1
        rw [splitRange_eq hlive hpre hsplit h hb hob hfirst]
        refine h.forwarded_congr ho' fun x _ hx => ?_
        have hox : o ≤ x := Nat.le_of_not_lt fun hlt => hx (hpre.free_before hlt)
        rw [LiveRange.setNextDead_outside LiveRange.setNextLive_hasNextLive (by omega) (Or.inr hox),
          LiveRange.setNextLive_of_ne (by omega), hlast x (Or.inr hx)]
  · obtain ⟨htop, -⟩ := hpre.whole hsplit
    unfold recordedMemory
    rw [if_neg hsplit]
    constructor
    · intro x hx
      rw [hlast x (Or.inl (by omega)), h.ahead x (Or.inl (by omega))]
    · exact fun o ho => h.forwarded_congr ho fun x _ hx => hlast x (Or.inr hx)

/-- **The phase**, when the walk ends with `s`. -/
theorem computeNewObjectLocations_spec (hlive : heap.LiveHeap objects)
    (hpre : heap.Prefixed objects start fixed moving)
    (hdecode : heap.Decodes)
    (hfits : heap.TableFits) :
    ∃ s r, heap.WalkInv start moving s moving [] ∧ heap.inlineAllocationTop ≤ s.p ∧
      heap.computeNewObjectLocations = .ok r ∧ r.endFixedObjects = start.compactionTop ∧
      r.compactionStart = s.compactionStart ∧ r.compactionTop = s.compactionTop ∧
      r.memory = heap.recordedMemory s := by
  have hscan := hpre.scan
  obtain ⟨p, top, bits, hfirst, hheap⟩ := @firstScan_spec heap
  have hstart := Except.ok.inj (hscan.symm.trans hfirst)
  have hinv : heap.SlicesInv start := by
    rw [hstart]
    exact startScan_inv
  have hheap' : heap.heapStart ≤ start.p := by
    rw [hstart]
    exact hheap
  obtain ⟨s, hloop, hwalk, hend⟩ := (WalkInv.initial hpre).run hlive hpre hdecode hfits hinv hheap'
    (Nat.lt_succ_self _)
  have hok : heap.computeNewObjectLocations = .ok {
      endFixedObjects := start.compactionTop
      compactionStart := s.compactionStart
      compactionTop := s.compactionTop
      slices := s.slices
      memory := heap.recordedMemory s
      bits := s.bits } := by
    unfold computeNewObjectLocations
    rw [hscan]
    dsimp only
    rw [hloop]
    rfl
  exact ⟨s, _, hwalk, hend, hok, rfl, rfl, rfl, rfl⟩

theorem spanned_liveRanges {bits : Bitvector} {p : Nat} (h : heap.Laid bits p moving) :
    spanned (heap.liveRanges moving) = (moving.map heap.objectSize).sum := by
  have hsum : ∀ os : List Nat, spanned (os.map heap.span) = (os.map heap.objectSize).sum := by
    intro os
    unfold spanned
    rw [List.map_map]
    apply congrArg
    apply List.map_congr_left
    intro o _
    exact Nat.add_sub_cancel_left _ _
  cases moving with
  | nil => rfl
  | cons o os =>
    obtain ⟨-, hspan, hrest⟩ := h.ascending
    have hjoin := joinFrom_spanned hspan hrest
    unfold liveRanges
    rw [List.map_cons, joinFrom, hjoin, hsum]
    exact congrArg (· + _) (Nat.add_sub_cancel_left _ _)

theorem liveRanges_runs (hpre : heap.Prefixed objects start fixed moving) :
    Runs (fun x => ∃ o ∈ moving, InSpan (heap.span o) x) (heap.liveRanges moving) := by
  have hruns := joinFrom_runs hpre.laid.ascending
  unfold liveRanges
  simpa only [List.mem_map, exists_exists_and_eq_and] using hruns

/-- Where compaction starts to put the live ranges. -/
def firstDestination (heap : MarkedHeap) (endFixedObjects : Nat) (reuse : Bool) : Nat :=
  if heap.youngGenerationStart ≠ heap.oldGenerationEnd ∧ reuse then heap.youngGenerationStart
  else endFixedObjects

/-- The first destination lies in the heap and before all objects that move, and the chosen top is
behind it by the size of these objects. -/
theorem firstDestination_spec (hlive : heap.LiveHeap objects)
    (hpre : heap.Prefixed objects start fixed moving) {reuse : Bool}
    (hreuse : reuse = true → heap.collectionAreaStart ≠ heap.heapStart) :
    heap.heapStart ≤ heap.firstDestination start.compactionTop reuse ∧
      (∀ o ∈ moving, start.compactionTop < o ∧ heap.firstDestination start.compactionTop reuse ≤ o) ∧
      ∀ r : Locations, r.compactionTop = start.compactionTop + (moving.map heap.objectSize).sum →
        heap.chosenTop r reuse = heap.firstDestination start.compactionTop reuse +
          spanned (heap.liveRanges moving) := by
  have hold := hlive.oldGenerationEnd_le
  have hheap := hlive.heapStart_le
  unfold firstDestination chosenTop
  rw [spanned_liveRanges hpre.laid]
  by_cases hsplit : heap.SplitCollection
  · obtain ⟨hstart, htop⟩ := hpre.split hsplit
    have hgap := hsplit.1
    have hbounds : ∀ o ∈ moving, heap.youngGenerationStart ≤ o := by
      intro o ho
      rw [← hstart]
      exact (hpre.laid.bounds o ho).1
    rw [htop]
    split
    · refine ⟨by omega, fun o ho => ⟨by have := hbounds o ho; omega, hbounds o ho⟩, fun r hr => ?_⟩
      omega
    · refine ⟨hheap, fun o ho => ⟨?_, ?_⟩, fun r hr => hr⟩
      · have := hbounds o ho
        omega
      · have := hbounds o ho
        omega
  · have hno : ¬ (heap.youngGenerationStart ≠ heap.oldGenerationEnd ∧ reuse = true) := by
      rintro ⟨hne, hyes⟩
      exact hsplit ⟨hne.symm, hreuse hyes⟩
    obtain ⟨htop, hbehind⟩ := hpre.whole hsplit
    obtain ⟨p, top, bits, hfirst, hle⟩ := @firstScan_spec heap
    have hstart := Except.ok.inj (hpre.scan.symm.trans hfirst)
    have hle' : heap.heapStart ≤ start.p := by
      rw [hstart]
      exact hle
    rw [if_neg hno]
    refine ⟨by omega, fun o ho => ⟨?_, ?_⟩, fun r hr => ?_⟩
    · have := hbehind o ho
      omega
    · have := hbehind o ho
      omega
    · rw [if_neg hno]
      exact hr

/-- **Compaction** visits the live ranges. -/
theorem compactObjects_spec (hlive : heap.LiveHeap objects)
    (hpre : heap.Prefixed objects start fixed moving) (h : heap.WalkInv start moving s moving [])
    (hp : heap.inlineAllocationTop ≤ s.p) {r : Locations}
    (hfixed : r.endFixedObjects = start.compactionTop) (hcstart : r.compactionStart = s.compactionStart)
    (hctop : r.compactionTop = s.compactionTop) (hmemory : r.memory = heap.recordedMemory s)
    {memory : Memory} {reuse : Bool}
    (hsame : ∀ x, r.endFixedObjects ≤ x → x < heap.inlineAllocationTop → heap.Free moving x →
      memory x = r.memory x)
    (hreuse : reuse = true → heap.collectionAreaStart ≠ heap.heapStart) :
    ∃ c, heap.compactObjects r (heap.chosenTop r reuse) memory reuse = .ok c ∧
      c.ranges = heap.liveRanges moving ∧
      (List.range' (c.destination - spanned c.ranges) (spanned c.ranges)).map c.memory =
        wordsOf memory c.ranges := by
  obtain ⟨hheap, hbounds, htop⟩ := firstDestination_spec hlive hpre hreuse
  have hchosen := htop r (hctop.trans h.compactionTop)
  unfold compactObjects
  rw [hfixed, hchosen, hcstart, h.compactionStart]
  dsimp only
  cases moving with
  | nil =>
    rw [List.head?_nil, Option.getD_none, if_neg (not_not.2 rfl)]
    exact ⟨_, rfl, rfl, rfl⟩
  | cons o os =>
    obtain ⟨hfo, hdo⟩ := hbounds o List.mem_cons_self
    obtain ⟨hpo, -, -, hsize, -⟩ := hpre.laid
    have hpos := @span_pos heap o
    have harea := hlive.areaEnd
    have hlist : DeadList (heap.Free (o :: os)) memory heap.inlineAllocationTop start.compactionTop
        (heap.liveRanges (o :: os)) := by
      refine (deadList_spec hlive hpre h hp (List.cons_ne_nil o os)).congr fun x hlow hhigh hx => ?_
      rw [hsame x (by omega) hhigh hx, hmemory]
    have hranges : ∀ t ∈ heap.liveRanges (o :: os),
        o ≤ t.1 ∧ heap.firstDestination start.compactionTop reuse ≤ t.1 := by
      intro t ht
      obtain ⟨-, hspan, hrest⟩ := hpre.laid.ascending
      have hle := (joinFrom_bounds hspan hrest t ht).1
      dsimp only [span] at hle
      omega
    obtain ⟨c, hloop, hmoved⟩ := @compactLoop_spec heap _ memory o hlive.top_lt harea
      (heap.liveRanges (o :: os)) (heap.inlineAllocationTop - start.compactionTop + 1)
      { memory := memory
        currentDead := start.compactionTop
        destination := heap.firstDestination start.compactionTop reuse
        ranges := [] } hlist (show start.compactionTop < _ by omega) hranges hheap (fun _ _ => rfl)
      (Nat.lt_succ_self _)
    have hdest := hmoved.destination
    have hwords := hmoved.words
    have hvisited : c.ranges = heap.liveRanges (o :: os) := hmoved.ranges
    dsimp only at hdest hwords
    refine ⟨c, ?_, hvisited, ?_⟩
    · rw [List.head?_cons, Option.getD_some, if_pos (by omega), if_neg (not_not.2 hfo)]
      unfold firstDestination at hloop hdest ⊢
      rw [hloop]
      exact if_pos hdest
    rw [hvisited, hdest, Nat.add_sub_cancel]
    exact hwords

end Phase

end MarkedHeap

/-- **The dead-range list describes the heap exactly.**  For every heap of live objects and dead ranges
the second phase succeeds and changes no live word but the first word of each object that moves, and
then compaction visits exactly the live ranges behind the objects that stay, each once and in their
order, and moves their words together: whatever the update phase has done to words that are not dead,
and wherever the ranges go. -/
theorem deadRanges_exact {romMaxOffset size : UInt32} {heap : MarkedHeap} {objects : List Nat}
    (hfit : SlicesFit romMaxOffset size) (hslices : (updateSlicesSize romMaxOffset size).2 = heap.slices)
    (hrom : heap.rom.Sound) (hbound : heap.rom.getMaxOffset ≤ romMaxOffset)
    (hend : heap.markAreaEnd ≤ heap.heapStart + size.toNat / 4) (hlive : heap.LiveHeap objects) :
    ∃ r fixed moving, heap.computeNewObjectLocations = .ok r ∧ objects = fixed ++ moving ∧
      (∀ o ∈ fixed, o < r.endFixedObjects) ∧ (∀ o ∈ moving, r.endFixedObjects < o) ∧
      (∀ x < r.endFixedObjects, r.memory x = heap.memory x) ∧
      (∀ o ∈ moving, heap.Forwarded r.memory o) ∧
      ∀ memory reuse, (∀ x, r.endFixedObjects ≤ x → x < heap.inlineAllocationTop →
          heap.Free moving x → memory x = r.memory x) →
        (reuse = true → heap.collectionAreaStart ≠ heap.heapStart) →
        ∃ c, heap.compactObjects r (heap.chosenTop r reuse) memory reuse = .ok c ∧
          (∀ rs, Runs (fun x => ∃ o ∈ moving, InSpan (heap.span o) x) rs ↔ c.ranges = rs) ∧
          (List.range' (c.destination - spanned c.ranges) (spanned c.ranges)).map c.memory =
            MarkedHeap.wordsOf memory c.ranges := by
  have hfits : heap.TableFits := by
    have hnumbers := hfit.numbers
    rw [hslices] at hnumbers
    exact hnumbers.tableFits (heap.allocationTop_le.trans hend)
  have hdecode : heap.Decodes :=
    fun so w hso hw => MarkedHeap.decodeNear_encodeKlass hfit hslices hrom hbound hend hso hw
  obtain ⟨start, fixed, moving, hpre⟩ := hlive.prefixed
  obtain ⟨s, r, hwalk, hp, hok, hfixed, hcstart, hctop, hmemory⟩ :=
    MarkedHeap.computeNewObjectLocations_spec hlive hpre hdecode hfits
  obtain ⟨hbefore, hforwarded⟩ := MarkedHeap.recordedMemory_live hlive hpre hwalk hp
  obtain ⟨-, hbounds, -⟩ := @MarkedHeap.firstDestination_spec heap objects fixed moving start hlive hpre
    false (fun h => by cases h)
  refine ⟨r, fixed, moving, hok, hpre.objects_eq, fun o ho => ?_, fun o ho => ?_, fun x hx => ?_,
    fun o ho => ?_, fun memory reuse hsame hreuse => ?_⟩
  · have hlt := hpre.fixed_lt o ho
    by_cases hsplit : heap.SplitCollection
    · -- in a young collection the walk starts with the collected part of the heap
      have hmem : o ∈ objects := by
        rw [hpre.objects_eq]
        exact List.mem_append_left _ ho
      have hle := (hlive.laid.bounds o hmem).1
      rw [MarkedHeap.walkStart, if_pos hsplit, ← (hpre.split hsplit).1] at hle
      omega
    · rw [hfixed, (hpre.whole hsplit).1]
      exact hlt
  · rw [hfixed]
    exact (hbounds o ho).1
  · rw [hmemory]
    exact hbefore x (by omega)
  · rw [hmemory]
    exact hforwarded o ho
  · obtain ⟨c, hcompact, hranges, hwords⟩ := MarkedHeap.compactObjects_spec hlive hpre hwalk hp hfixed
      hcstart hctop hmemory hsame hreuse
    have hruns := MarkedHeap.liveRanges_runs hpre
    rw [← hranges] at hruns
    refine ⟨c, hcompact, fun rs => ⟨fun h => hruns.unique h, fun h => ?_⟩, hwords⟩
    rw [← h]
    exact hruns

/-- Single dead words before, between and behind two objects of two words. -/
def singleDeadWords : MarkedHeap where
  memory _ := 0x80000000
  bitvector i := if i = 0 then 0x240000 else 0
  farClass _ := { instance_size := 8, oop_map := [] }
  objectSizeFor _ _ := 2
  oopsDoFor _ _ := []
  heapStart := 17
  collectionAreaStart := 17
  collectionAreaEnd := 24
  oldGenerationEnd := 17
  youngGenerationStart := 17
  inlineAllocationTop := 24
  markAreaEnd := 24
  rom := { textStart := 0x80000000, textSize := 16, dataStart := 0x80001000, dataSize := 0 }
  slices := (updateSlicesSize 0x1000 0xc000).2
  objectSize_pos _ _ := by decide
  collectionArea_le := by decide
  youngGeneration_le := by decide
  allocationTop_le := by decide

theorem singleDeadWords_live : singleDeadWords.LiveHeap [18, 21] where
  laid := by
    refine ⟨by decide, ?_, by decide, by decide, by decide, ?_, by decide, by decide, ?_⟩
    all_goals
      intro x hlow hhigh
      have hdead : x = 17 ∨ x = 20 ∨ x = 23 := by
        change _ ≤ x at hlow
        change x < _ at hhigh
        simp [MarkedHeap.walkStart, MarkedHeap.objectSize, singleDeadWords] at hlow hhigh
        omega
      rcases hdead with rfl | rfl | rfl <;> decide
  near := fun _ _ => ⟨show (0x80000000 : UInt32).toNat % 4 = 0 by decide,
    Or.inr (Or.inl (show (0x80000000 : UInt32) - 0x80000000 < 16 by decide))⟩
  near_live := fun _ _ _ h => absurd h (show ¬ address 0x80000000 < 24 by decide)
  slots := fun _ _ _ h => absurd h List.not_mem_nil
  walkStart_le := by decide
  oldGenerationEnd_le := by decide
  heapStart_le := by decide
  areaEnd := rfl
  top_lt := by decide

/-- Two objects between single dead words. -/
theorem deadRanges_exact_singleDeadWords : ∃ r c,
    singleDeadWords.computeNewObjectLocations = .ok r ∧
      singleDeadWords.compactObjects r (singleDeadWords.chosenTop r false) r.memory false = .ok c := by
  have hfit : SlicesFit 0x1000 0xc000 := ⟨by decide, by decide, by decide +kernel⟩
  have hrom : singleDeadWords.rom.Sound := ⟨by decide, by decide, by decide, by decide⟩
  obtain ⟨r, fixed, moving, hok, -, -, -, -, -, hcompact⟩ :=
    deadRanges_exact hfit rfl hrom (by decide) (by decide) singleDeadWords_live
  obtain ⟨c, hc, -⟩ := hcompact r.memory false (fun _ _ _ _ => rfl) (by decide)
  exact ⟨r, c, hok, hc⟩

end FroggyKVM.Gc
