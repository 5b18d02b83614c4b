/-
# FroggyKVM.Gc.Complete — marking reaches exactly the reachable objects.

The marking phase is a search of the graph of references.  Its loops owe what `Explores` says; a
rescan sees to every object that was marked before it, and a dropped object costs one more rescan
but also one more mark.
-/
import FroggyKVM.Gc.Marking

namespace FroggyKVM.Gc

open GraphSearch

/-- The marking phase as a search. -/
def Marks.search (m : Marks) : State Nat where
  marked := {p | m.bitvector.testBitFor p = true}
  stack := m.markingStack
  overflow := m.markingStackOverflow

theorem Marks.search_setBit (m : Marks) (obj : Nat) :
    (m.setBit obj).search = { m.search with marked := insert obj m.search.marked } := by
  have hmarked : (m.setBit obj).search.marked = insert obj m.search.marked := by
    ext p
    show (m.bitvector.setBitFor obj).testBitFor p = true ↔ _
    rw [Bitvector.testBitFor_setBitFor, Bool.or_eq_true, decide_eq_true_eq]
    rfl
  rw [← hmarked]
  rfl

/-- The addresses of the heap. -/
def Heap.area (heap : Heap) : Finset Nat := Finset.Ico heap.heapStart heap.inlineAllocationTop

/-- A set of objects that is closed under references and that the rescan covers. -/
structure Heap.Covers (heap : Heap) (r : Set Nat) : Prop where
  full : heap.collectionAreaStart = heap.heapStart
  room : 0 < heap.markingStackSize
  closed : ∀ x ∈ r, ∀ o ∈ heap.references x, o ∈ r
  inside : ∀ x ∈ r, x ∈ heap.area
  outsideGap : ∀ x ∈ r, x < heap.oldGenerationEnd ∨ heap.youngGenerationStart ≤ x

namespace Marks

variable {heap : Heap} {base r : Set Nat} {m m' : Marks}

/-- The marks are within bounds and so is the stack. -/
structure Ready (heap : Heap) (base r : Set Nat) (m : Marks) : Prop where
  within : Within base r m.search
  room : m.markingStack.length ≤ heap.markingStackSize

/-- What a step of the marking phase does. -/
structure Advances (heap : Heap) (base r : Set Nat) (m m' : Marks) : Prop where
  explores : Explores heap.references m.search m'.search
  ready : Ready heap base r m'
  work : work heap.area m'.search ≤ work heap.area m.search

theorem Advances.trans {m'' : Marks} (h : Advances heap base r m m')
    (h' : Advances heap base r m' m'') : Advances heap base r m m'' :=
  ⟨h.explores.trans h'.explores, h'.ready, h'.work.trans h.work⟩

/-! ## One pointer -/

/-- The slot `p` refers to a marked object, if to one at all. -/
def Followed (heap : Heap) (m : Marks) (p : Nat) : Prop :=
  ∀ o, heap.target p = some o → o ∈ m.search.marked

theorem Followed.mono {p : Nat} (h : Followed heap m p)
    (he : Explores heap.references m.search m'.search) : Followed heap m' p :=
  fun o ho => he.marked (h o ho)

theorem markAndPush_spec (hc : heap.Covers r) (hm : Ready heap base r m) {p : Nat}
    (hp : ∀ o, heap.target p = some o → o ∈ r) :
    ∃ m', m.markAndPush heap p = .ok m' ∧ Advances heap base r m m' ∧ Followed heap m' p := by
  unfold markAndPush
  cases htarget : heap.target p with
  | none =>
    refine ⟨m, rfl, ⟨.refl _, hm, le_rfl⟩, fun o ho => ?_⟩
    rw [htarget] at ho
    cases ho
  | some obj =>
    have hobj : obj ∈ r := hp obj htarget
    have hfollowed : ∀ m' : Marks, obj ∈ m'.search.marked → Followed heap m' p := by
      intro m' hmem o ho
      rw [htarget] at ho
      cases ho
      exact hmem
    dsimp only
    split_ifs with hset hfull
    · exact ⟨m, rfl, ⟨.refl _, hm, le_rfl⟩, hfollowed m hset⟩
    all_goals
      have hnew : obj ∉ m.search.marked := hset
      have hfewer : unmarked heap.area (m.setBit obj).search < unmarked heap.area m.search := by
        rw [search_setBit]
        exact unmarked_lt (Set.subset_insert obj _) (hc.inside obj hobj) (Set.mem_insert ..) hnew
    · have hsearch : ({ m.setBit obj with markingStackOverflow := true } : Marks).search =
          { m.search with marked := insert obj m.search.marked, overflow := true } := by
        show ({ (m.setBit obj).search with overflow := true } : State Nat) = _
        rw [search_setBit]
      refine ⟨_, rfl, ⟨?_, ⟨?_, hm.room⟩, ?_⟩, hfollowed _ ?_⟩
      · rw [hsearch]
        exact .drop m.search hnew
      · rw [hsearch]
        exact hm.within.drop hobj
      · have : work heap.area ({ m.setBit obj with markingStackOverflow := true } : Marks).search =
            2 * unmarked heap.area (m.setBit obj).search + m.markingStack.length := rfl
        rw [this]
        show _ ≤ 2 * unmarked heap.area m.search + m.markingStack.length
        omega
      · rw [hsearch]
        exact Set.mem_insert ..
    · have hroom : m.markingStack.length < heap.markingStackSize := by
        have := hm.room
        omega
      have hsearch : ({ m.setBit obj with markingStack := obj :: m.markingStack } : Marks).search =
          { m.search with marked := insert obj m.search.marked, stack := obj :: m.search.stack } := by
        show ({ (m.setBit obj).search with stack := _ } : State Nat) = _
        rw [search_setBit]
        rfl
      refine ⟨{ m.setBit obj with markingStack := obj :: m.markingStack }, ?_, ⟨?_, ⟨?_, hroom⟩, ?_⟩,
        hfollowed _ ?_⟩
      · exact if_pos hroom
      · rw [hsearch]
        exact .push m.search obj
      · rw [hsearch]
        exact hm.within.push hobj
      · have : work heap.area
            ({ m.setBit obj with markingStack := obj :: m.markingStack } : Marks).search =
            2 * unmarked heap.area (m.setBit obj).search + (m.markingStack.length + 1) := rfl
        rw [this]
        show _ ≤ 2 * unmarked heap.area m.search + m.markingStack.length
        omega
      · rw [hsearch]
        exact Set.mem_insert ..

/-! ## One object -/

theorem markAll_spec (hc : heap.Covers r) :
    ∀ {ps : List Nat} {m : Marks}, Ready heap base r m →
      (∀ p ∈ ps, ∀ o, heap.target p = some o → o ∈ r) →
      ∃ m', markAll heap ps m = .ok m' ∧ Advances heap base r m m' ∧ ∀ p ∈ ps, Followed heap m' p
  | [], m, hm, _ => ⟨m, rfl, ⟨.refl _, hm, le_rfl⟩, fun p hp => nomatch hp⟩
  | p :: ps, m, hm, hps => by
    obtain ⟨m₁, hstep, hadv, hp⟩ := markAndPush_spec hc hm (hps p (List.mem_cons_self ..))
    obtain ⟨m₂, hrest, hadv', hps'⟩ := markAll_spec hc hadv.ready
      fun q hq => hps q (List.mem_cons_of_mem p hq)
    refine ⟨m₂, by simp only [markAll, hstep, hrest], hadv.trans hadv', fun q hq => ?_⟩
    rcases List.mem_cons.1 hq with rfl | hq
    · exact hp.mono hadv'.explores
    · exact hps' q hq

/-- The in-lined loop visits the slots of `map_oops_do`. -/
theorem markEmbedded_eq (heap : Heap) : ∀ (map : List UInt8) (p : Nat) (m : Marks),
    markEmbedded heap map p m = markAll heap (Heap.mapOops map p) m
  | [], p, m => rfl
  | entry :: map, p, m => by
    rw [markEmbedded, Heap.mapOops]
    split_ifs
    · rfl
    · rw [markAll]
      cases m.markAndPush heap (p + entry.toNat) with
      | error e => rfl
      | ok m₁ => exact markEmbedded_eq heap map (p + entry.toNat) m₁
    · exact markEmbedded_eq heap map (p + (OopMapEscape - 1)) m

theorem oopsDoFor_instance {b : FarClassDesc} (hb : 0 < b.instance_size) (obj : Nat) :
    heap.oopsDoFor obj b = Heap.mapOops b.oop_map obj := by
  have hne : ∀ k : Int, k ≤ 0 → b.instance_size ≠ k := fun k hk => by omega
  simp [Heap.oopsDoFor, hne _ (show size_type_array_1 ≤ 0 by decide),
    hne _ (show size_type_array_2 ≤ 0 by decide), hne _ (show size_type_array_4 ≤ 0 by decide),
    hne _ (show size_type_array_8 ≤ 0 by decide), hne _ (show size_generic_near ≤ 0 by decide),
    hne _ (show size_symbol ≤ 0 by decide), hne _ (show size_refnode ≤ 0 by decide),
    hne _ (show size_execution_stack ≤ 0 by decide), hne _ (show size_obj_array ≤ 0 by decide),
    hne _ (show size_mixed_oop ≤ 0 by decide), hne _ (show size_constant_pool ≤ 0 by decide),
    hne _ (show size_entry_activation ≤ 0 by decide), hne _ (show size_class_info ≤ 0 by decide),
    hne _ (show size_stackmap_list ≤ 0 by decide), hne _ (show size_task_mirror ≤ 0 by decide)]

/-- One iteration of `continue_marking` follows all slots of the object on top. -/
theorem continueMarking_succ {obj : Nat} {rest : List Nat} (hstack : m.markingStack = obj :: rest)
    (fuel : Nat) : continueMarking heap (fuel + 1) m =
      match markAll heap (heap.slots obj) { m with markingStack := rest } with
      | .error e => .error e
      | .ok m => continueMarking heap fuel m := by
  rw [continueMarking, hstack, Heap.slots, markAll]
  dsimp only
  cases ({ m with markingStack := rest } : Marks).markAndPush heap obj with
  | error e => rfl
  | ok m₁ =>
    dsimp only
    have hslots : (if (heap.blueprint obj).instance_size > 0 then
        markEmbedded heap (heap.blueprint obj).oop_map obj m₁
        else markAll heap (heap.oopsDoFor obj (heap.blueprint obj)) m₁) =
        markAll heap (heap.oopsDo obj) m₁ := by
      split_ifs with hsize
      · rw [markEmbedded_eq, Heap.oopsDo, oopsDoFor_instance hsize]
      · rfl
    exact congrArg (fun r => match r with
      | .error e => Except.error e
      | .ok m => continueMarking heap fuel m) hslots

theorem closed_of_followed {obj : Nat} (h : ∀ p ∈ heap.slots obj, Followed heap m p) :
    Closed heap.references m.search obj := by
  intro o ho
  obtain ⟨p, hp, htarget⟩ := List.mem_filterMap.1 ho
  exact h p hp o htarget

theorem slots_within (hc : heap.Covers r) {obj : Nat} (hobj : obj ∈ r) :
    ∀ p ∈ heap.slots obj, ∀ o, heap.target p = some o → o ∈ r :=
  fun p hp o ho => hc.closed obj hobj o (List.mem_filterMap.2 ⟨p, hp, ho⟩)

/-- **`continue_marking`** empties the stack, for every object it takes off the stack follows all
of its slots, and ends. -/
theorem continueMarking_spec (hc : heap.Covers r) :
    ∀ (fuel : Nat) (m : Marks), work heap.area m.search < fuel → Ready heap base r m →
      ∃ m', continueMarking heap fuel m = .ok m' ∧ Advances heap base r m m' ∧
        m'.markingStack = []
  | 0, _, hfuel, _ => by omega
  | fuel + 1, m, hfuel, hm => by
    cases hstack : m.markingStack with
    | nil => exact ⟨m, by rw [continueMarking, hstack], ⟨.refl _, hm, le_rfl⟩, hstack⟩
    | cons obj rest =>
      obtain ⟨hobj, hwithin⟩ := hm.within.pop (show m.search.stack = obj :: rest from hstack)
      have hroom := hm.room
      have hwork : work heap.area m.search =
          2 * unmarked heap.area m.search + (rest.length + 1) := by
        show 2 * unmarked heap.area m.search + m.markingStack.length = _
        rw [hstack]
        rfl
      rw [hstack, List.length_cons] at hroom
      have hm₀ : Ready heap base r { m with markingStack := rest } := by
        refine ⟨hwithin, ?_⟩
        show rest.length ≤ heap.markingStackSize
        omega
      obtain ⟨m₁, hall, hadv, hfollowed⟩ := markAll_spec hc hm₀ (slots_within hc hobj)
      have hless : work heap.area m₁.search < fuel := by
        have := hadv.work
        have hpop : work heap.area ({ m with markingStack := rest } : Marks).search =
            2 * unmarked heap.area m.search + rest.length := rfl
        omega
      obtain ⟨m', hrun, hadv', hempty⟩ := continueMarking_spec hc fuel m₁ hless hadv.ready
      have hall' := hadv.trans hadv'
      refine ⟨m', ?_, ⟨?_, hall'.ready, ?_⟩, hempty⟩
      · rw [continueMarking_succ hstack, hall]
        exact hrun
      · exact .pop (show m.search.stack = obj :: rest from hstack) hall'.explores
          (hadv'.explores.closed (closed_of_followed hfollowed))
      · have := hall'.work
        have hpop : work heap.area ({ m with markingStack := rest } : Marks).search =
            2 * unmarked heap.area m.search + rest.length := rfl
        omega

/-! ## Roots -/

theorem markRootAndStack_spec (hc : heap.Covers r) (hm : Ready heap base r m)
    (hempty : m.markingStack = []) {p : Nat} (hp : ∀ o, heap.target p = some o → o ∈ r) :
    ∃ m', m.markRootAndStack heap p = .ok m' ∧ Explores heap.references m.search m'.search ∧
      Ready heap base r m' ∧ m'.markingStack = [] ∧ Followed heap m' p := by
  unfold markRootAndStack
  cases htarget : heap.target p with
  | none =>
    refine ⟨m, rfl, .refl _, hm, hempty, fun o ho => ?_⟩
    rw [htarget] at ho
    cases ho
  | some obj =>
    have hobj : obj ∈ r := hp obj htarget
    have hfollowed : ∀ m' : Marks, obj ∈ m'.search.marked → Followed heap m' p := by
      intro m' hmem o ho
      rw [htarget] at ho
      cases ho
      exact hmem
    dsimp only
    split_ifs with hset
    · exact ⟨m, rfl, .refl _, hm, hempty, hfollowed m hset⟩
    · -- the stack is empty, so there is room for one element
      have hpush : (m.setBit obj).push heap obj =
          .ok { m.setBit obj with markingStack := obj :: m.markingStack } := by
        refine if_pos ?_
        show m.markingStack.length < heap.markingStackSize
        rw [hempty]
        exact hc.room
      have hsearch : ({ m.setBit obj with markingStack := obj :: m.markingStack } : Marks).search =
          { m.search with marked := insert obj m.search.marked, stack := obj :: m.search.stack } := by
        show ({ (m.setBit obj).search with stack := _ } : State Nat) = _
        rw [search_setBit]
        rfl
      have hm₁ : Ready heap base r { m.setBit obj with markingStack := obj :: m.markingStack } := by
        refine ⟨?_, ?_⟩
        · rw [hsearch]
          exact hm.within.push hobj
        · show m.markingStack.length + 1 ≤ heap.markingStackSize
          rw [hempty]
          exact hc.room
      have hfuel : work heap.area
          ({ m.setBit obj with markingStack := obj :: m.markingStack } : Marks).search <
          fuel heap := by
        have hcard := unmarked_le_card heap.area
          ({ m.setBit obj with markingStack := obj :: m.markingStack } : Marks).search
        have hlen : ({ m.setBit obj with markingStack := obj :: m.markingStack } :
            Marks).search.stack.length = 1 := by
          show m.markingStack.length + 1 = 1
          rw [hempty]
          rfl
        rw [Heap.area, Nat.card_Ico] at hcard
        rw [work, hlen, fuel, Heap.area]
        omega
      obtain ⟨m', hrun, hadv, hempty'⟩ := continueMarking_spec hc (fuel heap) _ hfuel hm₁
      refine ⟨m', ?_, .trans ?_ hadv.explores, hadv.ready, hempty',
        hfollowed m' (hadv.explores.marked ?_)⟩
      · rw [hpush]
        exact hrun
      · rw [hsearch]
        exact .push m.search obj
      · rw [hsearch]
        exact Set.mem_insert ..

theorem markRoots_spec (hc : heap.Covers r) :
    ∀ {ps : List Nat} {m : Marks}, Ready heap base r m → m.markingStack = [] →
      (∀ p ∈ ps, ∀ o, heap.target p = some o → o ∈ r) →
      ∃ m', markRoots heap ps m = .ok m' ∧ Explores heap.references m.search m'.search ∧
        Ready heap base r m' ∧ m'.markingStack = [] ∧ ∀ p ∈ ps, Followed heap m' p
  | [], m, hm, hempty, _ => ⟨m, rfl, .refl _, hm, hempty, fun p hp => nomatch hp⟩
  | p :: ps, m, hm, hempty, hps => by
    obtain ⟨m₁, hstep, he, hm₁, hempty₁, hp⟩ :=
      markRootAndStack_spec hc hm hempty (hps p (List.mem_cons_self ..))
    obtain ⟨m₂, hrest, he', hm₂, hempty₂, hps'⟩ := markRoots_spec hc hm₁ hempty₁
      fun q hq => hps q (List.mem_cons_of_mem p hq)
    refine ⟨m₂, by simp only [markRoots, hstep, hrest], he.trans he', hm₂, hempty₂,
      fun q hq => ?_⟩
    rcases List.mem_cons.1 hq with rfl | hq
    · exact hp.mono he'
    · exact hps' q hq

/-! ## Rescans -/

/-- The body of a rescan closes the object it is given. -/
theorem rescan_spec (hc : heap.Covers r) {start stop : Nat}
    (hin : ∀ p ∈ base, p < start ∨ stop ≤ p) :
    BodySpec bitvector (markInterior heap) start stop
      (fun m m' => Explores heap.references m.search m'.search)
      (fun m => Ready heap base r m ∧ m.markingStack = [])
      fun p m => Closed heap.references m.search p where
  refl m := .refl m.search
  trans _ _ _ h h' := h.trans h'
  keeps _ _ _ h hbit := h.marked hbit
  done _ _ _ h hp := h.closed hp
  step p m hok hstart hstop hbit := by
    have hp : p ∈ r := by
      rcases hok.1.within.marked hbit with hbase | hr
      · have := hin p hbase
        omega
      · exact hr
    obtain ⟨m', hrun, he, hm', hempty, hfollowed⟩ :=
      markRoots_spec hc hok.1 hok.2 (slots_within hc hp)
    exact ⟨m', hrun, he, ⟨hm', hempty⟩, closed_of_followed hfollowed⟩

/-- **A rescan** closes every object that was marked when it started. -/
theorem rescan_closes (hc : heap.Covers r) (hbase : ∀ p ∈ base, p ∉ heap.area)
    (hgen : heap.heapStart ≤ heap.youngGenerationStart ∧
      heap.oldGenerationEnd ≤ heap.inlineAllocationTop)
    (hm : Ready heap base r m) (hempty : m.markingStack = []) :
    ∃ m₁ m₂, writeBarrierOopsLoop bitvector (markInterior heap) heap.heapStart
        heap.oldGenerationEnd m = .ok m₁ ∧
      writeBarrierOopsLoop bitvector (markInterior heap) heap.youngGenerationStart
        heap.inlineAllocationTop m₁ = .ok m₂ ∧
      Explores heap.references m.search m₂.search ∧ Ready heap base r m₂ ∧ m₂.markingStack = [] ∧
      ∀ p ∈ r, p ∈ m.search.marked → Closed heap.references m₂.search p := by
  have hout : ∀ start stop, heap.heapStart ≤ start → stop ≤ heap.inlineAllocationTop →
      ∀ p ∈ base, p < start ∨ stop ≤ p := by
    intro start stop hstart hstop p hp
    have := hbase p hp
    rw [Heap.area, Finset.mem_Ico] at this
    omega
  obtain ⟨m₁, hrun₁, he₁, ⟨hm₁, hempty₁⟩, hold⟩ := writeBarrierOopsLoop_spec
    (rescan_spec hc (hout heap.heapStart heap.oldGenerationEnd le_rfl hgen.2)) ⟨hm, hempty⟩
  obtain ⟨m₂, hrun₂, he₂, ⟨hm₂, hempty₂⟩, hyoung⟩ := writeBarrierOopsLoop_spec
    (rescan_spec hc (hout heap.youngGenerationStart heap.inlineAllocationTop hgen.1 le_rfl))
    ⟨hm₁, hempty₁⟩
  refine ⟨m₁, m₂, hrun₁, hrun₂, he₁.trans he₂, hm₂, hempty₂, fun p hp hmarked => ?_⟩
  have hin := hc.inside p hp
  rw [Heap.area, Finset.mem_Ico] at hin
  rcases hc.outsideGap p hp with hlt | hle
  · exact he₂.closed (hold p hin.1 hlt hmarked)
  · exact hyoung p hle hin.2 (he₁.marked hmarked)

/-- **`check_marking_stack_overflow`** ends, because every rescan that has to be repeated has marked
an object; and when it ends every marked object is closed. -/
theorem checkMarkingStackOverflow_spec (hc : heap.Covers r) (hbase : ∀ p ∈ base, p ∉ heap.area)
    (hgen : heap.heapStart ≤ heap.youngGenerationStart ∧
      heap.oldGenerationEnd ≤ heap.inlineAllocationTop) :
    ∀ (fuel : Nat) (m : Marks),
      unmarked heap.area m.search + m.markingStackOverflow.toNat < fuel → Ready heap base r m →
      m.markingStack = [] →
      (m.markingStackOverflow = false →
        ∀ p ∈ r, p ∈ m.search.marked → Closed heap.references m.search p) →
      ∃ m', checkMarkingStackOverflow heap fuel m = .ok m' ∧ m.search.marked ⊆ m'.search.marked ∧
        Ready heap base r m' ∧ m'.markingStack = [] ∧
        ∀ p ∈ r, p ∈ m'.search.marked → Closed heap.references m'.search p
  | 0, _, hfuel, _, _, _ => by omega
  | fuel + 1, m, hfuel, hm, hempty, hclosed => by
    cases hoverflow : m.markingStackOverflow with
    | false =>
      refine ⟨m, ?_, subset_rfl, hm, hempty, hclosed hoverflow⟩
      rw [checkMarkingStackOverflow, hoverflow, if_neg (by decide)]
    | true =>
      have hm₀ : Ready heap base r { m with markingStackOverflow := false } :=
        ⟨⟨hm.within.keeps, hm.within.marked, hm.within.stack⟩, hm.room⟩
      obtain ⟨m₁, m₂, hrun₁, hrun₂, he, hm₂, hempty₂, hscan⟩ :=
        rescan_closes hc hbase hgen hm₀ hempty
      have hclosed₂ : m₂.markingStackOverflow = false →
          ∀ p ∈ r, p ∈ m₂.search.marked → Closed heap.references m₂.search p := by
        intro ho p hp hmarked
        by_cases hbefore : p ∈ m.search.marked
        · exact hscan p hp hbefore
        · exact he.done hempty₂ ho hmarked hbefore
      have hfewer : unmarked heap.area m₂.search + m₂.markingStackOverflow.toNat < fuel := by
        rw [hoverflow, Bool.toNat_true] at hfuel
        cases ho : m₂.markingStackOverflow with
        | false =>
          have := unmarked_le (u := heap.area) he.marked
          have hsame : unmarked heap.area ({ m with markingStackOverflow := false } : Marks).search =
            unmarked heap.area m.search := rfl
          rw [Bool.toNat_false]
          omega
        | true =>
          rcases he.fresh ho with hfalse | ⟨p, hp, hnew⟩
          · cases hfalse
          · have hr : p ∈ r := by
              rcases hm₂.within.marked hp with hb | hr
              · exact absurd (hm.within.keeps hb) hnew
              · exact hr
            have := unmarked_lt he.marked (hc.inside p hr) hp hnew
            have hsame : unmarked heap.area
                ({ m with markingStackOverflow := false } : Marks).search =
              unmarked heap.area m.search := rfl
            rw [Bool.toNat_true]
            omega
      obtain ⟨m', hrun', hsub, hm', hempty', hclosed'⟩ :=
        checkMarkingStackOverflow_spec hc hbase hgen fuel m₂ hfewer hm₂ hempty₂ hclosed₂
      refine ⟨m', ?_, he.marked.trans hsub, hm', hempty', hclosed'⟩
      rw [checkMarkingStackOverflow, hoverflow, if_pos rfl]
      simp only [hc.full, if_true, hrun₁, hrun₂]
      exact hrun'

end Marks

/-! ## All of marking -/

/-- The objects lie one behind the other from `p` to `top`. -/
inductive Consecutive (size : Nat → Nat) : Nat → Nat → List Nat → Prop
  | nil (top : Nat) : Consecutive size top top []
  | cons {p top : Nat} {objects : List Nat} : 0 < size p →
      Consecutive size (p + size p) top objects → Consecutive size p top (p :: objects)

theorem Consecutive.bounds {size : Nat → Nat} {p top : Nat} {objects : List Nat}
    (h : Consecutive size p top objects) : p ≤ top ∧ ∀ x ∈ objects, p ≤ x ∧ x < top := by
  induction h with
  | nil => exact ⟨le_rfl, fun x hx => nomatch hx⟩
  | cons hsize _ ih =>
    refine ⟨by omega, fun x hx => ?_⟩
    rcases List.mem_cons.1 hx with rfl | hx
    · omega
    · have := ih.2 x hx
      omega

/-- The objects that the roots refer to. -/
def Heap.rootSet (heap : Heap) (roots : List Nat) : Set Nat :=
  {o | ∃ p ∈ roots, heap.target p = some o}

/-- A heap at the start of a full collection: objects of any sizes one behind the other, and every
pointer into the collected area refers to the start of one of them. -/
structure Heap.WellFormed (heap : Heap) (objects roots : List Nat) : Prop where
  full : heap.collectionAreaStart = heap.heapStart
  laidOut : ∃ size, Consecutive size heap.heapStart heap.inlineAllocationTop objects
  generations : heap.heapStart ≤ heap.youngGenerationStart ∧
    heap.oldGenerationEnd ≤ heap.inlineAllocationTop
  objectRefs : ∀ x ∈ objects, ∀ o ∈ heap.references x, o ∈ objects
  rootRefs : ∀ o ∈ heap.rootSet roots, o ∈ objects
  /-- nothing refers to the filler between the generations -/
  unsplit : ∀ o ∈ objects, (∃ x ∈ objects, o ∈ heap.references x) ∨ o ∈ heap.rootSet roots →
    o < heap.oldGenerationEnd ∨ heap.youngGenerationStart ≤ o

theorem Heap.WellFormed.covers {heap : Heap} {objects roots : List Nat}
    (h : heap.WellFormed objects roots) (hroom : 0 < heap.markingStackSize) :
    heap.Covers (Reachable heap.references (heap.rootSet roots)) := by
  obtain ⟨size, hobjects⟩ := h.laidOut
  -- a reachable object is an object, and something refers to it
  have hsub : ∀ x ∈ Reachable heap.references (heap.rootSet roots), x ∈ objects ∧
      ((∃ y ∈ objects, x ∈ heap.references y) ∨ x ∈ heap.rootSet roots) := by
    refine Reachable.subset (fun x hx => ⟨h.rootRefs x hx, .inr hx⟩) ?_
    rintro v ⟨hv, -⟩ w hw
    exact ⟨h.objectRefs v hv w hw, .inl ⟨v, hv, hw⟩⟩
  refine ⟨h.full, hroom, fun x hx o ho => Reachable.step hx ho, fun x hx => ?_, fun x hx => ?_⟩
  · rw [Heap.area, Finset.mem_Ico]
    exact hobjects.bounds.2 x (hsub x hx).1
  · exact h.unsplit x (hsub x hx).1 (hsub x hx).2

/-- **Marking is complete and exact.**  It ends without a write behind the marking stack, however
often the stack overflows, and then the marked objects are the reachable ones; bits outside the
heap are as before. -/
theorem markObjects_reachable (heap : Heap) (objects roots : List Nat) (m : Marks)
    (h : heap.WellFormed objects roots) (hroom : 0 < heap.markingStackSize)
    (hclear : ∀ p ∈ heap.area, m.bitvector.testBitFor p = false)
    (hempty : m.markingStack = []) :
    ∃ m', m.markObjects heap roots = .ok m' ∧ m'.markingStack = [] ∧
      (∀ p ∈ heap.area, m'.bitvector.testBitFor p = true ↔
        p ∈ Reachable heap.references (heap.rootSet roots)) ∧
      ∀ p ∉ heap.area, m'.bitvector.testBitFor p = m.bitvector.testBitFor p := by
  have hc := h.covers hroom
  have hbase : ∀ p ∈ m.search.marked, p ∉ heap.area := by
    intro p hp harea
    have hset : m.bitvector.testBitFor p = true := hp
    rw [hclear p harea] at hset
    cases hset
  have hm : m.Ready heap m.search.marked (Reachable heap.references (heap.rootSet roots)) := by
    refine ⟨⟨subset_rfl, Set.subset_union_left, fun v hv => ?_⟩, ?_⟩
    · have hv' : v ∈ m.markingStack := hv
      rw [hempty] at hv'
      cases hv'
    · rw [hempty]
      exact Nat.zero_le _
  obtain ⟨m₁, hrun₁, he, hm₁, hempty₁, hfollowed⟩ := Marks.markRoots_spec hc hm hempty
    fun p hp o ho => Reachable.root ⟨p, hp, ho⟩
  have hclosed₁ : m₁.markingStackOverflow = false →
      ∀ p ∈ Reachable heap.references (heap.rootSet roots), p ∈ m₁.search.marked →
        Closed heap.references m₁.search p := by
    intro ho p hp hmarked
    exact he.done hempty₁ ho hmarked fun hbefore => hbase p hbefore (hc.inside p hp)
  have hfuel : unmarked heap.area m₁.search + m₁.markingStackOverflow.toNat < Marks.fuel heap := by
    have hcard := unmarked_le_card heap.area m₁.search
    have hone := Bool.toNat_le m₁.markingStackOverflow
    rw [Heap.area, Nat.card_Ico] at hcard
    rw [Marks.fuel, Heap.area]
    omega
  obtain ⟨m', hrun', hsub, hm', hempty', hclosed'⟩ :=
    Marks.checkMarkingStackOverflow_spec hc hbase h.generations _ m₁ hfuel hm₁ hempty₁ hclosed₁
  refine ⟨m', ?_, hempty', fun p hp => ⟨fun hset => ?_, fun hreach => ?_⟩, fun p hp => ?_⟩
  · rw [Marks.markObjects, hrun₁]
    exact hrun'
  · rcases hm'.within.marked hset with hb | hr
    · exact absurd hp (hbase p hb)
    · exact hr
  · -- the marked reachable objects hold the roots and are closed
    have hall : Reachable heap.references (heap.rootSet roots) ⊆
        {q | q ∈ Reachable heap.references (heap.rootSet roots) ∧ q ∈ m'.search.marked} := by
      refine Reachable.subset ?_ ?_
      · rintro o ⟨q, hq, ho⟩
        exact ⟨.root ⟨q, hq, ho⟩, hsub (hfollowed q hq o ho)⟩
      · rintro v ⟨hv, hmarked⟩ w hw
        exact ⟨Reachable.step hv hw, hclosed' v hv hmarked w hw⟩
    exact (hall hreach).2
  · rw [Bool.eq_iff_iff]
    constructor
    · intro hset
      rcases hm'.within.marked hset with hb | hr
      · exact hb
      · exact absurd (hc.inside p hr) hp
    · exact fun hset => hm'.within.keeps hset

/-- Four objects of three words with two references each, and room for one on the stack. -/
def smallHeap : Heap where
  memory p := [(2, 40), (40, 1000), (41, 43), (42, 46), (43, 1000), (46, 1000), (47, 49), (49, 1000),
    (1000, 1001)].lookup p |>.getD 0
  farClass _ := { instance_size := 12, oop_map := [1, 1, 0] }
  stackOops _ := []
  heapStart := 40
  collectionAreaStart := 40
  oldGenerationEnd := 46
  youngGenerationStart := 46
  inlineAllocationTop := 52
  largeObjectAreaBottom := 60
  markingStackSize := 1

theorem smallHeap_wellFormed : smallHeap.WellFormed [40, 43, 46, 49] [2] where
  full := rfl
  laidOut := ⟨fun _ => 3, .cons (by decide) (.cons (by decide) (.cons (by decide)
    (.cons (by decide) (.nil 52))))⟩
  generations := by decide
  objectRefs := by decide
  rootRefs := by
    rintro o ⟨p, hp, ho⟩
    obtain rfl := List.mem_singleton.1 hp
    obtain rfl : 40 = o := Option.some.inj ho
    decide
  unsplit := fun o _ _ => Nat.lt_or_ge o 46

/-- The third object is marked when the stack is full, and the fourth is found by the rescan. -/
theorem markObjects_reachable_small : ∃ m', Marks.markObjects smallHeap [2] ⟨fun _ => 0, [], false⟩ =
    .ok m' ∧ m'.bitvector.testBitFor 49 = true ∧ m'.bitvector.testBitFor 41 = false := by
  obtain ⟨m', hrun, -, hmarked, -⟩ := markObjects_reachable smallHeap [40, 43, 46, 49] [2]
    ⟨fun _ => 0, [], false⟩ smallHeap_wellFormed (by decide)
    (fun p _ => by simp [Bitvector.testBitFor]) rfl
  have hroot : 40 ∈ Reachable smallHeap.references (smallHeap.rootSet [2]) :=
    Reachable.root ⟨2, by decide, rfl⟩
  refine ⟨m', hrun, (hmarked 49 (by decide)).2 ?_, Bool.eq_false_iff.2 fun hset => ?_⟩
  · exact Reachable.step (Reachable.step hroot (w := 46) (by decide)) (by decide)
  · -- only starts of objects are reachable
    have hsub : Reachable smallHeap.references (smallHeap.rootSet [2]) ⊆
        {o | o ∈ [40, 43, 46, 49]} :=
      Reachable.subset smallHeap_wellFormed.rootRefs smallHeap_wellFormed.objectRefs
    exact absurd (hsub ((hmarked 41 (by decide)).1 hset)) (by decide)

end FroggyKVM.Gc
