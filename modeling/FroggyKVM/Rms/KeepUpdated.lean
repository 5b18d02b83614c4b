/-
# FroggyKVM.Rms.KeepUpdated — a keep-updated enumeration follows its record store exactly.

The store is any finite map from ids to bytes, in the order that `getRecordIDs` happens to give.
Each operation is followed by its notification, which edits the array in place: it takes one id out,
it puts one id in by a single pass of bubble sort, or both.
-/
import FroggyKVM.Rms.QuickSort

namespace FroggyKVM.Rms

open Outcome Segment

/-! ## Building with a comparator -/

/-- The store and a pure comparator, as `QuickSort` sees them. -/
def StoreView.application (store : StoreView) (compare : List UInt8 → List UInt8 → Int) :
    Application Unit (List UInt8) Unit where
  getRecord recordId w :=
    match store.getRecord recordId with
    | some data => (.ok data, w)
    | none => (.error (), w)
  compare x y w := (.ok (compare x y), w)

namespace Enumeration

/-- The sort of `reFilterSort`.  An exception is caught, and the array stays as far as it got. -/
def sorted (store : StoreView) (compare : List UInt8 → List UInt8 → Int) (records : List Int) :
    List Int :=
  (QuickSort (store.application compare) (records.length + 3) 0 (records.length - 1)
    { a := records, app := () }).2.a

def reFilterSort (store : StoreView) (filtered : List Int) (e : Enumeration) : Enumeration :=
  let records := e.refilter store filtered
  { e with
    records :=
      match e.comparator with
      | none => records
      | some compare => sorted store compare records }.reset

/-- The constructor, which rebuilds. -/
def construct (store : StoreView) (filter : Option (List UInt8 → Bool))
    (comparator : Option (List UInt8 → List UInt8 → Int)) (recordIDs : List Int) : Enumeration :=
  reFilterSort store recordIDs { filter := filter, comparator := comparator }

end Enumeration

open Enumeration

/-! ## The store and its enumeration -/

/-- A record gets data, or goes. -/
def StoreView.put (store : StoreView) (recordId : Int) (data : Option (List UInt8)) : StoreView :=
  { store with getRecord := fun k => if k = recordId then data else store.getRecord k }

@[simp] theorem StoreView.getRecord_put (store : StoreView) (recordId k : Int)
    (data : Option (List UInt8)) :
    (store.put recordId data).getRecord k = if k = recordId then data else store.getRecord k := rfl

/-- What `getRecordIDs` may give. -/
structure StoreView.Lists (store : StoreView) (recordIDs : List Int) : Prop where
  nodup : recordIDs.Nodup
  live : ∀ recordId, recordId ∈ recordIDs ↔ (store.getRecord recordId).isSome = true

structure Keeping where
  store : StoreView
  enum : Enumeration

/-- What is done to the store, or to the enumeration itself. -/
inductive KeepingOp where
  | addRecord (recordId : Int) (data : List UInt8)
  | setRecord (recordId : Int) (data : List UInt8)
  | deleteRecord (recordId : Int)
  | rebuild (recordIDs : List Int)
  | nextRecordId
  | previousRecordId
  | reset

/-- An operation that the store accepts, with its notification. -/
inductive Keeping.Step : Keeping → KeepingOp → Keeping → Prop
  | addRecord {k : Keeping} {recordId : Int} {data : List UInt8} :
    k.store.getRecord recordId = none →
    Step k (.addRecord recordId data)
      { store := k.store.put recordId (some data)
        enum := k.enum.recordAdded (k.store.put recordId (some data)) recordId }
  | setRecord {k : Keeping} {recordId : Int} {old data : List UInt8} :
    k.store.getRecord recordId = some old →
    Step k (.setRecord recordId data)
      { store := k.store.put recordId (some data)
        enum := k.enum.recordChanged (k.store.put recordId (some data)) recordId }
  | deleteRecord {k : Keeping} {recordId : Int} {old : List UInt8} :
    k.store.getRecord recordId = some old →
    Step k (.deleteRecord recordId)
      { store := k.store.put recordId none, enum := k.enum.recordDeleted recordId }
  | rebuild {k : Keeping} {recordIDs : List Int} :
    k.store.Lists recordIDs →
    Step k (.rebuild recordIDs) { k with enum := k.enum.reFilterSort k.store recordIDs }
  | nextRecordId {k : Keeping} {recordId : Int} {e : Enumeration} :
    k.enum.nextRecordId = .ok (recordId, e) → Step k .nextRecordId { k with enum := e }
  | previousRecordId {k : Keeping} {recordId : Int} {e : Enumeration} :
    k.enum.previousRecordId = .ok (recordId, e) → Step k .previousRecordId { k with enum := e }
  | reset {k : Keeping} : Step k .reset { k with enum := k.enum.reset }

/-! ## The array is exact -/

/-- The record exists and passes the filter. -/
def Accepted (store : StoreView) (e : Enumeration) (recordId : Int) : Prop :=
  ∃ data, store.getRecord recordId = some data ∧ ∀ ok, e.filter = some ok → ok data = true

/-- `y` is not ahead of `x` in the order of the current bytes. -/
def InOrder (store : StoreView) (compare : List UInt8 → List UInt8 → Int) (x y : Int) : Prop :=
  ∀ a b, store.getRecord x = some a → store.getRecord y = some b → compare a b ≠ FOLLOWS

/-- **Each live id that the filter accepts once, no other, in the order of the current bytes.** -/
structure Keeping.Exact (k : Keeping) : Prop where
  nodup : k.enum.records.Nodup
  mem : ∀ recordId, recordId ∈ k.enum.records ↔ Accepted k.store k.enum recordId
  sorted : ∀ compare, k.enum.comparator = some compare →
    k.enum.records.Pairwise (InOrder k.store compare)

theorem accepts_of_live {store : StoreView} {e : Enumeration} {recordId : Int}
    (hlive : (store.getRecord recordId).isSome = true) :
    e.accepts store recordId = true ↔ Accepted store e recordId := by
  obtain ⟨data, hdata⟩ := Option.isSome_iff_exists.1 hlive
  unfold Enumeration.accepts Accepted
  cases hf : e.filter with
  | none => exact ⟨fun _ => ⟨data, hdata, nofun⟩, fun _ => rfl⟩
  | some ok =>
    constructor
    · intro h
      rw [hdata] at h
      refine ⟨data, hdata, fun ok' hok => ?_⟩
      obtain rfl := Option.some.inj hok
      exact h
    · rintro ⟨data', hdata', h⟩
      rw [hdata']
      exact h ok rfl

theorem Accepted.live {store : StoreView} {e : Enumeration} {recordId : Int}
    (h : Accepted store e recordId) : (store.getRecord recordId).isSome = true := by
  obtain ⟨data, hdata, -⟩ := h
  rw [hdata]
  rfl

/-! ## The two sorts -/

theorem consistent_application (store : StoreView) (compare : List UInt8 → List UInt8 → Int) :
    Consistent (store.application compare) (fun k => (store.getRecord k).isSome = true)
      (fun k => (store.getRecord k).getD []) compare where
  getRecord recordId w h := by
    obtain ⟨data, hdata⟩ := Option.isSome_iff_exists.1 h
    simp only [StoreView.application, hdata, Option.getD_some]
  compare _ _ _ := rfl

theorem sorted_spec {store : StoreView} {compare : List UInt8 → List UInt8 → Int}
    (ht : TotalPreorder compare) {records : List Int}
    (hlive : ∀ k ∈ records, (store.getRecord k).isSome = true) :
    (sorted store compare records).Perm records ∧
      (sorted store compare records).Pairwise (InOrder store compare) := by
  have hlast : (records.length : Int) - 1 < records.length := by omega
  have hsafe := QuickSort_safe (store.application compare) (records.length + 3) 0
    (records.length - 1) { a := records, app := () } (by omega) hlast
    (by omega) (by omega)
  have hyields := QuickSort_yields (consistent_application store compare) ht (records.length + 3) 0
    (records.length - 1) { a := records, app := () } hlive (by omega)
    hlast (by omega) (by omega)
  obtain ⟨_, s', hrun, hwithin, -, hsorted⟩ := (hsafe.yields hyields).returns
  have hresult : sorted store compare records = s'.a := congrArg (fun r => r.2.a) hrun
  have hlength : (records.length : Int) = s'.a.length := by rw [hwithin.length_eq]
  rw [hlength] at hsorted
  rw [hresult]
  refine ⟨hwithin.rearranged.perm, hsorted.pairwise.imp fun {x y} hne a b ha hb => ?_⟩
  rw [ha, hb] at hne
  exact hne

theorem bubble_perm (store : StoreView) (compare : List UInt8 → List UInt8 → Int) (recordId : Int) :
    ∀ rest, (bubble store compare recordId rest).1.Perm (recordId :: rest)
  | [] => .refl _
  | next :: rest => by
    unfold bubble
    split
    · split
      · exact ((bubble_perm store compare recordId rest).cons next).trans (.swap recordId next rest)
      · exact .refl _
    · exact .refl _

/-- **One pass puts one record into a sorted array.** -/
theorem bubble_sorted {store : StoreView} {compare : List UInt8 → List UInt8 → Int}
    (ht : TotalPreorder compare) {recordId : Int}
    (hlive : (store.getRecord recordId).isSome = true) :
    ∀ {rest : List Int}, (∀ k ∈ rest, (store.getRecord k).isSome = true) →
      rest.Pairwise (InOrder store compare) →
      (bubble store compare recordId rest).1.Pairwise (InOrder store compare)
  | [], _, _ => List.pairwise_singleton _ _
  | next :: rest, hrest, hsorted => by
    obtain ⟨a, ha⟩ := Option.isSome_iff_exists.1 hlive
    obtain ⟨b, hb⟩ := Option.isSome_iff_exists.1 (hrest next List.mem_cons_self)
    have hnext := (List.pairwise_cons.1 hsorted).1
    have htail := (List.pairwise_cons.1 hsorted).2
    unfold bubble
    rw [ha, hb]
    dsimp only
    split
    · rename_i hfollows
      refine List.pairwise_cons.2 ⟨fun k hk => ?_,
        bubble_sorted ht hlive (fun k hk => hrest k (List.mem_cons_of_mem _ hk)) htail⟩
      rcases List.mem_cons.1 ((bubble_perm store compare recordId rest).mem_iff.1 hk) with rfl | hk
      · intro b' a' hb' ha'
        obtain rfl := Option.some.inj (hb.symm.trans hb')
        obtain rfl := Option.some.inj (ha.symm.trans ha')
        rw [(ht.swap b a).2 hfollows]
        decide
      · exact hnext k hk
    · rename_i hstop
      refine List.pairwise_cons.2 ⟨fun k hk => ?_, hsorted⟩
      intro a' c ha' hc
      obtain rfl := Option.some.inj (ha.symm.trans ha')
      rcases List.mem_cons.1 hk with rfl | hk
      · obtain rfl := Option.some.inj (hb.symm.trans hc)
        exact hstop
      · exact ht.trans a b c hstop (hnext k hk b c hb hc)

/-! ## Each operation keeps the array exact -/

/-- Exact, except that `recordId` is left out. -/
structure Keeping.ExactBut (recordId : Int) (k : Keeping) : Prop where
  nodup : k.enum.records.Nodup
  mem : ∀ x, x ∈ k.enum.records ↔ Accepted k.store k.enum x ∧ x ≠ recordId
  sorted : ∀ compare, k.enum.comparator = some compare →
    k.enum.records.Pairwise (InOrder k.store compare)

/-- The enumeration's comparator, if it has one, is a total preorder. -/
def Ordered (e : Enumeration) : Prop :=
  ∀ compare, e.comparator = some compare → TotalPreorder compare

theorem filter_recordDeleted (recordId : Int) (e : Enumeration) :
    (e.recordDeleted recordId).filter = e.filter := by
  rcases recordDeleted_cases recordId e with ⟨heq, -⟩ | ⟨i, heq, -⟩
  · rw [heq]
  · rw [heq]
    rfl

theorem comparator_recordDeleted (recordId : Int) (e : Enumeration) :
    (e.recordDeleted recordId).comparator = e.comparator := by
  rcases recordDeleted_cases recordId e with ⟨heq, -⟩ | ⟨i, heq, -⟩
  · rw [heq]
  · rw [heq]
    rfl

theorem records_recordDeleted_sublist (recordId : Int) (e : Enumeration) :
    (e.recordDeleted recordId).records.Sublist e.records := by
  rcases recordDeleted_cases recordId e with ⟨heq, -⟩ | ⟨i, heq, -⟩
  · rw [heq]
  · rw [heq]
    exact List.eraseIdx_sublist _ _

theorem mem_recordDeleted {e : Enumeration} (he : e.records.Nodup) (recordId x : Int) :
    x ∈ (e.recordDeleted recordId).records ↔ x ∈ e.records ∧ x ≠ recordId := by
  rcases recordDeleted_cases recordId e with ⟨heq, hnotin⟩ | ⟨i, heq, hget⟩
  · rw [heq]
    exact ⟨fun h => ⟨h, fun hx => hnotin (hx ▸ h)⟩, fun h => h.1⟩
  · rw [heq]
    show x ∈ e.records.eraseIdx i ↔ _
    obtain ⟨hi, hat⟩ := List.getElem?_eq_some_iff.1 hget
    rw [List.mem_eraseIdx_iff_getElem?]
    constructor
    · rintro ⟨j, hne, hj⟩
      refine ⟨List.mem_of_getElem? hj, ?_⟩
      rintro rfl
      obtain ⟨_, hat'⟩ := List.getElem?_eq_some_iff.1 hj
      exact hne ((List.Nodup.getElem_inj_iff he).1 (hat'.trans hat.symm))
    · rintro ⟨hx, hne⟩
      obtain ⟨j, hj⟩ := List.mem_iff_getElem?.1 hx
      refine ⟨j, ?_, hj⟩
      rintro rfl
      exact hne (Option.some.inj (hj.symm.trans hget))

theorem accepted_put {store : StoreView} {e e' : Enumeration} (hfilter : e'.filter = e.filter)
    {recordId x : Int} {data : Option (List UInt8)} (hne : x ≠ recordId) :
    Accepted (store.put recordId data) e' x ↔ Accepted store e x := by
  unfold Accepted
  rw [hfilter, StoreView.getRecord_put, if_neg hne]

/-- Data of a record that is not in the array do not matter. -/
theorem pairwise_put {store : StoreView} {compare : List UInt8 → List UInt8 → Int}
    {records : List Int} {recordId : Int} {data : Option (List UInt8)}
    (hnotin : recordId ∉ records) (h : records.Pairwise (InOrder store compare)) :
    records.Pairwise (InOrder (store.put recordId data) compare) := by
  refine h.imp_of_mem fun {x y} hx hy hxy a b ha hb => ?_
  have hxne : x ≠ recordId := fun h => hnotin (h ▸ hx)
  have hyne : y ≠ recordId := fun h => hnotin (h ▸ hy)
  rw [StoreView.getRecord_put, if_neg hxne] at ha
  rw [StoreView.getRecord_put, if_neg hyne] at hb
  exact hxy a b ha hb

/-- Taking an id out of the array, whatever becomes of its record. -/
theorem Keeping.Exact.recordDeleted {k : Keeping} (h : k.Exact) (recordId : Int)
    (data : Option (List UInt8)) :
    ExactBut recordId
      { store := k.store.put recordId data, enum := k.enum.recordDeleted recordId } where
  nodup := h.nodup.sublist (records_recordDeleted_sublist _ _)
  mem x := by
    show x ∈ (k.enum.recordDeleted recordId).records ↔ _
    rw [mem_recordDeleted h.nodup, h.mem]
    refine and_congr_left fun hne => ?_
    exact (accepted_put (filter_recordDeleted _ _) hne).symm
  sorted compare hcmp := by
    rw [comparator_recordDeleted] at hcmp
    refine pairwise_put ?_ ((h.sorted compare hcmp).sublist (records_recordDeleted_sublist _ _))
    exact fun hmem => ((mem_recordDeleted h.nodup _ _).1 hmem).2 rfl

/-- A record that is not live is not in the array, and may get data. -/
theorem Keeping.Exact.put {k : Keeping} (h : k.Exact) {recordId : Int} (data : Option (List UInt8))
    (hnone : k.store.getRecord recordId = none) :
    ExactBut recordId { k with store := k.store.put recordId data } := by
  have hnotin : recordId ∉ k.enum.records := by
    intro hmem
    have hlive := ((h.mem recordId).1 hmem).live
    rw [hnone] at hlive
    cases hlive
  refine ⟨h.nodup, fun x => ?_, fun compare hcmp => pairwise_put hnotin (h.sorted compare hcmp)⟩
  show x ∈ k.enum.records ↔ _
  constructor
  · intro hx
    have hne : x ≠ recordId := fun heq => hnotin (heq ▸ hx)
    exact ⟨(accepted_put rfl hne).2 ((h.mem x).1 hx), hne⟩
  · rintro ⟨hacc, hne⟩
    exact (h.mem x).2 ((accepted_put rfl hne).1 hacc)

theorem Keeping.ExactBut.exact_of_not_live {k : Keeping} {recordId : Int} (h : ExactBut recordId k)
    (hnone : k.store.getRecord recordId = none) : k.Exact := by
  refine ⟨h.nodup, fun x => (h.mem x).trans (and_iff_left_of_imp ?_), h.sorted⟩
  rintro hacc rfl
  have hlive := hacc.live
  rw [hnone] at hlive
  cases hlive

theorem filter_filterAdd (store : StoreView) (recordId : Int) (e : Enumeration) :
    (e.filterAdd store recordId).filter = e.filter := by
  unfold Enumeration.filterAdd
  split <;> rfl

theorem comparator_filterAdd (store : StoreView) (recordId : Int) (e : Enumeration) :
    (e.filterAdd store recordId).comparator = e.comparator := by
  unfold Enumeration.filterAdd
  split <;> rfl

theorem records_filterAdd {store : StoreView} {recordId : Int} {e : Enumeration}
    (hacc : e.accepts store recordId = true) :
    (e.filterAdd store recordId).records =
      match e.comparator with
      | none => recordId :: e.records
      | some compare => (bubble store compare recordId e.records).1 := by
  unfold Enumeration.filterAdd
  rw [hacc]
  cases e.comparator with
  | none => rfl
  | some compare => rfl

theorem Keeping.ExactBut.filterAdd {k : Keeping} {recordId : Int} (h : ExactBut recordId k)
    (ht : Ordered k.enum) (hlive : (k.store.getRecord recordId).isSome = true) :
    Exact { k with enum := k.enum.filterAdd k.store recordId } := by
  have hall : ∀ x ∈ k.enum.records, (k.store.getRecord x).isSome = true :=
    fun x hx => ((h.mem x).1 hx).1.live
  have hacc' (x : Int) :
      Accepted k.store (k.enum.filterAdd k.store recordId) x ↔ Accepted k.store k.enum x := by
    unfold Accepted
    rw [filter_filterAdd]
  cases hacc : k.enum.accepts k.store recordId with
  | false =>
    rw [filterAdd_rejected hacc]
    refine ⟨h.nodup, fun x => (h.mem x).trans (and_iff_left_of_imp ?_), h.sorted⟩
    rintro hx rfl
    rw [(accepts_of_live hlive).2 hx] at hacc
    cases hacc
  | true =>
    have hperm : (k.enum.filterAdd k.store recordId).records.Perm (recordId :: k.enum.records) := by
      rw [records_filterAdd hacc]
      cases k.enum.comparator with
      | none => exact .refl _
      | some compare => exact bubble_perm _ _ _ _
    refine ⟨hperm.nodup_iff.2 (List.nodup_cons.2 ⟨fun hmem => ((h.mem _).1 hmem).2 rfl, h.nodup⟩),
      fun x => ?_, fun compare hcmp => ?_⟩
    · show x ∈ (k.enum.filterAdd k.store recordId).records ↔ _
      rw [hperm.mem_iff, List.mem_cons, h.mem]
      refine Iff.trans ?_ (hacc' x).symm
      constructor
      · rintro (rfl | ⟨hx, -⟩)
        · exact (accepts_of_live hlive).1 hacc
        · exact hx
      · intro hx
        by_cases hxr : x = recordId
        · exact .inl hxr
        · exact .inr ⟨hx, hxr⟩
    · show (k.enum.filterAdd k.store recordId).records.Pairwise _
      replace hcmp : k.enum.comparator = some compare := by
        rw [← comparator_filterAdd k.store recordId]
        exact hcmp
      rw [records_filterAdd hacc, hcmp]
      exact bubble_sorted (ht compare hcmp) hlive hall (h.sorted compare hcmp)

theorem exact_reFilterSort {store : StoreView} {e : Enumeration} (ht : Ordered e)
    {recordIDs : List Int} (hids : store.Lists recordIDs) :
    Keeping.Exact { store := store, enum := e.reFilterSort store recordIDs } := by
  have hlive : ∀ x ∈ e.refilter store recordIDs, (store.getRecord x).isSome = true :=
    fun x hx => (hids.live x).1 (List.mem_filter.1 hx).1
  have hmem (x : Int) : x ∈ e.refilter store recordIDs ↔ Accepted store e x := by
    refine List.mem_filter.trans ⟨fun h => ?_, fun h => ?_⟩
    · exact (accepts_of_live ((hids.live x).1 h.1)).1 h.2
    · exact ⟨(hids.live x).2 h.live, (accepts_of_live h.live).2 h⟩
  have hnodup : (e.refilter store recordIDs).Nodup := hids.nodup.filter _
  cases hcmp : e.comparator with
  | none =>
    have heq : (e.reFilterSort store recordIDs).records = e.refilter store recordIDs := by
      simp only [Enumeration.reFilterSort, Enumeration.reset, hcmp]
    refine ⟨?_, fun x => ?_, fun compare h => ?_⟩
    · exact heq ▸ hnodup
    · exact heq ▸ hmem x
    · rw [show (e.reFilterSort store recordIDs).comparator = none from hcmp] at h
      cases h
  | some compare =>
    have heq : (e.reFilterSort store recordIDs).records =
        sorted store compare (e.refilter store recordIDs) := by
      simp only [Enumeration.reFilterSort, Enumeration.reset, hcmp]
    obtain ⟨hperm, hsorted⟩ := sorted_spec (ht compare hcmp) hlive
    refine ⟨?_, fun x => ?_, fun compare' h => ?_⟩
    · show (e.reFilterSort store recordIDs).records.Nodup
      rw [heq]
      exact hperm.nodup_iff.2 hnodup
    · show x ∈ (e.reFilterSort store recordIDs).records ↔ _
      rw [heq, hperm.mem_iff]
      exact hmem x
    · obtain rfl : compare = compare' := Option.some.inj (hcmp.symm.trans h)
      show (e.reFilterSort store recordIDs).records.Pairwise _
      rw [heq]
      exact hsorted

/-! ## Runs -/

/-- Only the cursor moves. -/
theorem Keeping.Exact.recordAt {k : Keeping} (h : k.Exact) {index recordId : Int} {e : Enumeration}
    (he : k.enum.recordAt index = .ok (recordId, e)) :
    Exact { k with enum := e } ∧ e.comparator = k.enum.comparator := by
  obtain ⟨-, -, rfl⟩ := recordAt_cases he
  exact ⟨⟨h.nodup, h.mem, h.sorted⟩, rfl⟩

/-- **One step.** -/
theorem Keeping.Step.exact {k k' : Keeping} {op : KeepingOp} (hs : Step k op k') (h : k.Exact)
    (ht : Ordered k.enum) : k'.Exact ∧ Ordered k'.enum := by
  cases hs with
  | addRecord hnone =>
    refine ⟨(h.put _ hnone).filterAdd ht ?_, ?_⟩
    · simp
    · intro compare hcmp
      exact ht compare ((comparator_filterAdd _ _ _).symm.trans hcmp)
  | @setRecord recordId old data hold =>
    rw [recordChanged_eq]
    have hbut := h.recordDeleted recordId (some data)
    have ht' : Ordered (k.enum.recordDeleted recordId) := fun compare hcmp =>
      ht compare ((comparator_recordDeleted _ _).symm.trans hcmp)
    refine ⟨hbut.filterAdd ht' ?_, ?_⟩
    · simp
    · intro compare hcmp
      exact ht' compare ((comparator_filterAdd _ _ _).symm.trans hcmp)
  | @deleteRecord recordId old hold =>
    refine ⟨(h.recordDeleted recordId none).exact_of_not_live ?_, ?_⟩
    · simp
    · exact fun compare hcmp => ht compare ((comparator_recordDeleted _ _).symm.trans hcmp)
  | rebuild hids => exact ⟨exact_reFilterSort ht hids, ht⟩
  | nextRecordId he =>
    unfold Enumeration.nextRecordId at he
    split at he
    · cases he
    · obtain ⟨hexact, hcmp⟩ := h.recordAt he
      exact ⟨hexact, fun compare hc => ht compare (hcmp ▸ hc)⟩
  | previousRecordId he =>
    unfold Enumeration.previousRecordId at he
    split at he
    · cases he
    · obtain ⟨hexact, hcmp⟩ := h.recordAt he
      exact ⟨hexact, fun compare hc => ht compare (hcmp ▸ hc)⟩
  | reset => exact ⟨⟨h.nodup, h.mem, h.sorted⟩, ht⟩

/-- **A keep-updated enumeration stays exact**, from its construction on. -/
theorem construct_stays_exact {store : StoreView} {filter : Option (List UInt8 → Bool)}
    {comparator : Option (List UInt8 → List UInt8 → Int)} {recordIDs : List Int}
    {ops : List KeepingOp} {k : Keeping} (hids : store.Lists recordIDs)
    (ht : ∀ compare, comparator = some compare → TotalPreorder compare)
    (hrun : Lts.Run Keeping.Step
      { store := store, enum := construct store filter comparator recordIDs } ops k) :
    k.Exact := by
  have hinv : k.Exact ∧ Ordered k.enum :=
    hrun.invariant (I := fun k => k.Exact ∧ Ordered k.enum) (fun _ _ _ h hs => hs.exact h.1 h.2)
      ⟨@exact_reFilterSort store { filter := filter, comparator := comparator } ht recordIDs hids,
        fun compare hcmp => ht compare hcmp⟩
  exact hinv.1

/-- By the first byte. -/
def compareFirst (a b : List UInt8) : Int := compareIds (a.headD 0).toNat (b.headD 0).toNat

theorem compareFirst_totalPreorder : TotalPreorder compareFirst where
  swap _ _ := compareIds_totalPreorder.swap _ _
  trans _ _ _ := compareIds_totalPreorder.trans _ _ _

def smallStore : StoreView :=
  (StoreView.put { getRecord := fun _ => none } 1 (some [5])).put 2 (some [3])

def watched : Keeping where
  store := smallStore
  enum := construct smallStore (some fun data => data ≠ [7]) (some compareFirst) [2, 1]

theorem construct_stays_exact_smallStore :
    ∃ k, Lts.Run Keeping.Step watched
      [.addRecord 3 [4], .setRecord 1 [0], .deleteRecord 2] k ∧ k.Exact := by
  have hlists : smallStore.Lists [2, 1] := by
    refine ⟨by decide, fun x => ?_⟩
    unfold smallStore
    rw [StoreView.getRecord_put, StoreView.getRecord_put]
    split_ifs with h₂ h₁ <;> simp [*]
  obtain ⟨k, hrun⟩ : ∃ k, Lts.Run Keeping.Step watched
      [.addRecord 3 [4], .setRecord 1 [0], .deleteRecord 2] k :=
    ⟨_, .cons (.addRecord rfl) (.cons (.setRecord rfl) (.cons (.deleteRecord rfl) (.nil _)))⟩
  refine ⟨k, hrun, construct_stays_exact hlists ?_ hrun⟩
  intro compare hcmp
  obtain rfl := Option.some.inj hcmp
  exact compareFirst_totalPreorder

end FroggyKVM.Rms
