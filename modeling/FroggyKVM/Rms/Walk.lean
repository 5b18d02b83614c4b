/-
# FroggyKVM.Rms.Walk — walking a keep-updated enumeration while its store changes.

A notification removes the id and puts it back at the front.  Behind the cursor that is invisible
to the walk; but when the changed record is the first of the array and the cursor is on it, the
removal takes the cursor to "before the first", and the id put back is ahead of it again.  A walk
that rewrites each record it is given starts with exactly that record.
-/
import FroggyKVM.Rms.Enumeration

namespace FroggyKVM.Rms

open Enumeration

/-! ## A pass: the ids returned since the walk last went back -/

/-- What happens to a registered enumeration. -/
inductive EnumerationEvent where
  | nextRecordId
  | previousRecordId
  | reset
  | recordAdded (store : StoreView) (recordId : Int)
  | recordChanged (store : StoreView) (recordId : Int)
  | recordDeleted (recordId : Int)

/-- An enumeration with the ids that `nextRecordId` returned since it was built, reset or moved
back. -/
structure Pass where
  enum : Enumeration
  returned : List Int := []

namespace Pass

def step (p : Pass) : EnumerationEvent → Pass
  | .nextRecordId =>
    match p.enum.nextRecordId with
    | .ok (recordId, e) => { enum := e, returned := p.returned ++ [recordId] }
    | .error _ => p
  | .previousRecordId =>
    match p.enum.previousRecordId with
    | .ok (_, e) => { enum := e }
    | .error _ => p
  | .reset => { enum := p.enum.reset }
  | .recordAdded store recordId => { p with enum := p.enum.recordAdded store recordId }
  | .recordChanged store recordId => { p with enum := p.enum.recordChanged store recordId }
  | .recordDeleted recordId => { p with enum := p.enum.recordDeleted recordId }

/-- A record is added once.  A record that was returned in this pass is not announced as changed,
with bytes that the filter takes, while the cursor is at the front. -/
def Undisturbed (p : Pass) : EnumerationEvent → Prop
  | .recordAdded _ recordId => recordId ∉ p.enum.records ∧ recordId ∉ p.returned
  | .recordChanged store recordId =>
    p.enum.accepts store recordId = true → p.enum.AtFront recordId → recordId ∉ p.returned
  | _ => True

instance (p : Pass) : DecidablePred p.Undisturbed
  | .recordAdded _ _ => inferInstanceAs (Decidable (_ ∧ _))
  | .recordChanged _ _ => inferInstanceAs (Decidable (_ → _ → _))
  | .nextRecordId | .previousRecordId | .reset | .recordDeleted _ => instDecidableTrue

/-- The ids returned in the pass are distinct, and none of them is ahead of the cursor. -/
structure Inv (p : Pass) : Prop where
  unsorted : p.enum.comparator = none
  valid : p.enum.Valid
  nodup : p.returned.Nodup
  ahead : ∀ recordId, recordId ∈ p.returned → recordId ∉ p.enum.pending

theorem comparator_recordAt {e e' : Enumeration} {index recordId : Int}
    (h : e.recordAt index = .ok (recordId, e')) : e'.comparator = e.comparator := by
  obtain ⟨-, -, rfl⟩ := recordAt_cases h
  rfl

theorem comparator_nextRecordId {e e' : Enumeration} {recordId : Int}
    (h : e.nextRecordId = .ok (recordId, e')) : e'.comparator = e.comparator := by
  unfold Enumeration.nextRecordId at h
  split at h
  · cases h
  · exact comparator_recordAt h

theorem comparator_previousRecordId {e e' : Enumeration} {recordId : Int}
    (h : e.previousRecordId = .ok (recordId, e')) : e'.comparator = e.comparator := by
  unfold Enumeration.previousRecordId at h
  split at h
  · cases h
  · exact comparator_recordAt h

theorem comparator_filterAdd (store : StoreView) (recordId : Int) (e : Enumeration) :
    (e.filterAdd store recordId).comparator = e.comparator := by
  unfold filterAdd
  split <;> rfl

theorem nextRecordId_inv {p : Pass} (hp : p.Inv) : (p.step .nextRecordId).Inv := by
  simp only [step]
  split
  · rename_i recordId e hnext
    obtain ⟨hpending, hvalid⟩ := nextRecordId_cases hp.valid hnext
    have hdistinct := pending_nodup hp.valid
    rw [hpending, List.nodup_cons] at hdistinct
    have hnew : recordId ∉ p.returned := by
      intro hmem
      apply hp.ahead recordId hmem
      rw [hpending]
      exact List.mem_cons_self
    refine ⟨(comparator_nextRecordId hnext).trans hp.unsorted, hvalid, ?_, ?_⟩
    · exact List.nodup_append.2 ⟨hp.nodup, List.nodup_singleton _, by
        rintro a ha b hb rfl
        rw [List.mem_singleton.1 hb] at ha
        exact hnew ha⟩
    · intro other hmem hahead
      rcases List.mem_append.1 hmem with h | h
      · apply hp.ahead other h
        rw [hpending]
        exact List.mem_cons_of_mem _ hahead
      · rw [List.mem_singleton.1 h] at hahead
        exact hdistinct.1 hahead
  · exact hp

theorem previousRecordId_inv {p : Pass} (hp : p.Inv) : (p.step .previousRecordId).Inv := by
  simp only [step]
  split
  · rename_i recordId e hprev
    exact ⟨(comparator_previousRecordId hprev).trans hp.unsorted,
      previousRecordId_valid hp.valid hprev, List.nodup_nil, by simp⟩
  · exact hp

/-- Putting an id in front keeps the invariant when the id is new to the array, and new to the
pass if the cursor is before the first. -/
theorem filterAdd_inv {e : Enumeration} {returned : List Int} {store : StoreView} {recordId : Int}
    (hp : Inv { enum := e, returned := returned }) (hnew : recordId ∉ e.records)
    (hfront : e.accepts store recordId = true → e.index = NO_SUCH_RECORD → recordId ∉ returned) :
    Inv { enum := e.filterAdd store recordId, returned := returned } := by
  refine ⟨(comparator_filterAdd store recordId e).trans hp.unsorted,
    filterAdd_valid hp.unsorted hp.valid hnew, hp.nodup, ?_⟩
  intro other hmem
  cases hacc : e.accepts store recordId with
  | false =>
    rw [filterAdd_rejected hacc]
    exact hp.ahead other hmem
  | true =>
    obtain ⟨-, -, hpending⟩ := filterAdd_cases hp.unsorted hp.valid hacc
    show other ∉ (e.filterAdd store recordId).pending
    rw [hpending]
    split
    · rename_i hindex
      intro hahead
      rcases List.mem_cons.1 hahead with rfl | hin
      · exact hfront hacc hindex hmem
      · apply hp.ahead other hmem
        show other ∈ e.records.drop (e.index + 1).toNat
        rw [hindex]
        exact hin
    · exact hp.ahead other hmem

theorem comparator_recordDeleted (recordId : Int) (e : Enumeration) :
    (e.recordDeleted recordId).comparator = e.comparator := by
  rcases recordDeleted_cases recordId e with ⟨heq, -⟩ | ⟨i, heq, -⟩ <;> rw [heq]
  rfl

theorem recordDeleted_inv {p : Pass} (hp : p.Inv) (recordId : Int) :
    (p.step (.recordDeleted recordId)).Inv where
  unsorted := (comparator_recordDeleted recordId p.enum).trans hp.unsorted
  valid := recordDeleted_valid hp.valid recordId
  nodup := hp.nodup
  ahead other hmem hahead := hp.ahead other hmem (recordDeleted_pending hp.valid recordId hahead)

theorem accepts_recordDeleted (store : StoreView) (recordId : Int) (e : Enumeration) :
    (e.recordDeleted recordId).accepts store recordId = e.accepts store recordId := by
  rcases recordDeleted_cases recordId e with ⟨heq, -⟩ | ⟨i, heq, -⟩ <;> rw [heq]
  rfl

theorem recordChanged_inv {p : Pass} (hp : p.Inv) (store : StoreView) (recordId : Int)
    (hok : p.Undisturbed (.recordChanged store recordId)) :
    (p.step (.recordChanged store recordId)).Inv := by
  show Inv { enum := p.enum.recordChanged store recordId, returned := p.returned }
  rw [recordChanged_eq]
  refine filterAdd_inv (recordDeleted_inv hp recordId) (not_mem_recordDeleted hp.valid recordId) ?_
  intro hacc hindex
  rw [accepts_recordDeleted] at hacc
  exact hok hacc ((index_recordDeleted hp.valid recordId).1 hindex)

theorem recordAdded_inv {p : Pass} (hp : p.Inv) (store : StoreView) (recordId : Int)
    (hok : p.Undisturbed (.recordAdded store recordId)) :
    (p.step (.recordAdded store recordId)).Inv :=
  filterAdd_inv hp hok.1 fun _ _ => hok.2

/-- **An undisturbed step keeps the invariant.** -/
theorem step_inv {p : Pass} (hp : p.Inv) (event : EnumerationEvent) (hok : p.Undisturbed event) :
    (p.step event).Inv := by
  cases event with
  | nextRecordId => exact nextRecordId_inv hp
  | previousRecordId => exact previousRecordId_inv hp
  | reset => exact ⟨hp.unsorted, reset_valid hp.valid, List.nodup_nil, by simp [step]⟩
  | recordAdded store recordId => exact recordAdded_inv hp store recordId hok
  | recordChanged store recordId => exact recordChanged_inv hp store recordId hok
  | recordDeleted recordId => exact recordDeleted_inv hp recordId

/-- The events of a registered enumeration, in any order. -/
def Step (p : Pass) (event : EnumerationEvent) (p' : Pass) : Prop := p.step event = p'

theorem run_inv {p p' : Pass} {events : List EnumerationEvent}
    (hrun : Lts.Run (Lts.Guarded Step Undisturbed) p events p') (hp : p.Inv) : p'.Inv := by
  refine Lts.Run.invariant (I := Inv) ?_ hrun hp
  rintro p event p' h ⟨hok, rfl⟩
  exact step_inv h event hok

/-- **What a disturbed change does.** The changed id is the next one to be returned, again. -/
theorem recordChanged_returned_again {p : Pass} (hp : p.Inv) {store : StoreView} {recordId : Int}
    (hbad : ¬ p.Undisturbed (.recordChanged store recordId)) :
    ¬ ((p.step (.recordChanged store recordId)).step .nextRecordId).returned.Nodup := by
  simp only [Undisturbed, Classical.not_imp, Classical.not_not] at hbad
  obtain ⟨hacc, hfront, hmem⟩ := hbad
  have hdel := recordDeleted_inv hp recordId
  have hadd := filterAdd_cases hdel.unsorted hdel.valid
    ((accepts_recordDeleted store recordId p.enum).trans hacc)
  have hvalid := @filterAdd_valid store recordId _ hdel.unsorted hdel.valid
    (not_mem_recordDeleted hp.valid recordId)
  have hpending : ∃ rest, (p.enum.recordChanged store recordId).pending = recordId :: rest := by
    refine ⟨(p.enum.recordDeleted recordId).records, ?_⟩
    rw [recordChanged_eq]
    exact hadd.2.2.trans (if_pos ((index_recordDeleted hp.valid recordId).2 hfront))
  obtain ⟨rest, hrest⟩ := hpending
  rw [step, step]
  split
  · rename_i other e hnext
    change Enumeration.nextRecordId (p.enum.recordChanged store recordId) = _ at hnext
    rw [recordChanged_eq] at hnext hrest
    have hother := (nextRecordId_cases hvalid hnext).1
    obtain rfl : other = recordId := (List.cons.inj (hother.symm.trans hrest)).1
    intro hnodup
    exact (List.nodup_append.1 hnodup).2.2 other hmem other (List.mem_singleton_self _) rfl
  · rename_i err hnext
    change Enumeration.nextRecordId (p.enum.recordChanged store recordId) = _ at hnext
    rw [recordChanged_eq] at hnext hrest
    have hempty := nextRecordId_eq_error hvalid hnext
    change (filterAdd store recordId (p.enum.recordDeleted recordId)).pending = [] at hempty
    rw [hempty] at hrest
    cases hrest

end Pass

/-! ## The loop that rewrites every record it is given -/

/-- `RecordStore.setRecord` where it succeeds: the record changes, then the listeners hear of it. -/
def setRecord (store : StoreView) (recordId : Int) (newData : List UInt8) (e : Enumeration) :
    StoreView × Enumeration :=
  let store := { store with
    getRecord := fun id => if id = recordId then some newData else store.getRecord id }
  (store, e.recordChanged store recordId)

/-- `while (e.hasNextElement()) { id = e.nextRecordId(); rs.setRecord(id, newData); }`, for so many
iterations at most.  The new bytes may depend on all ids returned before. -/
def walk (newData : List Int → List UInt8) :
    Nat → StoreView → Enumeration → List Int → Option (List Int)
  | 0, _, _, _ => none
  | fuel + 1, store, e, visited =>
    if e.hasNextElement store then
      match e.nextRecordId with
      | .ok (recordId, e) =>
        let (store, e) := setRecord store recordId (newData visited) e
        walk newData fuel store e (visited ++ [recordId])
      | .error _ => some visited
    else some visited

/-- An enumeration before its first record, over a store that has all of its records, with a filter
that takes every record. -/
structure AtStart (store : StoreView) (e : Enumeration) : Prop where
  isOpen : store.isOpen = true
  unsorted : e.comparator = none
  index : e.index = NO_SUCH_RECORD
  nodup : e.records.Nodup
  live : ∀ recordId, recordId ∈ e.records → (store.getRecord recordId).isSome
  all : ∀ ok, e.filter = some ok → ∀ bytes, ok bytes = true

namespace AtStart

variable {store : StoreView} {e : Enumeration}

theorem accepts (h : AtStart store e) {recordId : Int}
    (hlive : (store.getRecord recordId).isSome) : e.accepts store recordId = true := by
  unfold Enumeration.accepts
  cases hfilter : e.filter with
  | none => rfl
  | some ok =>
    obtain ⟨bytes, hbytes⟩ := Option.isSome_iff_exists.1 hlive
    rw [hbytes]
    exact h.all ok hfilter bytes

theorem hasNextElement (h : AtStart store e) :
    e.hasNextElement store = decide (e.records ≠ []) := by
  unfold Enumeration.hasNextElement
  rw [h.index, h.isOpen]
  cases hrecords : e.records with
  | nil => rfl
  | cons recordId rest =>
    have hne : NO_SUCH_RECORD ≠ ((recordId :: rest).length : Int) - 1 := by
      rw [List.length_cons]
      unfold NO_SUCH_RECORD
      omega
    simp only [List.length_cons, Nat.add_eq_zero_iff, Nat.one_ne_zero, and_false, Bool.not_true,
      Bool.false_eq_true, or_self, if_false, ne_eq, reduceCtorEq, not_false_iff, decide_true,
      decide_eq_true_eq]
    exact hne

theorem nextRecordId (h : AtStart store e) {recordId : Int} {rest : List Int}
    (hrecords : e.records = recordId :: rest) :
    e.nextRecordId = .ok (recordId, { e with index := 0 }) := by
  unfold Enumeration.nextRecordId
  rw [h.index, hrecords, List.length_cons, if_neg (by unfold NO_SUCH_RECORD; omega), if_pos rfl]
  simp [recordAt, hrecords]

/-- The first record is removed with the cursor on it, and put back ahead of the cursor. -/
theorem recordChanged (h : AtStart store e) {recordId : Int} {rest : List Int}
    (hrecords : e.records = recordId :: rest) {store' : StoreView}
    (hacc : e.accepts store' recordId = true) :
    ({ e with index := 0 } : Enumeration).recordChanged store' recordId = e := by
  have hnodup := h.nodup
  rw [hrecords, List.nodup_cons] at hnodup
  have hfind : ({ e with index := 0 } : Enumeration).findIndexOfRecord recordId = 0 := by
    rcases findIndexOfRecord_cases recordId { e with index := 0 } with ⟨-, hnotin⟩ | ⟨i, hi, hget⟩
    · rw [hrecords] at hnotin
      exact absurd List.mem_cons_self hnotin
    · cases i with
      | zero => exact hi
      | succ i =>
        rw [show ({ e with index := 0 } : Enumeration).records = recordId :: rest from hrecords,
          List.getElem?_cons_succ] at hget
        exact absurd (List.mem_of_getElem? hget) hnodup.1
  have hremove : ({ e with index := 0 } : Enumeration).removeRecordAtIndex 0 =
      { e with records := rest, index := NO_SUCH_RECORD } := by
    simp [removeRecordAtIndex, hrecords, NO_SUCH_RECORD]
  unfold Enumeration.recordChanged
  rw [hfind]
  simp only [ge_iff_le, Int.le_refl, if_true, Int.toNat_zero]
  rw [hremove]
  have hacc' : ({ e with records := rest, index := NO_SUCH_RECORD } : Enumeration).accepts
      store' recordId = true := hacc
  obtain ⟨filter, comparator, records, index⟩ := e
  obtain rfl : comparator = none := h.unsorted
  obtain rfl : index = NO_SUCH_RECORD := h.index
  obtain rfl : records = recordId :: rest := hrecords
  simp [filterAdd, hacc']

/-- **One iteration leads back to where it started.** -/
theorem iteration (h : AtStart store e) {recordId : Int} {rest : List Int}
    (hrecords : e.records = recordId :: rest) (newData : List UInt8) :
    ∃ store', setRecord store recordId newData { e with index := 0 } = (store', e) ∧
      AtStart store' e := by
  let store' : StoreView :=
    { store with getRecord := fun id => if id = recordId then some newData else store.getRecord id }
  have hlive : ∀ id, id ∈ e.records → (store'.getRecord id).isSome := by
    intro id hid
    show Option.isSome (if id = recordId then some newData else store.getRecord id) = true
    split
    · rfl
    · exact h.live id hid
  have hstart : AtStart store' e := ⟨h.isOpen, h.unsorted, h.index, h.nodup, hlive, h.all⟩
  refine ⟨store', ?_, hstart⟩
  have hmem : recordId ∈ e.records := hrecords ▸ List.mem_cons_self
  exact Prod.ext rfl (h.recordChanged hrecords (hstart.accepts (hlive recordId hmem)))

/-- A loop over at least one record never ends. -/
theorem walk_eq_none (newData : List Int → List UInt8) (hne : e.records ≠ []) (fuel : Nat) :
    ∀ (store : StoreView) (visited : List Int), AtStart store e →
      walk newData fuel store e visited = none := by
  induction fuel with
  | zero => exact fun _ _ _ => rfl
  | succ fuel ih =>
    intro store visited h
    obtain ⟨recordId, rest, hrecords⟩ := List.exists_cons_of_ne_nil hne
    obtain ⟨store', hset, hstart⟩ := h.iteration hrecords (newData visited)
    unfold walk
    rw [h.hasNextElement, if_pos (by simpa using hne), h.nextRecordId hrecords]
    show (let (store, e) := setRecord store recordId (newData visited) { e with index := 0 };
      walk newData fuel store e (visited ++ [recordId])) = none
    rw [hset]
    exact ih store' _ hstart

end AtStart

theorem build_atStart {store : StoreView} {filter : Option (List UInt8 → Bool)}
    {recordIDs : List Int} (hopen : store.isOpen = true) (hnodup : recordIDs.Nodup)
    (hlive : ∀ recordId, recordId ∈ recordIDs → (store.getRecord recordId).isSome)
    (hall : ∀ ok, filter = some ok → ∀ bytes, ok bytes = true) :
    AtStart store (build store filter recordIDs) where
  isOpen := hopen
  unsorted := rfl
  index := rfl
  nodup := hnodup.filter _
  live recordId h := hlive recordId (List.mem_of_mem_filter h)
  all := hall

/-- A filter that takes every record keeps every id. -/
theorem build_records {store : StoreView} {filter : Option (List UInt8 → Bool)}
    {recordIDs : List Int}
    (hlive : ∀ recordId, recordId ∈ recordIDs → (store.getRecord recordId).isSome)
    (hall : ∀ ok, filter = some ok → ∀ bytes, ok bytes = true) :
    (build store filter recordIDs).records = recordIDs := by
  show recordIDs.filter (Enumeration.accepts store { filter := filter }) = recordIDs
  rw [List.filter_eq_self]
  intro recordId hmem
  obtain ⟨bytes, hbytes⟩ := Option.isSome_iff_exists.1 (hlive recordId hmem)
  unfold Enumeration.accepts
  cases filter with
  | none => rfl
  | some ok =>
    simp only [hbytes]
    exact hall ok rfl bytes

/-! ## Walking while the store changes -/

/-- **When a walk returns each id once.** The loop that rewrites every record it is given ends,
with each id returned once, only over a store without records.  A pass returns no id twice as long
as no id that it returned is announced as changed while the cursor is at the front; the first
announcement of that kind makes it return an id again. -/
theorem walk_returns_once (newData : List Int → List UInt8) (store : StoreView)
    (filter : Option (List UInt8 → Bool)) (recordIDs : List Int) :
    (store.isOpen = true → recordIDs.Nodup →
      (∀ recordId, recordId ∈ recordIDs → (store.getRecord recordId).isSome) →
      (∀ ok, filter = some ok → ∀ bytes, ok bytes = true) →
      ((∃ fuel visited, walk newData fuel store (build store filter recordIDs) [] = some visited ∧
        visited.Perm recordIDs) ↔ recordIDs = [])) ∧
    (∀ (e : Enumeration) (events : List EnumerationEvent) (p : Pass),
      e.comparator = none → e.Valid →
      Lts.Run (Lts.Guarded Pass.Step Pass.Undisturbed) { enum := e } events p →
      p.returned.Nodup ∧
      ∀ (store : StoreView) (recordId : Int),
        ¬ p.Undisturbed (.recordChanged store recordId) →
        ¬ ((p.step (.recordChanged store recordId)).step .nextRecordId).returned.Nodup) := by
  refine ⟨?_, ?_⟩
  · intro hopen hnodup hlive hall
    have hstart := build_atStart hopen hnodup hlive hall
    have hrecords := build_records hlive hall
    constructor
    · rintro ⟨fuel, visited, hwalk, -⟩
      by_contra hne
      rw [hstart.walk_eq_none newData (by rwa [hrecords]) fuel store []] at hwalk
      cases hwalk
    · rintro rfl
      refine ⟨1, [], ?_, List.Perm.refl _⟩
      unfold walk
      rw [hstart.hasNextElement, hrecords]
      rfl
  · intro e events p hunsorted hvalid hrun
    have hinv := Pass.run_inv hrun ⟨hunsorted, hvalid, List.nodup_nil, by simp⟩
    exact ⟨hinv.nodup, fun store recordId => Pass.recordChanged_returned_again hinv⟩

/-- A store with the records 1 and 2. -/
def twoRecords : StoreView where
  getRecord id := if id = 1 ∨ id = 2 then some [7] else none

/-- Over two records the loop does not return each once; a pass through an addition, a change of
the record returned last and a deletion returns both once. -/
theorem walk_returns_once_two :
    (¬ ∃ fuel visited, walk (fun _ => [8]) fuel twoRecords (build twoRecords none [2, 1]) [] =
      some visited ∧ visited.Perm [2, 1]) ∧
    ([2, 1] : List Int).Nodup := by
  refine ⟨fun h => ?_, ?_⟩
  · have hnil := ((walk_returns_once (fun _ => [8]) twoRecords none [2, 1]).1 rfl (by decide)
      (by decide) (by simp)).1 h
    cases hnil
  · have hrun : Lts.Run (Lts.Guarded Pass.Step Pass.Undisturbed)
        { enum := build twoRecords none [2, 1] }
        [.nextRecordId, .recordAdded twoRecords 3, .recordChanged twoRecords 2, .nextRecordId,
          .recordDeleted 2]
        { enum := { records := [3, 1], index := 1 }, returned := [2, 1] } :=
      .cons ⟨trivial, rfl⟩ (.cons ⟨by decide, rfl⟩ (.cons ⟨by decide, rfl⟩
        (.cons ⟨trivial, rfl⟩ (.cons ⟨trivial, rfl⟩ (.nil _)))))
    exact ((walk_returns_once (fun _ => [8]) twoRecords none [2, 1]).2
      (build twoRecords none [2, 1]) _ _ rfl (build_valid twoRecords none (by decide)) hrun).1

/-- Over the records 1 and 2, in the order `getRecordIDs` gives them: the first id is returned,
the record is changed, and the same id is returned again. -/
theorem walk_repeats :
    (∀ fuel, walk (fun _ => [8]) fuel twoRecords (build twoRecords none [1, 2]) [] = none) ∧
    ([.nextRecordId, .recordChanged twoRecords 1, .nextRecordId].foldl Pass.step
      { enum := build twoRecords none [1, 2] }).returned = [1, 1] := by
  refine ⟨fun fuel => ?_, rfl⟩
  have hstart : AtStart twoRecords (build twoRecords none [1, 2]) :=
    build_atStart rfl (by decide) (by decide) (by simp)
  exact hstart.walk_eq_none _ (by decide) fuel twoRecords []

end FroggyKVM.Rms
