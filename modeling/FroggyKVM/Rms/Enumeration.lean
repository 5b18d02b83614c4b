/-
# FroggyKVM.Rms.Enumeration — `RecordEnumerationImpl`, its cursor and its notifications.

An enumeration is an array of record ids and a cursor.  The cursor is the index of the id returned
last; `NO_SUCH_RECORD` stands for "before the first" and, in `filterAdd`, for "no position".  Of
its record store an enumeration only sees whether it is open and what `getRecord` gives.
-/
import FroggyKVM.Lib.Lts

namespace FroggyKVM.Rms

def NO_SUCH_RECORD : Int := -1

/-- `RecordComparator.FOLLOWS`. -/
def FOLLOWS : Int := 1

/-- The exceptions of a cursor move: the checked one, and an index outside `records`. -/
inductive EnumerationError where
  | invalidRecordID
  | arrayIndexOutOfBounds
  deriving DecidableEq, Repr

/-- What an enumeration sees of its record store.  `getRecord` gives `none` where it throws. -/
structure StoreView where
  isOpen : Bool := true
  getRecord : Int → Option (List UInt8)

/-- The fields of an enumeration that has not been destroyed. -/
structure Enumeration where
  filter : Option (List UInt8 → Bool) := none
  comparator : Option (List UInt8 → List UInt8 → Int) := none
  records : List Int := []
  index : Int := NO_SUCH_RECORD

namespace Enumeration

/-! ## The cursor -/

def hasNextElement (store : StoreView) (e : Enumeration) : Bool :=
  if e.records.length = 0 ∨ !store.isOpen then false
  else e.index ≠ e.records.length - 1

/-- `records[index]`. -/
def recordAt (e : Enumeration) (index : Int) : Except EnumerationError (Int × Enumeration) :=
  if index < 0 then .error .arrayIndexOutOfBounds else
  match e.records[index.toNat]? with
  | some recordId => .ok (recordId, { e with index := index })
  | none => .error .arrayIndexOutOfBounds

def nextRecordId (e : Enumeration) : Except EnumerationError (Int × Enumeration) :=
  if e.index = e.records.length - 1 then .error .invalidRecordID
  else e.recordAt (if e.index = NO_SUCH_RECORD then 0 else e.index + 1)

def previousRecordId (e : Enumeration) : Except EnumerationError (Int × Enumeration) :=
  if e.index = 0 ∨ e.records.length = 0 then .error .invalidRecordID
  else e.recordAt (if e.index = NO_SUCH_RECORD then e.records.length - 1 else e.index - 1)

def reset (e : Enumeration) : Enumeration := { e with index := NO_SUCH_RECORD }

/-! ## The notifications -/

/-- The loop of `sortInsert`: the first record moves behind every record it follows.  The position
is missing when `getRecord` throws on the way. -/
def bubble (store : StoreView) (compare : List UInt8 → List UInt8 → Int) (recordId : Int) :
    List Int → List Int × Option Nat
  | [] => ([recordId], some 0)
  | next :: rest =>
    match store.getRecord recordId, store.getRecord next with
    | some a, some b =>
      if compare a b = FOLLOWS then
        let (sorted, i) := bubble store compare recordId rest
        (next :: sorted, i.map (· + 1))
      else (recordId :: next :: rest, some 0)
    | _, _ => (recordId :: next :: rest, none)

def sortInsert (store : StoreView) (compare : List UInt8 → List UInt8 → Int) :
    List Int → List Int × Option Nat
  | [] => ([], some 0)
  | recordId :: rest => bubble store compare recordId rest

/-- The filter takes the record; without a filter nothing is read. -/
def accepts (store : StoreView) (e : Enumeration) (recordId : Int) : Bool :=
  match e.filter with
  | none => true
  | some ok =>
    match store.getRecord recordId with
    | some bytes => ok bytes
    | none => false

def filterAdd (store : StoreView) (recordId : Int) (e : Enumeration) : Enumeration :=
  if !e.accepts store recordId then e else
  let newrecs := recordId :: e.records
  let (records, insertPoint) : List Int × Int :=
    match e.comparator with
    | none => (newrecs, -1)
    | some compare =>
      let (sorted, i) := sortInsert store compare newrecs
      (sorted, match i with | some i => (i : Int) | none => -1)
  { e with
    records := records
    index := if e.index ≠ NO_SUCH_RECORD ∧ insertPoint ≤ e.index then e.index + 1 else e.index }

/-- The loop of `findIndexOfRecord`, which counts down. -/
def findBelow (records : List Int) (recordId : Int) : Nat → Int
  | 0 => -1
  | idx + 1 => if records[idx]? = some recordId then idx else findBelow records recordId idx

def findIndexOfRecord (recordId : Int) (e : Enumeration) : Int :=
  findBelow e.records recordId e.records.length

def removeRecordAtIndex (recIndex : Nat) (e : Enumeration) : Enumeration :=
  let tmp := e.records.eraseIdx recIndex
  { e with
    records := tmp
    index :=
      if e.index ≠ NO_SUCH_RECORD ∧ (recIndex : Int) ≤ e.index then e.index - 1
      else if e.index = tmp.length then e.index - 1
      else e.index }

def recordAdded (store : StoreView) (recordId : Int) (e : Enumeration) : Enumeration :=
  e.filterAdd store recordId

def recordDeleted (recordId : Int) (e : Enumeration) : Enumeration :=
  let recIndex := e.findIndexOfRecord recordId
  if recIndex < 0 then e else e.removeRecordAtIndex recIndex.toNat

def recordChanged (store : StoreView) (recordId : Int) (e : Enumeration) : Enumeration :=
  let recIndex := e.findIndexOfRecord recordId
  let e := if recIndex ≥ 0 then e.removeRecordAtIndex recIndex.toNat else e
  e.filterAdd store recordId

/-! ## Building -/

/-- The records that `reFilterSort` keeps, in the order `getRecordIDs` gave them. -/
def refilter (store : StoreView) (filtered : List Int) (e : Enumeration) : List Int :=
  filtered.filter (e.accepts store)

/-- The constructor, through `rebuild`, without a comparator: nothing is sorted, and the cursor is
reset. -/
def build (store : StoreView) (filter : Option (List UInt8 → Bool)) (recordIDs : List Int) :
    Enumeration :=
  let e : Enumeration := { filter := filter }
  { e with records := e.refilter store recordIDs }.reset

/-! ## What the cursor divides -/

/-- The ids the cursor has not reached. -/
def pending (e : Enumeration) : List Int := e.records.drop (e.index + 1).toNat

/-- The ids are distinct and the cursor is before the first or on one of them. -/
structure Valid (e : Enumeration) : Prop where
  nodup : e.records.Nodup
  lower : -1 ≤ e.index
  upper : e.index < e.records.length

theorem build_valid (store : StoreView) (filter : Option (List UInt8 → Bool))
    {recordIDs : List Int} (h : recordIDs.Nodup) : (build store filter recordIDs).Valid where
  nodup := h.filter _
  lower := Int.le_refl _
  upper := by
    show (-1 : Int) < _
    omega

theorem pending_nodup {e : Enumeration} (h : e.Valid) : e.pending.Nodup :=
  h.nodup.sublist (List.drop_sublist _ _)

theorem reset_valid {e : Enumeration} (h : e.Valid) : e.reset.Valid where
  nodup := h.nodup
  lower := Int.le_refl _
  upper := by
    show (-1 : Int) < _
    omega

theorem recordAt_cases {e e' : Enumeration} {index recordId : Int}
    (h : e.recordAt index = .ok (recordId, e')) :
    0 ≤ index ∧ e.records[index.toNat]? = some recordId ∧ e' = { e with index := index } := by
  unfold recordAt at h
  split at h
  · cases h
  · split at h
    · cases h
      exact ⟨by omega, ‹_›, rfl⟩
    · cases h

theorem recordAt_valid {e e' : Enumeration} {index recordId : Int} (he : e.Valid)
    (h : e.recordAt index = .ok (recordId, e')) : e'.Valid := by
  obtain ⟨hpos, hget, rfl⟩ := recordAt_cases h
  have hlt : index.toNat < e.records.length := (List.getElem?_eq_some_iff.1 hget).1
  refine ⟨he.nodup, ?_, ?_⟩
  · show -1 ≤ index
    omega
  · show index < e.records.length
    omega

/-- **`nextRecordId` takes the first id the cursor has not reached.** -/
theorem nextRecordId_cases {e e' : Enumeration} {recordId : Int} (he : e.Valid)
    (h : e.nextRecordId = .ok (recordId, e')) : e.pending = recordId :: e'.pending ∧ e'.Valid := by
  unfold nextRecordId at h
  split at h
  · cases h
  rename_i hmore
  have hindex : (if e.index = NO_SUCH_RECORD then 0 else e.index + 1) = e.index + 1 := by
    unfold NO_SUCH_RECORD
    split <;> omega
  rw [hindex] at h
  refine ⟨?_, recordAt_valid he h⟩
  obtain ⟨hpos, hget, rfl⟩ := recordAt_cases h
  obtain ⟨hlt, hid⟩ := List.getElem?_eq_some_iff.1 hget
  have hnext : (e.index + 1 + 1).toNat = (e.index + 1).toNat + 1 := by omega
  show e.records.drop (e.index + 1).toNat = recordId :: e.records.drop (e.index + 1 + 1).toNat
  rw [hnext, List.drop_eq_getElem_cons hlt, hid]

/-- The walk stops exactly at the last id. -/
theorem nextRecordId_eq_error {e : Enumeration} {err : EnumerationError} (he : e.Valid)
    (h : e.nextRecordId = .error err) : e.pending = [] := by
  have hlower := he.lower
  have hupper := he.upper
  unfold nextRecordId at h
  split at h
  · rename_i hlast
    refine List.drop_eq_nil_of_le ?_
    omega
  · rename_i hmore
    exfalso
    have hindex : (if e.index = NO_SUCH_RECORD then 0 else e.index + 1) = e.index + 1 := by
      unfold NO_SUCH_RECORD
      split <;> omega
    have hlt : (e.index + 1).toNat < e.records.length := by omega
    rw [hindex] at h
    unfold recordAt at h
    rw [if_neg (by omega), List.getElem?_eq_getElem hlt] at h
    cases h

theorem previousRecordId_valid {e e' : Enumeration} {recordId : Int} (he : e.Valid)
    (h : e.previousRecordId = .ok (recordId, e')) : e'.Valid := by
  unfold previousRecordId at h
  split at h
  · cases h
  · exact recordAt_valid he h

/-! ## What a notification does to the pending ids -/

theorem findBelow_cases (records : List Int) (recordId : Int) (n : Nat) :
    (findBelow records recordId n = -1 ∧ ∀ i, i < n → records[i]? ≠ some recordId) ∨
    ∃ i : Nat, findBelow records recordId n = i ∧ i < n ∧ records[i]? = some recordId := by
  induction n with
  | zero => exact .inl ⟨rfl, fun i h => absurd h (Nat.not_lt_zero i)⟩
  | succ n ih =>
    unfold findBelow
    by_cases hn : records[n]? = some recordId
    · rw [if_pos hn]
      exact .inr ⟨n, rfl, Nat.lt_succ_self n, hn⟩
    rw [if_neg hn]
    rcases ih with ⟨hnone, hall⟩ | ⟨i, hi, hlt, hget⟩
    · refine .inl ⟨hnone, fun i hi => ?_⟩
      rcases Nat.lt_succ_iff_lt_or_eq.1 hi with h | rfl
      · exact hall i h
      · exact hn
    · exact .inr ⟨i, hi, by omega, hget⟩

/-- The id is nowhere in the array, or the search finds a place of it. -/
theorem findIndexOfRecord_cases (recordId : Int) (e : Enumeration) :
    (e.findIndexOfRecord recordId = -1 ∧ recordId ∉ e.records) ∨
    ∃ i : Nat, e.findIndexOfRecord recordId = i ∧ e.records[i]? = some recordId := by
  rcases findBelow_cases e.records recordId e.records.length with
    ⟨hnone, hall⟩ | ⟨i, hi, -, hget⟩
  · refine .inl ⟨hnone, fun hmem => ?_⟩
    obtain ⟨i, hi⟩ := List.mem_iff_getElem?.1 hmem
    exact hall i (List.getElem?_eq_some_iff.1 hi).1 hi
  · exact .inr ⟨i, hi, hget⟩

theorem index_removeRecordAtIndex {e : Enumeration} (he : e.Valid) {i : Nat}
    (hi : i < e.records.length) :
    (e.removeRecordAtIndex i).index = if (i : Int) ≤ e.index then e.index - 1 else e.index := by
  have hupper := he.upper
  have hlen := List.length_eraseIdx_of_lt hi
  simp only [removeRecordAtIndex, NO_SUCH_RECORD]
  split_ifs <;> lia

theorem removeRecordAtIndex_valid {e : Enumeration} (he : e.Valid) {i : Nat}
    (hi : i < e.records.length) : (e.removeRecordAtIndex i).Valid := by
  have hlower := he.lower
  have hupper := he.upper
  have hlen : (e.removeRecordAtIndex i).records.length = e.records.length - 1 :=
    List.length_eraseIdx_of_lt hi
  refine ⟨he.nodup.sublist (List.eraseIdx_sublist _ _), ?_, ?_⟩
  · rw [index_removeRecordAtIndex he hi]
    split <;> omega
  · rw [index_removeRecordAtIndex he hi, hlen]
    split <;> omega

/-- Removing behind the cursor moves it along; removing ahead of it takes the id out of the pending
ones. -/
theorem pending_removeRecordAtIndex {e : Enumeration} (he : e.Valid) {i : Nat}
    (hi : i < e.records.length) :
    (e.removeRecordAtIndex i).pending =
      if (i : Int) ≤ e.index then e.pending else e.pending.eraseIdx (i - (e.index + 1).toNat) := by
  have hlower := he.lower
  show (e.records.eraseIdx i).drop ((e.removeRecordAtIndex i).index + 1).toNat = _
  rw [index_removeRecordAtIndex he hi]
  unfold pending
  split
  · rename_i hle
    have hindex : (e.index - 1 + 1).toNat = (e.index + 1).toNat - 1 := by lia
    rw [hindex]
    apply List.ext_getElem?
    intro k
    rw [List.getElem?_drop, List.getElem?_drop, List.getElem?_eraseIdx_of_ge (by omega)]
    congr 1
    lia
  · rename_i hgt
    apply List.ext_getElem?
    intro k
    simp only [List.getElem?_drop, List.getElem?_eraseIdx]
    split_ifs <;> first | omega | rfl

theorem pending_removeRecordAtIndex_sublist {e : Enumeration} (he : e.Valid) {i : Nat}
    (hi : i < e.records.length) : (e.removeRecordAtIndex i).pending.Sublist e.pending := by
  rw [pending_removeRecordAtIndex he hi]
  split
  · exact List.Sublist.refl _
  · exact List.eraseIdx_sublist _ _

theorem recordDeleted_cases (recordId : Int) (e : Enumeration) :
    (e.recordDeleted recordId = e ∧ recordId ∉ e.records) ∨
    ∃ i : Nat, e.recordDeleted recordId = e.removeRecordAtIndex i ∧
      e.records[i]? = some recordId := by
  unfold recordDeleted
  rcases findIndexOfRecord_cases recordId e with ⟨hnone, hnotin⟩ | ⟨i, hi, hget⟩
  · left
    rw [hnone]
    exact ⟨rfl, hnotin⟩
  · right
    refine ⟨i, ?_, hget⟩
    simp only [hi]
    rw [if_neg (by omega), Int.toNat_natCast]

/-- A change is a deletion followed by an addition. -/
theorem recordChanged_eq (store : StoreView) (recordId : Int) (e : Enumeration) :
    e.recordChanged store recordId = (e.recordDeleted recordId).filterAdd store recordId := by
  unfold recordChanged recordDeleted
  rcases findIndexOfRecord_cases recordId e with ⟨hnone, -⟩ | ⟨i, hi, -⟩
  · rw [hnone]
    rfl
  · simp only [hi]
    rw [if_pos (by omega), if_neg (by omega)]

theorem recordDeleted_valid {e : Enumeration} (he : e.Valid) (recordId : Int) :
    (e.recordDeleted recordId).Valid := by
  rcases recordDeleted_cases recordId e with ⟨heq, -⟩ | ⟨i, heq, hget⟩
  · rw [heq]
    exact he
  · rw [heq]
    exact removeRecordAtIndex_valid he (List.getElem?_eq_some_iff.1 hget).1

theorem recordDeleted_pending {e : Enumeration} (he : e.Valid) (recordId : Int) :
    (e.recordDeleted recordId).pending ⊆ e.pending := by
  rcases recordDeleted_cases recordId e with ⟨heq, -⟩ | ⟨i, heq, hget⟩
  · rw [heq]
    exact List.Subset.refl _
  · rw [heq]
    exact (pending_removeRecordAtIndex_sublist he (List.getElem?_eq_some_iff.1 hget).1).subset

/-- The ids are distinct, so no second place of a deleted id remains. -/
theorem not_mem_recordDeleted {e : Enumeration} (he : e.Valid) (recordId : Int) :
    recordId ∉ (e.recordDeleted recordId).records := by
  rcases recordDeleted_cases recordId e with ⟨heq, hnotin⟩ | ⟨i, heq, hget⟩
  · rw [heq]
    exact hnotin
  · rw [heq]
    intro hmem
    obtain ⟨k, hne, hk⟩ := List.mem_eraseIdx_iff_getElem?.1 hmem
    obtain ⟨_, hat⟩ := List.getElem?_eq_some_iff.1 hget
    obtain ⟨_, hat'⟩ := List.getElem?_eq_some_iff.1 hk
    exact hne ((List.Nodup.getElem_inj_iff he.nodup).1 (hat'.trans hat.symm))

/-- The cursor is before the first record, or on the first record and that record is `recordId`. -/
def AtFront (recordId : Int) (e : Enumeration) : Prop :=
  e.index = NO_SUCH_RECORD ∨ (e.index = 0 ∧ e.records.head? = some recordId)

instance (recordId : Int) (e : Enumeration) : Decidable (e.AtFront recordId) :=
  inferInstanceAs (Decidable (_ ∨ _))

/-- Deleting takes the cursor to "before the first" exactly from the front. -/
theorem index_recordDeleted {e : Enumeration} (he : e.Valid) (recordId : Int) :
    (e.recordDeleted recordId).index = NO_SUCH_RECORD ↔ e.AtFront recordId := by
  have hlower := he.lower
  unfold AtFront
  rcases recordDeleted_cases recordId e with ⟨heq, hnotin⟩ | ⟨i, heq, hget⟩
  · rw [heq, or_iff_left]
    rintro ⟨-, hhead⟩
    exact hnotin (List.mem_of_head? hhead)
  · obtain ⟨hlt, hat⟩ := List.getElem?_eq_some_iff.1 hget
    rw [heq, index_removeRecordAtIndex he hlt, List.head?_eq_getElem?]
    unfold NO_SUCH_RECORD
    constructor
    · intro h
      split at h
      · obtain rfl : i = 0 := by omega
        exact .inr ⟨by omega, hget⟩
      · exact .inl h
    · rintro (h | ⟨hzero, hhead⟩)
      · rw [if_neg (by omega)]
        exact h
      · obtain ⟨_, hat'⟩ := List.getElem?_eq_some_iff.1 hhead
        obtain rfl : 0 = i := (List.Nodup.getElem_inj_iff he.nodup).1 (hat'.trans hat.symm)
        rw [hzero]
        rfl

/-- Without a comparator an accepted id goes to the front: behind the cursor if there is something
behind it, and to the head of the pending ids otherwise. -/
theorem filterAdd_cases {store : StoreView} {recordId : Int} {e : Enumeration}
    (hcmp : e.comparator = none) (he : e.Valid) (hacc : e.accepts store recordId = true) :
    (e.filterAdd store recordId).records = recordId :: e.records ∧
    (e.filterAdd store recordId).index =
      (if e.index = NO_SUCH_RECORD then NO_SUCH_RECORD else e.index + 1) ∧
    (e.filterAdd store recordId).pending =
      if e.index = NO_SUCH_RECORD then recordId :: e.records else e.pending := by
  have hlower := he.lower
  have hindex : (e.filterAdd store recordId).index =
      if e.index = NO_SUCH_RECORD then NO_SUCH_RECORD else e.index + 1 := by
    simp only [filterAdd, hacc, hcmp, NO_SUCH_RECORD, Bool.not_true, Bool.false_eq_true, if_false]
    split_ifs <;> omega
  have hrecords : (e.filterAdd store recordId).records = recordId :: e.records := by
    simp [filterAdd, hacc, hcmp]
  refine ⟨hrecords, hindex, ?_⟩
  unfold pending
  rw [hrecords, hindex]
  split
  · rfl
  · rename_i hne
    unfold NO_SUCH_RECORD at hne
    have hsucc : (e.index + 1 + 1).toNat = (e.index + 1).toNat + 1 := by omega
    rw [hsucc, List.drop_succ_cons]

theorem filterAdd_rejected {store : StoreView} {recordId : Int} {e : Enumeration}
    (hacc : e.accepts store recordId = false) : e.filterAdd store recordId = e := by
  simp [filterAdd, hacc]

theorem filterAdd_valid {store : StoreView} {recordId : Int} {e : Enumeration}
    (hcmp : e.comparator = none) (he : e.Valid) (hnew : recordId ∉ e.records) :
    (e.filterAdd store recordId).Valid := by
  have hlower := he.lower
  have hupper := he.upper
  cases hacc : e.accepts store recordId with
  | false =>
    rw [filterAdd_rejected hacc]
    exact he
  | true =>
    obtain ⟨hrecords, hindex, -⟩ := filterAdd_cases hcmp he hacc
    unfold NO_SUCH_RECORD at hindex
    refine ⟨?_, ?_, ?_⟩
    · rw [hrecords]
      exact List.nodup_cons.2 ⟨hnew, he.nodup⟩
    · rw [hindex]
      split <;> omega
    · rw [hindex, hrecords, List.length_cons]
      split <;> omega

end Enumeration

end FroggyKVM.Rms
