/-
# FroggyKVM.Rms.Failure — what is left of a record store when an update says that it is full.

`addBlock` looks for room before it writes, so an `addRecord` that throws changes nothing.
`setRecord` gives up the old block before it asks for the new one: when that throws, the record is
gone.  Whether it throws is decided by the sizes in the header and the free blocks.
-/
import FroggyKVM.Rms.Refine

namespace FroggyKVM.Rms

/-! ## What a caller can learn -/

/-- The reply to `getRecord`, and the values of the four getters. -/
structure Observation where
  contents : Int → Reply
  numRecords : Int
  recordIDs : List Int
  version : Int
  nextRecordID : Int

namespace Store

def getVersion (s : Store) : Int := getInt s.dbHeader.bytes 20

/-- The entries of the file: what `getRecord` finds when no offset is cached. -/
def contents (s : Store) (id : Int) : Reply := (reply .bytes ((s.withCache none).getRecord id)).1

def observe (s : Store) : Observation where
  contents := s.contents
  numRecords := s.getNumRecords
  recordIDs := s.getRecordIDs
  version := s.getVersion
  nextRecordID := s.getNextRecordID

/-- If the call says that the store is full, nothing has changed, now and after closing and opening
the store again. -/
def FailsClean (cfg : Config) (s : Store) (c : Call) : Prop :=
  (s.call cfg c).1 = .throws .recordStoreFull →
    (s.call cfg c).2.observe = s.observe ∧
    ∃ s', (s.call cfg c).2.call cfg .reopen = (.done, s') ∧ s'.observe = s.observe

/-! ## The condition -/

/-- There is room for a record of `numBytes` bytes: in a free block, behind the data, or there after
a compaction. -/
def Room (cfg : Config) (space numBytes : Int) (s : Store) : Prop :=
  let blockSize := calculateBlockSize numBytes
  (blockSize ≤ s.dbHeader.freeSize ∧
    ∃ h ∈ s.blockHeaders, h.id < 0 ∧ blockSize ≤ calculateBlockSize h.size) ∨
  blockSize ≤ s.getSizeAvailable cfg space ∨
  blockSize ≤ i32 (s.getSizeAvailable cfg space + s.dbHeader.freeSize)

instance (cfg : Config) (space numBytes : Int) (s : Store) :
    Decidable (s.Room cfg space numBytes) :=
  inferInstanceAs (Decidable (_ ∨ _))

/-- The store with `blockSize` more bytes counted as free. -/
def withFreed (blockSize : Int) (s : Store) : Store :=
  { s with dbHeader := { s.dbHeader with freeSize := i32 (s.dbHeader.freeSize + blockSize) } }

/-- A `setRecord` of a live record finds its block large enough, or room beside it. -/
def HasRoom (cfg : Config) (s : Store) : Call → Prop
  | .setRecord amb id data => ∀ h ∈ s.blockHeaders, 0 < id → h.id = id →
      calculateBlockSize data.length ≤ calculateBlockSize h.size ∨
      (s.withFreed (calculateBlockSize h.size)).Room cfg amb.space data.length
  | _ => True

instance (cfg : Config) (s : Store) : (c : Call) → Decidable (s.HasRoom cfg c)
  | .setRecord .. => inferInstanceAs (Decidable (∀ _ ∈ _, _))
  | .addRecord .. | .deleteRecord .. | .getRecord _ | .getRecordSize _ | .getRecordIDs
  | .getNumRecords | .reopen => inferInstanceAs (Decidable True)

/-! ## When `addBlock` throws -/

/-- The search for a free block, by the headers of the chain. -/
theorem getFreeBlock_cases {s : Store} {bs : List Block} (h : Tiled s bs) (numBytes : Int) :
    (s.getFreeBlock numBytes = .ok none ∧
      ¬ ∃ h ∈ s.blockHeaders, h.id < 0 ∧ calculateBlockSize numBytes ≤ calculateBlockSize h.size) ∨
    ∃ found, s.getFreeBlock numBytes = .ok (some found) ∧
      ∃ h ∈ s.blockHeaders, h.id < 0 ∧ calculateBlockSize numBytes ≤ calculateBlockSize h.size := by
  have hcalc : ∀ b ∈ bs, calculateBlockSize b.header.size = b.length := fun _ hb => h.blockSize hb
  rw [getFreeBlock, h.getSize, blockHeaders_eq h]
  rcases freeBlockLoop_eq (calculateBlockSize numBytes) h.pieceAt h.fuel with
    ⟨hnone, hsmall⟩ | ⟨l, b, r, rfl, hb, htarget, hfound⟩
  · refine .inl ⟨hnone, ?_⟩
    rintro ⟨header, hmem, hid, hle⟩
    obtain ⟨b, hb, rfl⟩ := List.mem_map.1 hmem
    have hlt := hsmall b hb hid
    rw [hcalc b hb] at hle
    omega
  · refine .inr ⟨_, hfound, b.header, List.mem_map_of_mem (by simp), ?_, ?_⟩
    · show b.id < 0
      omega
    · rw [hcalc b (by simp)]
      exact htarget

/-- **Without room** `addBlock` throws before it has written anything. -/
theorem addBlock_of_not_room {cfg : Config} {space id : Int} {data : List UInt8} {s : Store}
    {bs : List Block} (h : Tiled s bs) (hroom : ¬ s.Room cfg space data.length) :
    s.addBlock cfg space id data = (.error .recordStoreFull, s) := by
  simp only [Room, not_or, Int.not_le] at hroom
  obtain ⟨hnofree, hspace, hsum⟩ := hroom
  have hsearch : (if s.dbHeader.freeSize ≥ calculateBlockSize data.length then
      s.getFreeBlock data.length else .ok none) = .ok none := by
    split
    · rename_i hfree
      rcases getFreeBlock_cases h data.length with ⟨hnone, -⟩ | ⟨found, -, hfits⟩
      · exact hnone
      · exact absurd ⟨hfree, hfits⟩ hnofree
    · rfl
  unfold addBlock
  simp only [hsearch]
  rw [if_pos hspace, if_pos hsum]

/-- **With room** it succeeds. -/
theorem addBlock_of_room {cfg : Config} {space : Int} (id : Int) {data : List UInt8} {s : Store}
    {bs : List Block} (h : Tiled s bs) (hc : CacheOk bs s.recordIdOffsets)
    (hroom : s.Room cfg space data.length) : (s.addBlock cfg space id data).1 = .ok () := by
  unfold addBlock
  simp only
  have hsearch : (∃ found, (if s.dbHeader.freeSize ≥ calculateBlockSize data.length then
      s.getFreeBlock data.length else .ok none) = .ok (some found)) ∨
      ((if s.dbHeader.freeSize ≥ calculateBlockSize data.length then
        s.getFreeBlock data.length else .ok none) = .ok none ∧
        (calculateBlockSize data.length ≤ s.getSizeAvailable cfg space ∨
          calculateBlockSize data.length ≤
            i32 (s.getSizeAvailable cfg space + s.dbHeader.freeSize))) := by
    rcases getFreeBlock_cases h data.length with ⟨hnone, hnofit⟩ | ⟨found, hfound, -⟩
    · right
      refine ⟨by rw [hnone, ite_self], ?_⟩
      rcases hroom with ⟨-, hfit⟩ | hrest
      · exact absurd hfit hnofit
      · exact hrest
    · by_cases hfree : s.dbHeader.freeSize ≥ calculateBlockSize data.length
      · left
        rw [if_pos hfree]
        exact ⟨found, hfound⟩
      · right
        rw [if_neg hfree]
        refine ⟨rfl, ?_⟩
        rcases hroom with ⟨hle, -⟩ | hrest
        · exact absurd hle hfree
        · exact hrest
  rcases hsearch with ⟨found, hfound⟩ | ⟨hnone, hspace⟩
  · rw [hfound]
  · rw [hnone]
    simp only
    split
    · rename_i hshort
      rw [if_neg (by omega)]
      obtain ⟨s', bs', hcompact, -⟩ := compactRecords_tiled cfg h hc
      rw [hcompact]
    · rfl

theorem freeBlock_dbHeader (s : Store) (o : Int) (header : BlockHeader) :
    (s.freeBlock o header).dbHeader = (s.withFreed (calculateBlockSize header.size)).dbHeader := by
  simp [freeBlock, withFreed]

/-- The block given up is too small to be chosen. -/
theorem fits_freeBlock {numBytes : Int} {s : Store} {l r : List Block} {b fb : Block}
    (h : Tiled s (l ++ b :: r)) (hb : 0 < b.id) (hlen : fb.length = b.length)
    (hfreed : Tiled (s.freeBlock (40 + total l) b.header) (l ++ fb :: r))
    (hlarge : (b.length : Int) < calculateBlockSize numBytes) :
    (∃ x ∈ (s.freeBlock (40 + total l) b.header).blockHeaders, x.id < 0 ∧
      calculateBlockSize numBytes ≤ calculateBlockSize x.size) ↔
      ∃ x ∈ s.blockHeaders, x.id < 0 ∧
        calculateBlockSize numBytes ≤ calculateBlockSize x.size := by
  have hsize : calculateBlockSize fb.header.size = b.length := by
    rw [← hlen]
    exact hfreed.blockSize List.mem_append_cons_self
  rw [blockHeaders_eq hfreed, blockHeaders_eq h]
  simp only [List.map_append, List.map_cons, List.mem_append, List.mem_cons]
  constructor
  · rintro ⟨x, hx | rfl | hx, hid, hle⟩
    · exact ⟨x, .inl hx, hid, hle⟩
    · omega
    · exact ⟨x, .inr (.inr hx), hid, hle⟩
  · rintro ⟨x, hx | rfl | hx, hid, hle⟩
    · exact ⟨x, .inl hx, hid, hle⟩
    · exact absurd hid (show ¬ b.id < 0 by omega)
    · exact ⟨x, .inr (.inr hx), hid, hle⟩

/-- Only the size of the block given up counts. -/
theorem room_freeBlock {cfg : Config} {space numBytes : Int} {s : Store} {l r : List Block}
    {b fb : Block} (h : Tiled s (l ++ b :: r)) (hb : 0 < b.id) (hlen : fb.length = b.length)
    (hfreed : Tiled (s.freeBlock (40 + total l) b.header) (l ++ fb :: r))
    (hlarge : (b.length : Int) < calculateBlockSize numBytes) :
    (s.freeBlock (40 + total l) b.header).Room cfg space numBytes ↔
      (s.withFreed (calculateBlockSize b.header.size)).Room cfg space numBytes := by
  have hheader := freeBlock_dbHeader s (40 + total l) b.header
  have havailable : (s.freeBlock (40 + total l) b.header).getSizeAvailable cfg space =
      (s.withFreed (calculateBlockSize b.header.size)).getSizeAvailable cfg space := by
    unfold getSizeAvailable
    rw [hheader]
  have hfit := fits_freeBlock h hb hlen hfreed hlarge
  unfold Room
  rw [havailable, hheader]
  exact or_congr (and_congr Iff.rfl hfit) Iff.rfl

end Store

/-! ## What stores with the same entries show -/

namespace RefinesBy

variable {cfg : Config} {s s' : Store} {bs bs' : List Block} {m : RecordMap}

/-- The reply to `getRecord` of a map. -/
theorem reply_of_step {id : Int} {r : Reply} {m' : RecordMap} (h : m.Step (.getRecord id, r) m') :
    r = match m.map.lookup id with
      | some data => .bytes (if data = [] then none else some data)
      | none => .throws .invalidRecordID := by
  generalize hl : (Call.getRecord id, r) = l at h
  cases h with
  | get hlookup =>
    obtain ⟨⟨⟩, rfl⟩ := Prod.mk.inj hl
    rw [hlookup]
  | getInvalid hmem =>
    obtain ⟨⟨⟩, rfl⟩ := Prod.mk.inj hl
    rw [Finmap.lookup_eq_none.2 hmem]
  | _ => cases hl

theorem contents_eq (h : RefinesBy s bs m) (id : Int) :
    s.contents id = match m.map.lookup id with
      | some data => .bytes (if data = [] then none else some data)
      | none => .throws .invalidRecordID := by
  have hempty : RefinesBy (s.withCache none) bs m := h.withCache fun c hc => by cases hc
  have hok : (s.withCache none).CallOk (.getRecord id) := by
    rintro ⟨-, header, hmem, -⟩
    cases hmem
  obtain ⟨m', hstep, -⟩ : Simulated { storageSuiteLimit := 0, limit_int := by decide }
      (s.withCache none) m (.getRecord id) := hempty.simulates_getRecord hok
  exact reply_of_step hstep

theorem getVersion_eq (s : Store) : s.getVersion = i32 s.dbHeader.version := by
  have hbytes : s.dbHeader.bytes = s.dbHeader.bytes.take 20 ++
      (intBytes s.dbHeader.version ++ s.dbHeader.bytes.drop 24) := rfl
  rw [Store.getVersion, hbytes]
  exact getInt_at rfl _ _

/-- **Closing and opening again** shows the same. -/
theorem observe_reopen (cfg : Config) (h : RefinesBy s bs m) :
    ∃ s', s.call cfg .reopen = (.done, s') ∧ s'.observe = s.observe := by
  obtain ⟨s', bs', heq, hs', hlive, d, f, hheader⟩ := h.reopen cfg
  have hids : liveIds bs' = liveIds bs := by
    rw [← liveIds_liveBlocks, hlive, liveIds_liveBlocks]
  refine ⟨s', by rw [Store.call, heq]; rfl, ?_⟩
  have hcontents : s'.contents = s.contents := by
    funext id
    rw [hs'.contents_eq, h.contents_eq]
  have hnum : s'.getNumRecords = s.getNumRecords := by
    rw [Store.getNumRecords, Store.getNumRecords, hs'.numLive, h.numLive, hids]
  have hrecordIDs : s'.getRecordIDs = s.getRecordIDs := by
    rw [Store.getRecordIDs_eq hs'.tiled hs'.numLive, Store.getRecordIDs_eq h.tiled h.numLive, hids]
  have hversion : s'.getVersion = s.getVersion := by
    rw [getVersion_eq, getVersion_eq, hheader]
    exact Int.bmod_bmod
  have hnext : s'.getNextRecordID = s.getNextRecordID := by
    obtain ⟨next, hnext, -⟩ := h.nextId
    rw [Store.getNextRecordID, Store.getNextRecordID, hheader]
    show i32 s.dbHeader.nextId = s.dbHeader.nextId
    rw [hnext]
    exact Int.bmod_bmod
  rw [Store.observe, Store.observe, hcontents, hnum, hrecordIDs, hversion, hnext]

/-! ## `addRecord` -/

theorem addRecord_of_full {amb : Store.Ambient} {data : List UInt8} (h : RefinesBy s bs m)
    (hfull : (s.call cfg (.addRecord amb data)).1 = .throws .recordStoreFull) :
    (s.call cfg (.addRecord amb data)).2 = s := by
  by_cases hroom : s.Room cfg amb.space data.length
  · exfalso
    have hok := Store.addBlock_of_room s.getNextRecordID h.tiled h.cache hroom
    rw [Store.call, Store.addRecord] at hfull
    cases hadd : s.addBlock cfg amb.space s.getNextRecordID data with
    | mk r s' =>
      rw [hadd] at hok
      obtain rfl : r = .ok () := hok
      rw [hadd] at hfull
      cases hfull
  · rw [Store.call, Store.addRecord, Store.addBlock_of_not_room h.tiled hroom]
    rfl

theorem failsClean_addRecord (cfg : Config) (amb : Store.Ambient) (data : List UInt8)
    (h : RefinesBy s bs m) : s.FailsClean cfg (.addRecord amb data) := by
  intro hfull
  rw [h.addRecord_of_full hfull]
  exact ⟨rfl, h.observe_reopen cfg⟩

/-! ## `setRecord` -/

/-- Without room, the block of the record is freed and nothing takes its place: the record that was
there before the call is not there after it. -/
theorem setRecord_loses {amb : Store.Ambient} {id : Int} {data : List UInt8} (h : RefinesBy s bs m)
    (hok : s.CallOk (.setRecord amb id data)) (hroom : ¬ s.HasRoom cfg (.setRecord amb id data)) :
    (s.call cfg (.setRecord amb id data)).1 = .throws .recordStoreFull ∧
    s.contents id ≠ .throws .invalidRecordID ∧
    (s.call cfg (.setRecord amb id data)).2.contents id = .throws .invalidRecordID := by
  simp only [Store.HasRoom, Classical.not_forall, not_or, Int.not_le] at hroom
  obtain ⟨header, hmem, hpos, hid, hlarge, hnoroom⟩ := hroom
  rw [Store.blockHeaders_eq h.tiled] at hmem
  obtain ⟨x, hx, rfl⟩ := List.mem_map.1 hmem
  have hlive : id ∈ m.map := h.mem_map.2 (mem_liveIds.2 ⟨hpos, x, hx, hid⟩)
  rcases h.getRecordHeader hok.1 with ⟨hnot, -⟩ |
    ⟨l, b, r, cache, rfl, rfl, -, hlookup, heq, hcache⟩
  · exact absurd hlive hnot
  -- ids are unique, so the header found is the one that is too small
  have hxb : x = b := by
    obtain ⟨hl, hr⟩ := h.tiled.unique hpos
    rcases List.mem_append.1 hx with hmem' | hmem'
    · exact absurd hid (hl x hmem')
    · rcases List.mem_cons.1 hmem' with rfl | hmem'
      · rfl
      · exact absurd hid (hr x hmem')
  subst hxb
  have htiled := Store.tiled_withCache h.tiled cache
  obtain ⟨fb, hfb, hlen, htiled', hcache', n, hheader⟩ :=
    Store.freeBlock_tiled htiled hcache (show x.header.size = x.size from rfl)
  have hold : calculateBlockSize x.header.size = x.length :=
    h.tiled.blockSize List.mem_append_cons_self
  have hnoroom' : ¬ ((s.withCache cache).freeBlock (40 + total l) x.header).Room cfg amb.space
      data.length := by
    rw [Store.room_freeBlock htiled hpos hlen htiled' (by rwa [hold] at hlarge)]
    exact hnoroom
  have hcall : s.call cfg (.setRecord amb x.id data) =
      (.throws .recordStoreFull, (s.withCache cache).freeBlock (40 + total l) x.header) := by
    rw [Store.call, Store.setRecord, heq]
    simp only
    rw [if_neg (by omega), Store.addBlock_of_not_room htiled' hnoroom']
    rfl
  have hgone : ∀ y ∈ l ++ fb :: r, y.id ≠ x.id := by
    obtain ⟨hl, hr⟩ := h.tiled.unique hpos
    intro y hy
    rcases List.mem_append.1 hy with hy | hy
    · exact hl y hy
    · rcases List.mem_cons.1 hy with rfl | hy
      · omega
      · exact hr y hy
  rw [hcall]
  refine ⟨rfl, ?_, ?_⟩
  · rw [h.contents_eq, hlookup]
    intro hc
    cases hc
  · show ((Store.reply .bytes (Store.getRecord x.id _)).1 : Reply) = _
    obtain ⟨cache', hlook, -⟩ := Store.getRecordHeader_eq
      (Store.tiled_withCache htiled' none) (fun c hc => by cases hc) hpos (by
        rintro ⟨-, c, y, hc, -⟩
        cases hc)
    rw [Store.getRecord, hlook, Store.lookup, locate_eq_none.2 hgone]
    rfl

/-- With room it does not throw. -/
theorem setRecord_succeeds {amb : Store.Ambient} {id : Int} {data : List UInt8}
    (h : RefinesBy s bs m) (hok : s.CallOk (.setRecord amb id data))
    (hroom : s.HasRoom cfg (.setRecord amb id data)) :
    (s.call cfg (.setRecord amb id data)).1 ≠ .throws .recordStoreFull := by
  rcases h.getRecordHeader hok.1 with ⟨-, cache, heq, -⟩ |
    ⟨l, b, r, cache, rfl, rfl, hpos, -, heq, hcache⟩
  · rw [Store.call, Store.setRecord, heq]
    intro hc
    cases hc
  have hb := hroom b.header (by rw [Store.blockHeaders_eq h.tiled]; simp) hpos rfl
  have htiled := Store.tiled_withCache h.tiled cache
  obtain ⟨fb, hfb, hlen, htiled', hcache', n, hheader⟩ :=
    Store.freeBlock_tiled htiled hcache (show b.header.size = b.size from rfl)
  have hold : calculateBlockSize b.header.size = b.length :=
    h.tiled.blockSize List.mem_append_cons_self
  rw [Store.call, Store.setRecord, heq]
  simp only
  split
  · rename_i hput
    split at hput
    · cases hput
    · rename_i hlarge
      have hroom' := (Store.room_freeBlock htiled hpos hlen htiled' (by omega)).2
        (hb.resolve_left hlarge)
      have hadd := Store.addBlock_of_room b.id htiled' hcache' hroom'
      rw [hput] at hadd
      cases hadd
  · intro hc
    cases hc

end RefinesBy

/-! ## Runs -/

/-- A step that meets the condition leaves a store that refines some map. -/
theorem Refines.step {cfg : Config} {s : Store} {m : RecordMap} (h : Refines s m) {c : Call}
    (hok : s.CallOk c) (hroom : s.HasRoom cfg c) : ∃ m', Refines (s.call cfg c).2 m' := by
  obtain ⟨bs, h⟩ := h
  by_cases hfull : (s.call cfg c).1 = .throws .recordStoreFull
  · cases c with
    | addRecord amb data =>
      rw [h.addRecord_of_full hfull]
      exact ⟨m, bs, h⟩
    | setRecord amb id data => exact absurd hfull (h.setRecord_succeeds hok hroom)
    | deleteRecord amb id =>
      obtain ⟨m', -, hs⟩ : Simulated cfg s m _ := h.simulates_deleteRecord hok
      exact ⟨m', hs⟩
    | getRecord id =>
      obtain ⟨m', -, hs⟩ : Simulated cfg s m _ := h.simulates_getRecord hok
      exact ⟨m', hs⟩
    | getRecordSize id =>
      obtain ⟨m', -, hs⟩ : Simulated cfg s m _ := h.simulates_getRecordSize hok
      exact ⟨m', hs⟩
    | getRecordIDs => exact ⟨m, bs, h⟩
    | getNumRecords => exact ⟨m, bs, h⟩
    | reopen =>
      obtain ⟨m', -, hs⟩ : Simulated cfg s m _ := h.simulates_reopen
      exact ⟨m', hs⟩
  · obtain ⟨m', -, hs⟩ : Simulated cfg s m _ := h.simulates hok hfull
    exact ⟨m', hs⟩

/-- **A failed update.** In every state that a run reaches in which no `setRecord` runs out of room,
an `addRecord` that throws changes nothing; a `setRecord` that throws changes nothing exactly when
there is room, and then it does not throw. -/
theorem failed_update_clean {cfg : Config} {time : Int × Int} {ls : List (Call × Reply)} {s : Store}
    (hrun : Lts.Run (Lts.Guarded (Store.Step cfg) fun s l => s.CallOk l.1 ∧ s.HasRoom cfg l.1)
      (Store.create time) ls s) :
    (∀ amb data, s.FailsClean cfg (.addRecord amb data)) ∧
    ∀ amb id data, s.CallOk (.setRecord amb id data) →
      (s.FailsClean cfg (.setRecord amb id data) ↔ s.HasRoom cfg (.setRecord amb id data)) := by
  obtain ⟨m, bs, h⟩ : ∃ m, Refines s m := by
    refine hrun.invariant (I := fun s => ∃ m, Refines s m) ?_ ⟨{}, [], .create time⟩
    rintro s ⟨c, r⟩ s' ⟨m, h⟩ ⟨⟨hok, hroom⟩, hstep⟩
    have hcall : s.call cfg c = (r, s') := hstep
    obtain ⟨m', h'⟩ := h.step hok hroom
    rw [hcall] at h'
    exact ⟨m', h'⟩
  refine ⟨fun amb data => h.failsClean_addRecord cfg amb data, fun amb id data hok => ⟨?_, ?_⟩⟩
  · intro hclean
    by_contra hroom
    obtain ⟨hfull, hthere, hgone⟩ := h.setRecord_loses hok hroom
    have hsame := congrFun (congrArg Observation.contents (hclean hfull).1) id
    exact hthere (hsame.symm.trans hgone)
  · intro hroom hfull
    exact absurd hfull (h.setRecord_succeeds hok hroom)

/-- The storage of a suite that may hold 24 bytes of blocks. -/
def smallStorage : Config where
  storageSuiteLimit := 72
  limit_int := by decide

/-- With a record of four bytes in 24 bytes of storage: an `addRecord` that throws changes nothing,
and a `setRecord` of 17 bytes is not clean. -/
theorem failed_update_clean_small : ∃ s : Store,
    (s.call smallStorage (.addRecord ⟨1000, 1, 2⟩ [5, 6, 7])).1 = .throws .recordStoreFull ∧
    s.FailsClean smallStorage (.addRecord ⟨1000, 1, 2⟩ [5, 6, 7]) ∧
    ¬ s.FailsClean smallStorage (.setRecord ⟨1000, 1, 3⟩ 1 (List.replicate 17 7)) := by
  obtain ⟨s, hrun, hfull, hok, hroom⟩ := Lts.Run.exists_of_exec (Store.next smallStorage)
    (fun s l => decide (s.CallOk l.1 ∧ s.HasRoom smallStorage l.1))
    (fun s => (s.call smallStorage (.addRecord ⟨1000, 1, 2⟩ [5, 6, 7])).1 =
      .throws .recordStoreFull ∧ s.CallOk (.setRecord ⟨1000, 1, 3⟩ 1 (List.replicate 17 7)) ∧
      ¬ s.HasRoom smallStorage (.setRecord ⟨1000, 1, 3⟩ 1 (List.replicate 17 7)))
    (Store.create (0, 0)) [(.addRecord ⟨1000, 1, 2⟩ [1, 2, 3, 4], .id 1)] (by decide +kernel)
  have hlegal : Lts.Run (Lts.Guarded (Store.Step smallStorage) fun s l =>
      s.CallOk l.1 ∧ s.HasRoom smallStorage l.1) (Store.create (0, 0)) _ s :=
    hrun.mono fun _ _ _ h => ⟨of_decide_eq_true h.1, Store.step_of_next h.2⟩
  have hclean := failed_update_clean hlegal
  exact ⟨s, hfull, hclean.1 _ _, fun h => hroom ((hclean.2 _ _ _ hok).1 h)⟩

/-- A record of four bytes is set to 17 bytes: the call says that the store is full, and the four
bytes are gone. -/
theorem setRecord_full_loses : ¬ ∀ (cfg : Config) (time : Int × Int) (ls : List (Call × Reply))
    (s : Store), Lts.Run (Store.Step cfg) (Store.create time) ls s →
    ∀ amb id data, s.FailsClean cfg (.setRecord amb id data) := by
  intro h
  obtain ⟨s, hrun, hfull, hthere, hgone⟩ := Lts.Run.exists_of_exec (Store.next smallStorage)
    (fun _ _ => true)
    (fun s => (s.call smallStorage (.setRecord ⟨1000, 1, 3⟩ 1 (List.replicate 17 7))).1 =
      .throws .recordStoreFull ∧ s.contents 1 = .bytes (some [1, 2, 3, 4]) ∧
      (s.call smallStorage (.setRecord ⟨1000, 1, 3⟩ 1 (List.replicate 17 7))).2.contents 1 =
        .throws .invalidRecordID)
    (Store.create (0, 0)) [(.addRecord ⟨1000, 1, 2⟩ [1, 2, 3, 4], .id 1)] (by decide +kernel)
  have hclean := h smallStorage (0, 0) _ s (hrun.mono fun _ _ _ h => Store.step_of_next h.2)
    ⟨1000, 1, 3⟩ 1 (List.replicate 17 7) hfull
  have hsame := congrFun (congrArg Observation.contents hclean.1) 1
  rw [show (Store.observe _).contents 1 = _ from hgone,
    show (Store.observe s).contents 1 = _ from hthere] at hsame
  cases hsame

end FroggyKVM.Rms
