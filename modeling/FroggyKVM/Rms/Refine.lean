/-
# FroggyKVM.Rms.Refine — a record store is a map from ids to byte lists.

The abstract store is a finite map and the set of ids given out.  `Refines` connects it with a
concrete store through the chain of blocks: the live blocks are the entries of the map.  Every call
whose id does not hit stale bytes, and for which the 32-bit id counter and sizes suffice
(`Store.CallOk`), is simulated by the map.
-/
import FroggyKVM.Rms.Operations
import FroggyKVM.Lib.Lts

namespace FroggyKVM.Rms

/-! ## Calls -/

/-- The operations of an open record store; `reopen` closes it and opens it again. -/
inductive Call where
  | addRecord (amb : Store.Ambient) (data : List UInt8)
  | setRecord (amb : Store.Ambient) (id : Int) (data : List UInt8)
  | deleteRecord (amb : Store.Ambient) (id : Int)
  | getRecord (id : Int)
  | getRecordSize (id : Int)
  | getRecordIDs
  | getNumRecords
  | reopen

/-- What the caller gets. -/
inductive Reply where
  | id (id : Int)
  | done
  | bytes (data : Option (List UInt8))
  | size (n : Int)
  | ids (ids : List Int)
  | throws (e : RmsError)
  deriving DecidableEq

namespace Store

/-- The reply to a result, or to an exception. -/
def reply {α : Type} (f : α → Reply) (r : Except RmsError α × Store) : Reply × Store :=
  (match r.1 with
    | .ok a => f a
    | .error e => .throws e, r.2)

/-- One call. -/
def call (cfg : Config) (s : Store) : Call → Reply × Store
  | .addRecord amb data => reply .id (s.addRecord cfg amb data)
  | .setRecord amb id data => reply (fun _ => .done) (s.setRecord cfg amb id data)
  | .deleteRecord amb id => reply (fun _ => .done) (s.deleteRecord amb id)
  | .getRecord id => reply .bytes (s.getRecord id)
  | .getRecordSize id => reply .size (s.getRecordSize id)
  | .getRecordIDs => (.ids s.getRecordIDs, s)
  | .getNumRecords => (.size s.getNumRecords, s)
  | .reopen => reply (fun _ => .done) (s.reopen cfg)

/-- The store as a transition system whose labels are calls with their replies. -/
def Step (cfg : Config) (s : Store) (l : Call × Reply) (s' : Store) : Prop :=
  s.call cfg l.1 = (l.2, s')

/-- The record store just created. -/
def create (time : Int × Int) : Store where
  dbHeader := { lastModified := time }
  file := DbHeader.bytes { lastModified := time }

/-! ## The condition on a call -/

/-- The id is not live, and the cached offset of the id leads to bytes that look like its header. -/
def HitsStaleBytes (s : Store) (id : Int) : Prop :=
  (∀ h ∈ s.blockHeaders, h.id ≠ id) ∧
    ∃ h ∈ s.recordIdOffsets.bind fun c => s.cachedHeader c id, h.id = id

instance (s : Store) (id : Int) : Decidable (s.HitsStaleBytes id) :=
  inferInstanceAs (Decidable (_ ∧ _))

/-- The record fits beside the other live records into a file with 32-bit offsets. -/
def Fits (s : Store) (id : Int) (data : List UInt8) : Prop :=
  DB_HEADER_SIZE + s.liveSize id + blockBytes data.length < 2147483648

instance (s : Store) (id : Int) (data : List UInt8) : Decidable (s.Fits id data) :=
  inferInstanceAs (Decidable (_ < _))

/-- No stale bytes, and no overflow of an `int`. -/
def CallOk (s : Store) : Call → Prop
  | .addRecord _ data => 0 < s.getNextRecordID ∧ s.Fits 0 data
  | .setRecord _ id data =>
    ¬ s.HitsStaleBytes id ∧ ((∃ h ∈ s.blockHeaders, h.id = id) → s.Fits id data)
  | .deleteRecord _ id | .getRecord id | .getRecordSize id => ¬ s.HitsStaleBytes id
  | .getRecordIDs | .getNumRecords | .reopen => True

instance (s : Store) : (c : Call) → Decidable (s.CallOk c)
  | .addRecord .. => inferInstanceAs (Decidable (_ ∧ _))
  | .setRecord .. => inferInstanceAs (Decidable (_ ∧ _))
  | .deleteRecord .. | .getRecord _ | .getRecordSize _ => inferInstanceAs (Decidable (¬ _))
  | .getRecordIDs | .getNumRecords | .reopen => inferInstanceAs (Decidable True)

end Store

/-! ## The abstract store -/

/-- A finite map from ids to byte lists, and the ids that have been given out. -/
structure RecordMap where
  map : Finmap fun _ : Int => List UInt8 := ∅
  issued : Finset Int := ∅

/-- What a map does: the calls with the replies a caller may see. -/
inductive RecordMap.Step : RecordMap → Call × Reply → RecordMap → Prop
  | add {m : RecordMap} {id : Int} (amb : Store.Ambient) (data : List UInt8) :
      0 < id → id ∉ m.issued →
      Step m (.addRecord amb data, .id id) ⟨m.map.insert id data, insert id m.issued⟩
  | set {m : RecordMap} {id : Int} (amb : Store.Ambient) (data : List UInt8) : id ∈ m.map →
      Step m (.setRecord amb id data, .done) ⟨m.map.insert id data, m.issued⟩
  | setInvalid {m : RecordMap} {id : Int} (amb : Store.Ambient) (data : List UInt8) :
      id ∉ m.map → Step m (.setRecord amb id data, .throws .invalidRecordID) m
  | delete {m : RecordMap} {id : Int} (amb : Store.Ambient) : id ∈ m.map →
      Step m (.deleteRecord amb id, .done) ⟨m.map.erase id, m.issued⟩
  | deleteInvalid {m : RecordMap} {id : Int} (amb : Store.Ambient) : id ∉ m.map →
      Step m (.deleteRecord amb id, .throws .invalidRecordID) m
  | get {m : RecordMap} {id : Int} {data : List UInt8} : m.map.lookup id = some data →
      Step m (.getRecord id, .bytes (if data = [] then none else some data)) m
  | getInvalid {m : RecordMap} {id : Int} : id ∉ m.map →
      Step m (.getRecord id, .throws .invalidRecordID) m
  | size {m : RecordMap} {id : Int} {data : List UInt8} : m.map.lookup id = some data →
      Step m (.getRecordSize id, .size data.length) m
  | sizeInvalid {m : RecordMap} {id : Int} : id ∉ m.map →
      Step m (.getRecordSize id, .throws .invalidRecordID) m
  | ids {m : RecordMap} {ids : List Int} : ids.Nodup → (∀ id, id ∈ ids ↔ id ∈ m.map) →
      Step m (.getRecordIDs, .ids ids) m
  | num {m : RecordMap} : Step m (.getNumRecords, .size m.map.keys.card) m
  | reopen {m : RecordMap} : Step m (.reopen, .done) m

/-- The live blocks of a chain are the entries of a map. -/
def Contents (bs : List Block) (map : Finmap fun _ : Int => List UInt8) : Prop :=
  ∀ id data, map.lookup id = some data ↔ ∃ b ∈ liveBlocks bs, b.id = id ∧ b.data = data

/-- A store refines a map through its chain of blocks. -/
structure RefinesBy (s : Store) (bs : List Block) (m : RecordMap) : Prop where
  tiled : Tiled s bs
  cache : CacheOk bs s.recordIdOffsets
  numLive : s.dbHeader.numLive = (liveIds bs).length
  nextId : ∃ next : Nat, s.dbHeader.nextId = i32 next ∧ 1 ≤ next ∧ next ≤ 2147483648 ∧
    ∀ id ∈ m.issued, id < next
  contents : Contents bs m.map
  issued : ∀ id ∈ m.map, id ∈ m.issued

def Refines (s : Store) (m : RecordMap) : Prop := ∃ bs, RefinesBy s bs m

namespace RefinesBy

variable {s : Store} {bs : List Block} {m : RecordMap}

theorem mem_map (h : RefinesBy s bs m) {id : Int} : id ∈ m.map ↔ id ∈ liveIds bs := by
  rw [← Finmap.lookup_isSome, Option.isSome_iff_exists, mem_liveIds]
  constructor
  · rintro ⟨data, hdata⟩
    obtain ⟨b, hb, rfl, -⟩ := (h.contents id data).1 hdata
    exact ⟨(mem_liveBlocks.1 hb).2, b, (mem_liveBlocks.1 hb).1, rfl⟩
  · rintro ⟨hpos, b, hb, rfl⟩
    exact ⟨b.data, (h.contents b.id b.data).2 ⟨b, mem_liveBlocks.2 ⟨hb, hpos⟩, rfl, rfl⟩⟩

theorem notMem_of_nonpos (h : RefinesBy s bs m) {id : Int} (hid : id ≤ 0) : id ∉ m.map := by
  rw [h.mem_map, mem_liveIds]
  rintro ⟨hpos, -⟩
  omega

theorem hitsStaleBytes_iff (h : RefinesBy s bs m) {id : Int} :
    s.HitsStaleBytes id ↔ s.StaleHit bs id := by
  rw [Store.HitsStaleBytes, Store.blockHeaders_eq h.tiled, Store.StaleHit]
  refine and_congr ?_ ?_
  · simp [Block.header]
  · simp only [Option.mem_def, Option.bind_eq_some_iff]
    constructor
    · rintro ⟨bh, ⟨c, hc, hbh⟩, hid⟩
      exact ⟨c, bh, hc, hbh, hid⟩
    · rintro ⟨c, bh, hc, hbh, hid⟩
      exact ⟨bh, ⟨c, hc, hbh⟩, hid⟩

/-- A change of the cache that keeps what is known. -/
theorem withCache (h : RefinesBy s bs m) {cache : Option OffsetCache} (hc : CacheOk bs cache) :
    RefinesBy (s.withCache cache) bs m :=
  ⟨Store.tiled_withCache h.tiled cache, hc, h.numLive, h.nextId, h.contents, h.issued⟩

/-- **Looking up an id**: invalid exactly when the id is not in the map, and otherwise the place of
its block. -/
theorem getRecordHeader (h : RefinesBy s bs m) {id : Int} (hstale : ¬ s.HitsStaleBytes id) :
    (id ∉ m.map ∧ ∃ cache, s.getRecordHeader id = (.error .invalidRecordID, s.withCache cache) ∧
      CacheOk bs cache) ∨
    ∃ l b r cache, bs = l ++ b :: r ∧ b.id = id ∧ 0 < id ∧ m.map.lookup id = some b.data ∧
      s.getRecordHeader id = (.ok (40 + total l, b.header), s.withCache cache) ∧
      CacheOk bs cache := by
  rcases (by omega : 0 < id ∨ id ≤ 0) with hid | hid
  · rw [h.hitsStaleBytes_iff] at hstale
    obtain ⟨cache, heq, hcache⟩ := Store.getRecordHeader_eq h.tiled h.cache hid hstale
    cases hloc : locate id DB_HEADER_SIZE bs with
    | none =>
      rw [Store.lookup, hloc] at heq
      refine .inl ⟨?_, cache, heq, hcache⟩
      rw [h.mem_map, mem_liveIds]
      rintro ⟨-, b, hb, hbid⟩
      exact locate_eq_none.1 hloc b hb hbid
    | some x =>
      obtain ⟨l, b, r, rfl, rfl, -, ho, hb⟩ := locate_eq_some (p := x.1) (h := x.2) hloc
      refine .inr ⟨l, b, r, cache, rfl, rfl, hid, ?_, ?_, hcache⟩
      · exact (h.contents b.id b.data).2 ⟨b, mem_liveBlocks.2 ⟨by simp, hid⟩, rfl, rfl⟩
      · rw [heq, Store.lookup, hloc, ← hb]
        simp only [Prod.mk.injEq, and_true]
        rw [show x = (x.1, x.2) from rfl, ho]
        rfl
  · exact .inl ⟨h.notMem_of_nonpos hid, s.recordIdOffsets, Store.getRecordHeader_nonpos s hid,
      h.cache⟩

end RefinesBy

/-! ## Changing the header -/

/-- The fields as 32-bit integers. -/
def DbHeader.toInts (d : DbHeader) : DbHeader where
  authMode := i32 d.authMode
  nextId := i32 d.nextId
  numLive := i32 d.numLive
  version := i32 d.version
  lastModified := (i32 d.lastModified.1, i32 d.lastModified.2)
  dataSize := i32 d.dataSize
  freeSize := i32 d.freeSize

theorem DbHeader.bytes_toInts (d : DbHeader) : d.toInts.bytes = d.bytes := by
  simp only [toInts, bytes, intBytes_i32]

/-- Opening a file reads the header that was written. -/
theorem DbHeader.read_bytes (d : DbHeader) (rest : List UInt8) :
    DbHeader.read (d.bytes ++ rest) = some d.toInts := by
  have hsig : (d.bytes ++ rest).take 8 = DB_SIGNATURE := rfl
  -- one field behind what stands before it
  have hfield : ∀ (pre post : List UInt8) (x : Int) (i : Nat), pre.length = i →
      d.bytes = pre ++ (intBytes x ++ post) → getInt (d.bytes ++ rest) i = i32 x := by
    intro pre post x i hpre hbytes
    rw [hbytes, List.append_assoc, List.append_assoc]
    exact getInt_at hpre x _
  have hmode := hfield DB_SIGNATURE _ d.authMode 8 rfl rfl
  have hnext := hfield (DB_SIGNATURE ++ intBytes d.authMode) _ d.nextId 12 rfl rfl
  have hlive := hfield (DB_SIGNATURE ++ (intBytes d.authMode ++ intBytes d.nextId)) _ d.numLive 16
    rfl rfl
  have hversion := hfield (d.bytes.take 20) _ d.version 20 rfl rfl
  have htime₁ := hfield (d.bytes.take 24) _ d.lastModified.1 24 rfl rfl
  have htime₂ := hfield (d.bytes.take 28) _ d.lastModified.2 28 rfl rfl
  have hsize := hfield (d.bytes.take 32) _ d.dataSize 32 rfl rfl
  have hfree := hfield (d.bytes.take 36) [] d.freeSize 36 rfl rfl
  rw [DbHeader.read, if_pos hsig, hmode, hnext, hlive, hversion, htime₁, htime₂, hsize, hfree]
  rfl

/-- What stands before the next id. -/
theorem DbHeader.take_bytes {d d' : DbHeader} (h : d.authMode = d'.authMode) :
    d.bytes.take 12 = d'.bytes.take 12 := by
  obtain ⟨mode, _, _, _, _, _, _⟩ := d
  obtain rfl : mode = d'.authMode := h
  rfl

/-- What stands behind the time. -/
theorem DbHeader.drop_bytes {d d' : DbHeader} (h : d.dataSize = d'.dataSize)
    (h' : d.freeSize = d'.freeSize) : d.bytes.drop 32 = d'.bytes.drop 32 := by
  obtain ⟨_, _, _, _, _, size, free⟩ := d
  obtain rfl : size = d'.dataSize := h
  obtain rfl : free = d'.freeSize := h'
  rfl

theorem Tiled.updateHeader {s : Store} {bs : List Block} (h : Tiled s bs) (d : DbHeader) (o n : Nat)
    (hd : d.dataSize = s.dbHeader.dataSize) (hn : o + n ≤ 40)
    (hpre : s.dbHeader.bytes.take o = d.bytes.take o)
    (hpost : s.dbHeader.bytes.drop (o + n) = d.bytes.drop (o + n)) :
    Tiled (({ s with dbHeader := d } : Store).writeDbHeader o n) bs := by
  obtain ⟨junk, hfile⟩ := h.file
  refine ⟨⟨junk, Store.writeDbHeader_file (d := s.dbHeader) hfile hn hpre hpost⟩, ?_, h.fits, h.ids,
    h.nodup⟩
  rw [Store.writeDbHeader_dbHeader]
  exact hd.trans h.dataSize

/-! ## Changing the map -/

/-- Putting a record into a chain whose other entries stay. -/
theorem Contents.insert {bs bs' rest : List Block} {map : Finmap fun _ : Int => List UInt8}
    {id : Int} {data : List UInt8} (h : Contents bs map)
    (hperm : (liveBlocks bs').Perm (Block.record id data :: rest)) (hid : ∀ b ∈ rest, b.id ≠ id)
    (hrest : ∀ b, b.id ≠ id → (b ∈ rest ↔ b ∈ liveBlocks bs)) :
    Contents bs' (map.insert id data) := by
  intro k d
  by_cases hk : k = id
  · subst hk
    rw [Finmap.lookup_insert]
    constructor
    · rintro ⟨⟩
      exact ⟨Block.record k data, hperm.mem_iff.2 (List.mem_cons_self ..), rfl,
        Block.record_data k data⟩
    · rintro ⟨b, hb, hbid, rfl⟩
      rcases List.mem_cons.1 (hperm.mem_iff.1 hb) with rfl | hmem
      · rw [Block.record_data]
      · exact absurd hbid (hid b hmem)
  · rw [Finmap.lookup_insert_of_ne _ hk, h k d]
    refine exists_congr fun b => ⟨?_, ?_⟩
    · rintro ⟨hb, rfl, hdata⟩
      exact ⟨hperm.mem_iff.2 (List.mem_cons_of_mem _ ((hrest b hk).2 hb)), rfl, hdata⟩
    · rintro ⟨hb, rfl, hdata⟩
      rcases List.mem_cons.1 (hperm.mem_iff.1 hb) with rfl | hmem
      · exact absurd rfl hk
      · exact ⟨(hrest b hk).1 hmem, rfl, hdata⟩

/-- Taking a record out. -/
theorem Contents.erase {bs bs' : List Block} {map : Finmap fun _ : Int => List UInt8} {id : Int}
    (h : Contents bs map) (hid : ∀ b ∈ liveBlocks bs', b.id ≠ id)
    (hrest : ∀ b, b.id ≠ id → (b ∈ liveBlocks bs' ↔ b ∈ liveBlocks bs)) :
    Contents bs' (map.erase id) := by
  intro k d
  by_cases hk : k = id
  · subst hk
    rw [Finmap.lookup_erase]
    constructor
    · rintro ⟨⟩
    · rintro ⟨b, hb, hbid, -⟩
      exact absurd hbid (hid b hb)
  · rw [Finmap.lookup_erase_ne hk, h k d]
    refine exists_congr fun b => ⟨?_, ?_⟩
    · rintro ⟨hb, rfl, hdata⟩
      exact ⟨(hrest b hk).2 hb, rfl, hdata⟩
    · rintro ⟨hb, rfl, hdata⟩
      exact ⟨(hrest b hk).1 hb, rfl, hdata⟩

/-- The other entries, next to the block of an id. -/
theorem Tiled.mem_without {s : Store} {l r : List Block} {b : Block} (h : Tiled s (l ++ b :: r))
    (hb : 0 < b.id) : (∀ x ∈ liveBlocks (l ++ r), x.id ≠ b.id) ∧
      ∀ x, x.id ≠ b.id → (x ∈ liveBlocks (l ++ r) ↔ x ∈ liveBlocks (l ++ b :: r)) := by
  obtain ⟨hl, hr⟩ := h.unique hb
  refine ⟨fun x hx => ?_, fun x hx => ?_⟩
  · rcases List.mem_append.1 (mem_liveBlocks.1 hx).1 with hmem | hmem
    · exact hl x hmem
    · exact hr x hmem
  · rw [mem_liveBlocks, mem_liveBlocks, List.mem_append, List.mem_append, List.mem_cons]
    have hne : x ≠ b := fun heq => hx (heq ▸ rfl)
    simp [hne]

theorem liveIds_length_eq {bs bs' : List Block}
    (h : (liveBlocks bs').length = (liveBlocks bs).length) :
    (liveIds bs').length = (liveIds bs).length := by
  simpa [liveIds, liveBlocks] using h

theorem length_liveIds_le (bs : List Block) : (liveIds bs).length ≤ total bs := by
  have h₁ := (liveBlocks bs).length.le_refl
  have h₂ := length_le_total (liveBlocks bs)
  have h₃ := total_liveBlocks_le bs
  simp only [liveIds, List.length_map]
  exact h₂.trans h₃

/-! ## Every call is simulated -/

/-- The map can do what the store does. -/
def Simulated (cfg : Config) (s : Store) (m : RecordMap) (c : Call) : Prop :=
  ∃ m', m.Step (c, (s.call cfg c).1) m' ∧ Refines (s.call cfg c).2 m'

theorem Simulated.of_call {cfg : Config} {s t : Store} {m m' : RecordMap} {c : Call} {r : Reply}
    (hcall : s.call cfg c = (r, t)) (hstep : m.Step (c, r) m') (h : Refines t m') :
    Simulated cfg s m c := by
  rw [Simulated, hcall]
  exact ⟨m', hstep, h⟩

namespace RefinesBy

variable {cfg : Config} {s : Store} {bs : List Block} {m : RecordMap}

theorem create (time : Int × Int) : RefinesBy (Store.create time) [] {} where
  tiled := ⟨⟨[], by simp [Store.create]⟩, rfl, by decide, by simp, by simp [liveIds]⟩
  cache := fun c hc => by cases hc
  numLive := rfl
  nextId := ⟨1, rfl, by omega, by omega, by simp⟩
  contents := fun id data => by simp [liveBlocks]
  issued := fun id hid => absurd hid Finmap.notMem_empty

/-- The end of an update: the changed header is written. -/
theorem ofHeader {d : DbHeader} (o n : Nat) (htiled : Tiled s bs)
    (hcache : CacheOk bs s.recordIdOffsets) (hd : d.dataSize = s.dbHeader.dataSize)
    (hn : o + n ≤ 40) (hpre : s.dbHeader.bytes.take o = d.bytes.take o)
    (hpost : s.dbHeader.bytes.drop (o + n) = d.bytes.drop (o + n))
    (hnum : d.numLive = (liveIds bs).length)
    (hnext : ∃ next : Nat, d.nextId = i32 next ∧ 1 ≤ next ∧ next ≤ 2147483648 ∧
      ∀ id ∈ m.issued, id < next)
    (hcontents : Contents bs m.map) (hissued : ∀ id ∈ m.map, id ∈ m.issued) :
    RefinesBy (({ s with dbHeader := d } : Store).writeDbHeader o n) bs m where
  tiled := htiled.updateHeader d o n hd hn hpre hpost
  cache := by
    rw [Store.writeDbHeader_cache]
    exact hcache
  numLive := by rw [Store.writeDbHeader_dbHeader, hnum]
  nextId := by
    rw [Store.writeDbHeader_dbHeader]
    exact hnext
  contents := hcontents
  issued := hissued

theorem simulates_getRecord {id : Int} (h : RefinesBy s bs m) (hok : s.CallOk (.getRecord id)) :
    Simulated cfg s m (.getRecord id) := by
  rcases h.getRecordHeader hok with ⟨hid, cache, heq, hcache⟩ |
    ⟨l, b, r, cache, rfl, rfl, -, hlookup, heq, hcache⟩
  · refine .of_call (t := s.withCache cache) ?_ (.getInvalid hid) ⟨bs, h.withCache hcache⟩
    simp [Store.call, Store.getRecord, heq, Store.reply]
  · have hbody := b.body_length
    have hnil : b.header.size = 0 ↔ b.data = [] := by
      simp only [Block.header, Block.data, ← List.length_eq_zero_iff, List.length_take]
      omega
    have hread := h.tiled.read_data
    refine .of_call (t := s.withCache cache) ?_ (.get hlookup) ⟨_, h.withCache hcache⟩
    simp only [Store.call, Store.getRecord, heq, Store.withCache, hread, hnil]
    by_cases hd : b.data = [] <;> simp [hd, Store.reply]

theorem simulates_getRecordSize {id : Int} (h : RefinesBy s bs m)
    (hok : s.CallOk (.getRecordSize id)) : Simulated cfg s m (.getRecordSize id) := by
  rcases h.getRecordHeader hok with ⟨hid, cache, heq, hcache⟩ |
    ⟨l, b, r, cache, rfl, rfl, -, hlookup, heq, hcache⟩
  · refine .of_call (t := s.withCache cache) ?_ (.sizeInvalid hid) ⟨bs, h.withCache hcache⟩
    simp [Store.call, Store.getRecordSize, heq, Store.reply]
  · refine .of_call (t := s.withCache cache) ?_ (.size hlookup) ⟨_, h.withCache hcache⟩
    have hsize : b.header.size = b.data.length := by
      have := b.body_length
      simp only [Block.header, Block.data, List.length_take]
      omega
    simp [Store.call, Store.getRecordSize, heq, Store.reply, hsize]

theorem simulates_getRecordIDs (h : RefinesBy s bs m) : Simulated cfg s m .getRecordIDs :=
  .of_call (t := s) (by rw [Store.call, Store.getRecordIDs_eq h.tiled h.numLive])
    (.ids h.tiled.nodup fun _ => h.mem_map.symm) ⟨bs, h⟩

theorem simulates_getNumRecords (h : RefinesBy s bs m) : Simulated cfg s m .getNumRecords := by
  have hkeys : m.map.keys = (liveIds bs).toFinset := by
    ext id
    rw [Finmap.mem_keys, h.mem_map, List.mem_toFinset]
  have hnum : s.getNumRecords = m.map.keys.card := by
    rw [hkeys, List.toFinset_card_of_nodup h.tiled.nodup, Store.getNumRecords, h.numLive]
  exact .of_call (t := s) (by rw [Store.call, hnum]) .num ⟨bs, h⟩

theorem simulates_deleteRecord {amb : Store.Ambient} {id : Int} (h : RefinesBy s bs m)
    (hok : s.CallOk (.deleteRecord amb id)) : Simulated cfg s m (.deleteRecord amb id) := by
  rcases h.getRecordHeader hok with ⟨hid, cache, heq, hcache⟩ |
    ⟨l, b, r, cache, rfl, rfl, hpos, hlookup, heq, hcache⟩
  · refine .of_call (t := s.withCache cache) ?_ (.deleteInvalid amb hid) ⟨bs, h.withCache hcache⟩
    simp [Store.call, Store.deleteRecord, heq, Store.reply]
  · obtain ⟨f, hf, hlen, htiled, hcache', n, hheader⟩ :=
      Store.freeBlock_tiled (Store.tiled_withCache h.tiled cache) hcache
        (show b.header.size = b.size from rfl)
    obtain ⟨hne, hother⟩ := h.tiled.mem_without hpos
    have hlive : liveBlocks (l ++ f :: r) = liveBlocks (l ++ r) := by
      rw [liveBlocks_append, liveBlocks_cons_of_nonpos (by omega), ← liveBlocks_append]
    have hcount : (liveIds (l ++ b :: r)).length = (liveIds (l ++ f :: r)).length + 1 := by
      simp only [liveIds_append, liveIds_cons_of_pos hpos, liveIds_cons_of_nonpos
        (show f.id ≤ 0 by omega), List.length_append, List.length_cons]
      omega
    have hle := length_liveIds_le (l ++ b :: r)
    have hfits := h.tiled.fits
    set s₁ := (s.withCache cache).freeBlock (40 + total l) b.header with hs₁
    have hdb : s₁.dbHeader = { s.dbHeader with freeSize := n } := hheader
    have hnum : i32 (s₁.dbHeader.numLive - 1) = (liveIds (l ++ f :: r)).length := by
      rw [hdb]
      simp only [h.numLive]
      rw [i32_of_range (by omega)]
      omega
    refine .of_call (r := .done) (t := ({ s₁.deleteRecordIndex b.id with
        dbHeader := { s₁.dbHeader with
          numLive := i32 (s₁.dbHeader.numLive - 1)
          version := i32 (s₁.dbHeader.version + 1), lastModified := amb.time } } :
        Store).writeDbHeader 16 16) ?_
      (.delete amb (h.mem_map.2 (mem_liveIds.2 ⟨hpos, b, by simp, rfl⟩))) ⟨l ++ f :: r, ?_⟩
    · simp only [Store.call, Store.deleteRecord, heq, Store.reply]
      rfl
    · obtain ⟨next, hnext, h₁, h₂, hissued⟩ := h.nextId
      refine .ofHeader 16 16 (s := s₁.deleteRecordIndex b.id)
        ⟨htiled.file, htiled.dataSize, htiled.fits, htiled.ids, htiled.nodup⟩ ?_ rfl (by omega)
        rfl rfl hnum ⟨next, by rw [hdb]; exact hnext, h₁, h₂, hissued⟩
        (h.contents.erase (hlive ▸ hne) (hlive ▸ hother))
        fun k hk => h.issued k (Finmap.mem_erase.1 hk).2
      intro c hc
      obtain ⟨c, hc', rfl⟩ := Option.map_eq_some_iff.1 hc
      obtain ⟨hlive', hlast⟩ := hcache' c hc'
      refine ⟨fun k o h' hK hk hloc => ?_, hlast⟩
      rw [OffsetCache.elementAt_removeElementAt]
      split_ifs
      · exact .inl rfl
      · exact hlive' k o h' hK hk hloc

theorem simulates_addRecord {amb : Store.Ambient} {data : List UInt8} (h : RefinesBy s bs m)
    (hok : s.CallOk (.addRecord amb data))
    (hfull : (s.call cfg (.addRecord amb data)).1 ≠ .throws .recordStoreFull) :
    Simulated cfg s m (.addRecord amb data) := by
  obtain ⟨hpos, hfits⟩ := hok
  obtain ⟨next, hnext, h₁, h₂, hissued⟩ := h.nextId
  have hlt : (next : Int) < 2147483648 := by
    by_contra hge
    obtain rfl : next = 2147483648 := by omega
    rw [Store.getNextRecordID, hnext] at hpos
    exact absurd hpos (by decide)
  have hid : s.getNextRecordID = next := by
    rw [Store.getNextRecordID, hnext, i32_of_range (by omega)]
  have hnew : ∀ b ∈ bs, b.id ≠ next := by
    intro b hb heq
    have hmem : b.id ∈ m.map := h.mem_map.2 (mem_liveIds.2 ⟨by omega, b, hb, rfl⟩)
    have := hissued _ (h.issued _ hmem)
    omega
  have hzero : ∀ b ∈ bs, b.id ≠ 0 := fun b hb => by
    have := h.tiled.ids b hb
    omega
  rw [Store.Fits, Store.liveSize_of_new h.tiled hzero, DB_HEADER_SIZE] at hfits
  have hput := Store.addBlock_tiled cfg amb.space h.tiled h.cache ⟨by omega, hlt⟩ hnew
    (show 40 + total (liveBlocks bs) + blockBytes data.length < 2147483648 by omega)
  rcases hput with hthrow | ⟨s', bs', heq, htiled, hcache, hperm, d, f, hheader⟩
  · refine absurd ?_ hfull
    rw [Store.call, Store.addRecord, hid]
    cases hadd : s.addBlock cfg amb.space next data with
    | mk r s' =>
      rw [hadd] at hthrow
      obtain rfl : r = .error .recordStoreFull := hthrow
      rfl
  · have hbound := htiled.fits
    have hlive : (liveIds bs').length = (liveIds bs).length + 1 := by
      simpa [liveIds, liveBlocks] using hperm.length_eq
    have hle := length_liveIds_le bs'
    have hnum : i32 (s'.dbHeader.numLive + 1) = (liveIds bs').length := by
      rw [hheader]
      simp only [h.numLive]
      rw [i32_of_range (by omega)]
      omega
    have hnotMem : (next : Int) ∉ m.issued := fun hmem => lt_irrefl _ (hissued _ hmem)
    refine .of_call (r := .id next) (t := ({ s' with dbHeader := { s'.dbHeader with
        nextId := i32 (next + 1), numLive := i32 (s'.dbHeader.numLive + 1)
        version := i32 (s'.dbHeader.version + 1), lastModified := amb.time } } :
        Store).writeDbHeader 12 20) ?_
      (.add amb data (by omega) hnotMem) ⟨bs', ?_⟩
    · rw [Store.call, Store.addRecord, hid, heq]
      rfl
    · refine .ofHeader 12 20 htiled hcache rfl (by omega) (DbHeader.take_bytes rfl)
        (DbHeader.drop_bytes rfl rfl) hnum
        ⟨next + 1, by simp only [Int.natCast_succ], by omega, by omega, ?_⟩
        (h.contents.insert hperm (fun b hb => hnew b (mem_liveBlocks.1 hb).1) fun b _ => .rfl) ?_
      · intro id hmem
        rcases Finset.mem_insert.1 hmem with rfl | hmem
        · omega
        · have := hissued id hmem
          omega
      · intro id hmem
        rcases Finmap.mem_insert.1 hmem with rfl | hmem
        · exact Finset.mem_insert_self ..
        · exact Finset.mem_insert_of_mem (h.issued id hmem)

theorem simulates_setRecord {amb : Store.Ambient} {id : Int} {data : List UInt8}
    (h : RefinesBy s bs m) (hok : s.CallOk (.setRecord amb id data))
    (hfull : (s.call cfg (.setRecord amb id data)).1 ≠ .throws .recordStoreFull) :
    Simulated cfg s m (.setRecord amb id data) := by
  obtain ⟨hstale, hroom⟩ := hok
  rcases h.getRecordHeader hstale with ⟨hid, cache, heq, hcache⟩ |
    ⟨l, b, r, cache, rfl, rfl, hpos, hlookup, heq, hcache⟩
  · refine .of_call (t := s.withCache cache) ?_ (.setInvalid amb data hid)
      ⟨bs, h.withCache hcache⟩
    simp [Store.call, Store.setRecord, heq, Store.reply]
  · obtain ⟨hl, hr⟩ := h.tiled.unique hpos
    obtain ⟨hne, hother⟩ := h.tiled.mem_without hpos
    have hint : b.id < 2147483648 := by
      have := h.tiled.ids b (by simp)
      omega
    have htiled := Store.tiled_withCache h.tiled cache
    have hmem : b.id ∈ m.map := h.mem_map.2 (mem_liveIds.2 ⟨hpos, b, by simp, rfl⟩)
    have hfits : 40 + (total (liveBlocks (l ++ r)) : Int) + blockBytes data.length < 2147483648 := by
      have := hroom ⟨b.header, by simp [Store.blockHeaders_eq h.tiled], rfl⟩
      rwa [Store.Fits, Store.liveSize_of_live h.tiled hpos, DB_HEADER_SIZE] at this
    have hnew : calculateBlockSize data.length = blockBytes data.length :=
      calculateBlockSize_eq (by omega)
    have hold : calculateBlockSize b.header.size = b.length :=
      h.tiled.blockSize List.mem_append_cons_self
    -- once the block is written, only the header is left
    have hdone : ∀ (s' : Store) (bs' : List Block), (if (blockBytes data.length : Int) ≤ b.length
          then ((.ok (), (s.withCache cache).splitBlock (40 + total l) b.header data) :
            Except RmsError Unit × Store)
          else ((s.withCache cache).freeBlock (40 + total l) b.header).addBlock cfg amb.space b.id
            data) = (.ok (), s') →
        Tiled s' bs' → CacheOk bs' s'.recordIdOffsets →
        (liveBlocks bs').Perm (Block.record b.id data :: liveBlocks (l ++ r)) →
        (∃ d f, s'.dbHeader = { s.dbHeader with dataSize := d, freeSize := f }) →
        Simulated cfg s m (.setRecord amb b.id data) := by
      rintro s' bs' hput htiled' hcache' hperm ⟨d, f, hheader⟩
      have hlive : (liveIds bs').length = (liveIds (l ++ b :: r)).length := by
        refine liveIds_length_eq ?_
        rw [hperm.length_eq, liveBlocks_append, liveBlocks_append, liveBlocks_cons_of_pos hpos]
        simp only [List.length_cons, List.length_append]
        omega
      refine .of_call (r := .done) (t := ({ s' with dbHeader := { s'.dbHeader with
          version := i32 (s'.dbHeader.version + 1), lastModified := amb.time } } :
          Store).writeDbHeader 20 12) ?_ (.set amb data hmem) ⟨bs', ?_⟩
      · rw [Store.call, Store.setRecord, heq]
        simp only [hnew, hold, hput]
        rfl
      · refine .ofHeader 20 12 htiled' hcache' rfl (by omega) rfl rfl ?_ ?_
          (h.contents.insert hperm hne hother) ?_
        · rw [hheader, hlive]
          exact h.numLive
        · rw [hheader]
          exact h.nextId
        · intro id hid
          rcases Finmap.mem_insert.1 hid with rfl | hid
          · exact h.issued _ hmem
          · exact h.issued id hid
    by_cases hshort : (blockBytes data.length : Int) ≤ b.length
    · obtain ⟨fr, hfr, htiled', hcache', n, hheader⟩ :=
        Store.splitBlock_tiled htiled hcache ⟨hpos, hint⟩ hl hr
          (show blockBytes data.length ≤ b.length by lia)
      exact hdone _ _ (by rw [if_pos hshort]; rfl) htiled' hcache'
        (liveBlocks_record_perm l r fr data hpos hfr) ⟨_, n, hheader⟩
    · obtain ⟨fb, hfb, -, htiled', hcache', n, hheader⟩ :=
        Store.freeBlock_tiled htiled hcache (show b.header.size = b.size from rfl)
      have hlive : liveBlocks (l ++ fb :: r) = liveBlocks (l ++ r) := by
        rw [liveBlocks_append, liveBlocks_cons_of_nonpos (by omega), ← liveBlocks_append]
      have hfresh : ∀ x ∈ l ++ fb :: r, x.id ≠ b.id := by
        intro x hx
        rcases List.mem_append.1 hx with hx | hx
        · exact hl x hx
        · rcases List.mem_cons.1 hx with rfl | hx
          · omega
          · exact hr x hx
      have hput := Store.addBlock_tiled cfg amb.space htiled' hcache' ⟨hpos, hint⟩ hfresh
        (show 40 + total (liveBlocks (l ++ fb :: r)) + blockBytes data.length < 2147483648 by
          rw [hlive]
          omega)
      rcases hput with hthrow | ⟨s', bs', hput, htiled'', hcache'', hperm, d, f, hheader'⟩
      · refine absurd ?_ hfull
        rw [Store.call, Store.setRecord, heq]
        simp only [hnew, hold, if_neg hshort]
        cases hadd : ((s.withCache cache).freeBlock (40 + total l) b.header).addBlock cfg amb.space
            b.id data with
        | mk x s' =>
          rw [hadd] at hthrow
          obtain rfl : x = .error .recordStoreFull := hthrow
          rfl
      · exact hdone s' bs' (by rw [if_neg hshort, hput]) htiled'' hcache'' (hlive ▸ hperm)
          ⟨d, f, by rw [hheader', hheader]; rfl⟩

/-- Closing and opening again keeps the live blocks, and of the header all but the two sizes. -/
theorem reopen (cfg : Config) (h : RefinesBy s bs m) :
    ∃ s' bs', s.reopen cfg = (.ok (), s') ∧ RefinesBy s' bs' m ∧ liveBlocks bs' = liveBlocks bs ∧
      ∃ d f, s'.dbHeader =
        DbHeader.toInts { s.dbHeader with dataSize := d, freeSize := f } := by
  obtain ⟨s', bs', heq, hbs, htiled, hcache, d, f, hheader⟩ :=
    Store.compactRecords_tiled cfg h.tiled h.cache
  obtain ⟨junk, hfile⟩ := htiled.file
  have hlive : liveBlocks bs' = liveBlocks bs := by
    rcases hbs with ⟨-, rfl⟩ | rfl
    · rfl
    · simp
  have hlen : (liveIds bs').length = (liveIds bs).length := liveIds_length_eq (by rw [hlive])
  have hle := length_liveIds_le bs'
  have hfits := htiled.fits
  have hread : DbHeader.read s'.file = some s'.dbHeader.toInts := by
    rw [hfile]
    exact DbHeader.read_bytes ..
  refine ⟨{ dbHeader := s'.dbHeader.toInts, file := s'.file }, bs', ?_,
    ⟨⟨⟨junk, ?_⟩, ?_, hfits, htiled.ids, htiled.nodup⟩, ?_, ?_, ?_, ?_, h.issued⟩, hlive, d, f, ?_⟩
  · simp only [Store.reopen, heq, hread]
  · rw [DbHeader.bytes_toInts]
    exact hfile
  · show i32 s'.dbHeader.dataSize = total bs'
    rw [htiled.dataSize, i32_of_range (by omega)]
  · intro c hc
    cases hc
  · show i32 s'.dbHeader.numLive = (liveIds bs').length
    rw [hheader, hlen]
    simp only [h.numLive]
    rw [i32_of_range (by omega)]
  · obtain ⟨next, hnext, h₁, h₂, hissued⟩ := h.nextId
    refine ⟨next, ?_, h₁, h₂, hissued⟩
    show i32 s'.dbHeader.nextId = i32 next
    rw [hheader]
    simp only [hnext, i32, Int.bmod_bmod]
  · intro id data
    rw [hlive]
    exact h.contents id data
  · rw [hheader]

theorem simulates_reopen (h : RefinesBy s bs m) : Simulated cfg s m .reopen := by
  obtain ⟨s', bs', heq, hs', -⟩ := h.reopen cfg
  refine .of_call (r := .done) (t := s') ?_ .reopen ⟨bs', hs'⟩
  rw [Store.call, heq]
  rfl

/-- **The step lemma.** -/
theorem simulates {c : Call} (h : RefinesBy s bs m) (hok : s.CallOk c)
    (hfull : (s.call cfg c).1 ≠ .throws .recordStoreFull) : Simulated cfg s m c := by
  cases c with
  | addRecord => exact h.simulates_addRecord hok hfull
  | setRecord => exact h.simulates_setRecord hok hfull
  | deleteRecord => exact h.simulates_deleteRecord hok
  | getRecord => exact h.simulates_getRecord hok
  | getRecordSize => exact h.simulates_getRecordSize hok
  | getRecordIDs => exact h.simulates_getRecordIDs
  | getNumRecords => exact h.simulates_getNumRecords
  | reopen => exact h.simulates_reopen

end RefinesBy

/-! ## Runs -/

namespace Store

/-- The step that shows the reply `l.2`, as a function. -/
def next (cfg : Config) (s : Store) (l : Call × Reply) : Except Unit Store :=
  if (s.call cfg l.1).1 = l.2 then .ok (s.call cfg l.1).2 else .error ()

theorem step_of_next {cfg : Config} {s s' : Store} {l : Call × Reply}
    (h : s.next cfg l = .ok s') : s.Step cfg l s' := by
  unfold next at h
  split at h
  case isTrue hreply =>
    cases h
    rw [Step, ← hreply]
  case isFalse => cases h

/-- The replies are found by running. -/
theorem run_of_exec (cfg : Config) (ok : Store → Call × Reply → Bool) (s : Store)
    (ls : List (Call × Reply)) (h : (Lts.exec (next cfg) ok s ls).isSome = true) :
    ∃ s', Lts.Run (Lts.Guarded (Step cfg) fun s l => ok s l = true) s ls s' := by
  obtain ⟨s', hexec⟩ := Option.isSome_iff_exists.1 h
  exact ⟨s', (Lts.Run.of_exec hexec).mono fun _ _ _ ⟨hok, hnext⟩ => ⟨hok, step_of_next hnext⟩⟩

end Store

/-- **A record store refines a finite map**, along every run in which no call says that the store is
full, hits stale bytes or overflows an `int`. -/
theorem refines_map (cfg : Config) (time : Int × Int) {ls : List (Call × Reply)} {s' : Store}
    (hrun : Lts.Run (Lts.Guarded (Store.Step cfg) fun s l =>
      s.CallOk l.1 ∧ l.2 ≠ .throws .recordStoreFull) (Store.create time) ls s') :
    ∃ m', Lts.Run RecordMap.Step {} ls m' ∧ Refines s' m' := by
  refine hrun.simulation (R := Refines) ?_ ⟨[], .create time⟩
  rintro s m ⟨c, r⟩ s' ⟨bs, h⟩ ⟨⟨hok, hfull⟩, hstep⟩
  have hcall : s.call cfg c = (r, s') := hstep
  obtain ⟨m', hm, hs⟩ := h.simulates hok (show (s.call cfg c).1 ≠ _ by rwa [hcall])
  rw [hcall] at hm hs
  exact ⟨m', hm, hs⟩

/-- A run with a free block that is split, a record that grows, and a reopening. -/
theorem refines_map_mixed : ∃ m', Lts.Run RecordMap.Step {}
    [(.addRecord ⟨1000, 1, 2⟩ [1, 2, 3, 4, 5, 6, 7, 8, 9], .id 1),
      (.addRecord ⟨1000, 1, 2⟩ [], .id 2), (.deleteRecord ⟨1000, 1, 3⟩ 1, .done),
      (.getRecord 1, .throws .invalidRecordID), (.addRecord ⟨1000, 1, 4⟩ [7], .id 3),
      (.setRecord ⟨1000, 1, 5⟩ 3 [9, 8, 7, 6, 5, 4, 3, 2, 1, 0, 1, 2, 3, 4, 5, 6, 7], .done),
      (.reopen, .done), (.getRecord 3,
        .bytes (some [9, 8, 7, 6, 5, 4, 3, 2, 1, 0, 1, 2, 3, 4, 5, 6, 7])),
      (.getRecord 2, .bytes none), (.getNumRecords, .size 2), (.getRecordSize 3, .size 17)] m' := by
  let cfg : Config := { storageSuiteLimit := 200, limit_int := by decide }
  obtain ⟨s', hrun⟩ := Store.run_of_exec cfg
    (fun s l => decide (s.CallOk l.1 ∧ l.2 ≠ .throws .recordStoreFull)) (Store.create (0, 0))
    [(.addRecord ⟨1000, 1, 2⟩ [1, 2, 3, 4, 5, 6, 7, 8, 9], .id 1),
      (.addRecord ⟨1000, 1, 2⟩ [], .id 2), (.deleteRecord ⟨1000, 1, 3⟩ 1, .done),
      (.getRecord 1, .throws .invalidRecordID), (.addRecord ⟨1000, 1, 4⟩ [7], .id 3),
      (.setRecord ⟨1000, 1, 5⟩ 3 [9, 8, 7, 6, 5, 4, 3, 2, 1, 0, 1, 2, 3, 4, 5, 6, 7], .done),
      (.reopen, .done), (.getRecord 3,
        .bytes (some [9, 8, 7, 6, 5, 4, 3, 2, 1, 0, 1, 2, 3, 4, 5, 6, 7])),
      (.getRecord 2, .bytes none), (.getNumRecords, .size 2), (.getRecordSize 3, .size 17)]
    (by decide +kernel)
  obtain ⟨m', hm, -⟩ := refines_map cfg (0, 0)
    (hrun.mono fun _ _ _ h => ⟨of_decide_eq_true h.1, h.2⟩)
  exact ⟨m', hm⟩

/-- A record that is read is in the map. -/
theorem RecordMap.Step.mem_of_bytes {m m' : RecordMap} {id : Int} {data : Option (List UInt8)}
    (h : m.Step (.getRecord id, .bytes data) m') : id ∈ m.map := by
  generalize hl : (Call.getRecord id, Reply.bytes data) = l at h
  cases h with
  | get hlookup =>
    obtain ⟨⟨⟩, -⟩ := Prod.mk.inj hl
    exact Finmap.lookup_isSome.1 (by rw [hlookup]; rfl)
  | _ => cases hl

/-- **Stale bytes.** Record 3 spells a header for the id 100, and compaction moves it under the
offset that the failed search for 100 has left in the cache. -/
theorem getRecord_stale : ¬ ∀ (cfg : Config) (time : Int × Int) (ls : List (Call × Reply))
    (s' : Store), Lts.Run (Lts.Guarded (Store.Step cfg) fun _ l => l.2 ≠ .throws .recordStoreFull)
      (Store.create time) ls s' → ∃ m', Lts.Run RecordMap.Step {} ls m' := by
  intro h
  let cfg : Config := { storageSuiteLimit := 104, limit_int := by decide }
  obtain ⟨s', hrun⟩ := Store.run_of_exec cfg (fun _ l => decide (l.2 ≠ .throws .recordStoreFull))
    (Store.create (0, 0))
    [(.addRecord ⟨1000, 1, 2⟩ [1, 2, 3, 4, 5, 6, 7, 8, 9, 10, 11, 12, 13, 14, 15, 16], .id 1),
      (.addRecord ⟨1000, 1, 2⟩ [7, 7], .id 2), (.getRecord 100, .throws .invalidRecordID),
      (.deleteRecord ⟨1000, 1, 3⟩ 1, .done),
      (.addRecord ⟨1000, 1, 4⟩ [0, 0, 0, 100, 0, 0, 0, 5, 65, 66, 67, 68, 69, 70, 71, 72, 73, 74],
        .id 3),
      (.getRecord 100, .bytes (some [65, 66, 67, 68, 69]))]
    (by decide +kernel)
  obtain ⟨m', hm⟩ := h cfg (0, 0) _ s' (hrun.mono fun _ _ _ h => ⟨of_decide_eq_true h.1, h.2⟩)
  -- in the map, 100 has never been given out
  rcases hm with _ | ⟨⟨⟩, _ | ⟨⟨⟩, _ | ⟨⟨⟩, _ | ⟨⟨⟩, _ | ⟨⟨⟩, _ | ⟨hget, -⟩⟩⟩⟩⟩⟩
  have hmem := hget.mem_of_bytes
  simp only [Finmap.mem_insert, Finmap.mem_erase] at hmem
  rcases hmem with hmem | ⟨-, hmem | hmem | hmem⟩
  all_goals exact absurd hmem (by decide)

end FroggyKVM.Rms
