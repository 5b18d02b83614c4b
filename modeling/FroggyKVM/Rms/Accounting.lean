/-
# FroggyKVM.Rms.Accounting — the shape of a store file over whole runs.

`Kept` is what every update keeps, also one that says that the store is full: the file is tiled by
blocks, and the next id is new.  On top of it stand two counts of the header.  The number of live
records follows every update that succeeds.  **The free space follows only the updates that write
into no free block**: the code adds to it when a block is freed and forgets to subtract when the
block is used again.
-/
import FroggyKVM.Rms.Failure

namespace FroggyKVM.Rms

/-! ## What updates keep -/

/-- A store whose file is tiled by `bs`; the next id is no id of a block. -/
structure Kept (s : Store) (bs : List Block) : Prop where
  tiled : Tiled s bs
  cache : CacheOk bs s.recordIdOffsets
  nextId : ∃ next : Nat, s.dbHeader.nextId = i32 next ∧ 1 ≤ next ∧ next ≤ 2147483648 ∧
    ∀ b ∈ bs, b.id < next

/-- The header counts the live records. -/
def Counted (s : Store) (bs : List Block) : Prop := s.dbHeader.numLive = (liveIds bs).length

/-- The header counts the bytes that are not in live blocks. -/
def Accounted (s : Store) (bs : List Block) : Prop :=
  s.dbHeader.freeSize = s.dbHeader.dataSize - total (liveBlocks bs)

namespace Store

/-- The sizes of the free blocks. -/
def freeBytes (s : Store) : Int :=
  ((s.blockHeaders.filter fun h => decide (h.id = -1)).map fun h => calculateBlockSize h.size).sum

/-- The search for a free block finds one. -/
def TakesFree (numBytes : Int) (s : Store) : Prop :=
  calculateBlockSize numBytes ≤ s.dbHeader.freeSize ∧
    ∃ h ∈ s.blockHeaders, h.id < 0 ∧ calculateBlockSize numBytes ≤ calculateBlockSize h.size

instance (numBytes : Int) (s : Store) : Decidable (s.TakesFree numBytes) :=
  inferInstanceAs (Decidable (_ ∧ _))

/-- The call writes a record into a free block. -/
def Reuses (s : Store) : Call → Prop
  | .addRecord _ data => s.TakesFree data.length
  | .setRecord _ id data => ∃ h ∈ s.blockHeaders, 0 < id ∧ h.id = id ∧
      calculateBlockSize h.size < calculateBlockSize data.length ∧
      (s.withFreed (calculateBlockSize h.size)).TakesFree data.length
  | _ => False

instance (s : Store) : (c : Call) → Decidable (s.Reuses c)
  | .addRecord .. => inferInstanceAs (Decidable (TakesFree _ _))
  | .setRecord .. => inferInstanceAs (Decidable (∃ _ ∈ _, _))
  | .deleteRecord .. | .getRecord _ | .getRecordSize _ | .getRecordIDs | .getNumRecords
  | .reopen => inferInstanceAs (Decidable False)

/-- An update hits no stale bytes and overflows no `int`. -/
def UpdateOk (s : Store) : Call → Prop
  | .addRecord amb data => s.CallOk (.addRecord amb data)
  | .setRecord amb id data => s.CallOk (.setRecord amb id data)
  | .deleteRecord amb id => s.CallOk (.deleteRecord amb id)
  | _ => True

instance (s : Store) : (c : Call) → Decidable (s.UpdateOk c)
  | .addRecord amb data => inferInstanceAs (Decidable (s.CallOk (.addRecord amb data)))
  | .setRecord amb id data => inferInstanceAs (Decidable (s.CallOk (.setRecord amb id data)))
  | .deleteRecord amb id => inferInstanceAs (Decidable (s.CallOk (.deleteRecord amb id)))
  | .getRecord _ | .getRecordSize _ | .getRecordIDs | .getNumRecords | .reopen =>
    inferInstanceAs (Decidable True)

/-- An id is left for the record after the one that the call adds. -/
def IdLeft (s : Store) : Call → Prop
  | .addRecord .. => s.getNextRecordID < 2147483647
  | _ => True

instance (s : Store) : (c : Call) → Decidable (s.IdLeft c)
  | .addRecord .. => inferInstanceAs (Decidable (_ < _))
  | .setRecord .. | .deleteRecord .. | .getRecord _ | .getRecordSize _ | .getRecordIDs
  | .getNumRecords | .reopen => inferInstanceAs (Decidable True)

/-! ## The header fields -/

theorem splitBlock_dbHeader (s : Store) (o : Int) (header : BlockHeader) (data : List UInt8) :
    (s.splitBlock o header data).dbHeader =
      let freeSize :=
        i32 (calculateBlockSize header.size - calculateBlockSize data.length - BLOCK_HEADER_SIZE)
      if freeSize ≥ 0 then (s.withFreed (calculateBlockSize freeSize)).dbHeader
      else s.dbHeader := by
  simp only [splitBlock]
  split
  · rw [freeBlock_dbHeader]
    simp [withFreed]
  · simp

theorem appendBlock_dbHeader (s : Store) (id : Int) (data : List UInt8) :
    (s.appendBlock id data).dbHeader = { s.dbHeader with
      dataSize := i32 (s.dbHeader.dataSize + calculateBlockSize data.length) } := by
  simp [appendBlock]

theorem compactLoop_dbHeader (fuel : Nat) (o m : Int) (s : Store) :
    (compactLoop fuel o m s).2.dbHeader = s.dbHeader := by
  induction fuel generalizing o m s with
  | zero => rfl
  | succ fuel ih =>
    unfold compactLoop
    split
    · split
      · rfl
      · dsimp only
        split
        · exact ih _ _ _
        · split
          · split
            · rfl
            · exact ih _ _ _
          · exact ih _ _ _
    · rfl

/-- Compaction leaves no free space, or the header as it was. -/
theorem compactRecords_dbHeader (cfg : Config) (s : Store) :
    (s.compactRecords cfg).2.dbHeader = s.dbHeader ∨
      (s.compactRecords cfg).2.dbHeader.freeSize = 0 := by
  unfold compactRecords
  split
  · exact .inl rfl
  · have hloop := compactLoop_dbHeader s.fuel DB_HEADER_SIZE 0 s
    split
    case h_1 e s' heq =>
      rw [heq] at hloop
      exact .inl hloop
    case h_2 moved s' heq =>
      rw [heq] at hloop
      split
      · refine .inr ?_
        dsimp only
        split <;> rfl
      · exact .inl hloop

end Store

/-! ## The parts of an update -/

variable {cfg : Config} {s s' : Store} {bs bs' l r : List Block} {b : Block}

theorem total_append_cons (l r : List Block) (b : Block) :
    total (l ++ b :: r) = b.length + total (l ++ r) := by
  simp only [total_append, total_cons]
  omega

/-- What is not in live blocks is in free ones. -/
theorem Tiled.freeBytes_eq (h : Tiled s bs) :
    s.freeBytes = s.dbHeader.dataSize - total (liveBlocks bs) := by
  have hfits := h.fits
  have hids := h.ids
  rw [Store.freeBytes, Store.blockHeaders_eq h, h.dataSize]
  clear h
  induction bs with
  | nil => rfl
  | cons b bs ih =>
    rw [total_cons] at hfits
    rw [List.forall_mem_cons] at hids
    have ih' := ih (by omega) hids.2
    have hcalc : calculateBlockSize b.header.size = b.length :=
      Block.blockSize (by omega)
    rw [List.map_cons, total_cons]
    rcases hids.1 with hfree | hlive
    · rw [List.filter_cons_of_pos (by simp [Block.header, hfree]), List.map_cons, List.sum_cons, ih',
        hcalc, liveBlocks_cons_of_nonpos (by omega)]
      omega
    · have hne : b.id ≠ -1 := by omega
      rw [List.filter_cons_of_neg (by simp [Block.header, hne]), ih',
        liveBlocks_cons_of_pos hlive.1, total_cons]
      omega

theorem Tiled.accounted_iff (h : Tiled s bs) : Accounted s bs ↔ s.dbHeader.freeSize = s.freeBytes := by
  rw [Accounted, h.freeBytes_eq]

/-- A block that is freed counts as free. -/
theorem accounted_freed {fb : Block} (h : Tiled s (l ++ b :: r)) (hb : 0 < b.id) (hfb : fb.id = -1)
    (hacc : Accounted s (l ++ b :: r)) :
    Accounted (s.freeBlock (40 + total l) b.header) (l ++ fb :: r) := by
  have hfits := h.fits
  have hcalc : calculateBlockSize b.header.size = b.length := h.blockSize List.mem_append_cons_self
  have hle := total_liveBlocks_le (l ++ r)
  have hdata := h.dataSize
  have hlive : total (liveBlocks (l ++ b :: r)) = b.length + total (liveBlocks (l ++ r)) := by
    rw [liveBlocks_append, liveBlocks_cons_of_pos hb, total_append_cons, ← liveBlocks_append]
  have hfree : liveBlocks (l ++ fb :: r) = liveBlocks (l ++ r) := by
    rw [liveBlocks_append, liveBlocks_cons_of_nonpos (by omega), ← liveBlocks_append]
  rw [Accounted, hlive] at hacc
  rw [total_append_cons] at hdata hfits
  rw [Accounted, Store.freeBlock_dbHeader, hfree, hcalc]
  simp only [Store.withFreed]
  rw [i32_of_range (by omega)]
  omega

/-- A record written over a live block leaves the rest of the block free. -/
theorem accounted_split {data : List UInt8} (h : Tiled s (l ++ b :: r)) (hb : 0 < b.id)
    (hfit : blockBytes data.length ≤ b.length)
    (hperm : (liveBlocks bs').Perm (Block.record b.id data :: liveBlocks (l ++ r)))
    (hacc : Accounted s (l ++ b :: r)) :
    Accounted (s.splitBlock (40 + total l) b.header data) bs' := by
  have hfits := h.fits
  have hmod : b.length % 8 = 0 ∧ blockBytes data.length % 8 = 0 := by
    unfold Block.length blockBytes
    omega
  have hcalc : calculateBlockSize b.header.size = b.length := h.blockSize List.mem_append_cons_self
  have hle := total_liveBlocks_le (l ++ r)
  have hdata := h.dataSize
  have hlive : total (liveBlocks (l ++ b :: r)) = b.length + total (liveBlocks (l ++ r)) := by
    rw [liveBlocks_append, liveBlocks_cons_of_pos hb, total_append_cons, ← liveBlocks_append]
  have htotal : total (liveBlocks bs') =
      blockBytes data.length + total (liveBlocks (l ++ r)) := by
    have hsum := (hperm.map Block.length).sum_eq
    simpa [total, Block.length, Block.record] using hsum
  rw [Accounted, hlive] at hacc
  rw [total_append_cons] at hdata hfits
  have hnew : calculateBlockSize data.length = blockBytes data.length :=
    calculateBlockSize_eq (by lia)
  rw [Accounted, Store.splitBlock_dbHeader, htotal]
  simp only [hcalc, hnew, BLOCK_HEADER_SIZE]
  rw [i32_of_range (by lia)]
  split
  · -- the size that is written for the rest gives its length back
    have hrest : calculateBlockSize ((b.length : Int) - blockBytes data.length - 8) =
        b.length - blockBytes data.length := by
      obtain ⟨n, hn⟩ : ∃ n : Nat, b.length = blockBytes data.length + n * 8 + 8 :=
        ⟨(b.length - blockBytes data.length) / 8 - 1, by omega⟩
      rw [show (b.length : Int) - blockBytes data.length - 8 = ((n * 8 : Nat) : Int) by lia,
        calculateBlockSize_eq (by unfold blockBytes; lia)]
      unfold blockBytes at hn ⊢
      lia
    simp only [Store.withFreed, hrest]
    rw [i32_of_range (by omega)]
    lia
  · omega

/-- Compaction keeps the books. -/
theorem accounted_compacted (hs : s.compactRecords cfg = (.ok (), s')) (h : Tiled s bs)
    (h' : Tiled s' bs') (hbs : s.dbHeader.freeSize = 0 ∧ bs' = bs ∨ bs' = liveBlocks bs)
    (hacc : Accounted s bs) : Accounted s' bs' := by
  have hlive : liveBlocks bs' = liveBlocks bs := by
    rcases hbs with ⟨-, rfl⟩ | rfl
    · rfl
    · simp
  have hheader := Store.compactRecords_dbHeader cfg s
  rw [hs] at hheader
  rw [Accounted, hlive]
  rcases hheader with hsame | hzero
  · rw [show s'.dbHeader = s.dbHeader from hsame]
    exact hacc
  · have hdata := h'.dataSize
    rw [show s'.dbHeader.freeSize = 0 from hzero, hdata]
    rcases hbs with ⟨hfree, rfl⟩ | rfl
    · have hdata₀ := h.dataSize
      rw [Accounted, hfree] at hacc
      omega
    · omega

/-- A record put behind the data takes no free space. -/
theorem accounted_appended {id : Int} {data : List UInt8} (h : Tiled s bs)
    (hsize : blockBytes data.length < 2147483648) (h' : Tiled (s.appendBlock id data) bs')
    (hperm : (liveBlocks bs').Perm (Block.record id data :: liveBlocks bs))
    (hacc : Accounted s bs) : Accounted (s.appendBlock id data) bs' := by
  have hdata' := h'.dataSize
  have hfits := h.fits
  have htotal : total (liveBlocks bs') = blockBytes data.length + total (liveBlocks bs) := by
    have hsum := (hperm.map Block.length).sum_eq
    simpa [total, Block.length, Block.record] using hsum
  have hdata := h.dataSize
  rw [Accounted, Store.appendBlock_dbHeader, htotal]
  rw [Store.appendBlock_dbHeader] at hdata'
  simp only [calculateBlockSize_eq hsize] at hdata' ⊢
  have hsum := i32_of_nonneg (x := s.dbHeader.dataSize + blockBytes data.length) (by omega)
    (by omega) (by omega)
  rw [Accounted] at hacc
  omega

/-- **`addBlock`** changes nothing, or adds the record; the books are kept unless it uses a free
block. -/
theorem addBlock_kept (cfg : Config) (space : Int) (h : Tiled s bs)
    (hc : CacheOk bs s.recordIdOffsets) {id : Int} {data : List UInt8}
    (hid : 0 < id ∧ id < 2147483648) (hnew : ∀ x ∈ bs, x.id ≠ id)
    (hroom : 40 + total (liveBlocks bs) + blockBytes data.length < 2147483648) :
    s.addBlock cfg space id data = (.error .recordStoreFull, s) ∨
      ∃ s' bs', s.addBlock cfg space id data = (.ok (), s') ∧ Tiled s' bs' ∧
        CacheOk bs' s'.recordIdOffsets ∧
        (liveBlocks bs').Perm (Block.record id data :: liveBlocks bs) ∧
        (∃ d f, s'.dbHeader = { s.dbHeader with dataSize := d, freeSize := f }) ∧
        (¬ s.TakesFree data.length → Accounted s bs → Accounted s' bs') := by
  by_cases hfull : s.Room cfg space data.length
  case neg => exact .inl (Store.addBlock_of_not_room h hfull)
  have hput := Store.addBlock_of_room id h hc hfull
  rcases Store.addBlock_tiled cfg space h hc hid hnew hroom with hthrow |
    ⟨s', bs', heq, htiled, hcache, hperm, hheader⟩
  · rw [hput] at hthrow
    cases hthrow
  refine .inr ⟨s', bs', heq, htiled, hcache, hperm, hheader, fun hfree hacc => ?_⟩
  have hsearch : (if s.dbHeader.freeSize ≥ calculateBlockSize data.length then
      s.getFreeBlock data.length else .ok none) = .ok none := by
    split
    · rename_i hsize
      rcases Store.getFreeBlock_cases h data.length with ⟨hnone, -⟩ | ⟨found, -, hfits⟩
      · exact hnone
      · exact absurd ⟨hsize, hfits⟩ hfree
    · rfl
  have hsize : blockBytes data.length < 2147483648 := by omega
  unfold Store.addBlock at heq
  simp only at heq
  rw [hsearch] at heq
  simp only at heq
  split at heq
  case isFalse =>
    obtain rfl := (Prod.mk.inj heq).2
    exact accounted_appended h hsize htiled hperm hacc
  case isTrue =>
    split at heq
    case isTrue => cases heq
    case isFalse =>
      obtain ⟨s₁, bs₁, hrun, hbs₁, htiled₁, -, -⟩ := Store.compactRecords_tiled cfg h hc
      rw [hrun] at heq
      obtain rfl := (Prod.mk.inj heq).2
      have hlive : liveBlocks bs₁ = liveBlocks bs := by
        rcases hbs₁ with ⟨-, rfl⟩ | rfl
        · rfl
        · simp
      exact accounted_appended htiled₁ hsize htiled (hlive ▸ hperm)
        (accounted_compacted hrun h htiled₁ hbs₁ hacc)

/-- A store after a call, as far as the header's counts go. -/
structure Progress (cfg : Config) (s : Store) (bs : List Block) (c : Call) (bs' : List Block) :
    Prop where
  kept : Kept (s.call cfg c).2 bs'
  counted : (s.call cfg c).1 ≠ .throws .recordStoreFull → Counted s bs →
    Counted (s.call cfg c).2 bs'
  accounted : ¬ s.Reuses c → Accounted s bs → Accounted (s.call cfg c).2 bs'
  nextId : s.IdLeft c → 0 < s.dbHeader.nextId → 0 < (s.call cfg c).2.dbHeader.nextId

theorem Progress.of_call {c : Call} {r : Reply} {t : Store} (hcall : s.call cfg c = (r, t))
    (kept : Kept t bs')
    (counted : r ≠ .throws .recordStoreFull → Counted s bs → Counted t bs')
    (accounted : ¬ s.Reuses c → Accounted s bs → Accounted t bs')
    (nextId : s.IdLeft c → 0 < s.dbHeader.nextId → 0 < t.dbHeader.nextId) :
    Progress cfg s bs c bs' := by
  constructor <;> rw [hcall] <;> assumption

/-- Only the cache has changed. -/
theorem Progress.of_cache (h : Kept s bs) {c : Call} {r : Reply} {cache : Option OffsetCache}
    (hcall : s.call cfg c = (r, s.withCache cache)) (hcache : CacheOk bs cache) :
    Progress cfg s bs c bs :=
  .of_call hcall ⟨Store.tiled_withCache h.tiled cache, hcache, h.nextId⟩ (fun _ => id) (fun _ => id)
    fun _ => id

/-- Looking up an id: there is no such record, or a block is found. -/
theorem Kept.getRecordHeader (h : Kept s bs) {id : Int} (hstale : ¬ s.HitsStaleBytes id) :
    (∃ cache, s.getRecordHeader id = (.error .invalidRecordID, s.withCache cache) ∧
      CacheOk bs cache) ∨
    ∃ l b r cache, bs = l ++ b :: r ∧ b.id = id ∧ 0 < id ∧
      s.getRecordHeader id = (.ok (40 + total l, b.header), s.withCache cache) ∧
      CacheOk bs cache := by
  rcases (by omega : 0 < id ∨ id ≤ 0) with hid | hid
  · have hnot : ¬ s.StaleHit bs id := by
      rintro ⟨hnone, c, bh, hc, hbh, heq⟩
      refine hstale ⟨fun x hx => ?_, bh, by rw [hc]; exact hbh, heq⟩
      rw [Store.blockHeaders_eq h.tiled] at hx
      obtain ⟨b, hb, rfl⟩ := List.mem_map.1 hx
      exact hnone b hb
    obtain ⟨cache, heq, hcache⟩ := Store.getRecordHeader_eq h.tiled h.cache hid hnot
    cases hloc : locate id DB_HEADER_SIZE bs with
    | none =>
      rw [Store.lookup, hloc] at heq
      exact .inl ⟨cache, heq, hcache⟩
    | some x =>
      obtain ⟨l, b, r, rfl, rfl, -, ho, hb⟩ := locate_eq_some (p := x.1) (h := x.2) hloc
      refine .inr ⟨l, b, r, cache, rfl, rfl, hid, ?_, hcache⟩
      rw [heq, Store.lookup, hloc, ← hb]
      simp only [Prod.mk.injEq, and_true]
      rw [show x = (x.1, x.2) from rfl, ho]
      rfl
  · exact .inl ⟨s.recordIdOffsets, Store.getRecordHeader_nonpos s hid, h.cache⟩

/-- An id that a lookup calls invalid is not live. -/
theorem Kept.ne_of_invalid (h : Kept s bs) {id : Int} (hid : 0 < id) {s' : Store}
    (heq : s.getRecordHeader id = (.error .invalidRecordID, s')) : ∀ b ∈ bs, b.id ≠ id := by
  intro b hb hbid
  obtain ⟨cache, heq', -⟩ := Store.getRecordHeader_eq h.tiled h.cache hid
    (fun hstale => hstale.1 b hb hbid)
  cases hloc : locate id DB_HEADER_SIZE bs with
  | none => exact locate_eq_none.1 hloc b hb hbid
  | some x =>
    rw [heq, Store.lookup, hloc] at heq'
    cases heq'

/-- Also stale bytes change only the cache. -/
theorem Kept.getRecordHeader_store (h : Kept s bs) (id : Int) :
    ∃ cache, (s.getRecordHeader id).2 = s.withCache cache ∧ CacheOk bs cache := by
  by_cases hstale : s.HitsStaleBytes id
  · obtain ⟨-, bh, hbh, heq⟩ := hstale
    obtain ⟨c, hc, hbh⟩ := Option.bind_eq_some_iff.1 hbh
    refine ⟨s.recordIdOffsets, ?_, h.cache⟩
    unfold Store.getRecordHeader
    split
    · rfl
    · rw [hc]
      simp only [hbh, if_pos heq]
      rw [Store.withCache, ← hc]
  · rcases h.getRecordHeader hstale with ⟨cache, heq, hcache⟩ | ⟨_, _, _, cache, -, -, -, heq, hcache⟩
    · exact ⟨cache, by rw [heq], hcache⟩
    · exact ⟨cache, by rw [heq], hcache⟩

/-! ## Every call -/

/-- The end of an update: the changed header is written. -/
theorem Kept.ofHeader {d : DbHeader} (o n : Nat) (htiled : Tiled s bs)
    (hcache : CacheOk bs s.recordIdOffsets) (hd : d.dataSize = s.dbHeader.dataSize)
    (hn : o + n ≤ 40) (hpre : s.dbHeader.bytes.take o = d.bytes.take o)
    (hpost : s.dbHeader.bytes.drop (o + n) = d.bytes.drop (o + n))
    (hnext : ∃ next : Nat, d.nextId = i32 next ∧ 1 ≤ next ∧ next ≤ 2147483648 ∧
      ∀ b ∈ bs, b.id < next) :
    Kept (({ s with dbHeader := d } : Store).writeDbHeader o n) bs where
  tiled := htiled.updateHeader d o n hd hn hpre hpost
  cache := by
    rw [Store.writeDbHeader_cache]
    exact hcache
  nextId := by
    rw [Store.writeDbHeader_dbHeader]
    exact hnext

theorem Accounted.ofHeader {d : DbHeader} (o n : Nat) (hacc : Accounted s bs)
    (hd : d.dataSize = s.dbHeader.dataSize) (hf : d.freeSize = s.dbHeader.freeSize) :
    Accounted (({ s with dbHeader := d } : Store).writeDbHeader o n) bs := by
  rw [Accounted, Store.writeDbHeader_dbHeader, hd, hf]
  exact hacc

/-- Blocks whose live ones are `rest` and one of the id `id` are below what is above these. -/
theorem Tiled.id_lt_of_perm {id : Int} {data : List UInt8} {rest : List Block} {next : Nat}
    (h : Tiled s bs) (hperm : (liveBlocks bs).Perm (Block.record id data :: rest))
    (hid : id < next) (hrest : ∀ b ∈ rest, b.id < next) : ∀ b ∈ bs, b.id < next := by
  intro b hb
  rcases h.ids b hb with hfree | hlive
  · omega
  · rcases List.mem_cons.1 (hperm.mem_iff.1 (mem_liveBlocks.2 ⟨hb, hlive.1⟩)) with rfl | hmem
    · exact hid
    · exact hrest b hmem

theorem Kept.addRecord {amb : Store.Ambient} {data : List UInt8} (h : Kept s bs)
    (hok : s.CallOk (.addRecord amb data)) : ∃ bs', Progress cfg s bs (.addRecord amb data) bs' := by
  obtain ⟨hpos, hfits⟩ := hok
  obtain ⟨next, hnext, h₁, h₂, hbelow⟩ := h.nextId
  have hlt : (next : Int) < 2147483648 := by
    by_contra hge
    obtain rfl : next = 2147483648 := by omega
    rw [Store.getNextRecordID, hnext] at hpos
    exact absurd hpos (by decide)
  have hid : s.getNextRecordID = next := by
    rw [Store.getNextRecordID, hnext, i32_of_range (by omega)]
  have hnew : ∀ b ∈ bs, b.id ≠ next := fun b hb => (hbelow b hb).ne
  have hzero : ∀ b ∈ bs, b.id ≠ 0 := fun b hb => by
    have := h.tiled.ids b hb
    omega
  rw [Store.Fits, Store.liveSize_of_new h.tiled hzero, DB_HEADER_SIZE] at hfits
  rcases addBlock_kept cfg amb.space h.tiled h.cache ⟨by omega, hlt⟩ hnew
    (show 40 + total (liveBlocks bs) + blockBytes data.length < 2147483648 by omega) with
    hthrow | ⟨s', bs', heq, htiled, hcache, hperm, ⟨d, f, hheader⟩, hacc⟩
  · refine ⟨bs, .of_call (r := .throws .recordStoreFull) (t := s) ?_ h (fun hne => absurd rfl hne)
      (fun _ => id) fun _ => id⟩
    rw [Store.call, Store.addRecord, hid, hthrow]
    rfl
  · have hbound := htiled.fits
    have hlive : (liveIds bs').length = (liveIds bs).length + 1 := by
      simpa [liveIds, liveBlocks] using hperm.length_eq
    have hle := length_liveIds_le bs'
    refine ⟨bs', .of_call (r := .id next) (t := ({ s' with dbHeader := { s'.dbHeader with
        nextId := i32 (next + 1), numLive := i32 (s'.dbHeader.numLive + 1)
        version := i32 (s'.dbHeader.version + 1), lastModified := amb.time } } :
        Store).writeDbHeader 12 20) ?_ ?_ ?_ ?_ ?_⟩
    · rw [Store.call, Store.addRecord, hid, heq]
      rfl
    · refine .ofHeader 12 20 htiled hcache rfl (by omega) (DbHeader.take_bytes rfl)
        (DbHeader.drop_bytes rfl rfl) ⟨next + 1, by simp only [Int.natCast_succ], by omega, by omega,
          htiled.id_lt_of_perm hperm (by omega) fun b hb => ?_⟩
      have := hbelow b (mem_liveBlocks.1 hb).1
      omega
    · intro _ hnum
      rw [Counted, Store.writeDbHeader_dbHeader, hheader]
      simp only [show s.dbHeader.numLive = _ from hnum]
      rw [i32_of_range (by omega)]
      omega
    · intro hfree hbooks
      exact (hacc hfree hbooks).ofHeader 12 20 rfl rfl
    · intro hleft _
      have hsmall : s.getNextRecordID < 2147483647 := hleft
      rw [hid] at hsmall
      rw [Store.writeDbHeader_dbHeader]
      simp only
      rw [i32_of_range (by omega)]
      omega

theorem Kept.deleteRecord {amb : Store.Ambient} {id : Int} (h : Kept s bs)
    (hstale : ¬ s.HitsStaleBytes id) : ∃ bs', Progress cfg s bs (.deleteRecord amb id) bs' := by
  rcases h.getRecordHeader hstale with ⟨cache, heq, hcache⟩ |
    ⟨l, b, r, cache, rfl, rfl, hpos, heq, hcache⟩
  · refine ⟨bs, .of_cache h (r := .throws .invalidRecordID) ?_ hcache⟩
    rw [Store.call, Store.deleteRecord, heq]
    rfl
  · have htiled₀ := Store.tiled_withCache h.tiled cache
    obtain ⟨f, hf, hlen, htiled, hcache', n, hheader⟩ :=
      Store.freeBlock_tiled htiled₀ hcache (show b.header.size = b.size from rfl)
    have hcount : (liveIds (l ++ b :: r)).length = (liveIds (l ++ f :: r)).length + 1 := by
      simp only [liveIds_append, liveIds_cons_of_pos hpos, liveIds_cons_of_nonpos
        (show f.id ≤ 0 by omega), List.length_append, List.length_cons]
      omega
    have hle := length_liveIds_le (l ++ b :: r)
    have hfits := h.tiled.fits
    set s₁ := (s.withCache cache).freeBlock (40 + total l) b.header with hs₁
    have hdb : s₁.dbHeader = { s.dbHeader with freeSize := n } := hheader
    refine ⟨l ++ f :: r, .of_call (r := .done) (t := ({ s₁.deleteRecordIndex b.id with
        dbHeader := { s₁.dbHeader with
          numLive := i32 (s₁.dbHeader.numLive - 1)
          version := i32 (s₁.dbHeader.version + 1), lastModified := amb.time } } :
        Store).writeDbHeader 16 16) ?_ ?_ ?_ ?_ ?_⟩
    · simp only [Store.call, Store.deleteRecord, heq, Store.reply]
      rfl
    · obtain ⟨next, hnext, h₁, h₂, hbelow⟩ := h.nextId
      refine .ofHeader 16 16 (s := s₁.deleteRecordIndex b.id)
        ⟨htiled.file, htiled.dataSize, htiled.fits, htiled.ids, htiled.nodup⟩ ?_ rfl (by omega)
        rfl rfl ⟨next, by rw [hdb]; exact hnext, h₁, h₂, ?_⟩
      · intro c hc
        obtain ⟨c, hc', rfl⟩ := Option.map_eq_some_iff.1 hc
        obtain ⟨hlive', hlast⟩ := hcache' c hc'
        refine ⟨fun k o h' hK hk hloc => ?_, hlast⟩
        rw [OffsetCache.elementAt_removeElementAt]
        split_ifs
        · exact .inl rfl
        · exact hlive' k o h' hK hk hloc
      · intro x hx
        rcases List.mem_append.1 hx with hx | hx
        · exact hbelow x (by simp [hx])
        · rcases List.mem_cons.1 hx with rfl | hx
          · omega
          · exact hbelow x (by simp [hx])
    · intro _ hnum
      rw [Counted, Store.writeDbHeader_dbHeader, hdb]
      simp only [show s.dbHeader.numLive = _ from hnum]
      rw [i32_of_range (by omega)]
      omega
    · intro _ hbooks
      have hbooks' : Accounted s₁ (l ++ f :: r) := accounted_freed htiled₀ hpos hf hbooks
      exact hbooks'.ofHeader (s := s₁.deleteRecordIndex b.id) 16 16 rfl rfl
    · intro _ hnext
      rw [Store.writeDbHeader_dbHeader, hdb]
      exact hnext

theorem Kept.setRecord {amb : Store.Ambient} {id : Int} {data : List UInt8} (h : Kept s bs)
    (hok : s.CallOk (.setRecord amb id data)) :
    ∃ bs', Progress cfg s bs (.setRecord amb id data) bs' := by
  obtain ⟨hstale, hroom⟩ := hok
  rcases h.getRecordHeader hstale with ⟨cache, heq, hcache⟩ |
    ⟨l, b, r, cache, rfl, rfl, hpos, heq, hcache⟩
  · refine ⟨bs, .of_cache h (r := .throws .invalidRecordID) ?_ hcache⟩
    rw [Store.call, Store.setRecord, heq]
    rfl
  obtain ⟨hl, hr⟩ := h.tiled.unique hpos
  obtain ⟨next, hnext, h₁, h₂, hbelow⟩ := h.nextId
  have hint : b.id < 2147483648 := by
    have := h.tiled.ids b (by simp)
    omega
  have htiled := Store.tiled_withCache h.tiled cache
  have hfits : 40 + (total (liveBlocks (l ++ r)) : Int) + blockBytes data.length < 2147483648 := by
    have := hroom ⟨b.header, by simp [Store.blockHeaders_eq h.tiled], rfl⟩
    rwa [Store.Fits, Store.liveSize_of_live h.tiled hpos, DB_HEADER_SIZE] at this
  have hnew : calculateBlockSize data.length = blockBytes data.length :=
    calculateBlockSize_eq (by omega)
  have hold : calculateBlockSize b.header.size = b.length :=
    calculateBlockSize_eq (n := b.size) (by
      have := h.tiled.fits
      simp only [total_append, total_cons] at this
      unfold Block.length at this
      omega)
  have hother : ∀ x ∈ l ++ r, x.id < next := by
    intro x hx
    rcases List.mem_append.1 hx with hx | hx
    · exact hbelow x (by simp [hx])
    · exact hbelow x (by simp [hx])
  -- once the block is written, only the header is left
  have hdone : ∀ (s' : Store) (bs' : List Block), (if (blockBytes data.length : Int) ≤ b.length
        then ((.ok (), (s.withCache cache).splitBlock (40 + total l) b.header data) :
          Except RmsError Unit × Store)
        else ((s.withCache cache).freeBlock (40 + total l) b.header).addBlock cfg amb.space b.id
          data) = (.ok (), s') →
      Tiled s' bs' → CacheOk bs' s'.recordIdOffsets →
      (liveBlocks bs').Perm (Block.record b.id data :: liveBlocks (l ++ r)) →
      (∃ d f, s'.dbHeader = { s.dbHeader with dataSize := d, freeSize := f }) →
      (¬ s.Reuses (.setRecord amb b.id data) → Accounted s (l ++ b :: r) → Accounted s' bs') →
      Progress cfg s (l ++ b :: r) (.setRecord amb b.id data) bs' := by
    rintro s' bs' hput htiled' hcache' hperm ⟨d, f, hheader⟩ hacc
    have hlive : (liveIds bs').length = (liveIds (l ++ b :: r)).length := by
      refine liveIds_length_eq ?_
      rw [hperm.length_eq, liveBlocks_append, liveBlocks_append, liveBlocks_cons_of_pos hpos]
      simp only [List.length_cons, List.length_append]
      omega
    refine .of_call (r := .done) (t := ({ s' with dbHeader := { s'.dbHeader with
        version := i32 (s'.dbHeader.version + 1), lastModified := amb.time } } :
        Store).writeDbHeader 20 12) ?_ ?_ ?_ ?_ ?_
    · rw [Store.call, Store.setRecord, heq]
      simp only [hnew, hold, hput]
      rfl
    · refine .ofHeader 20 12 htiled' hcache' rfl (by omega) rfl rfl
        ⟨next, by rw [hheader]; exact hnext, h₁, h₂,
          htiled'.id_lt_of_perm hperm (hbelow b (by simp)) fun x hx => ?_⟩
      exact hother x (mem_liveBlocks.1 hx).1
    · intro _ hnum
      rw [Counted, Store.writeDbHeader_dbHeader, hheader, hlive]
      exact hnum
    · intro hfree hbooks
      exact (hacc hfree hbooks).ofHeader 20 12 rfl rfl
    · intro _ hnext
      rw [Store.writeDbHeader_dbHeader, hheader]
      exact hnext
  by_cases hshort : (blockBytes data.length : Int) ≤ b.length
  · obtain ⟨fr, hfr, htiled', hcache', n, hheader⟩ :=
      Store.splitBlock_tiled htiled hcache ⟨hpos, hint⟩ hl hr
        (show blockBytes data.length ≤ b.length by omega)
    have hperm := liveBlocks_record_perm l r fr data hpos hfr
    exact ⟨_, hdone _ _ (by rw [if_pos hshort]; rfl) htiled' hcache' hperm ⟨_, n, hheader⟩
      fun _ hbooks => accounted_split htiled hpos (by omega) hperm hbooks⟩
  · obtain ⟨fb, hfb, hlen, htiled', hcache', n, hheader⟩ :=
      Store.freeBlock_tiled htiled hcache (show b.header.size = b.size from rfl)
    have hlive : liveBlocks (l ++ fb :: r) = liveBlocks (l ++ r) := by
      rw [liveBlocks_append, liveBlocks_cons_of_nonpos (by omega), ← liveBlocks_append]
    have hmem : ∀ x ∈ l ++ fb :: r, x = fb ∨ x ∈ l ∨ x ∈ r := by
      intro x hx
      rcases List.mem_append.1 hx with hx | hx
      · exact .inr (.inl hx)
      · exact (List.mem_cons.1 hx).imp_right .inr
    have hfresh : ∀ x ∈ l ++ fb :: r, x.id ≠ b.id := by
      intro x hx
      rcases hmem x hx with rfl | hx | hx
      · omega
      · exact hl x hx
      · exact hr x hx
    rcases addBlock_kept cfg amb.space htiled' hcache' ⟨hpos, hint⟩ hfresh
      (show 40 + total (liveBlocks (l ++ fb :: r)) + blockBytes data.length < 2147483648 by
        rw [hlive]
        omega) with hthrow | ⟨s', bs', hput, htiled'', hcache'', hperm, ⟨d, f, hheader'⟩, hacc⟩
    · -- the block is given up, and nothing takes its place
      have hkept : Kept ((s.withCache cache).freeBlock (40 + total l) b.header)
          (l ++ fb :: r) := by
        refine ⟨htiled', hcache', next, by rw [hheader]; exact hnext, h₁, h₂, fun x hx => ?_⟩
        rcases hmem x hx with rfl | hx | hx
        · omega
        · exact hbelow x (by simp [hx])
        · exact hbelow x (by simp [hx])
      have hcall : s.call cfg (.setRecord amb b.id data) = (.throws .recordStoreFull,
          (s.withCache cache).freeBlock (40 + total l) b.header) := by
        rw [Store.call, Store.setRecord, heq]
        simp only [hnew, hold, if_neg hshort, hthrow]
        rfl
      refine ⟨l ++ fb :: r, .of_call hcall hkept (fun hne => absurd rfl hne) ?_ ?_⟩
      · exact fun _ hbooks => accounted_freed htiled hpos hfb hbooks
      · intro _ hpositive
        rw [hheader]
        exact hpositive
    · refine ⟨bs', hdone s' bs' (by rw [if_neg hshort, hput]) htiled'' hcache'' (hlive ▸ hperm)
        ⟨d, f, by rw [hheader', hheader]; rfl⟩ fun hfree hbooks =>
          hacc (fun htakes => hfree ?_) (accounted_freed htiled hpos hfb hbooks)⟩
      refine ⟨b.header, by simp [Store.blockHeaders_eq h.tiled], hpos, rfl, by omega, ?_⟩
      obtain ⟨hsize, hfit⟩ := htakes
      rw [Store.freeBlock_dbHeader] at hsize
      exact ⟨hsize, (Store.fits_freeBlock htiled hpos hlen htiled' (by omega)).1 hfit⟩

theorem Kept.reopen (cfg : Config) (h : Kept s bs) : ∃ bs', Progress cfg s bs .reopen bs' := by
  obtain ⟨s', bs', heq, hbs, htiled, hcache, d, f, hheader⟩ :=
    Store.compactRecords_tiled cfg h.tiled h.cache
  obtain ⟨junk, hfile⟩ := htiled.file
  obtain ⟨next, hnext, h₁, h₂, hbelow⟩ := h.nextId
  have hlive : liveBlocks bs' = liveBlocks bs := by
    rcases hbs with ⟨-, rfl⟩ | rfl
    · rfl
    · simp
  have hlen : (liveIds bs').length = (liveIds bs).length := liveIds_length_eq (by rw [hlive])
  have hle := length_liveIds_le bs'
  have hfits := htiled.fits
  have hread : DbHeader.read s'.file = some s'.dbHeader.toInts := by
    rw [hfile]
    exact DbHeader.read_bytes ..
  have hcall : s.call cfg .reopen =
      (.done, { dbHeader := s'.dbHeader.toInts, file := s'.file }) := by
    simp only [Store.call, Store.reopen, heq, hread]
    rfl
  refine ⟨bs', .of_call hcall ⟨⟨⟨junk, ?_⟩, ?_, hfits, htiled.ids, htiled.nodup⟩, ?_,
    next, ?_, h₁, h₂, ?_⟩ ?_ ?_ ?_⟩
  · rw [DbHeader.bytes_toInts]
    exact hfile
  · show i32 s'.dbHeader.dataSize = total bs'
    rw [htiled.dataSize, i32_of_range (by omega)]
  · intro c hc
    cases hc
  · show i32 s'.dbHeader.nextId = i32 next
    rw [hheader]
    simp only [hnext, i32, Int.bmod_bmod]
  · intro b hb
    rcases hbs with ⟨-, rfl⟩ | rfl
    · exact hbelow b hb
    · exact hbelow b (mem_liveBlocks.1 hb).1
  · intro _ hnum
    show i32 s'.dbHeader.numLive = (liveIds bs').length
    rw [hheader, hlen]
    simp only [show s.dbHeader.numLive = _ from hnum]
    rw [i32_of_range (by omega)]
  · intro _ hbooks
    have hbooks' : s'.dbHeader.freeSize = s'.dbHeader.dataSize - total (liveBlocks bs') :=
      accounted_compacted heq h.tiled htiled hbs hbooks
    have hlive_le := total_liveBlocks_le bs'
    have hdata := htiled.dataSize
    show i32 s'.dbHeader.freeSize = i32 s'.dbHeader.dataSize - total (liveBlocks bs')
    rw [i32_of_range (by omega), i32_of_range (by omega)]
    exact hbooks'
  · intro _ hpositive
    show 0 < i32 s'.dbHeader.nextId
    rw [hheader]
    simp only [hnext] at hpositive ⊢
    simpa only [i32, Int.bmod_bmod] using hpositive

/-- **The step lemma.** -/
theorem Kept.call {c : Call} (cfg : Config) (h : Kept s bs) (hok : s.UpdateOk c) :
    ∃ bs', Progress cfg s bs c bs' := by
  cases c with
  | addRecord => exact h.addRecord hok
  | setRecord => exact h.setRecord hok
  | deleteRecord => exact h.deleteRecord hok
  | getRecord id =>
    obtain ⟨cache, hstore, hcache⟩ := h.getRecordHeader_store id
    refine ⟨bs, .of_cache h (r := (s.call cfg (.getRecord id)).1) ?_ hcache⟩
    refine Prod.ext rfl ?_
    rw [← hstore, Store.call, Store.reply, Store.getRecord]
    dsimp only
    split
    · rename_i heq
      rw [heq]
    · rename_i heq
      split <;> rw [heq]
  | getRecordSize id =>
    obtain ⟨cache, hstore, hcache⟩ := h.getRecordHeader_store id
    refine ⟨bs, .of_cache h (r := (s.call cfg (.getRecordSize id)).1) ?_ hcache⟩
    refine Prod.ext rfl ?_
    rw [← hstore, Store.call, Store.reply, Store.getRecordSize]
    dsimp only
    split <;> rename_i heq <;> rw [heq]
  | getRecordIDs => exact ⟨bs, .of_cache h (r := .ids s.getRecordIDs) rfl h.cache⟩
  | getNumRecords => exact ⟨bs, .of_cache h (r := .size s.getNumRecords) rfl h.cache⟩
  | reopen => exact h.reopen cfg

theorem Kept.create (time : Int × Int) : Kept (Store.create time) [] where
  tiled := ⟨⟨[], by simp [Store.create]⟩, rfl, by decide, by simp, by simp [liveIds]⟩
  cache := fun c hc => by cases hc
  nextId := ⟨1, rfl, by omega, by omega, by simp⟩

/-- **The run lemma.** -/
theorem kept_of_run {time : Int × Int} {ls : List (Call × Reply)}
    (hrun : Lts.Run (Lts.Guarded (Store.Step cfg) fun s l => s.UpdateOk l.1)
      (Store.create time) ls s) : ∃ bs, Kept s bs := by
  refine hrun.invariant (I := fun s => ∃ bs, Kept s bs) ?_ ⟨[], .create time⟩
  rintro s ⟨c, r⟩ s' ⟨bs, h⟩ ⟨hok, hstep⟩
  have hcall : s.call cfg c = (r, s') := hstep
  obtain ⟨bs', h'⟩ := h.call cfg hok
  have hkept := h'.kept
  rw [hcall] at hkept
  exact ⟨bs', hkept⟩

/-! ## The chain of blocks -/

/-- The blocks `bs` tile the file from `DB_HEADER_SIZE` up to `getSize()`, their ids are new or
below the next id, and the header counts the live ones. -/
structure Tiling (s : Store) (bs : List Block) : Prop where
  file : ∃ pre post, s.file = pre ++ (chain bs ++ post) ∧ (pre.length : Int) = DB_HEADER_SIZE
  getSize : s.getSize = DB_HEADER_SIZE + total bs
  sizes : ∀ b ∈ bs, calculateBlockSize b.header.size = b.length ∧ 0 < b.length ∧
    BLOCK_HEADER_SIZE ∣ (b.length : Int)
  ids : ∀ b ∈ bs, b.id = -1 ∨ 0 < b.id ∧ b.id < s.dbHeader.nextId
  nodup : (liveIds bs).Nodup
  numLive : s.getNumRecords = (liveIds bs).length

theorem Kept.tiling (h : Kept s bs) (hnum : Counted s bs) (hnext : 0 < s.dbHeader.nextId) :
    Tiling s bs where
  file := h.tiled.pieceAt.file
  getSize := h.tiled.getSize
  sizes := by
    intro b hb
    obtain ⟨l, r, rfl⟩ := List.append_of_mem hb
    have hfits := h.tiled.fits
    have hpos := length_pos b
    rw [total_append_cons] at hfits
    refine ⟨Block.blockSize (by omega),
      by omega, ?_⟩
    simp only [BLOCK_HEADER_SIZE]
    unfold Block.length blockBytes
    omega
  ids := by
    obtain ⟨next, heq, h₁, h₂, hbelow⟩ := h.nextId
    intro b hb
    have hlt : (next : Int) < 2147483648 := by
      by_contra hge
      obtain rfl : next = 2147483648 := by omega
      rw [heq] at hnext
      exact absurd hnext (by decide)
    refine (h.tiled.ids b hb).imp_right fun hlive => ⟨hlive.1, ?_⟩
    rw [heq, i32_of_range (by omega)]
    exact hbelow b hb
  nodup := h.tiled.nodup
  numLive := hnum

/-- A scan meets the blocks of a tiling. -/
theorem Tiling.blockHeaders (h : Tiling s bs) (hnext : s.dbHeader.nextId < 2147483648) :
    s.blockHeaders = bs.map Block.header := by
  obtain ⟨pre, post, hfile, hpre⟩ := h.file
  have hsize : s.getSize < 2147483648 := (i32_range _).2
  have hlen := length_le_total bs
  rw [h.getSize] at hsize
  rw [Store.blockHeaders, h.getSize]
  refine Store.blockHeadersLoop_eq ⟨⟨pre, post, hfile, hpre⟩, hsize, fun b hb => ?_⟩ ?_
  · exact (h.ids b hb).imp_right fun hlive => ⟨hlive.1, by omega⟩
  · rw [Store.fuel, hfile]
    simp only [List.length_append, chain_length]
    omega

/-- **Block tiling.** Every run whose updates hit no stale bytes, overflow no `int` and do not use
up the ids keeps the chain of blocks. -/
theorem blocks_tile {cfg : Config} {time : Int × Int} {ls : List (Call × Reply)}
    (hrun : Lts.Run (Lts.Guarded (Store.Step cfg) fun s l => s.UpdateOk l.1 ∧
      s.IdLeft l.1 ∧ l.2 ≠ .throws .recordStoreFull) (Store.create time) ls s) :
    ∃ bs, Tiling s bs := by
  obtain ⟨bs, h, hnum, hnext⟩ : ∃ bs, Kept s bs ∧ Counted s bs ∧ 0 < s.dbHeader.nextId := by
    refine hrun.invariant (I := fun s => ∃ bs, Kept s bs ∧ Counted s bs ∧ 0 < s.dbHeader.nextId) ?_
      ⟨[], .create time, rfl, by simp [Store.create]⟩
    rintro s ⟨c, r⟩ s' ⟨bs, h, hnum, hnext⟩ ⟨⟨hok, hleft, hfull⟩, hstep⟩
    have hcall : s.call cfg c = (r, s') := hstep
    obtain ⟨bs', h'⟩ := h.call cfg hok
    have hkept := h'.kept
    have hcounted := h'.counted (by rwa [hcall]) hnum
    have hpos := h'.nextId hleft hnext
    rw [hcall] at hkept hcounted hpos
    exact ⟨bs', hkept, hcounted, hpos⟩
  exact ⟨bs, h.tiling hnum hnext⟩

/-- A run with a free block that is split, a record that grows, and a reopening. -/
theorem blocks_tile_mixed : ∃ (s : Store) (bs : List Block), s.getNumRecords = 2 ∧ Tiling s bs := by
  let cfg : Config := { storageSuiteLimit := 200, limit_int := by decide }
  obtain ⟨s, hrun, hnum⟩ := Lts.Run.exists_of_exec (Store.next cfg)
    (fun s l => decide (s.UpdateOk l.1 ∧ s.IdLeft l.1 ∧ l.2 ≠ .throws .recordStoreFull))
    (fun s => s.getNumRecords = 2) (Store.create (0, 0))
    [(.addRecord ⟨1000, 1, 2⟩ [1, 2, 3, 4, 5, 6, 7, 8, 9], .id 1),
      (.addRecord ⟨1000, 1, 2⟩ [], .id 2), (.deleteRecord ⟨1000, 1, 3⟩ 1, .done),
      (.getRecord 1, .throws .invalidRecordID), (.addRecord ⟨1000, 1, 4⟩ [7], .id 3),
      (.setRecord ⟨1000, 1, 5⟩ 3 [9, 8, 7, 6, 5, 4, 3, 2, 1, 0, 1, 2, 3, 4, 5, 6, 7], .done),
      (.reopen, .done)]
    (by decide +kernel)
  obtain ⟨bs, h⟩ := blocks_tile
    (hrun.mono fun _ _ _ h => ⟨of_decide_eq_true h.1, Store.step_of_next h.2⟩)
  exact ⟨s, bs, hnum, h⟩

/-- **Stale bytes.** Record 3 spells a header for the id 100; deleting the record 100, which has
never been there, lowers the count of the live records. -/
theorem deleteRecord_stale : ¬ ∀ (cfg : Config) (time : Int × Int) (ls : List (Call × Reply))
    (s : Store), Lts.Run (Lts.Guarded (Store.Step cfg) fun _ l =>
      l.2 ≠ .throws .recordStoreFull ∧ l.2 ≠ .throws .io) (Store.create time) ls s →
    ∃ bs, Tiling s bs := by
  intro h
  let cfg : Config := { storageSuiteLimit := 104, limit_int := by decide }
  obtain ⟨s, hrun, hnext, hnum⟩ := Lts.Run.exists_of_exec (Store.next cfg)
    (fun _ l => decide (l.2 ≠ .throws .recordStoreFull ∧ l.2 ≠ .throws .io))
    (fun s => s.dbHeader.nextId < 2147483648 ∧
      s.getNumRecords ≠ (s.blockHeaders.filter fun h => decide (0 < h.id)).length)
    (Store.create (0, 0))
    [(.addRecord ⟨1000, 1, 2⟩ [1, 2, 3, 4, 5, 6, 7, 8, 9, 10, 11, 12, 13, 14, 15, 16], .id 1),
      (.addRecord ⟨1000, 1, 2⟩ [7, 7], .id 2),
      (.deleteRecord ⟨1000, 1, 2⟩ 100, .throws .invalidRecordID),
      (.deleteRecord ⟨1000, 1, 3⟩ 1, .done),
      (.addRecord ⟨1000, 1, 4⟩ [0, 0, 0, 100, 0, 0, 0, 5, 65, 66, 67, 68, 69, 70, 71, 72, 73, 74],
        .id 3),
      (.deleteRecord ⟨1000, 1, 5⟩ 100, .done)]
    (by decide +kernel)
  obtain ⟨bs, htiling⟩ := h cfg (0, 0) _ s
    (hrun.mono fun _ _ _ h => ⟨of_decide_eq_true h.1, Store.step_of_next h.2⟩)
  refine hnum ?_
  rw [htiling.numLive, htiling.blockHeaders hnext, List.filter_map, List.length_map, liveIds,
    List.length_map]
  rfl

/-! ## The free space -/

/-- **Free-space accounting.** Every run whose updates write into no free block (and hit no stale
bytes and overflow no `int`) keeps the free space of the header equal to the sizes of the free
blocks. -/
theorem freeSize_accounted {cfg : Config} {time : Int × Int} {ls : List (Call × Reply)}
    (hrun : Lts.Run (Lts.Guarded (Store.Step cfg) fun s l => s.UpdateOk l.1 ∧ ¬ s.Reuses l.1)
      (Store.create time) ls s) : s.dbHeader.freeSize = s.freeBytes := by
  obtain ⟨bs, h, hacc⟩ : ∃ bs, Kept s bs ∧ Accounted s bs := by
    refine hrun.invariant (I := fun s => ∃ bs, Kept s bs ∧ Accounted s bs) ?_
      ⟨[], .create time, rfl⟩
    rintro s ⟨c, r⟩ s' ⟨bs, h, hacc⟩ ⟨⟨hok, hfree⟩, hstep⟩
    have hcall : s.call cfg c = (r, s') := hstep
    obtain ⟨bs', h'⟩ := h.call cfg hok
    have hkept := h'.kept
    have hacc' := h'.accounted hfree hacc
    rw [hcall] at hkept hacc'
    exact ⟨bs', hkept, hacc'⟩
  exact h.tiled.accounted_iff.1 hacc

/-- A record that shrinks, one behind the data, a block given up and a compaction on closing; then a
record shrinks again. -/
theorem freeSize_accounted_mixed : ∃ s : Store,
    s.freeBytes = 16 ∧ s.dbHeader.freeSize = s.freeBytes := by
  let cfg : Config := { storageSuiteLimit := 300, limit_int := by decide }
  obtain ⟨s, hrun, hsum⟩ := Lts.Run.exists_of_exec (Store.next cfg)
    (fun s l => decide (s.UpdateOk l.1 ∧ ¬ s.Reuses l.1)) (fun s => s.freeBytes = 16)
    (Store.create (0, 0))
    [(.addRecord ⟨1000, 1, 2⟩ [1, 2, 3, 4, 5, 6, 7, 8, 9, 10, 11, 12, 13, 14, 15, 16, 17], .id 1),
      (.setRecord ⟨1000, 1, 3⟩ 1 [1, 2, 3], .done),
      (.addRecord ⟨1000, 1, 4⟩ [1, 2, 3, 4, 5, 6, 7, 8, 9, 10, 11, 12, 13, 14, 15, 16], .id 2),
      (.deleteRecord ⟨1000, 1, 5⟩ 1, .done), (.reopen, .done),
      (.setRecord ⟨1000, 1, 6⟩ 2 [], .done)]
    (by decide +kernel)
  exact ⟨s, hsum, freeSize_accounted
    (hrun.mono fun _ _ _ h => ⟨of_decide_eq_true h.1, Store.step_of_next h.2⟩)⟩

/-- A block of 24 bytes is freed and used again for one byte: the eight bytes behind the new block
are added to the free space, the sixteen that are used are not taken from it. -/
theorem freeSize_drifts : ¬ ∀ (cfg : Config) (time : Int × Int) (ls : List (Call × Reply))
    (s : Store), Lts.Run (Lts.Guarded (Store.Step cfg) fun _ l => l.2 ≠ .throws .io)
      (Store.create time) ls s → s.dbHeader.freeSize = s.freeBytes := by
  intro h
  let cfg : Config := { storageSuiteLimit := 200, limit_int := by decide }
  obtain ⟨s, hrun, hsum⟩ := Lts.Run.exists_of_exec (Store.next cfg)
    (fun _ l => decide (l.2 ≠ .throws .io))
    (fun s => s.dbHeader.freeSize = 32 ∧ s.freeBytes = 8) (Store.create (0, 0))
    [(.addRecord ⟨1000, 1, 2⟩ [1, 2, 3, 4, 5, 6, 7, 8, 9, 10, 11, 12, 13, 14, 15, 16], .id 1),
      (.deleteRecord ⟨1000, 1, 3⟩ 1, .done), (.addRecord ⟨1000, 1, 4⟩ [7], .id 2)]
    (by decide +kernel)
  have heq := h cfg (0, 0) _ s
    (hrun.mono fun _ _ _ h => ⟨of_decide_eq_true h.1, Store.step_of_next h.2⟩)
  rw [hsum.1, hsum.2] at heq
  cases heq

end FroggyKVM.Rms
