/-
# FroggyKVM.Rms.Limit — the storage limit, and what it owes to the count of the free bytes.

`addBlock` asks whether the room behind the data and the free bytes of the header are together
enough; when they are, it compacts and appends without asking again.  So the limit holds as far as
that sum is right (`SumRight`), and not beyond: after a free block has been used again the header
counts too many free bytes.
-/
import FroggyKVM.Rms.InPlace

namespace FroggyKVM.Rms

namespace Store

/-! ## The place of a new block -/

/-- `addBlock` up to the place where it appends: the store it appends to. -/
def beforeAppend (cfg : Config) (space : Int) (data : List UInt8) (s : Store) : Option Store :=
  let blockSize := calculateBlockSize data.length
  let freeBlocksSize := s.dbHeader.freeSize
  match (if freeBlocksSize ≥ blockSize then s.getFreeBlock data.length else .ok none) with
  | .ok none =>
    let spaceAvailable := s.getSizeAvailable cfg space
    if spaceAvailable < blockSize then
      if i32 (spaceAvailable + freeBlocksSize) < blockSize then none
      else
        match s.compactRecords cfg with
        | (.ok (), s) => some s
        | (.error _, _) => none
    else some s
  | _ => none

/-- What follows is `appendBlock`. -/
theorem addBlock_of_beforeAppend {cfg : Config} {space : Int} {data : List UInt8} {s s₁ : Store}
    (id : Int) (h : s.beforeAppend cfg space data = some s₁) :
    s.addBlock cfg space id data = (.ok (), s₁.appendBlock id data) := by
  unfold beforeAppend at h
  unfold addBlock
  dsimp only at h ⊢
  split at h
  case h_1 hnone =>
    rw [hnone]
    dsimp only
    split at h
    · rename_i hshort
      rw [if_pos hshort]
      split at h
      · cases h
      · rename_i hsum
        rw [if_neg hsum]
        split at h
        · rename_i hcompact
          cases h
          rw [hcompact]
        · cases h
    · rename_i henough
      cases h
      rw [if_neg henough]
  case h_2 => cases h

/-- An update that asks for a block, and the store it asks on: `setRecord` has given up a block that
is too small before it asks. -/
def asking (s : Store) : Call → Option (Ambient × List UInt8 × Store)
  | .addRecord amb data => some (amb, data, s)
  | .setRecord amb id data =>
    match s.getRecordHeader id with
    | (.ok (blockOffset, header), s) =>
      if calculateBlockSize data.length ≤ calculateBlockSize header.size then none
      else some (amb, data, s.freeBlock blockOffset header)
    | (.error _, _) => none
  | _ => none

/-- The data end below the limit. -/
def BelowLimit (cfg : Config) (s : Store) : Prop :=
  s.dbHeader.dataSize = 0 ∨
    s.dbHeader.dataSize ≤ cfg.storageSuiteLimit - BLOCK_HEADER_SIZE - DB_HEADER_SIZE

/-- **The storage limit** holds of a call: it appends only where there is room, ends below the
limit, and says that the store is full only when the free blocks would not help. -/
structure LimitHolds (cfg : Config) (s : Store) (c : Call) : Prop where
  append : ∀ amb data s₀ s₁, s.asking c = some (amb, data, s₀) →
    s₀.beforeAppend cfg amb.space data = some s₁ →
      calculateBlockSize data.length ≤ s₁.getSizeAvailable cfg amb.space
  full : ∀ amb data s₀, s.asking c = some (amb, data, s₀) →
    (s.call cfg c).1 = .throws .recordStoreFull →
      s₀.getSizeAvailable cfg amb.space + s₀.freeBytes < calculateBlockSize data.length
  size : (s.call cfg c).2.BelowLimit cfg

/-! ## The condition -/

/-- Where neither a free block nor the room behind the data is enough, the sum of that room and the
free bytes in the header is enough exactly when it is with `freeBytes`. -/
def SumRight (cfg : Config) (space numBytes freeBytes : Int) (s : Store) : Prop :=
  ¬ s.TakesFree numBytes → s.getSizeAvailable cfg space < calculateBlockSize numBytes →
    (i32 (s.getSizeAvailable cfg space + s.dbHeader.freeSize) < calculateBlockSize numBytes ↔
      s.getSizeAvailable cfg space + freeBytes < calculateBlockSize numBytes)

instance (cfg : Config) (space numBytes freeBytes : Int) (s : Store) :
    Decidable (s.SumRight cfg space numBytes freeBytes) :=
  inferInstanceAs (Decidable (_ → _ → _))

/-- The sum is right with the sizes of the free blocks; for `setRecord` the block given up is one of
them. -/
def CheckRight (cfg : Config) (s : Store) : Call → Prop
  | .addRecord amb data => s.SumRight cfg amb.space data.length s.freeBytes
  | .setRecord amb id data => ∀ h ∈ s.blockHeaders, 0 < id → h.id = id →
      calculateBlockSize h.size < calculateBlockSize data.length →
      (s.withFreed (calculateBlockSize h.size)).SumRight cfg amb.space data.length
        (s.freeBytes + calculateBlockSize h.size)
  | _ => True

instance (cfg : Config) (s : Store) : (c : Call) → Decidable (s.CheckRight cfg c)
  | .addRecord .. => inferInstanceAs (Decidable (SumRight ..))
  | .setRecord .. => inferInstanceAs (Decidable (∀ _ ∈ _, _))
  | .deleteRecord .. | .getRecord _ | .getRecordSize _ | .getRecordIDs | .getNumRecords
  | .reopen => inferInstanceAs (Decidable True)

/-- The update hits no stale bytes, an id is left, the size of the block is an `int`, and the file
system has room for the limit. -/
def AskOk (cfg : Config) (s : Store) : Call → Prop
  | .addRecord amb data => 0 < s.getNextRecordID ∧ blockBytes data.length < 2147483648 ∧
      cfg.storageSuiteLimit ≤ amb.space ∧ amb.space < 2147483648
  | .setRecord amb id data => ¬ s.HitsStaleBytes id ∧ blockBytes data.length < 2147483648 ∧
      cfg.storageSuiteLimit ≤ amb.space ∧ amb.space < 2147483648
  | .deleteRecord _ id => ¬ s.HitsStaleBytes id
  | _ => True

instance (cfg : Config) (s : Store) : (c : Call) → Decidable (s.AskOk cfg c)
  | .addRecord .. | .setRecord .. => inferInstanceAs (Decidable (_ ∧ _))
  | .deleteRecord .. => inferInstanceAs (Decidable (¬ _))
  | .getRecord _ | .getRecordSize _ | .getRecordIDs | .getNumRecords | .reopen =>
    inferInstanceAs (Decidable True)

/-! ## Asking for a block -/

variable {cfg : Config} {space : Int} {data : List UInt8} {s : Store} {bs : List Block}

theorem BelowLimit.total_le (h : Tiled s bs) (hbelow : s.BelowLimit cfg) :
    total bs ≤ cfg.storageSuiteLimit := by
  rw [BelowLimit, h.dataSize] at hbelow
  simp only [BLOCK_HEADER_SIZE, DB_HEADER_SIZE] at hbelow
  omega

theorem getSizeAvailable_eq (h : Tiled s bs) (hle : total bs ≤ cfg.storageSuiteLimit)
    (hspace : cfg.storageSuiteLimit ≤ space ∧ space < 2147483648) :
    s.getSizeAvailable cfg space = max 0 ((cfg.storageSuiteLimit : Int) - total bs - 48) := by
  have hlimit := cfg.limit_int
  have hfits := h.fits
  have hfile : i32 (space - BLOCK_HEADER_SIZE - DB_HEADER_SIZE) = space - 48 := by
    simp only [BLOCK_HEADER_SIZE, DB_HEADER_SIZE]
    rw [i32_of_range (by omega)]
    lia
  have hdata : i32 ((cfg.storageSuiteLimit : Int) - s.dbHeader.dataSize - BLOCK_HEADER_SIZE -
      DB_HEADER_SIZE) = cfg.storageSuiteLimit - total bs - 48 := by
    rw [h.dataSize]
    simp only [BLOCK_HEADER_SIZE, DB_HEADER_SIZE]
    rw [i32_of_range (by omega)]
    omega
  unfold getSizeAvailable
  simp only [hfile, hdata]
  split_ifs <;> omega

/-- The search for a free block. -/
theorem search_cases (h : Tiled s bs) (data : List UInt8) :
    (s.TakesFree data.length ∧ ∃ found, (if s.dbHeader.freeSize ≥ calculateBlockSize data.length then
      s.getFreeBlock data.length else .ok none) = .ok (some found)) ∨
    ¬ s.TakesFree data.length ∧ (if s.dbHeader.freeSize ≥ calculateBlockSize data.length then
      s.getFreeBlock data.length else .ok none) = .ok none := by
  by_cases hsize : s.dbHeader.freeSize ≥ calculateBlockSize data.length
  · rw [if_pos hsize]
    rcases getFreeBlock_cases h data.length with ⟨hnone, hnofit⟩ | ⟨found, hfound, hfit⟩
    · exact .inr ⟨fun htakes => hnofit htakes.2, hnone⟩
    · exact .inl ⟨⟨hsize, hfit⟩, found, hfound⟩
  · rw [if_neg hsize]
    exact .inr ⟨fun htakes => hsize htakes.1, rfl⟩

/-- What becomes of a request: a free block is taken, the block goes behind the data as they are,
it goes behind the data of a compacted store, or the store is full. -/
theorem addBlock_cases (h : Tiled s bs) (hbelow : s.BelowLimit cfg) (id : Int) (hB : blockBytes data.length < 2147483648)
    (hspace : cfg.storageSuiteLimit ≤ space ∧ space < 2147483648) :
    (s.TakesFree data.length ∧ s.beforeAppend cfg space data = none ∧
      ∃ o header, s.addBlock cfg space id data = (.ok (), s.splitBlock o header data)) ∨
    (¬ s.TakesFree data.length ∧ blockBytes data.length ≤ s.getSizeAvailable cfg space ∧
      s.beforeAppend cfg space data = some s) ∨
    (¬ s.TakesFree data.length ∧ s.getSizeAvailable cfg space < blockBytes data.length ∧
      blockBytes data.length ≤ i32 (s.getSizeAvailable cfg space + s.dbHeader.freeSize) ∧
      ∃ s₁, s.beforeAppend cfg space data = some s₁ ∧ Tiled s₁ (liveBlocks bs)) ∨
    (¬ s.TakesFree data.length ∧ s.getSizeAvailable cfg space < blockBytes data.length ∧
      i32 (s.getSizeAvailable cfg space + s.dbHeader.freeSize) < blockBytes data.length ∧
      s.beforeAppend cfg space data = none ∧
      s.addBlock cfg space id data = (.error .recordStoreFull, s)) := by
  have hcalc : calculateBlockSize data.length = blockBytes data.length := calculateBlockSize_eq hB
  rcases search_cases h data with ⟨htakes, ⟨o, header⟩, hsearch⟩ | ⟨htakes, hsearch⟩
  · refine .inl ⟨htakes, ?_, o, { header with id := id }, ?_⟩
    · simp only [beforeAppend, hsearch]
    · simp only [addBlock, hsearch]
  refine .inr ?_
  rw [hcalc] at hsearch
  simp only [beforeAppend, addBlock, hcalc, hsearch]
  by_cases hroom : (blockBytes data.length : Int) ≤ s.getSizeAvailable cfg space
  · exact .inl ⟨htakes, hroom, if_neg (by omega)⟩
  refine .inr ?_
  rw [if_pos (by omega)]
  by_cases hsum : (blockBytes data.length : Int) ≤
      i32 (s.getSizeAvailable cfg space + s.dbHeader.freeSize)
  · refine .inl ⟨htakes, by omega, hsum, ?_⟩
    have hfree : s.dbHeader.freeSize ≠ 0 := by
      intro hzero
      have hlimit := cfg.limit_int
      have havail := getSizeAvailable_eq h (hbelow.total_le h) hspace
      rw [hzero, Int.add_zero, i32_of_range (by lia)] at hsum
      exact hroom hsum
    obtain ⟨s₁, hcompact, htiled, -⟩ := h.compactRecords cfg hfree
    refine ⟨s₁, ?_, htiled⟩
    rw [if_neg (by omega), hcompact]
  · refine .inr ⟨htakes, by omega, by omega, ?_, ?_⟩
    · rw [if_pos (by omega)]
    · rw [if_pos (by omega), if_pos (by omega)]

/-- **One request**: where the limit holds before, it is kept if and only if the sum is right. -/
theorem sumRight_iff (h : Tiled s bs) (hbelow : s.BelowLimit cfg) (id : Int)
    (hB : blockBytes data.length < 2147483648)
    (hspace : cfg.storageSuiteLimit ≤ space ∧ space < 2147483648) :
    s.SumRight cfg space data.length s.freeBytes ↔
      (∀ s₁, s.beforeAppend cfg space data = some s₁ →
        calculateBlockSize data.length ≤ s₁.getSizeAvailable cfg space) ∧
      ((s.addBlock cfg space id data).1 = .error .recordStoreFull →
        s.getSizeAvailable cfg space + s.freeBytes < calculateBlockSize data.length) := by
  have hcalc : calculateBlockSize data.length = blockBytes data.length := calculateBlockSize_eq hB
  have hpos : 8 ≤ blockBytes data.length := by
    unfold blockBytes
    omega
  have htotal := hbelow.total_le h
  have havail := getSizeAvailable_eq h htotal hspace
  have hfree := h.freeBytes_eq
  have hle := total_liveBlocks_le bs
  rw [h.dataSize] at hfree
  have hbelow' := hbelow
  rw [BelowLimit, h.dataSize] at hbelow
  simp only [BLOCK_HEADER_SIZE, DB_HEADER_SIZE] at hbelow
  rw [SumRight, hcalc]
  rcases addBlock_cases h hbelow' id hB hspace with ⟨htakes, hnone, o, header, hadd⟩ |
    ⟨htakes, hroom, hsome⟩ | ⟨htakes, hshort, hsum, s₁, hsome, htiled₁⟩ |
    ⟨htakes, hshort, hsum, hnone, hadd⟩
  · rw [hnone, hadd]
    exact ⟨fun _ => ⟨by rintro _ ⟨⟩, by rintro ⟨⟩⟩, fun _ hnot => absurd htakes hnot⟩
  · rw [addBlock_of_beforeAppend id hsome, hsome]
    refine ⟨fun _ => ⟨?_, by rintro ⟨⟩⟩, fun _ _ hlt => absurd hlt (by lia)⟩
    rintro _ ⟨⟩
    exact hroom
  · -- what is available after the compaction is what was there before, with the free blocks
    have havail₁ := getSizeAvailable_eq htiled₁ (hle.trans htotal) hspace
    rw [addBlock_of_beforeAppend id hsome, hsome]
    constructor
    · intro hright
      have hiff := hright htakes hshort
      refine ⟨?_, by rintro ⟨⟩⟩
      rintro _ ⟨⟩
      lia
    · rintro ⟨happend, -⟩ - -
      have hfit := happend s₁ rfl
      lia
  · rw [hnone, hadd]
    constructor
    · intro hright
      refine ⟨by rintro _ ⟨⟩, fun _ => ?_⟩
      exact (hright htakes hshort).1 hsum
    · rintro ⟨-, hfull⟩ - -
      exact iff_of_true hsum (hfull rfl)

/-- Only the size of the data counts. -/
theorem BelowLimit.congr {s' : Store} (h : s.BelowLimit cfg)
    (hdata : s'.dbHeader.dataSize = s.dbHeader.dataSize) : s'.BelowLimit cfg := by
  rw [BelowLimit, hdata]
  exact h

theorem belowLimit_appendBlock (h : Tiled s bs) (hle : total bs ≤ cfg.storageSuiteLimit) (id : Int)
    (hB : blockBytes data.length < 2147483648)
    (hspace : cfg.storageSuiteLimit ≤ space ∧ space < 2147483648)
    (hroom : calculateBlockSize data.length ≤ s.getSizeAvailable cfg space) :
    (s.appendBlock id data).BelowLimit cfg := by
  have hlimit := cfg.limit_int
  have hpos : 8 ≤ blockBytes data.length := by
    unfold blockBytes
    omega
  rw [calculateBlockSize_eq hB, getSizeAvailable_eq h hle hspace] at hroom
  rw [BelowLimit, appendBlock_dbHeader, calculateBlockSize_eq hB]
  simp only [h.dataSize, BLOCK_HEADER_SIZE, DB_HEADER_SIZE]
  rw [i32_of_range (by omega)]
  omega

/-- A request that appends only where there is room ends below the limit. -/
theorem belowLimit_addBlock (h : Tiled s bs) (hbelow : s.BelowLimit cfg) (id : Int)
    (hB : blockBytes data.length < 2147483648)
    (hspace : cfg.storageSuiteLimit ≤ space ∧ space < 2147483648)
    (happend : ∀ s₁, s.beforeAppend cfg space data = some s₁ →
      calculateBlockSize data.length ≤ s₁.getSizeAvailable cfg space) :
    (s.addBlock cfg space id data).2.BelowLimit cfg := by
  have htotal := hbelow.total_le h
  rcases addBlock_cases h hbelow id hB hspace with ⟨-, -, o, header, hadd⟩ | ⟨-, -, hsome⟩ |
    ⟨-, -, -, s₁, hsome, htiled₁⟩ | ⟨-, -, -, -, hadd⟩
  · rw [hadd]
    refine hbelow.congr ?_
    rw [splitBlock_dbHeader]
    dsimp only
    split <;> rfl
  · rw [addBlock_of_beforeAppend id hsome]
    exact belowLimit_appendBlock h htotal id hB hspace (happend s hsome)
  · rw [addBlock_of_beforeAppend id hsome]
    have hle := total_liveBlocks_le bs
    exact belowLimit_appendBlock htiled₁ (hle.trans htotal) id hB hspace (happend s₁ hsome)
  · rw [hadd]
    exact hbelow

/-- A request that is granted is for a record that fits. -/
theorem fits_of_granted (h : Tiled s bs) (hbelow : s.BelowLimit cfg) (id : Int)
    (hB : blockBytes data.length < 2147483648)
    (hspace : cfg.storageSuiteLimit ≤ space ∧ space < 2147483648)
    (hright : s.SumRight cfg space data.length s.freeBytes)
    (hok : s.addBlock cfg space id data ≠ (.error .recordStoreFull, s)) :
    40 + total (liveBlocks bs) + blockBytes data.length < 2147483648 := by
  have hlimit := cfg.limit_int
  have hcalc : calculateBlockSize data.length = blockBytes data.length := calculateBlockSize_eq hB
  have hpos : 8 ≤ blockBytes data.length := by
    unfold blockBytes
    omega
  have hle := total_liveBlocks_le bs
  have hfits := h.fits
  have havail := getSizeAvailable_eq h (hbelow.total_le h) hspace
  have hfree := h.freeBytes_eq
  rw [h.dataSize] at hfree
  rcases addBlock_cases h hbelow id hB hspace with ⟨⟨-, header, hmem, hid, hfit⟩, -⟩ |
    ⟨-, hroom, -⟩ | ⟨htakes, hshort, hsum, -⟩ | ⟨-, -, -, -, hadd⟩
  · -- the free block that is taken is no live one
    rw [blockHeaders_eq h] at hmem
    obtain ⟨b, hb, rfl⟩ := List.mem_map.1 hmem
    obtain ⟨l, r, rfl⟩ := List.append_of_mem hb
    have hlive := total_liveBlocks_le (l ++ r)
    rw [total_append_cons] at hfits
    rw [hcalc, h.blockSize hb] at hfit
    rw [liveBlocks_append, liveBlocks_cons_of_nonpos (show b.id ≤ 0 from Int.le_of_lt hid),
      ← liveBlocks_append]
    omega
  · lia
  · rw [SumRight, hcalc] at hright
    have hiff := hright htakes hshort
    omega
  · exact absurd hadd hok

/-! ## A block that is given up -/

variable {l r : List Block} {b fb : Block}

theorem freeBytes_freeBlock (h : Tiled s (l ++ b :: r)) (hb : 0 < b.id) (hfb : fb.id = -1)
    (hlen : fb.length = b.length)
    (hfreed : Tiled (s.freeBlock (40 + total l) b.header) (l ++ fb :: r)) :
    (s.freeBlock (40 + total l) b.header).freeBytes = s.freeBytes + b.length := by
  have hdata := h.dataSize
  have hdata' := hfreed.dataSize
  rw [total_append_cons] at hdata hdata'
  have hlive : total (liveBlocks (l ++ b :: r)) = b.length + total (liveBlocks (l ++ r)) := by
    rw [liveBlocks_append, liveBlocks_cons_of_pos hb, total_append_cons, ← liveBlocks_append]
  have hlive' : liveBlocks (l ++ fb :: r) = liveBlocks (l ++ r) := by
    rw [liveBlocks_append, liveBlocks_cons_of_nonpos (by omega), ← liveBlocks_append]
  rw [hfreed.freeBytes_eq, h.freeBytes_eq, hlive, hlive', hdata, hdata']
  omega

/-- The request after a block has been given up, in terms of the store before. -/
theorem sumRight_freeBlock {numBytes : Int} (h : Tiled s (l ++ b :: r)) (hb : 0 < b.id)
    (hfb : fb.id = -1) (hlen : fb.length = b.length)
    (hfreed : Tiled (s.freeBlock (40 + total l) b.header) (l ++ fb :: r))
    (hlarge : (b.length : Int) < calculateBlockSize numBytes) :
    (s.freeBlock (40 + total l) b.header).SumRight cfg space numBytes
        (s.freeBlock (40 + total l) b.header).freeBytes ↔
      (s.withFreed (calculateBlockSize b.header.size)).SumRight cfg space numBytes
        (s.freeBytes + calculateBlockSize b.header.size) := by
  have hcalc := h.blockSize (List.mem_append_right l (List.mem_cons_self ..))
  have hheader := freeBlock_dbHeader s (40 + total l) b.header
  have havail : (s.freeBlock (40 + total l) b.header).getSizeAvailable cfg space =
      (s.withFreed (calculateBlockSize b.header.size)).getSizeAvailable cfg space := by
    unfold getSizeAvailable
    rw [hheader]
  have htakes : (s.freeBlock (40 + total l) b.header).TakesFree numBytes ↔
      (s.withFreed (calculateBlockSize b.header.size)).TakesFree numBytes := by
    unfold TakesFree
    rw [hheader]
    exact and_congr Iff.rfl (fits_freeBlock h hb hlen hfreed hlarge)
  rw [SumRight, SumRight, htakes, havail, hheader, freeBytes_freeBlock h hb hfb hlen hfreed, hcalc]

end Store

/-! ## Calls -/

variable {cfg : Config} {s : Store} {bs l r : List Block} {b : Block}

/-- Ids are unique, so the header with the id of a live block is the header of the block. -/
theorem Tiled.header_unique (h : Tiled s (l ++ b :: r)) (hb : 0 < b.id) {header : BlockHeader}
    (hmem : header ∈ s.blockHeaders) (hid : header.id = b.id) : header = b.header := by
  obtain ⟨hl, hr⟩ := h.unique hb
  rw [Store.blockHeaders_eq h] at hmem
  obtain ⟨x, hx, rfl⟩ := List.mem_map.1 hmem
  rcases List.mem_append.1 hx with hx | hx
  · exact absurd hid (hl x hx)
  · rcases List.mem_cons.1 hx with rfl | hx
    · rfl
    · exact absurd hid (hr x hx)

/-- The block of a live record is freed, as at the start of a `setRecord` that needs a larger one. -/
theorem Kept.giveUp (h : Kept s (l ++ b :: r)) {cache : Option OffsetCache}
    (hcache : CacheOk (l ++ b :: r) cache) : ∃ fb, fb.id = -1 ∧ fb.length = b.length ∧
      Kept ((s.withCache cache).freeBlock (40 + total l) b.header) (l ++ fb :: r) := by
  obtain ⟨fb, hfb, hlen, htiled, hcache', n, hheader⟩ := Store.freeBlock_tiled
    (Store.tiled_withCache h.tiled cache) hcache (show b.header.size = b.size from rfl)
  obtain ⟨next, hnext, h₁, h₂, hbelow⟩ := h.nextId
  refine ⟨fb, hfb, hlen, htiled, hcache', next, by rw [hheader]; exact hnext, h₁, h₂,
    fun x hx => ?_⟩
  rcases List.mem_append.1 hx with hx | hx
  · exact hbelow x (by simp [hx])
  · rcases List.mem_cons.1 hx with rfl | hx
    · omega
    · exact hbelow x (by simp [hx])

/-- What the limit asks of a call, and the next state of the run. -/
structure Limited (cfg : Config) (s : Store) (c : Call) : Prop where
  iff : s.LimitHolds cfg c ↔ s.CheckRight cfg c
  kept : s.CheckRight cfg c → ∃ bs', Kept (s.call cfg c).2 bs'

/-- A call that asks for no block. -/
theorem Limited.of_none {c : Call} (hnone : s.asking c = none) (hright : s.CheckRight cfg c)
    (hbelow : (s.call cfg c).2.BelowLimit cfg) (hkept : ∃ bs', Kept (s.call cfg c).2 bs') :
    Limited cfg s c where
  iff := by
    refine iff_of_true ⟨fun amb data s₀ s₁ hask => ?_, fun amb data s₀ hask => ?_, hbelow⟩ hright
    · rw [hnone] at hask
      cases hask
    · rw [hnone] at hask
      cases hask
  kept := fun _ => hkept

theorem Kept.limited_addRecord {amb : Store.Ambient} {data : List UInt8} (h : Kept s bs)
    (hbelow : s.BelowLimit cfg) (hok : s.AskOk cfg (.addRecord amb data)) :
    Limited cfg s (.addRecord amb data) := by
  obtain ⟨hpos, hB, hspace⟩ := hok
  have hiff := Store.sumRight_iff h.tiled hbelow s.getNextRecordID hB hspace
  -- the reply and the size of the data are those of the request
  have hreply : (s.call cfg (.addRecord amb data)).1 = .throws .recordStoreFull ↔
      (s.addBlock cfg amb.space s.getNextRecordID data).1 = .error .recordStoreFull := by
    rw [Store.call, Store.addRecord]
    rcases s.addBlock cfg amb.space s.getNextRecordID data with ⟨e | u, s'⟩ <;>
      simp [Store.reply]
  have hdata : (s.call cfg (.addRecord amb data)).2.dbHeader.dataSize =
      (s.addBlock cfg amb.space s.getNextRecordID data).2.dbHeader.dataSize := by
    rw [Store.call, Store.addRecord]
    rcases s.addBlock cfg amb.space s.getNextRecordID data with ⟨e | u, s'⟩ <;> rfl
  constructor
  · show _ ↔ s.SumRight cfg amb.space data.length s.freeBytes
    rw [hiff]
    constructor
    · intro hlimit
      exact ⟨fun s₁ => hlimit.append amb data s s₁ rfl,
        fun hfull => hlimit.full amb data s rfl (hreply.2 hfull)⟩
    · rintro ⟨happend, hfull⟩
      refine ⟨?_, ?_, ?_⟩
      · rintro _ _ _ s₁ ⟨⟩
        exact happend s₁
      · rintro _ _ _ ⟨⟩ hthrow
        exact hfull (hreply.1 hthrow)
      · exact (Store.belowLimit_addBlock h.tiled hbelow s.getNextRecordID hB hspace happend).congr
          hdata
  · intro hright
    by_cases hfull : s.addBlock cfg amb.space s.getNextRecordID data = (.error .recordStoreFull, s)
    · refine ⟨bs, ?_⟩
      rw [Store.call, Store.addRecord, hfull]
      exact h
    · have hfits := Store.fits_of_granted h.tiled hbelow s.getNextRecordID hB hspace hright hfull
      have hzero : ∀ b ∈ bs, b.id ≠ 0 := fun b hb => by
        have := h.tiled.ids b hb
        omega
      have hcall : s.CallOk (.addRecord amb data) := ⟨hpos, by
        rw [Store.Fits, Store.liveSize_of_new h.tiled hzero, DB_HEADER_SIZE]
        omega⟩
      obtain ⟨bs', h'⟩ : ∃ bs', Progress cfg s bs (.addRecord amb data) bs' := h.addRecord hcall
      exact ⟨bs', h'.kept⟩

theorem Kept.limited_setRecord {amb : Store.Ambient} {id : Int} {data : List UInt8} (h : Kept s bs)
    (hbelow : s.BelowLimit cfg) (hok : s.AskOk cfg (.setRecord amb id data)) :
    Limited cfg s (.setRecord amb id data) := by
  obtain ⟨hstale, hB, hspace⟩ := hok
  have hcalc : calculateBlockSize data.length = blockBytes data.length := calculateBlockSize_eq hB
  rcases h.getRecordHeader hstale with ⟨cache, heq, hcache⟩ |
    ⟨l, b, r, cache, rfl, rfl, hpos, heq, hcache⟩
  · -- there is no such record
    have hcall : s.call cfg (.setRecord amb id data) =
        (.throws .invalidRecordID, s.withCache cache) := by
      rw [Store.call, Store.setRecord, heq]
      rfl
    refine .of_none (by rw [Store.asking, heq]) ?_ (hbelow.congr (by rw [hcall]; rfl)) ?_
    · intro header hmem hid heq'
      rw [Store.blockHeaders_eq h.tiled] at hmem
      obtain ⟨b, hb, rfl⟩ := List.mem_map.1 hmem
      exact absurd heq' (h.ne_of_invalid hid heq b hb)
    · rw [hcall]
      exact ⟨bs, Store.tiled_withCache h.tiled cache, hcache, h.nextId⟩
  have htiled := Store.tiled_withCache h.tiled cache
  have hold := h.tiled.blockSize (List.mem_append_right l (List.mem_cons_self ..))
  have hmem : b.header ∈ s.blockHeaders := by simp [Store.blockHeaders_eq h.tiled]
  by_cases hfit : (blockBytes data.length : Int) ≤ b.length
  · -- the record is written over its block
    refine .of_none (by rw [Store.asking, heq]; simp only [hcalc, hold, if_pos hfit]) ?_ ?_ ?_
    · intro header hmem' hid heq' hlarge
      rw [h.tiled.header_unique hpos hmem' heq', hold, hcalc] at hlarge
      omega
    · refine hbelow.congr ?_
      rw [Store.call, Store.setRecord, heq]
      simp only [hcalc, hold, if_pos hfit, Store.reply, Store.writeDbHeader_dbHeader,
        Store.splitBlock_dbHeader]
      split <;> rfl
    · have hfits := h.tiled.fits
      have hle := total_liveBlocks_le (l ++ r)
      rw [total_append_cons] at hfits
      have hcall : s.CallOk (.setRecord amb b.id data) := ⟨hstale, fun _ => by
        rw [Store.Fits, Store.liveSize_of_live h.tiled hpos, DB_HEADER_SIZE]
        omega⟩
      obtain ⟨bs', h'⟩ : ∃ bs', Progress cfg s (l ++ b :: r) (.setRecord amb b.id data) bs' :=
        h.setRecord hcall
      exact ⟨bs', h'.kept⟩
  obtain ⟨fb, hfb, hlen, hkept⟩ := h.giveUp hcache
  set s₀ := (s.withCache cache).freeBlock (40 + total l) b.header with hs₀
  have hask : s.asking (.setRecord amb b.id data) = some (amb, data, s₀) := by
    rw [Store.asking, heq]
    simp only [hcalc, hold, if_neg hfit]
    rfl
  have hbelow₀ : s₀.BelowLimit cfg := by
    refine hbelow.congr ?_
    rw [hs₀, Store.freeBlock_dbHeader]
    rfl
  have hright₀ : s₀.SumRight cfg amb.space data.length s₀.freeBytes ↔
      s.CheckRight cfg (.setRecord amb b.id data) := by
    have hsum := @Store.sumRight_freeBlock cfg amb.space _ _ _ _ _ data.length htiled hpos hfb hlen
      hkept.tiled (by omega)
    rw [hsum]
    constructor
    · intro hsum header hmem' hid heq' hlarge
      rw [h.tiled.header_unique hpos hmem' heq']
      exact hsum
    · intro hcheck
      exact hcheck b.header hmem hpos rfl (by omega)
  have hiff := Store.sumRight_iff hkept.tiled hbelow₀ b.id hB hspace
  have hreply : (s.call cfg (.setRecord amb b.id data)).1 = .throws .recordStoreFull ↔
      (s₀.addBlock cfg amb.space b.id data).1 = .error .recordStoreFull := by
    rw [Store.call, Store.setRecord, heq]
    simp only [hcalc, hold, if_neg hfit]
    rw [show Store.freeBlock _ _ _ = s₀ from rfl]
    rcases s₀.addBlock cfg amb.space b.id data with ⟨e | u, s'⟩ <;> simp [Store.reply]
  have hdata : (s.call cfg (.setRecord amb b.id data)).2.dbHeader.dataSize =
      (s₀.addBlock cfg amb.space b.id data).2.dbHeader.dataSize := by
    rw [Store.call, Store.setRecord, heq]
    simp only [hcalc, hold, if_neg hfit]
    rw [show Store.freeBlock _ _ _ = s₀ from rfl]
    rcases s₀.addBlock cfg amb.space b.id data with ⟨e | u, s'⟩ <;> rfl
  constructor
  · rw [← hright₀, hiff]
    constructor
    · intro hlimit
      exact ⟨fun s₁ => hlimit.append amb data s₀ s₁ hask,
        fun hfull => hlimit.full amb data s₀ hask (hreply.2 hfull)⟩
    · rintro ⟨happend, hfull⟩
      refine ⟨?_, ?_, ?_⟩
      · intro _ _ _ s₁ hask'
        rw [hask] at hask'
        cases hask'
        exact happend s₁
      · intro _ _ _ hask' hthrow
        rw [hask] at hask'
        cases hask'
        exact hfull (hreply.1 hthrow)
      · exact (Store.belowLimit_addBlock hkept.tiled hbelow₀ b.id hB hspace happend).congr hdata
  · intro hright
    by_cases hfull : s₀.addBlock cfg amb.space b.id data = (.error .recordStoreFull, s₀)
    · refine ⟨l ++ fb :: r, ?_⟩
      rw [Store.call, Store.setRecord, heq]
      simp only [hcalc, hold, if_neg hfit]
      rw [show Store.freeBlock _ _ _ = s₀ from rfl, hfull]
      exact hkept
    · have hfits := Store.fits_of_granted hkept.tiled hbelow₀ b.id hB hspace (hright₀.2 hright) hfull
      have hlive : liveBlocks (l ++ fb :: r) = liveBlocks (l ++ r) := by
        rw [liveBlocks_append, liveBlocks_cons_of_nonpos (by omega), ← liveBlocks_append]
      rw [hlive] at hfits
      have hcall : s.CallOk (.setRecord amb b.id data) := ⟨hstale, fun _ => by
        rw [Store.Fits, Store.liveSize_of_live h.tiled hpos, DB_HEADER_SIZE]
        omega⟩
      obtain ⟨bs', h'⟩ : ∃ bs', Progress cfg s (l ++ b :: r) (.setRecord amb b.id data) bs' :=
        h.setRecord hcall
      exact ⟨bs', h'.kept⟩

/-- `getRecord` and `getRecordSize` leave the store as the lookup leaves it. -/
theorem getRecord_store (s : Store) (id : Int) : (s.getRecord id).2 = (s.getRecordHeader id).2 := by
  rw [Store.getRecord]
  rcases s.getRecordHeader id with ⟨e | ⟨o, header⟩, s'⟩
  · rfl
  · dsimp only
    split <;> rfl

theorem getRecordSize_store (s : Store) (id : Int) :
    (s.getRecordSize id).2 = (s.getRecordHeader id).2 := by
  rw [Store.getRecordSize]
  rcases s.getRecordHeader id with ⟨e | ⟨o, header⟩, s'⟩ <;> rfl

/-- Closing and opening again leaves no more data. -/
theorem Kept.belowLimit_reopen (h : Kept s bs) (hbelow : s.BelowLimit cfg) :
    (s.call cfg .reopen).2.BelowLimit cfg := by
  obtain ⟨s', bs', heq, hbs, htiled, -⟩ := Store.compactRecords_tiled cfg h.tiled h.cache
  obtain ⟨junk, hfile⟩ := htiled.file
  have hread : DbHeader.read s'.file = some s'.dbHeader.toInts := by
    rw [hfile]
    exact DbHeader.read_bytes ..
  have hle : total bs' ≤ total bs := by
    rcases hbs with ⟨-, rfl⟩ | rfl
    · exact Nat.le_refl _
    · exact total_liveBlocks_le bs
  have hfits := htiled.fits
  rw [Store.BelowLimit, h.tiled.dataSize] at hbelow
  rw [Store.BelowLimit, Store.call, Store.reopen, heq]
  simp only [hread, Store.reply, DbHeader.toInts]
  rw [htiled.dataSize, i32_of_range (by omega)]
  omega

/-- **The step lemma.** -/
theorem Kept.limited {c : Call} (h : Kept s bs) (hbelow : s.BelowLimit cfg) (hok : s.AskOk cfg c) :
    Limited cfg s c := by
  have hlookup : ∀ id, (s.getRecordHeader id).2.BelowLimit cfg := by
    intro id
    obtain ⟨cache, heq, -⟩ := h.getRecordHeader_store id
    rw [heq]
    exact hbelow.congr rfl
  have hkept : s.UpdateOk c → ∃ bs', Kept (s.call cfg c).2 bs' := fun hupdate => by
    obtain ⟨bs', h'⟩ := h.call cfg hupdate
    exact ⟨bs', h'.kept⟩
  cases c with
  | addRecord => exact h.limited_addRecord hbelow hok
  | setRecord => exact h.limited_setRecord hbelow hok
  | deleteRecord amb id =>
    refine .of_none rfl trivial ?_ (hkept hok)
    have hstore := hlookup id
    rw [Store.call, Store.deleteRecord]
    rcases heq : s.getRecordHeader id with ⟨e | ⟨o, header⟩, s'⟩
    · rw [heq] at hstore
      exact hstore
    · rw [heq] at hstore
      refine hstore.congr ?_
      have hfree := Store.freeBlock_dbHeader s' o header
      show (s'.freeBlock o header).dbHeader.dataSize = _
      rw [hfree]
      rfl
  | getRecord id =>
    refine .of_none rfl trivial ?_ (hkept trivial)
    show (s.getRecord id).2.BelowLimit cfg
    rw [getRecord_store]
    exact hlookup id
  | getRecordSize id =>
    refine .of_none rfl trivial ?_ (hkept trivial)
    show (s.getRecordSize id).2.BelowLimit cfg
    rw [getRecordSize_store]
    exact hlookup id
  | getRecordIDs | getNumRecords => exact .of_none rfl trivial hbelow (hkept trivial)
  | reopen => exact .of_none rfl trivial (h.belowLimit_reopen hbelow) (hkept trivial)

/-- **The storage limit over runs.** In every state that a run reaches in which the check of every
request is right, the data end below the limit, and the limit holds of the next call if and only if
its check is right. -/
theorem storage_limit {time : Int × Int} {ls : List (Call × Reply)}
    (hrun : Lts.Run (Lts.Guarded (Store.Step cfg) fun s l => s.AskOk cfg l.1 ∧ s.CheckRight cfg l.1)
      (Store.create time) ls s) :
    s.BelowLimit cfg ∧ ∀ c, s.AskOk cfg c → (s.LimitHolds cfg c ↔ s.CheckRight cfg c) := by
  obtain ⟨bs, h, hbelow⟩ : ∃ bs, Kept s bs ∧ s.BelowLimit cfg := by
    refine hrun.invariant (I := fun s => ∃ bs, Kept s bs ∧ s.BelowLimit cfg) ?_
      ⟨[], .create time, .inl rfl⟩
    rintro s ⟨c, r⟩ s' ⟨bs, h, hbelow⟩ ⟨⟨hok, hright⟩, hstep⟩
    have hcall : s.call cfg c = (r, s') := hstep
    have hlimited := h.limited hbelow hok
    have hsize := (hlimited.iff.2 hright).size
    obtain ⟨bs', hkept⟩ := hlimited.kept hright
    rw [hcall] at hsize hkept
    exact ⟨bs', hkept, hsize⟩
  exact ⟨hbelow, fun c hok => (h.limited hbelow hok).iff⟩

/-- A compaction makes room for a record of exactly the size of the free block. -/
theorem storage_limit_compacted : ∃ s : Store, s.dbHeader.freeSize = 24 ∧
    s.LimitHolds { storageSuiteLimit := 136, limit_int := by decide }
      (.addRecord ⟨1000, 1, 4⟩ (List.replicate 40 7)) := by
  let cfg : Config := { storageSuiteLimit := 136, limit_int := by decide }
  let add : Call := .addRecord ⟨1000, 1, 4⟩ (List.replicate 40 7)
  obtain ⟨s, hrun, hfree, hok, hright⟩ := Lts.Run.exists_of_exec (Store.next cfg)
    (fun s l => decide (s.AskOk cfg l.1 ∧ s.CheckRight cfg l.1))
    (fun s => s.dbHeader.freeSize = 24 ∧ s.AskOk cfg add ∧ s.CheckRight cfg add) (Store.create (0, 0))
    [(.addRecord ⟨1000, 1, 2⟩ [1, 2, 3, 4, 5, 6, 7, 8, 9, 10, 11, 12, 13, 14, 15, 16], .id 1),
      (.addRecord ⟨1000, 1, 2⟩ [1, 2, 3], .id 2), (.setRecord ⟨1000, 1, 3⟩ 2 [4], .done),
      (.deleteRecord ⟨1000, 1, 4⟩ 1, .done)]
    (by decide +kernel)
  obtain ⟨-, hiff⟩ := storage_limit
    (hrun.mono fun _ _ _ h => ⟨of_decide_eq_true h.1, Store.step_of_next h.2⟩)
  exact ⟨s, hfree, (hiff add hok).2 hright⟩

/-- A block of 24 bytes is used again for one byte.  The header then counts 32 free bytes where there
are 8, and a record of 152 bytes is appended where 136 bytes are available. -/
theorem storage_limit_exceeded : ¬ ∀ (cfg : Config) (time : Int × Int) (ls : List (Call × Reply))
    (s : Store) (c : Call), Lts.Run (Lts.Guarded (Store.Step cfg) fun s l => s.AskOk cfg l.1)
      (Store.create time) ls s → s.AskOk cfg c → s.LimitHolds cfg c := by
  intro h
  let cfg : Config := { storageSuiteLimit := 200, limit_int := by decide }
  let add : Call := .addRecord ⟨1000, 1, 5⟩ (List.replicate 144 9)
  obtain ⟨s, hrun, hok, hsize⟩ := Lts.Run.exists_of_exec (Store.next cfg)
    (fun s l => decide (s.AskOk cfg l.1))
    (fun s => s.AskOk cfg add ∧ (s.call cfg add).2.dbHeader.dataSize = 168) (Store.create (0, 0))
    [(.addRecord ⟨1000, 1, 2⟩ [1, 2, 3, 4, 5, 6, 7, 8, 9, 10, 11, 12, 13, 14, 15, 16], .id 1),
      (.deleteRecord ⟨1000, 1, 3⟩ 1, .done), (.addRecord ⟨1000, 1, 4⟩ [7], .id 2)]
    (by decide +kernel)
  have hlimit := h cfg (0, 0) _ s add
    (hrun.mono fun _ _ _ h => ⟨of_decide_eq_true h.1, Store.step_of_next h.2⟩) hok
  have hbelow := hlimit.size
  rw [Store.BelowLimit, hsize] at hbelow
  exact absurd hbelow (by decide)

end FroggyKVM.Rms
