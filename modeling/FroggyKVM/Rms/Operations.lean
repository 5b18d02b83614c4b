/-
# FroggyKVM.Rms.Operations — what the record store operations do to the chain.

The scans for free blocks and ids, and `addBlock`, which reuses a free block, appends, or compacts
and then appends.  A chain stands for the multiset of its live blocks: an operation is described by
what it does to these, up to order.
-/
import FroggyKVM.Rms.Compact

namespace FroggyKVM.Rms

/-! ## Live blocks -/

@[simp] theorem liveBlocks_append (l r : List Block) :
    liveBlocks (l ++ r) = liveBlocks l ++ liveBlocks r := by
  simp [liveBlocks]

theorem liveBlocks_eq_nil {bs : List Block} (h : ∀ b ∈ bs, b.id = -1) : liveBlocks bs = [] := by
  rw [liveBlocks, List.filter_eq_nil_iff]
  intro b hb
  simp [Block.live, h b hb]

@[simp] theorem liveBlocks_liveBlocks (bs : List Block) :
    liveBlocks (liveBlocks bs) = liveBlocks bs := by
  simp [liveBlocks]

theorem mem_liveBlocks {b : Block} {bs : List Block} :
    b ∈ liveBlocks bs ↔ b ∈ bs ∧ 0 < b.id := by
  simp [liveBlocks, Block.live]

theorem total_liveBlocks_le (bs : List Block) : total (liveBlocks bs) ≤ total bs := by
  induction bs with
  | nil => simp [liveBlocks]
  | cons b bs ih =>
    by_cases h : 0 < b.id
    · rw [liveBlocks_cons_of_pos h, total_cons, total_cons]
      omega
    · rw [liveBlocks_cons_of_nonpos (by omega), total_cons]
      omega

theorem total_mod (bs : List Block) : total bs % 8 = 0 := by
  induction bs with
  | nil => rfl
  | cons b bs ih =>
    rw [total_cons]
    unfold Block.length blockBytes
    omega

/-- A record put in the place of a block and some free blocks behind it. -/
theorem liveBlocks_record_perm (l r fr : List Block) {id : Int} (data : List UInt8) (hid : 0 < id)
    (hfr : ∀ x ∈ fr, x.id = -1) :
    (liveBlocks (l ++ ((Block.record id data :: fr) ++ r))).Perm
      (Block.record id data :: liveBlocks (l ++ r)) := by
  have hpos : 0 < (Block.record id data).id := hid
  rw [liveBlocks_append, List.cons_append, liveBlocks_cons_of_pos hpos, liveBlocks_append,
    liveBlocks_eq_nil hfr, List.nil_append, liveBlocks_append]
  exact List.perm_middle

namespace Store

/-! ## Scans -/

/-- The headers met on the way through the chain. -/
def blockHeadersLoop (file : List UInt8) (size : Int) : Nat → Int → List BlockHeader
  | 0, _ => []
  | fuel + 1, offset =>
    if offset < size then
      match readHeader file offset with
      | none => []
      | some header =>
        header :: blockHeadersLoop file size fuel (i32 (offset + calculateBlockSize header.size))
    else []

/-- The block headers of a store file. -/
def blockHeaders (s : Store) : List BlockHeader :=
  blockHeadersLoop s.file s.getSize s.fuel DB_HEADER_SIZE

end Store

/-- A piece of a chain in a file: what a scan that has come to `o` needs to know. -/
structure PieceAt (file : List UInt8) (o : Int) (bs : List Block) : Prop where
  file : ∃ pre post, file = pre ++ (chain bs ++ post) ∧ (pre.length : Int) = o
  fits : o + total bs < 2147483648
  ids : ∀ b ∈ bs, b.id = -1 ∨ 0 < b.id ∧ b.id < 2147483648

/-- A scan reads the header of the first block and goes on behind it. -/
theorem PieceAt.cons {file : List UInt8} {o : Int} {b : Block} {bs : List Block}
    (h : PieceAt file o (b :: bs)) : readHeader file o = some b.header ∧
      i32 (o + b.length) = o + b.length ∧
      calculateBlockSize b.header.size = b.length ∧ PieceAt file (o + b.length) bs := by
  obtain ⟨⟨pre, post, rfl, rfl⟩, hfits, hids⟩ := h
  have hlen := length_pos b
  rw [total_cons] at hfits
  rw [List.forall_mem_cons] at hids
  have hcalc : calculateBlockSize b.header.size = b.length :=
    Block.blockSize (by omega)
  refine ⟨?_, ?_, hcalc, ⟨⟨pre ++ b.bytes, post, by simp, by simp⟩, by omega, hids.2⟩⟩
  · rw [chain_cons, List.append_assoc]
    exact readHeader_block rfl (by omega) (by omega)
  · rw [i32_of_range (by omega)]

theorem Tiled.pieceAt {s : Store} {bs : List Block} (h : Tiled s bs) :
    PieceAt s.file DB_HEADER_SIZE bs := by
  obtain ⟨junk, hfile⟩ := h.file
  have hfits := h.fits
  exact ⟨⟨_, junk, hfile, rfl⟩, by simp only [DB_HEADER_SIZE]; omega, h.ids⟩

namespace Store

theorem blockHeadersLoop_eq {file : List UInt8} {bs : List Block} {o : Int} {fuel : Nat}
    (h : PieceAt file o bs) (hfuel : bs.length < fuel) :
    blockHeadersLoop file (o + total bs) fuel o = bs.map Block.header := by
  induction bs generalizing o fuel with
  | nil =>
    cases fuel with
    | zero => cases hfuel
    | succ fuel => simp [blockHeadersLoop]
  | cons b bs ih =>
    cases fuel with
    | zero => cases hfuel
    | succ fuel =>
      obtain ⟨hread, hnext, hcalc, htail⟩ := h.cons
      have hlen := length_pos b
      have hsize : o + (total (b :: bs) : Nat) = o + b.length + total bs := by
        rw [total_cons]
        omega
      rw [blockHeadersLoop, if_pos (by rw [hsize]; omega), hread]
      simp only [hcalc, hnext, List.map_cons]
      rw [← ih htail (by simpa using hfuel), hsize]

theorem blockHeaders_eq {s : Store} {bs : List Block} (h : Tiled s bs) :
    s.blockHeaders = bs.map Block.header := by
  rw [blockHeaders, h.getSize]
  exact blockHeadersLoop_eq h.pieceAt h.fuel

/-- The search for a free block ends with one that is large enough, or without. -/
theorem freeBlockLoop_eq {file : List UInt8} (targetSize : Int) {bs : List Block} {o : Int}
    {fuel : Nat} (h : PieceAt file o bs) (hfuel : bs.length < fuel) :
    (freeBlockLoop file (o + total bs) targetSize fuel o = .ok none ∧
      ∀ b ∈ bs, b.id < 0 → (b.length : Int) < targetSize) ∨
      ∃ l b r, bs = l ++ b :: r ∧ b.id = -1 ∧ targetSize ≤ b.length ∧
        freeBlockLoop file (o + total bs) targetSize fuel o = .ok (some (o + total l, b.header)) := by
  induction bs generalizing o fuel with
  | nil =>
    cases fuel with
    | zero => cases hfuel
    | succ fuel => simp [freeBlockLoop]
  | cons b bs ih =>
    cases fuel with
    | zero => cases hfuel
    | succ fuel =>
      obtain ⟨hread, hnext, hcalc, htail⟩ := h.cons
      have hlen := length_pos b
      have hsize : o + (total (b :: bs) : Nat) = o + b.length + total bs := by
        rw [total_cons]
        omega
      rw [freeBlockLoop, if_pos (by rw [hsize]; omega), hread]
      simp only [hnext, hcalc, hsize]
      by_cases hfree : b.header.id < 0 ∧ (b.length : Int) ≥ targetSize
      · have hb : b.id = -1 := (h.ids b (by simp)).resolve_right fun hpos => by
          have := hfree.1
          simp only [Block.header] at this
          omega
        exact .inr ⟨[], b, bs, rfl, hb, hfree.2, by simp [hfree]⟩
      · rw [if_neg hfree]
        rcases ih htail (by simpa using hfuel) with
          ⟨hnone, hsmall⟩ | ⟨l, b', r, rfl, hb', htarget, hfound⟩
        · refine .inl ⟨hnone, List.forall_mem_cons.2 ⟨fun hid => ?_, hsmall⟩⟩
          by_contra hle
          exact hfree ⟨hid, by omega⟩
        · refine .inr ⟨b :: l, b', r, rfl, hb', htarget, ?_⟩
          rw [hfound]
          congr 3
          rw [total_cons]
          omega

/-- The loop of `getRecordIDs`, when there are as many slots as live blocks left. -/
theorem recordIDsLoop_eq {file : List UInt8} :
    ∀ (bs : List Block) (currentOffset currentSize : Int) (fuel : Nat),
      PieceAt file (currentOffset + currentSize) bs → 0 ≤ currentSize → 0 ≤ currentOffset →
      bs.length < fuel →
      recordIDsLoop file (currentOffset + currentSize + total bs) fuel (liveIds bs).length
        currentOffset currentSize = liveIds bs
  | [], _, _, fuel + 1, _, _, _, _ => rfl
  | b :: bs, currentOffset, currentSize, fuel + 1, h, hsize, hoff, hfuel => by
    obtain ⟨hread, -, hcalc, htail⟩ := h.cons
    have hlen := length_pos b
    have hfits := h.fits
    rw [total_cons] at hfits ⊢
    have hnext : i32 (currentOffset + currentSize) = currentOffset + currentSize :=
      i32_of_range (by omega)
    have ih := recordIDsLoop_eq bs (currentOffset + currentSize) b.length fuel htail (by omega)
      (by omega) (by simpa using hfuel)
    have htotal : currentOffset + currentSize + ((b.length + total bs : Nat) : Int) =
        currentOffset + currentSize + b.length + total bs := by omega
    cases hslots : (liveIds (b :: bs)).length with
    | zero => rw [recordIDsLoop, List.length_eq_zero_iff.1 hslots]
    | succ slots =>
      rw [recordIDsLoop, if_neg (by omega)]
      simp only [hnext, hread, hcalc, htotal]
      by_cases hb : 0 < b.id
      · rw [liveIds_cons_of_pos hb, List.length_cons, Nat.add_right_cancel_iff] at hslots
        rw [liveIds_cons_of_pos hb, if_pos (show b.header.id > 0 from hb), ← hslots, ih]
        rfl
      · rw [liveIds_cons_of_nonpos (by omega)] at hslots ⊢
        rw [if_neg (show ¬ b.header.id > 0 from hb), ← hslots, ih]

theorem getRecordIDs_eq {s : Store} {bs : List Block} (h : Tiled s bs)
    (hnum : s.dbHeader.numLive = (liveIds bs).length) : s.getRecordIDs = liveIds bs := by
  have hpiece : PieceAt s.file (DB_HEADER_SIZE + 0) bs := h.pieceAt
  have heq := recordIDsLoop_eq bs DB_HEADER_SIZE 0 s.fuel hpiece (by omega) (by decide) h.fuel
  rw [getRecordIDs, getNumRecords, hnum, Int.toNat_natCast, h.getSize]
  exact heq

/-! ## `addBlock` -/

/-- The size of the live blocks of a store that are not the block of `id`. -/
def liveSize (s : Store) (id : Int) : Int :=
  ((s.blockHeaders.filter fun h => decide (0 < h.id ∧ h.id ≠ id)).map
    fun h => calculateBlockSize h.size).sum

theorem liveSize_eq {s : Store} {bs : List Block} (h : Tiled s bs) (id : Int) :
    s.liveSize id = total ((liveBlocks bs).filter fun b => decide (b.id ≠ id)) := by
  have hfits := h.fits
  rw [liveSize, blockHeaders_eq h]
  clear h
  induction bs with
  | nil => rfl
  | cons b bs ih =>
    rw [total_cons] at hfits
    have ih' := ih (by omega)
    by_cases hb : 0 < b.id
    · rw [liveBlocks_cons_of_pos hb, List.map_cons]
      by_cases hid : b.id = id
      · rw [List.filter_cons_of_neg (by simp [Block.header, hid]), ih',
          List.filter_cons_of_neg (by simp [hid])]
      · have hcalc : calculateBlockSize b.header.size = b.length :=
          Block.blockSize (by omega)
        rw [List.filter_cons_of_pos (by simp [Block.header, hb, hid]), List.map_cons,
          List.sum_cons, ih', List.filter_cons_of_pos (by simp [hid]), total_cons, hcalc,
          Int.natCast_add]
    · rw [List.map_cons, List.filter_cons_of_neg (by simp [Block.header, hb]), ih',
        liveBlocks_cons_of_nonpos (by omega)]

theorem liveSize_of_new {s : Store} {bs : List Block} (h : Tiled s bs) {id : Int}
    (hid : ∀ b ∈ bs, b.id ≠ id) : s.liveSize id = total (liveBlocks bs) := by
  rw [liveSize_eq h, List.filter_eq_self.2]
  intro b hb
  simpa using hid b (mem_liveBlocks.1 hb).1

theorem liveSize_of_live {s : Store} {l r : List Block} {b : Block} (h : Tiled s (l ++ b :: r))
    (hb : 0 < b.id) : s.liveSize b.id = total (liveBlocks (l ++ r)) := by
  obtain ⟨hl, hr⟩ := h.unique hb
  rw [liveSize_eq h, liveBlocks_append, liveBlocks_cons_of_pos hb, List.filter_append,
    List.filter_cons_of_neg (by simp), liveBlocks_append, List.filter_eq_self.2,
    List.filter_eq_self.2]
  · intro x hx
    simpa using hr x (mem_liveBlocks.1 hx).1
  · intro x hx
    simpa using hl x (mem_liveBlocks.1 hx).1

/-- **`addBlock`** adds the record, unless it says that the store is full. -/
theorem addBlock_tiled (cfg : Config) (space : Int) {s : Store} {bs : List Block} (h : Tiled s bs)
    (hc : CacheOk bs s.recordIdOffsets) {id : Int} {data : List UInt8}
    (hid : 0 < id ∧ id < 2147483648) (hnew : ∀ x ∈ bs, x.id ≠ id)
    (hroom : 40 + total (liveBlocks bs) + blockBytes data.length < 2147483648) :
    (s.addBlock cfg space id data).1 = .error .recordStoreFull ∨
      ∃ s' bs', s.addBlock cfg space id data = (.ok (), s') ∧ Tiled s' bs' ∧
        CacheOk bs' s'.recordIdOffsets ∧
        (liveBlocks bs').Perm (Block.record id data :: liveBlocks bs) ∧
        ∃ d f, s'.dbHeader = { s.dbHeader with dataSize := d, freeSize := f } := by
  have hcalc : calculateBlockSize data.length = blockBytes data.length :=
    calculateBlockSize_eq (by omega)
  have hfits := h.fits
  have hpos : 8 ≤ blockBytes data.length := by
    unfold blockBytes
    omega
  -- appending to a chain with the same live blocks
  have happend : ∀ (s₁ : Store) (bs₁ : List Block), Tiled s₁ bs₁ → CacheOk bs₁ s₁.recordIdOffsets →
      liveBlocks bs₁ = liveBlocks bs → (∃ d f, s₁.dbHeader =
        { s.dbHeader with dataSize := d, freeSize := f }) →
      40 + total bs₁ + blockBytes data.length < 2147483648 →
      ∃ s' bs', ((.ok (), s₁.appendBlock id data) : Except RmsError Unit × Store) = (.ok (), s') ∧
        Tiled s' bs' ∧ CacheOk bs' s'.recordIdOffsets ∧
        (liveBlocks bs').Perm (Block.record id data :: liveBlocks bs) ∧
        ∃ d f, s'.dbHeader = { s.dbHeader with dataSize := d, freeSize := f } := by
    rintro s₁ bs₁ h₁ hc₁ hlive ⟨d, f, hheader⟩ hfits₁
    have hnew₁ : ∀ x ∈ bs₁, x.id ≠ id := by
      intro x hx hxid
      have hmem : x ∈ liveBlocks bs₁ := mem_liveBlocks.2 ⟨hx, by omega⟩
      rw [hlive] at hmem
      exact hnew x (mem_liveBlocks.1 hmem).1 hxid
    obtain ⟨htiled, hcache, n, hheader'⟩ := appendBlock_tiled h₁ hc₁ hid hnew₁ hfits₁
    refine ⟨_, _, rfl, htiled, hcache, ?_, n, f, by rw [hheader', hheader]⟩
    rw [liveBlocks_append, hlive, liveBlocks_cons_of_pos (show 0 < (Block.record id data).id from
      hid.1)]
    exact List.perm_append_singleton _ _
  unfold addBlock
  simp only [hcalc]
  have hfind : (if s.dbHeader.freeSize ≥ (blockBytes data.length : Int) then
      s.getFreeBlock data.length else .ok none) = .ok none ∨
      ∃ l b r, bs = l ++ b :: r ∧ b.id = -1 ∧ blockBytes data.length ≤ b.length ∧
        (if s.dbHeader.freeSize ≥ (blockBytes data.length : Int) then s.getFreeBlock data.length
          else .ok none) = .ok (some (40 + total l, b.header)) := by
    split
    · rw [getFreeBlock, hcalc, h.getSize]
      rcases freeBlockLoop_eq (blockBytes data.length) h.pieceAt h.fuel with
        ⟨hnone, -⟩ | ⟨l, b, r, rfl, hb, hlen, hfound⟩
      · exact .inl hnone
      · exact .inr ⟨l, b, r, rfl, hb, by lia, hfound⟩
    · exact .inl rfl
  rcases hfind with hnone | ⟨l, b, r, rfl, hb, hlen, hfound⟩
  · rw [hnone]
    simp only
    have hlimit := cfg.limit_int
    have hmod := total_mod bs
    have hspace : 0 ≤ s.getSizeAvailable cfg space ∧ (0 < s.getSizeAvailable cfg space →
        s.getSizeAvailable cfg space ≤ cfg.storageSuiteLimit - total bs - 48) := by
      have hlimitSpace : i32 ((cfg.storageSuiteLimit : Int) - s.dbHeader.dataSize -
          BLOCK_HEADER_SIZE - DB_HEADER_SIZE) = cfg.storageSuiteLimit - total bs - 48 := by
        rw [h.dataSize]
        simp only [BLOCK_HEADER_SIZE, DB_HEADER_SIZE]
        rw [i32_of_range (by omega)]
        lia
      unfold getSizeAvailable
      simp only [hlimitSpace]
      generalize i32 (space - BLOCK_HEADER_SIZE - DB_HEADER_SIZE) = fileSpace
      split_ifs <;> omega
    split
    case isFalse henough =>
      exact .inr (happend s bs h hc rfl ⟨_, _, rfl⟩ (by omega))
    case isTrue hshort =>
      split
      case isTrue => exact .inl rfl
      case isFalse hcompact =>
        obtain ⟨s₁, bs₁, hrun, hbs₁, htiled, hcache, hheader⟩ := compactRecords_tiled cfg h hc
        rw [hrun]
        refine .inr (happend s₁ bs₁ htiled hcache ?_ hheader ?_)
        · rcases hbs₁ with ⟨-, rfl⟩ | rfl
          · rfl
          · simp
        · rcases hbs₁ with ⟨hfree, rfl⟩ | rfl
          · -- without free space the sum was too small
            rw [hfree, Int.add_zero, i32_of_range (by lia)] at hcompact
            omega
          · exact hroom
  · rw [hfound]
    have hnew' : (∀ x ∈ l, x.id ≠ id) ∧ ∀ x ∈ r, x.id ≠ id :=
      ⟨fun x hx => hnew x (by simp [hx]), fun x hx => hnew x (by simp [hx])⟩
    obtain ⟨fr, hfr, htiled, hcache, n, hheader⟩ := splitBlock_tiled h hc hid hnew'.1 hnew'.2 hlen
    refine .inr ⟨_, _, rfl, htiled, hcache, ?_, _, n, hheader⟩
    refine (liveBlocks_record_perm l r fr data hid.1 hfr).trans ?_
    rw [liveBlocks_append l (b :: r), liveBlocks_cons_of_nonpos (by omega), ← liveBlocks_append]

end Store

end FroggyKVM.Rms
