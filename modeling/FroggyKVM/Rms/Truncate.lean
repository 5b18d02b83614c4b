/-
# FroggyKVM.Rms.Truncate — two stores that differ behind their data.

When `truncateFile` only seeks, a compaction leaves old bytes behind the end of the data.  `Agree`
relates such a store to one whose file has really been shortened: the headers are the same, and the
files are as far as the data go.  Every call keeps it and replies the same in both, as long as no
lookup goes by an offset that leads to stale bytes; with such an offset the old bytes can be read.
-/
import FroggyKVM.Rms.InPlace

namespace FroggyKVM.Rms

/-! ## Files that begin alike -/

/-- The two files agree on their first `n` bytes. -/
def SamePrefix (n : Nat) (file file' : List UInt8) : Prop :=
  ∃ c u v, file = c ++ u ∧ file' = c ++ v ∧ n ≤ c.length

theorem SamePrefix.splice {n i : Nat} {file file' : List UInt8} (h : SamePrefix n file file')
    (hi : i ≤ n) (bytes : List UInt8) :
    SamePrefix (max n (i + bytes.length)) (splice file i bytes) (splice file' i bytes) := by
  obtain ⟨c, u, v, rfl, rfl, hn⟩ := h
  obtain ⟨h₁, h₂⟩ := length_splice_ge (hi.trans hn) bytes
  exact ⟨_, _, _, splice_append_left c bytes u (hi.trans hn),
    splice_append_left c bytes v (hi.trans hn), by omega⟩

theorem SamePrefix.mono {n m : Nat} {file file' : List UInt8} (h : SamePrefix n file file')
    (hm : m ≤ n) : SamePrefix m file file' := by
  obtain ⟨c, u, v, hfile, hfile', hn⟩ := h
  exact ⟨c, u, v, hfile, hfile', hm.trans hn⟩

/-- Two stores with the same header, whose files agree on their first `n` bytes. -/
structure AgreeTo (n : Nat) (s t : Store) : Prop where
  dbHeader : s.dbHeader = t.dbHeader
  file : SamePrefix n s.file t.file

namespace AgreeTo

variable {n : Nat} {s t : Store}

theorem mono {m : Nat} (h : AgreeTo n s t) (hm : m ≤ n) : AgreeTo m s t :=
  ⟨h.dbHeader, h.file.mono hm⟩

theorem write (h : AgreeTo n s t) {o : Int} (ho : o.toNat ≤ n) (bytes : List UInt8) :
    AgreeTo (max n (o.toNat + bytes.length)) (s.write o bytes) (t.write o bytes) :=
  ⟨h.dbHeader, h.file.splice ho bytes⟩

/-- The same change of the header. -/
theorem header (h : AgreeTo n s t) (f : DbHeader → DbHeader) :
    AgreeTo n { s with dbHeader := f s.dbHeader } { t with dbHeader := f t.dbHeader } :=
  ⟨congrArg f h.dbHeader, h.file⟩

theorem writeDbHeader (h : AgreeTo n s t) {o : Nat} (ho : o ≤ n) (k : Nat) :
    AgreeTo n (s.writeDbHeader o k) (t.writeDbHeader o k) := by
  rw [Store.writeDbHeader, Store.writeDbHeader, h.dbHeader]
  refine (h.write (by omega) _).mono ?_
  omega

/-- The caches do not count. -/
theorem caches (h : AgreeTo n s t) (c c' : Option OffsetCache) :
    AgreeTo n (s.withCache c) (t.withCache c') := ⟨h.dbHeader, h.file⟩

theorem writeBlock (h : AgreeTo n s t) {o : Nat} (ho : o ≤ n) (bh : BlockHeader)
    (data : List UInt8) : AgreeTo (max n (o + blockBytes data.length)) (s.writeBlock o bh data)
      (t.writeBlock o bh data) := by
  have hbytes : bh.bytes.length = 8 := rfl
  have h₁ := h.write (o := o) (by omega) bh.bytes
  have h₂ := h₁.write (o := (o : Int) + BLOCK_HEADER_SIZE)
    (by simp only [BLOCK_HEADER_SIZE]; lia) data
  have hpad := padding_length data.length
  simp only [BLOCK_HEADER_SIZE] at h₂
  unfold Store.writeBlock Store.updateBlock
  simp only
  split
  case isTrue hrem =>
    have h₃ := h₂.write (o := (o : Int) + 8 + data.length) (by lia)
      (DB_SIGNATURE.take (8 - data.length % 8))
    have hlen : (DB_SIGNATURE.take (8 - data.length % 8)).length = (padding data.length).length := by
      rw [padding, if_pos hrem]
    rw [hlen] at h₃
    refine ⟨h.dbHeader, h₃.file.mono ?_⟩
    unfold blockBytes
    lia
  case isFalse hrem =>
    refine ⟨h.dbHeader, h₂.file.mono ?_⟩
    unfold blockBytes
    lia

theorem freeBlock (h : AgreeTo n s t) {o : Nat} (ho : o ≤ n) (hn : 36 ≤ n) (bh : BlockHeader) :
    AgreeTo n (s.freeBlock o bh) (t.freeBlock o bh) := by
  have hwrite := (h.writeBlock ho { id := -1, size := calculateBlockSize bh.size - BLOCK_HEADER_SIZE }
    []).mono (le_max_left ..)
  exact (hwrite.header fun d => { d with freeSize := i32 (d.freeSize + calculateBlockSize bh.size) })
    |>.writeDbHeader hn 4

theorem splitBlock (h : AgreeTo n s t) {o : Nat} {data : List UInt8} (ho : o ≤ n) (hn : 36 ≤ n)
    (hB : o + blockBytes data.length < 2147483648) (bh : BlockHeader) :
    AgreeTo n (s.splitBlock o bh data) (t.splitBlock o bh data) := by
  have hcalc : calculateBlockSize data.length = blockBytes data.length :=
    calculateBlockSize_eq (by omega)
  have hwrite := h.writeBlock ho { bh with size := data.length } data
  have hnext : i32 ((o : Int) + blockBytes data.length) = (o + blockBytes data.length : Nat) := by
    rw [i32_of_range (by omega), Int.natCast_add]
  simp only [Store.splitBlock, hcalc, hnext]
  split
  · exact (hwrite.freeBlock (le_max_right ..) (hn.trans (le_max_left ..)) _).mono (le_max_left ..)
  · exact hwrite.mono (le_max_left ..)

theorem appendBlock (h : AgreeTo n s t) {o : Nat} {data : List UInt8} (ho : o ≤ n) (hn : 36 ≤ n)
    (hsize : s.getSize = o) (id : Int) : AgreeTo (max n (o + blockBytes data.length))
      (s.appendBlock id data) (t.appendBlock id data) := by
  have hsize' : t.getSize = o := by rw [← hsize, Store.getSize, Store.getSize, h.dbHeader]
  have hwrite := h.writeBlock ho { id := id, size := data.length } data
  simp only [Store.appendBlock, hsize, hsize']
  exact (hwrite.header fun d => { d with
    dataSize := i32 (d.dataSize + calculateBlockSize data.length) }).writeDbHeader
      (le_max_of_le_left (by omega)) 4

end AgreeTo

/-! ## Chains in files that agree -/

/-- Stores of one chain with the same header agree as far as the data go. -/
theorem Tiled.agreeTo {s t : Store} {bs : List Block} (hs : Tiled s bs) (ht : Tiled t bs)
    (h : s.dbHeader = t.dbHeader) : AgreeTo (40 + total bs) s t := by
  obtain ⟨junk, hfile⟩ := hs.file
  obtain ⟨junk', hfile'⟩ := ht.file
  refine ⟨h, s.dbHeader.bytes ++ chain bs, junk, junk', by rw [hfile]; simp, ?_, ?_⟩
  · rw [hfile', h]
    simp
  · simp [bytes_header_length]

/-- A chain of one file is a chain of the other. -/
theorem AgreeTo.tiled {n : Nat} {s t : Store} {bs : List Block} (h : AgreeTo n s t)
    (hs : Tiled s bs) (hn : 40 + total bs ≤ n) : Tiled t bs := by
  obtain ⟨c, u, v, hfile, hfile', hc⟩ := h.file
  obtain ⟨junk, hchain⟩ := hs.file
  refine ⟨?_, by rw [← h.dbHeader]; exact hs.dataSize, hs.fits, hs.ids, hs.nodup⟩
  -- the common part reaches beyond the chain
  rw [hfile, ← List.append_assoc] at hchain
  rcases List.append_eq_append_iff.1 hchain with ⟨c', hc', -⟩ | ⟨c', hc', -⟩
  · have hlen := congrArg List.length hc'
    simp only [List.length_append, bytes_header_length, chain_length] at hlen
    obtain rfl : c' = [] := List.eq_nil_of_length_eq_zero (by omega)
    refine ⟨v, ?_⟩
    rw [hfile', ← h.dbHeader, ← List.append_assoc, hc', List.append_nil]
  · refine ⟨c' ++ v, ?_⟩
    rw [hfile', hc', ← h.dbHeader]
    simp

/-- The bytes say where a block ends. -/
theorem Block.eq_of_bytes {b b' : Block} {rest rest' : List UInt8}
    (hid : b.id = -1 ∨ 0 < b.id ∧ b.id < 2147483648)
    (hid' : b'.id = -1 ∨ 0 < b'.id ∧ b'.id < 2147483648) (hlen : b.length < 2147483648)
    (hlen' : b'.length < 2147483648) (h : b.bytes ++ rest = b'.bytes ++ rest') :
    b = b' ∧ rest = rest' := by
  have hread := @readHeader_block [] rest b 0 rfl (by omega) hlen
  have hread' := @readHeader_block [] rest' b' 0 rfl (by omega) hlen'
  rw [h, hread', Option.some.injEq] at hread
  obtain ⟨id, size, body, hbody⟩ := b
  obtain ⟨id', size', body', hbody'⟩ := b'
  simp only [Block.header, BlockHeader.mk.injEq] at hread
  obtain ⟨rfl, hsize⟩ := hread
  obtain rfl : size' = size := by exact_mod_cast hsize
  simp only [Block.bytes, Block.header, List.append_assoc, List.append_cancel_left_eq] at h
  obtain ⟨rfl, rfl⟩ := List.append_inj h (by rw [hbody, hbody'])
  exact ⟨rfl, rfl⟩

theorem chain_unique {bs : List Block} :
    ∀ {bs' : List Block} {junk junk' : List UInt8},
      (∀ b ∈ bs, b.id = -1 ∨ 0 < b.id ∧ b.id < 2147483648) →
      (∀ b ∈ bs', b.id = -1 ∨ 0 < b.id ∧ b.id < 2147483648) →
      total bs < 2147483648 → total bs' = total bs → chain bs ++ junk = chain bs' ++ junk' →
      bs = bs' := by
  induction bs with
  | nil =>
    intro bs' _ _ _ _ _ htotal _
    cases bs' with
    | nil => rfl
    | cons b' bs' =>
      have hlen := length_pos b'
      simp only [total_cons, total_nil] at htotal
      omega
  | cons b bs ih =>
    intro bs' junk junk' hids hids' hfits htotal heq
    cases bs' with
    | nil =>
      have hlen := length_pos b
      simp only [total_cons, total_nil] at htotal
      omega
    | cons b' bs' =>
      simp only [total_cons] at htotal hfits
      rw [List.forall_mem_cons] at hids hids'
      rw [chain_cons, chain_cons, List.append_assoc, List.append_assoc] at heq
      obtain ⟨rfl, hrest⟩ := Block.eq_of_bytes hids.1 hids'.1 (by omega) (by omega) heq
      rw [ih hids.2 hids'.2 (by omega) (by omega) hrest]

/-- **One file has one chain.** -/
theorem Tiled.chain_eq {s : Store} {bs bs' : List Block} (h : Tiled s bs) (h' : Tiled s bs') :
    bs = bs' := by
  obtain ⟨junk, hfile⟩ := h.file
  obtain ⟨junk', hfile'⟩ := h'.file
  have hdata := h.dataSize
  have hfits := h.fits
  rw [h'.dataSize] at hdata
  rw [hfile'] at hfile
  exact chain_unique h.ids h'.ids (by omega) (by omega) (List.append_cancel_left hfile).symm

/-! ## The parts of a call -/

/-- The first free block of at least the target size. -/
def firstFree (targetSize : Int) : Int → List Block → Option (Int × BlockHeader)
  | _, [] => none
  | o, b :: bs =>
    if b.id < 0 ∧ targetSize ≤ b.length then some (o, b.header)
    else firstFree targetSize (o + b.length) bs

theorem firstFree_some {targetSize : Int} {bs : List Block} {o : Int} {x : Int × BlockHeader}
    (h : firstFree targetSize o bs = some x) :
    ∃ l b r, bs = l ++ b :: r ∧ targetSize ≤ b.length ∧ x = (o + total l, b.header) := by
  induction bs generalizing o with
  | nil => cases h
  | cons b bs ih =>
    rw [firstFree] at h
    split at h
    · rename_i hfree
      cases h
      exact ⟨[], b, bs, rfl, hfree.2, by simp⟩
    · obtain ⟨l, b', r, rfl, hlen, rfl⟩ := ih h
      exact ⟨b :: l, b', r, rfl, hlen, by simp [Int.add_assoc]⟩

theorem freeBlockLoop_firstFree {file : List UInt8} (targetSize : Int) {bs : List Block} {o : Int}
    {fuel : Nat} (h : PieceAt file o bs) (hfuel : bs.length < fuel) :
    Store.freeBlockLoop file (o + total bs) targetSize fuel o = .ok (firstFree targetSize o bs) := by
  induction bs generalizing o fuel with
  | nil =>
    cases fuel with
    | zero => cases hfuel
    | succ fuel => simp [Store.freeBlockLoop, firstFree]
  | cons b bs ih =>
    cases fuel with
    | zero => cases hfuel
    | succ fuel =>
      obtain ⟨hread, hnext, hcalc, htail⟩ := h.cons
      have hlen := length_pos b
      have hsize : o + (total (b :: bs) : Nat) = o + b.length + total bs := by
        rw [total_cons]
        omega
      rw [Store.freeBlockLoop, if_pos (by rw [hsize]; omega), hread]
      simp only [hnext, hcalc, hsize, firstFree]
      by_cases hfree : b.id < 0 ∧ targetSize ≤ b.length
      · rw [if_pos hfree, if_pos (show b.header.id < 0 ∧ (b.length : Int) ≥ targetSize from hfree)]
      · rw [if_neg hfree, if_neg (show ¬ (b.header.id < 0 ∧ (b.length : Int) ≥ targetSize) from hfree),
          ih htail (by simpa using hfuel)]

theorem Tiled.getFreeBlock_eq {s : Store} {bs : List Block} (h : Tiled s bs) (numBytes : Int) :
    s.getFreeBlock numBytes = .ok (firstFree (calculateBlockSize numBytes) DB_HEADER_SIZE bs) := by
  rw [Store.getFreeBlock, h.getSize]
  exact freeBlockLoop_firstFree _ h.pieceAt h.fuel

/-- Two stores that differ at most behind their data. -/
def Agree (s t : Store) : Prop := ∃ n : Nat, AgreeTo n s t ∧ 40 ≤ n ∧ 40 + s.dbHeader.dataSize ≤ n

variable {cfg cfg' : Config} {s t : Store} {bs : List Block}

theorem Tiled.agree (hs : Tiled s bs) (ht : Tiled t bs) (h : s.dbHeader = t.dbHeader) : Agree s t :=
  ⟨40 + total bs, hs.agreeTo ht h, Nat.le_add_right .., by rw [hs.dataSize, Int.natCast_add]; rfl⟩

theorem Agree.dbHeader (h : Agree s t) : s.dbHeader = t.dbHeader := by
  obtain ⟨n, hto, -⟩ := h
  exact hto.dbHeader

theorem Agree.tiled (h : Agree s t) (hs : Tiled s bs) : Tiled t bs := by
  obtain ⟨n, hto, -, hn⟩ := h
  rw [hs.dataSize] at hn
  exact hto.tiled hs (by omega)

theorem Agree.header (h : Agree s t) (f : DbHeader → DbHeader)
    (hf : ∀ d, (f d).dataSize = d.dataSize) :
    Agree { s with dbHeader := f s.dbHeader } { t with dbHeader := f t.dbHeader } := by
  obtain ⟨n, hto, h₄, hn⟩ := h
  exact ⟨n, hto.header f, h₄, by rw [hf]; exact hn⟩

theorem Agree.writeDbHeader (h : Agree s t) {o : Nat} (ho : o ≤ 40) (k : Nat) :
    Agree (s.writeDbHeader o k) (t.writeDbHeader o k) := by
  obtain ⟨n, hto, h₄, hn⟩ := h
  exact ⟨n, hto.writeDbHeader (ho.trans h₄) k, h₄, hn⟩

/-- Two results with the same value, in stores that agree. -/
def Alike {α : Type} (x y : α × Store) : Prop := x.1 = y.1 ∧ Agree x.2 y.2

theorem Alike.reply {α : Type} {x y : Except RmsError α × Store} (h : Alike x y) (f : α → Reply) :
    Alike (Store.reply f x) (Store.reply f y) := by
  refine ⟨?_, h.2⟩
  simp only [Store.reply, h.1]

/-- **Compaction**, whether it shortens the file or not. -/
theorem compactRecords_agree (hs : Tiled s bs) (ht : Tiled t bs) (h : s.dbHeader = t.dbHeader) :
    ∃ s' t' bs', s.compactRecords cfg = (.ok (), s') ∧ t.compactRecords cfg' = (.ok (), t') ∧
      Tiled s' bs' ∧ Tiled t' bs' ∧ s'.dbHeader = t'.dbHeader ∧ total bs' ≤ total bs := by
  by_cases hfree : s.dbHeader.freeSize = 0
  · refine ⟨s, t, bs, ?_, ?_, hs, ht, h, Nat.le_refl _⟩
    · rw [Store.compactRecords, if_pos hfree]
    · rw [Store.compactRecords, if_pos (by rw [← h]; exact hfree)]
  · obtain ⟨s', hrun, htiled, hheader⟩ := hs.compactRecords cfg hfree
    obtain ⟨t', hrun', htiled', hheader'⟩ := ht.compactRecords cfg' (by rw [← h]; exact hfree)
    exact ⟨s', t', liveBlocks bs, hrun, hrun', htiled, htiled', by rw [hheader, hheader', h],
      total_liveBlocks_le bs⟩

/-- A block of the chain is written over. -/
theorem splitBlock_agree {l r : List Block} {b : Block} {data : List UInt8}
    (hs : Tiled s (l ++ b :: r)) (ht : Tiled t (l ++ b :: r)) (h : s.dbHeader = t.dbHeader)
    (hfit : blockBytes data.length ≤ b.length) (bh : BlockHeader) :
    Agree (s.splitBlock (40 + total l) bh data) (t.splitBlock (40 + total l) bh data) := by
  have hfits := hs.fits
  have hdata := hs.dataSize
  have hto := hs.agreeTo ht h
  rw [total_append_cons] at hfits hdata hto
  have hle : total l ≤ total (l ++ r) := by
    rw [total_append]
    omega
  have hsplit := @AgreeTo.splitBlock _ _ _ hto (40 + total l) data (by omega) (by omega) (by omega) bh
  refine ⟨_, hsplit, by omega, ?_⟩
  have hheader : (s.splitBlock (40 + total l) bh data).dbHeader.dataSize = s.dbHeader.dataSize := by
    rw [Store.splitBlock_dbHeader]
    dsimp only
    split <;> rfl
  rw [hheader, hdata]
  omega

/-- A block of the chain is freed. -/
theorem freeBlock_agree {l r : List Block} {b : Block} (hs : Tiled s (l ++ b :: r))
    (ht : Tiled t (l ++ b :: r)) (h : s.dbHeader = t.dbHeader) (bh : BlockHeader) :
    Agree (s.freeBlock (40 + total l) bh) (t.freeBlock (40 + total l) bh) := by
  have hdata := hs.dataSize
  have hto := hs.agreeTo ht h
  rw [total_append_cons] at hdata hto
  have hle : total l ≤ total (l ++ r) := by
    rw [total_append]
    omega
  have hfree := hto.freeBlock (o := 40 + total l) (by omega) (by omega) bh
  refine ⟨_, hfree, by omega, ?_⟩
  rw [Store.freeBlock_dbHeader, Store.withFreed, hdata]
  omega

/-- **`addBlock`** ends alike. -/
theorem addBlock_agree (hlimit : cfg.storageSuiteLimit = cfg'.storageSuiteLimit) (space id : Int)
    {data : List UInt8} (hs : Tiled s bs) (ht : Tiled t bs) (h : s.dbHeader = t.dbHeader)
    (hB : blockBytes data.length < 2147483648) :
    Alike (s.addBlock cfg space id data) (t.addBlock cfg' space id data) := by
  have hcalc : calculateBlockSize data.length = blockBytes data.length := calculateBlockSize_eq hB
  -- appending to stores of one chain
  have happend : ∀ {s₁ t₁ : Store} {bs₁ : List Block}, Tiled s₁ bs₁ → Tiled t₁ bs₁ →
      s₁.dbHeader = t₁.dbHeader → total bs₁ ≤ total bs →
      Agree (s₁.appendBlock id data) (t₁.appendBlock id data) := by
    intro s₁ t₁ bs₁ hs₁ ht₁ h₁ hle
    have hfits := hs₁.fits
    have hto := @AgreeTo.appendBlock _ _ _ (hs₁.agreeTo ht₁ h₁) (40 + total bs₁) data (Nat.le_refl _)
      (by omega) (by rw [hs₁.getSize]; norm_cast) id
    refine ⟨_, hto, by omega, ?_⟩
    have hdata := i32_le (x := s₁.dbHeader.dataSize + blockBytes data.length)
      (by rw [hs₁.dataSize]; omega)
    rw [Store.appendBlock_dbHeader, hcalc]
    rw [hs₁.dataSize] at hdata ⊢
    simp only
    omega
  have havail : s.getSizeAvailable cfg space = t.getSizeAvailable cfg' space := by
    rw [Store.getSizeAvailable, Store.getSizeAvailable, h, hlimit]
  simp only [Store.addBlock, hs.getFreeBlock_eq, ht.getFreeBlock_eq, hcalc, havail, h]
  split
  case h_1 => exact ⟨rfl, hs.agree ht h⟩
  case h_2 o header hfound =>
    split at hfound
    case isFalse => cases hfound
    case isTrue =>
      obtain ⟨l, b, r, rfl, hlen, hx⟩ := firstFree_some (Except.ok.inj hfound)
      obtain ⟨rfl, rfl⟩ := Prod.mk.inj hx
      exact ⟨rfl, splitBlock_agree hs ht h (by omega) _⟩
  case h_3 =>
    split
    · split
      · exact ⟨rfl, hs.agree ht h⟩
      · obtain ⟨s₁, t₁, bs₁, hrun, hrun', hs₁, ht₁, h₁, hle⟩ :=
          @compactRecords_agree cfg cfg' _ _ _ hs ht h
        rw [hrun, hrun']
        exact ⟨rfl, happend hs₁ ht₁ h₁ hle⟩
    · exact ⟨rfl, happend hs ht h (Nat.le_refl _)⟩

/-! ## Calls -/

/-- Two stores with the same chain and the same header. -/
structure Same (s t : Store) (bs : List Block) : Prop where
  left : Kept s bs
  right : Kept t bs
  counted : Counted s bs
  dbHeader : s.dbHeader = t.dbHeader

namespace Same

theorem agree (h : Same s t bs) (c c' : Option OffsetCache) :
    Agree (s.withCache c) (t.withCache c') :=
  (Store.tiled_withCache h.left.tiled c).agree (Store.tiled_withCache h.right.tiled c') h.dbHeader

/-- A lookup that hits no stale bytes in either store. -/
theorem getRecordHeader (h : Same s t bs) {id : Int} (hs : ¬ s.HitsStaleBytes id)
    (ht : ¬ t.HitsStaleBytes id) :
    (∃ c c', s.getRecordHeader id = (.error .invalidRecordID, s.withCache c) ∧
      t.getRecordHeader id = (.error .invalidRecordID, t.withCache c')) ∨
    ∃ l b r c c', bs = l ++ b :: r ∧ b.id = id ∧ 0 < id ∧
      s.getRecordHeader id = (.ok (40 + total l, b.header), s.withCache c) ∧
      t.getRecordHeader id = (.ok (40 + total l, b.header), t.withCache c') ∧ CacheOk bs c := by
  rcases h.left.getRecordHeader hs with ⟨c, heq, -⟩ | ⟨l, b, r, c, rfl, rfl, hpos, heq, hc⟩ <;>
    rcases h.right.getRecordHeader ht with ⟨c', heq', -⟩ | ⟨l', b', r', c', hbs, hid, hpos', heq', -⟩
  · exact .inl ⟨c, c', heq, heq'⟩
  · exact absurd hid (h.left.ne_of_invalid hpos' heq b' (by simp [hbs]))
  · exact absurd rfl (h.right.ne_of_invalid hpos heq' b (by simp))
  · -- a live id has one place in the chain
    have hloc : locate b.id DB_HEADER_SIZE (l ++ b :: r) = some (DB_HEADER_SIZE + total l, b.header) := by
      rw [locate_append, locate_eq_none.2 (h.left.tiled.unique hpos).1, Option.none_or, locate,
        if_pos rfl]
    have hloc' : locate b.id DB_HEADER_SIZE (l ++ b :: r) =
        some (DB_HEADER_SIZE + total l', b'.header) := by
      have htiled := h.left.tiled
      rw [hbs] at htiled ⊢
      rw [locate_append, ← hid, locate_eq_none.2 (htiled.unique (by omega)).1, Option.none_or,
        locate, if_pos rfl]
    rw [hloc, Option.some.injEq, Prod.mk.injEq] at hloc'
    obtain ⟨hoff, hheader⟩ := hloc'
    rw [← hheader, show (40 : Int) + total l' = 40 + total l by omega] at heq'
    exact .inr ⟨l, b, r, c, c', rfl, rfl, hpos, heq, heq', hc⟩

variable (hlimit : cfg.storageSuiteLimit = cfg'.storageSuiteLimit)
include hlimit

theorem addRecord {amb : Store.Ambient} {data : List UInt8} (h : Same s t bs)
    (hB : blockBytes data.length < 2147483648) :
    Alike (s.addRecord cfg amb data) (t.addRecord cfg' amb data) := by
  obtain ⟨hres, hagree⟩ := addBlock_agree hlimit amb.space s.getNextRecordID h.left.tiled
    h.right.tiled h.dbHeader hB
  have hnext : t.getNextRecordID = s.getNextRecordID := by
    rw [Store.getNextRecordID, Store.getNextRecordID, h.dbHeader]
  rw [Store.addRecord, Store.addRecord, hnext]
  generalize s.addBlock cfg amb.space s.getNextRecordID data = x at hres hagree ⊢
  generalize t.addBlock cfg' amb.space s.getNextRecordID data = y at hres hagree ⊢
  obtain ⟨r, s'⟩ := x
  obtain ⟨r', t'⟩ := y
  obtain rfl : r = r' := hres
  cases r with
  | error e => exact ⟨rfl, hagree⟩
  | ok u =>
    refine ⟨rfl, (hagree.header (fun d => { d with
      nextId := i32 (s.getNextRecordID + 1), numLive := i32 (d.numLive + 1)
      version := i32 (d.version + 1), lastModified := amb.time }) fun _ => rfl).writeDbHeader
        (by omega) 20⟩

theorem setRecord {amb : Store.Ambient} {id : Int} {data : List UInt8} (h : Same s t bs)
    (hs : ¬ s.HitsStaleBytes id) (ht : ¬ t.HitsStaleBytes id)
    (hB : (∃ b ∈ bs, b.id = id) → blockBytes data.length < 2147483648) :
    Alike (s.setRecord cfg amb id data) (t.setRecord cfg' amb id data) := by
  rcases h.getRecordHeader hs ht with ⟨c, c', heq, heq'⟩ |
    ⟨l, b, r, c, c', rfl, rfl, hpos, heq, heq', hc⟩
  · rw [Store.setRecord, Store.setRecord, heq, heq']
    exact ⟨rfl, h.agree c c'⟩
  have htiled := Store.tiled_withCache h.left.tiled c
  have htiled' := Store.tiled_withCache h.right.tiled c'
  have hold := htiled.blockSize (List.mem_append_right l (List.mem_cons_self ..))
  have hB' := hB ⟨b, by simp, rfl⟩
  have hput : Alike
      (if (blockBytes data.length : Int) ≤ b.length then
        ((.ok (), (s.withCache c).splitBlock (40 + total l) b.header data) : Except RmsError Unit × Store)
        else ((s.withCache c).freeBlock (40 + total l) b.header).addBlock cfg amb.space b.id data)
      (if (blockBytes data.length : Int) ≤ b.length then
        ((.ok (), (t.withCache c').splitBlock (40 + total l) b.header data) : Except RmsError Unit × Store)
        else ((t.withCache c').freeBlock (40 + total l) b.header).addBlock cfg' amb.space b.id data) := by
    split
    · exact ⟨rfl, splitBlock_agree htiled htiled' h.dbHeader (by omega) _⟩
    · have hfree := freeBlock_agree htiled htiled' h.dbHeader b.header
      obtain ⟨fb, -, -, hfreed, -⟩ :=
        Store.freeBlock_tiled htiled hc (show b.header.size = b.size from rfl)
      exact addBlock_agree hlimit amb.space b.id hfreed (hfree.tiled hfreed) hfree.dbHeader hB'
  rw [Store.setRecord, Store.setRecord, heq, heq']
  simp only [calculateBlockSize_eq hB', hold]
  obtain ⟨x, hx⟩ : ∃ x, (if (blockBytes data.length : Int) ≤ b.length then
        ((.ok (), (s.withCache c).splitBlock (40 + total l) b.header data) : Except RmsError Unit × Store)
        else ((s.withCache c).freeBlock (40 + total l) b.header).addBlock cfg amb.space b.id data) = x :=
    ⟨_, rfl⟩
  obtain ⟨y, hy⟩ : ∃ y, (if (blockBytes data.length : Int) ≤ b.length then
        ((.ok (), (t.withCache c').splitBlock (40 + total l) b.header data) : Except RmsError Unit × Store)
        else ((t.withCache c').freeBlock (40 + total l) b.header).addBlock cfg' amb.space b.id data) = y :=
    ⟨_, rfl⟩
  rw [hx, hy] at hput ⊢
  obtain ⟨r₁, s'⟩ := x
  obtain ⟨r₂, t'⟩ := y
  obtain ⟨rfl, hagree⟩ := hput
  cases r₁ with
  | error e => exact ⟨rfl, hagree⟩
  | ok u =>
    exact ⟨rfl, (hagree.header (fun d => { d with
      version := i32 (d.version + 1), lastModified := amb.time }) fun _ => rfl).writeDbHeader
        (by lia) 12⟩

omit hlimit in
theorem deleteRecord {amb : Store.Ambient} {id : Int} (h : Same s t bs)
    (hs : ¬ s.HitsStaleBytes id) (ht : ¬ t.HitsStaleBytes id) :
    Alike (s.deleteRecord amb id) (t.deleteRecord amb id) := by
  rw [Store.deleteRecord, Store.deleteRecord]
  rcases h.getRecordHeader hs ht with ⟨c, c', heq, heq'⟩ |
    ⟨l, b, r, c, c', rfl, rfl, hpos, heq, heq', hc⟩
  · rw [heq, heq']
    exact ⟨rfl, h.agree c c'⟩
  · rw [heq, heq']
    have hfree := freeBlock_agree (Store.tiled_withCache h.left.tiled c)
      (Store.tiled_withCache h.right.tiled c') h.dbHeader b.header
    have hindex : Agree (((s.withCache c).freeBlock (40 + total l) b.header).deleteRecordIndex b.id)
        (((t.withCache c').freeBlock (40 + total l) b.header).deleteRecordIndex b.id) := by
      obtain ⟨n, hto, h₄, hn⟩ := hfree
      exact ⟨n, hto.caches _ _, h₄, hn⟩
    exact ⟨rfl, (hindex.header (fun d => { d with
      numLive := i32 (d.numLive - 1), version := i32 (d.version + 1), lastModified := amb.time })
        fun _ => rfl).writeDbHeader (by omega) 16⟩

omit hlimit in
theorem getRecord {id : Int} (h : Same s t bs) (hs : ¬ s.HitsStaleBytes id)
    (ht : ¬ t.HitsStaleBytes id) : Alike (s.getRecord id) (t.getRecord id) := by
  rw [Store.getRecord, Store.getRecord]
  rcases h.getRecordHeader hs ht with ⟨c, c', heq, heq'⟩ |
    ⟨l, b, r, c, c', rfl, rfl, hpos, heq, heq', -⟩
  · rw [heq, heq']
    exact ⟨rfl, h.agree c c'⟩
  · rw [heq, heq']
    have hread := (Store.tiled_withCache h.left.tiled c).read_data
    have hread' := (Store.tiled_withCache h.right.tiled c').read_data
    dsimp only
    split
    · exact ⟨rfl, h.agree c c'⟩
    · rw [hread, hread']
      exact ⟨rfl, h.agree c c'⟩

omit hlimit in
theorem getRecordSize {id : Int} (h : Same s t bs) (hs : ¬ s.HitsStaleBytes id)
    (ht : ¬ t.HitsStaleBytes id) : Alike (s.getRecordSize id) (t.getRecordSize id) := by
  rw [Store.getRecordSize, Store.getRecordSize]
  rcases h.getRecordHeader hs ht with ⟨c, c', heq, heq'⟩ |
    ⟨l, b, r, c, c', rfl, rfl, hpos, heq, heq', -⟩ <;>
  · rw [heq, heq']
    exact ⟨rfl, h.agree c c'⟩

omit hlimit in
/-- Closing and opening again. -/
theorem reopen (h : Same s t bs) : Alike (s.reopen cfg) (t.reopen cfg') := by
  obtain ⟨s', t', bs', hrun, hrun', hs', ht', h', -⟩ :=
    @compactRecords_agree cfg cfg' _ _ _ h.left.tiled h.right.tiled h.dbHeader
  have hread : ∀ {u : Store}, Tiled u bs' → DbHeader.read u.file = some u.dbHeader.toInts := by
    intro u hu
    obtain ⟨junk, hfile⟩ := hu.file
    rw [hfile]
    exact DbHeader.read_bytes ..
  have hints : ∀ {u : Store}, Tiled u bs' →
      Tiled { dbHeader := u.dbHeader.toInts, file := u.file } bs' := by
    intro u hu
    have hfits := hu.fits
    obtain ⟨junk, hfile⟩ := hu.file
    refine ⟨⟨junk, by rw [DbHeader.bytes_toInts]; exact hfile⟩, ?_, hfits, hu.ids, hu.nodup⟩
    show i32 u.dbHeader.dataSize = total bs'
    rw [hu.dataSize, i32_of_range (by omega)]
  rw [Store.reopen, Store.reopen, hrun, hrun']
  simp only [hread hs', hread ht']
  exact ⟨rfl, (hints hs').agree (hints ht') (congrArg DbHeader.toInts h')⟩

/-- **Every call** replies the same in both stores. -/
theorem call {c : Call} (h : Same s t bs) (hs : s.CallOk c) (ht : t.CallOk c) :
    Alike (s.call cfg c) (t.call cfg' c) := by
  cases c with
  | addRecord amb data =>
    have hfits : blockBytes data.length < 2147483648 := by
      have := hs.2
      have hnonneg : 0 ≤ s.liveSize 0 := by
        rw [Store.liveSize_eq h.left.tiled]
        exact Int.natCast_nonneg _
      simp only [Store.Fits, DB_HEADER_SIZE] at this
      omega
    exact (h.addRecord hlimit hfits).reply _
  | setRecord amb id data =>
    refine (h.setRecord hlimit hs.1 ht.1 ?_).reply _
    rintro ⟨b, hb, rfl⟩
    have hfits := hs.2 ⟨b.header, by
      rw [Store.blockHeaders_eq h.left.tiled]
      exact List.mem_map_of_mem hb, rfl⟩
    have hnonneg : 0 ≤ s.liveSize b.id := by
      rw [Store.liveSize_eq h.left.tiled]
      exact Int.natCast_nonneg _
    simp only [Store.Fits, DB_HEADER_SIZE] at hfits
    omega
  | deleteRecord amb id => exact (h.deleteRecord hs ht).reply _
  | getRecord id => exact (h.getRecord hs ht).reply _
  | getRecordSize id => exact (h.getRecordSize hs ht).reply _
  | getRecordIDs =>
    have hnum : Counted t bs := by
      rw [Counted, ← h.dbHeader]
      exact h.counted
    refine ⟨?_, h.agree s.recordIdOffsets t.recordIdOffsets⟩
    show Reply.ids s.getRecordIDs = Reply.ids t.getRecordIDs
    rw [Store.getRecordIDs_eq h.left.tiled h.counted, Store.getRecordIDs_eq h.right.tiled hnum]
  | getNumRecords =>
    refine ⟨?_, h.agree s.recordIdOffsets t.recordIdOffsets⟩
    show Reply.size s.getNumRecords = Reply.size t.getNumRecords
    rw [Store.getNumRecords, Store.getNumRecords, h.dbHeader]
  | reopen => exact h.reopen.reply _

/-- **The step lemma.** -/
theorem step {c : Call} (h : Same s t bs) (hs : s.CallOk c) (ht : t.CallOk c)
    (hfull : (s.call cfg c).1 ≠ .throws .recordStoreFull) :
    ∃ bs', Same (s.call cfg c).2 (t.call cfg' c).2 bs' := by
  have hupdate : ∀ {u : Store}, u.CallOk c → u.UpdateOk c := by
    intro u hu
    cases c <;> first | exact hu | trivial
  obtain ⟨-, hagree⟩ := h.call hlimit hs ht
  obtain ⟨bs₁, h₁⟩ := h.left.call cfg (hupdate hs)
  obtain ⟨bs₂, h₂⟩ := h.right.call cfg' (hupdate ht)
  -- the second file has the chain of the first, and no other
  obtain rfl := (hagree.tiled h₁.kept.tiled).chain_eq h₂.kept.tiled
  exact ⟨bs₁, h₁.kept, h₂.kept, h₁.counted hfull h.counted, hagree.dbHeader⟩

omit hlimit in
/-- What the two stores show is the same. -/
theorem observe (h : Same s t bs) : s.observe = t.observe := by
  have hnum : Counted t bs := by
    rw [Counted, ← h.dbHeader]
    exact h.counted
  have hcontents : s.contents = t.contents := by
    funext id
    rw [h.left.tiled.contents_eq, h.right.tiled.contents_eq]
  have hids : s.getRecordIDs = t.getRecordIDs := by
    rw [Store.getRecordIDs_eq h.left.tiled h.counted, Store.getRecordIDs_eq h.right.tiled hnum]
  rw [Store.observe, Store.observe, hcontents, hids, Store.getNumRecords, Store.getNumRecords,
    Store.getVersion, Store.getVersion, Store.getNextRecordID, Store.getNextRecordID, h.dbHeader]

end Same

/-! ## Runs of both stores -/

/-- The configuration in which `truncateFile` shortens the file, or only seeks. -/
def Config.truncating (cfg : Config) (shrinks : Bool) : Config := { cfg with shrinks := shrinks }

/-- One call on both stores: the first one's file is really shortened. -/
def bothCalls (cfg : Config) (p : Store × Store) (c : Call) : (Reply × Reply) × (Store × Store) :=
  let r := p.1.call (cfg.truncating true) c
  let r' := p.2.call (cfg.truncating false) c
  ((r.1, r'.1), (r.2, r'.2))

def BothStep (cfg : Config) (p : Store × Store) (c : Call) (p' : Store × Store) : Prop :=
  (bothCalls cfg p c).2 = p'

/-- Neither of the replies is one of the exceptions that are left out. -/
def Unfailing (cfg : Config) (p : Store × Store) (c : Call) : Prop :=
  ∀ e ∈ [RmsError.recordStoreFull, RmsError.io], (bothCalls cfg p c).1.1 ≠ .throws e ∧
    (bothCalls cfg p c).1.2 ≠ .throws e

instance (cfg : Config) (p : Store × Store) (c : Call) : Decidable (Unfailing cfg p c) :=
  inferInstanceAs (Decidable (∀ _ ∈ _, _))

/-- The call hits no stale bytes and overflows no `int`, in either of the stores. -/
def BothOk (p : Store × Store) (c : Call) : Prop := p.1.CallOk c ∧ p.2.CallOk c

instance (p : Store × Store) (c : Call) : Decidable (BothOk p c) :=
  inferInstanceAs (Decidable (_ ∧ _))

/-- **Truncation cannot be seen.** After every run whose calls hit no stale bytes, the two stores
show the same and reply the same to the next call that hits none. -/
theorem truncation_invisible {time : Int × Int} {cs : List Call} {p : Store × Store}
    (hrun : Lts.Run (Lts.Guarded (BothStep cfg) fun p c => Unfailing cfg p c ∧ BothOk p c)
      (Store.create time, Store.create time) cs p) :
    p.1.observe = p.2.observe ∧
      ∀ c, BothOk p c → (bothCalls cfg p c).1.1 = (bothCalls cfg p c).1.2 := by
  have hlimit : (cfg.truncating true).storageSuiteLimit =
      (cfg.truncating false).storageSuiteLimit := rfl
  have hstart : Same (Store.create time) (Store.create time) [] :=
    ⟨.create time, .create time, rfl, rfl⟩
  obtain ⟨bs, h⟩ : ∃ bs, Same p.1 p.2 bs := by
    refine hrun.invariant (I := fun p => ∃ bs, Same p.1 p.2 bs) ?_ ⟨[], hstart⟩
    rintro p c p' ⟨bs, h⟩ ⟨⟨hunfailing, hok⟩, hstep⟩
    rw [← show (bothCalls cfg p c).2 = p' from hstep]
    exact h.step hlimit hok.1 hok.2 (hunfailing .recordStoreFull (by simp)).1
  exact ⟨h.observe, fun c hok => (h.call hlimit hok.1 hok.2).1⟩

/-- Record 1 is deleted and compacted away; behind the end of one of the files old bytes stay. -/
theorem truncation_invisible_mixed : ∃ p : Store × Store, p.1.file ≠ p.2.file ∧
    p.1.observe = p.2.observe := by
  let cfg : Config := { storageSuiteLimit := 100, limit_int := by decide }
  obtain ⟨p, hrun, hfile⟩ := Lts.Run.exists_of_exec
    (fun p c => (.ok (bothCalls cfg p c).2 : Except Unit (Store × Store)))
    (fun p c => decide (Unfailing cfg p c ∧ BothOk p c)) (fun p => p.1.file ≠ p.2.file)
    (Store.create (0, 0), Store.create (0, 0))
    [.addRecord ⟨1000, 1, 2⟩ [1], .addRecord ⟨1000, 1, 2⟩ [2, 3], .deleteRecord ⟨1000, 1, 3⟩ 1,
      .reopen]
    (by decide +kernel)
  exact ⟨p, hfile, (truncation_invisible (hrun.mono fun _ _ _ h =>
    ⟨of_decide_eq_true h.1, Except.ok.inj h.2⟩)).1⟩

/-- Record 4 spells a header for the id 100 at an offset where a failed lookup has been; then it is
deleted and compacted away.  A file that is only seeked in still has the bytes. -/
theorem truncation_visible : ¬ ∀ (cfg : Config) (time : Int × Int) (cs : List Call)
    (p : Store × Store) (c : Call), Lts.Run (Lts.Guarded (BothStep cfg) (Unfailing cfg))
      (Store.create time, Store.create time) cs p → Unfailing cfg p c →
      (bothCalls cfg p c).1.1 = (bothCalls cfg p c).1.2 := by
  intro h
  let cfg : Config := { storageSuiteLimit := 100, limit_int := by decide }
  obtain ⟨p, hrun, hok, hne⟩ := Lts.Run.exists_of_exec
    (fun p c => (.ok (bothCalls cfg p c).2 : Except Unit (Store × Store))) (fun p c => decide (Unfailing cfg p c))
    (fun p => Unfailing cfg p (.getRecord 100) ∧
      (bothCalls cfg p (.getRecord 100)).1.1 ≠ (bothCalls cfg p (.getRecord 100)).1.2)
    (Store.create (0, 0), Store.create (0, 0))
    [.addRecord ⟨1000, 1, 2⟩ (List.replicate 24 1), .addRecord ⟨1000, 1, 2⟩ (List.replicate 8 2),
      .getRecord 100, .deleteRecord ⟨1000, 1, 3⟩ 1, .deleteRecord ⟨1000, 1, 3⟩ 2,
      .addRecord ⟨1000, 1, 4⟩ (List.replicate 8 3),
      .addRecord ⟨1000, 1, 4⟩ (List.replicate 8 4 ++ [0, 0, 0, 100, 0, 0, 0, 5]),
      .deleteRecord ⟨1000, 1, 5⟩ 3, .deleteRecord ⟨1000, 1, 5⟩ 4,
      .addRecord ⟨1000, 1, 6⟩ (List.replicate 24 5)]
    (by decide +kernel)
  exact hne (h cfg (0, 0) _ p (.getRecord 100) (hrun.mono fun _ _ _ h =>
    ⟨of_decide_eq_true h.1, Except.ok.inj h.2⟩) hok)

end FroggyKVM.Rms
