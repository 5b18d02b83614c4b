/-
# FroggyKVM.Rms.Search — the index finds the block of a live record.

A scan of a well-formed chain computes `locate`.  The offset cache may hold anything about ids that
are not live: every offset a failed search visits is remembered under the id that was not found.
What it holds about live ids is right (`CacheOk`), and what it holds about an id that is not live
does harm only when the bytes at that offset happen to be a header with this id (`StaleHit`).
-/
import FroggyKVM.Rms.Layout

namespace FroggyKVM.Rms

/-! ## Looking up a chain -/

/-- Where the first block with id `id` starts, in a chain that starts at `o`. -/
def locate (id : Int) : Int → List Block → Option (Int × BlockHeader)
  | _, [] => none
  | o, b :: bs => if b.id = id then some (o, b.header) else locate id (o + b.length) bs

theorem locate_append (id : Int) :
    ∀ (o : Int) (l r : List Block),
      locate id o (l ++ r) = (locate id o l).or (locate id (o + total l) r)
  | o, [], r => by simp [locate]
  | o, b :: l, r => by
    rw [List.cons_append, locate, locate, locate_append id (o + b.length) l r]
    split
    · rfl
    · simp [Int.add_assoc]

theorem locate_eq_none {id o : Int} {bs : List Block} :
    locate id o bs = none ↔ ∀ b ∈ bs, b.id ≠ id := by
  induction bs generalizing o with
  | nil => simp [locate]
  | cons b bs ih =>
    rw [locate, List.forall_mem_cons]
    split <;> simp_all

theorem locate_eq_some {id o p : Int} {h : BlockHeader} {bs : List Block} :
    locate id o bs = some (p, h) →
      ∃ l b r, bs = l ++ b :: r ∧ b.id = id ∧ (∀ x ∈ l, x.id ≠ id) ∧ p = o + total l ∧
        h = b.header := by
  induction bs generalizing o with
  | nil => simp [locate]
  | cons b bs ih =>
    rw [locate]
    split
    · rintro ⟨⟩
      exact ⟨[], b, bs, rfl, ‹_›, by simp, by simp, rfl⟩
    · intro h
      obtain ⟨l, b', r, rfl, hid, hl, rfl, rfl⟩ := ih h
      refine ⟨b :: l, b', r, rfl, hid, ?_, ?_, rfl⟩
      · simpa using ⟨‹_›, hl⟩
      · simp [Int.add_assoc]

/-- `off` is the start of a block, in a chain that starts at `o`. -/
def Boundary (o : Int) (bs : List Block) (off : Int) : Prop :=
  ∃ l b r, bs = l ++ b :: r ∧ off = o + total l

theorem Boundary.cons {o off : Int} {b : Block} {bs : List Block}
    (h : Boundary (o + b.length) bs off) : Boundary o (b :: bs) off := by
  obtain ⟨l, b', r, rfl, rfl⟩ := h
  exact ⟨b :: l, b', r, rfl, by simp [Int.add_assoc]⟩

theorem Boundary.append {o off : Int} {l bs : List Block} (h : Boundary (o + total l) bs off) :
    Boundary o (l ++ bs) off := by
  obtain ⟨l', b', r, rfl, rfl⟩ := h
  exact ⟨l ++ l', b', r, by simp, by simp [Int.add_assoc]⟩

/-! ## Well-formed stores -/

/-- The ids of the live blocks. -/
def liveIds (bs : List Block) : List Int := (bs.filter Block.live).map Block.id

/-- The store's file is its header and the chain `bs` (and perhaps bytes behind its end); ids are
`-1` or positive, and no positive id occurs twice. -/
structure Tiled (s : Store) (bs : List Block) : Prop where
  file : ∃ junk, s.file = s.dbHeader.bytes ++ (chain bs ++ junk)
  dataSize : s.dbHeader.dataSize = total bs
  fits : 40 + total bs < 2147483648
  ids : ∀ b ∈ bs, b.id = -1 ∨ 0 < b.id ∧ b.id < 2147483648
  nodup : (liveIds bs).Nodup

theorem Tiled.getSize {s : Store} {bs : List Block} (h : Tiled s bs) :
    s.getSize = 40 + total bs := by
  have := h.fits
  rw [Store.getSize, h.dataSize]
  simp only [DB_HEADER_SIZE]
  rw [i32_of_range (by omega)]

theorem Tiled.fuel {s : Store} {bs : List Block} (h : Tiled s bs) : bs.length < s.fuel := by
  obtain ⟨junk, hfile⟩ := h.file
  have := length_le_total bs
  rw [Store.fuel, hfile]
  simp only [List.length_append, chain_length]
  omega

/-- The size the code computes for a block. -/
theorem Tiled.blockSize {s : Store} {bs : List Block} (h : Tiled s bs) {b : Block} (hb : b ∈ bs) :
    calculateBlockSize b.header.size = b.length := by
  obtain ⟨l, r, rfl⟩ := List.append_of_mem hb
  have hfits := h.fits
  rw [total_append, total_cons] at hfits
  exact Block.blockSize (by omega)

/-- The block of a live id is the only one with this id. -/
theorem Tiled.unique {s : Store} {l r : List Block} {b : Block} (h : Tiled s (l ++ b :: r))
    (hb : 0 < b.id) : (∀ x ∈ l, x.id ≠ b.id) ∧ ∀ x ∈ r, x.id ≠ b.id := by
  have hn := h.nodup
  have hlive : b.live = true := by simpa [Block.live] using hb
  rw [liveIds, List.filter_append, List.filter_cons_of_pos hlive, List.map_append, List.map_cons,
    List.nodup_middle, List.nodup_cons, List.mem_append, not_or] at hn
  have hmem : ∀ (xs : List Block) (x : Block), x ∈ xs → x.id = b.id →
      b.id ∈ (xs.filter Block.live).map Block.id := fun xs x hx hid =>
    List.mem_map.2 ⟨x, List.mem_filter.2 ⟨hx, by simpa [Block.live, hid] using hb⟩, hid⟩
  exact ⟨fun x hx hid => hn.1.1 (hmem l x hx hid), fun x hx hid => hn.1.2 (hmem r x hx hid)⟩

/-- The bytes behind the header of a block are its data. -/
theorem Tiled.read_data {s : Store} {l r : List Block} {b : Block} (h : Tiled s (l ++ b :: r)) :
    (s.file.drop ((40 : Int) + total l + BLOCK_HEADER_SIZE).toNat).take b.header.size.toNat =
      b.data := by
  obtain ⟨junk, hfile⟩ := h.file
  have hbody := b.body_length
  have hpre : ((40 : Int) + total l + BLOCK_HEADER_SIZE).toNat =
      (s.dbHeader.bytes ++ (chain l ++ b.header.bytes)).length := by
    simp [bytes_header_length, BLOCK_HEADER_SIZE, BlockHeader.bytes]
    omega
  have hsplit : s.file = (s.dbHeader.bytes ++ (chain l ++ b.header.bytes)) ++
      (b.body ++ (chain r ++ junk)) := by
    rw [hfile]
    simp [Block.bytes]
  rw [hpre, hsplit, List.drop_left]
  exact List.take_append_of_le_length (by simp only [Block.header]; omega)

/-! ## The scan -/

/-- What a search for `id` through the chain `bs` at `o` does to the cache. -/
def Searched (o : Int) (bs : List Block) (id : Int) (found : Option (Int × BlockHeader)) :
    Option OffsetCache → Option OffsetCache → Prop
  | none, cache => cache = none
  | some c, cache => ∃ c₁, cache = some c₁ ∧ (∀ k ≠ id, c₁.elementAt k = c.elementAt k) ∧
      (c₁.LastSeenOffset = c.LastSeenOffset ∨ Boundary o bs c₁.LastSeenOffset) ∧
      ∀ o' h, found = some (o', h) → c₁.elementAt id = o'

/-- **The scan computes `locate`**, and remembers only offsets of blocks. -/
theorem searchLoop_eq (file : List UInt8) (id : Int) :
    ∀ (bs : List Block) (pre post : List UInt8) (fuel : Nat) (o : Int) (cache : Option OffsetCache),
      file = pre ++ (chain bs ++ post) → (pre.length : Int) = o → bs.length < fuel →
      o + total bs < 2147483648 →
      (∀ b ∈ bs, b.id = -1 ∨ 0 < b.id ∧ b.id < 2147483648) →
      ∃ cache', Store.searchLoop file id (o + total bs) fuel o cache =
          (.ok (locate id o bs), cache') ∧ Searched o bs id (locate id o bs) cache cache'
  | [], pre, post, fuel + 1, o, cache, _, _, _, _, _ => by
    refine ⟨cache, by simp [Store.searchLoop, locate], ?_⟩
    cases cache with
    | none => rfl
    | some c => exact ⟨c, rfl, fun _ _ => rfl, .inl rfl, by simp [locate]⟩
  | b :: bs, pre, post, fuel + 1, o, cache, hfile, ho, hfuel, hfits, hids => by
    have hlen := length_pos b
    simp only [List.length_cons, total_cons, List.forall_mem_cons] at hfuel hfits hids
    have hread : readHeader file o = some b.header := by
      rw [hfile, chain_cons, List.append_assoc]
      exact readHeader_block ho (by omega) (by omega)
    have hblock : calculateBlockSize b.header.size = b.length :=
      Block.blockSize (by omega)
    have hnext : i32 (o + b.length) = o + b.length := i32_of_range (by omega)
    have hid : b.header.id = b.id := rfl
    unfold Store.searchLoop
    rw [if_neg (by simp only [total_cons]; omega), hread]
    simp only [hblock, hnext, locate, hid]
    split
    case isTrue hfound =>
      refine ⟨_, rfl, ?_⟩
      cases cache with
      | none => rfl
      | some c =>
        refine ⟨_, rfl, fun k hk => ?_, .inr ⟨[], b, bs, rfl, by simp⟩, ?_⟩
        · exact (c.elementAt_setElementAt o id k).trans (if_neg hk)
        · rintro _ _ ⟨⟩
          exact (c.elementAt_setElementAt o id id).trans (if_pos rfl)
    case isFalse =>
      obtain ⟨cache', hloop, hcache⟩ := searchLoop_eq file id bs (pre ++ b.bytes) post fuel
        (o + b.length) (cache.map fun c => { c.setElementAt o id with LastSeenOffset := o })
        (by rw [hfile]; simp) (by simp; lia) (by lia) (by lia) hids.2
      rw [total_cons, show o + ((b.length + total bs : Nat) : Int) = o + b.length + total bs by omega]
      refine ⟨cache', hloop, ?_⟩
      cases cache with
      | none => exact hcache
      | some c =>
        obtain ⟨c₁, rfl, hkeys, hlast, hfound⟩ := hcache
        refine ⟨c₁, rfl, fun k hk => ?_, .inr ?_, hfound⟩
        · exact (hkeys k hk).trans ((c.elementAt_setElementAt o id k).trans (if_neg hk))
        · rcases hlast with hlast | hlast
          · rw [hlast]
            exact ⟨[], b, bs, rfl, by simp⟩
          · exact hlast.cons

/-! ## The cache -/

/-- The cache knows nothing wrong about the live ids among `K`, and a search can start at
`LastSeenOffset`. -/
structure CacheOkFor (K : Int → Prop) (bs : List Block) (c : OffsetCache) : Prop where
  live : ∀ k o h, K k → 0 < k → locate k DB_HEADER_SIZE bs = some (o, h) →
    c.elementAt k = INVALID_OFFSET ∨ c.elementAt k = o
  lastSeen : c.LastSeenOffset = NO_OFFSET ∨ Boundary DB_HEADER_SIZE bs c.LastSeenOffset

/-- The cache of a store, if there is one, is right about `K`. -/
def CachesRight (K : Int → Prop) (bs : List Block) (cache : Option OffsetCache) : Prop :=
  ∀ c, cache = some c → CacheOkFor K bs c

/-- The cache of a store, if there is one, is right about all live ids. -/
def CacheOk (bs : List Block) (cache : Option OffsetCache) : Prop :=
  CachesRight (fun _ => True) bs cache

theorem CachesRight.empty (K : Int → Prop) (bs : List Block) : CachesRight K bs (some {}) := by
  rintro _ ⟨⟩
  exact ⟨fun _ _ _ _ _ _ => .inl rfl, .inl rfl⟩

theorem CachesRight.mono {K K' : Int → Prop} {bs : List Block} {cache : Option OffsetCache}
    (h : CachesRight K bs cache) (hK : ∀ k, K' k → K k) : CachesRight K' bs cache :=
  fun c hc => ⟨fun k o h' hk => (h c hc).live k o h' (hK k hk), (h c hc).lastSeen⟩

/-- A search keeps the cache right about other ids, and about its own id if it ends with what is
true of it. -/
theorem Searched.cachesRight {K : Int → Prop} {bs : List Block} {id o : Int}
    {found : Option (Int × BlockHeader)} {l r : List Block} {cache cache' : Option OffsetCache}
    (hbs : bs = l ++ r) (ho : o = DB_HEADER_SIZE + total l)
    (hcache : CachesRight (· ≠ id) bs cache) (h : Searched o r id found cache cache')
    (hfound : K id → ∀ x, 0 < id → locate id DB_HEADER_SIZE bs = some x → found = some x) :
    CachesRight K bs cache' := by
  subst hbs ho
  cases cache with
  | none =>
    rw [show cache' = none from h]
    rintro _ ⟨⟩
  | some c =>
    obtain ⟨c₁, rfl, hkeys, hlast, hid⟩ := h
    rintro _ ⟨⟩
    have hc := hcache c rfl
    refine ⟨fun k o' h' hK hk hloc => ?_, ?_⟩
    · rcases eq_or_ne k id with rfl | hne
      · exact .inr (hid o' h' (hfound hK _ hk hloc))
      · rw [hkeys k hne]
        exact hc.live k o' h' hne hk hloc
    · rcases hlast with hlast | hlast
      · rw [hlast]
        exact hc.lastSeen
      · exact .inr hlast.append

/-! ## `getRecordHeader` -/

namespace Store

/-- The store with another cache. -/
def withCache (s : Store) (cache : Option OffsetCache) : Store := { s with recordIdOffsets := cache }

theorem tiled_withCache {s : Store} {bs : List Block} (h : Tiled s bs)
    (cache : Option OffsetCache) : Tiled (s.withCache cache) bs :=
  ⟨h.file, h.dataSize, h.fits, h.ids, h.nodup⟩

/-- A search from any boundary of the chain. -/
theorem searchFrom_eq {s : Store} {l r : List Block} (h : Tiled s (l ++ r)) (id : Int) :
    ∃ cache', s.searchFrom id (DB_HEADER_SIZE + total l) =
        (.ok (locate id (DB_HEADER_SIZE + total l) r), s.withCache cache') ∧
      Searched (DB_HEADER_SIZE + total l) r id (locate id (DB_HEADER_SIZE + total l) r)
        s.recordIdOffsets cache' := by
  obtain ⟨junk, hfile⟩ := h.file
  have hfits := h.fits
  have hfuel := h.fuel
  rw [total_append] at hfits
  rw [List.length_append] at hfuel
  obtain ⟨cache', hloop, hcache⟩ := searchLoop_eq s.file id r (s.dbHeader.bytes ++ chain l) junk
    s.fuel (DB_HEADER_SIZE + total l) s.recordIdOffsets (by rw [hfile]; simp)
    (by simp [bytes_header_length, DB_HEADER_SIZE]) (by omega)
    (by simp only [DB_HEADER_SIZE]; omega) (fun b hb => h.ids b (List.mem_append_right _ hb))
  refine ⟨cache', ?_, hcache⟩
  have hsize : s.getSize = DB_HEADER_SIZE + total l + total r := by
    rw [h.getSize]
    simp [DB_HEADER_SIZE, Int.add_assoc]
  rw [searchFrom, hsize, hloop]
  rfl

/-- What a lookup of `id` returns when it goes by the chain alone. -/
def lookup (id : Int) (bs : List Block) : Except RmsError (Int × BlockHeader) :=
  match locate id DB_HEADER_SIZE bs with
  | some found => .ok found
  | none => .error .invalidRecordID

/-- The second search, after whatever the first one has remembered about `id`. -/
theorem searchFromStart_eq {s : Store} {bs : List Block} (h : Tiled s bs) {id : Int}
    {cache : Option OffsetCache} (hcache : CachesRight (· ≠ id) bs cache) :
    ∃ cache', (s.withCache cache).searchFromStart id = (lookup id bs, s.withCache cache') ∧
      CacheOk bs cache' := by
  have hzero : DB_HEADER_SIZE + ((total [] : Nat) : Int) = DB_HEADER_SIZE := by simp
  obtain ⟨cache', heq, hsearched⟩ := searchFrom_eq (l := []) (tiled_withCache h cache) id
  rw [hzero] at heq hsearched
  refine ⟨cache', ?_, hsearched.cachesRight (l := []) rfl hzero.symm hcache fun _ _ _ h => h⟩
  unfold searchFromStart lookup
  rw [heq]
  cases locate id DB_HEADER_SIZE bs <;> rfl

/-- **Without the cached offset of the id itself**, a record is found exactly when it is live. -/
theorem getRecordHeader_NoCache_eq {s : Store} {bs : List Block} (h : Tiled s bs)
    (hc : CacheOk bs s.recordIdOffsets) {id : Int} (hid : 0 < id) :
    ∃ cache', s.getRecordHeader_NoCache id = (lookup id bs, s.withCache cache') ∧
      CacheOk bs cache' := by
  unfold getRecordHeader_NoCache
  simp only
  split
  case isFalse => exact searchFromStart_eq h (hc.mono fun _ _ => trivial)
  case isTrue hseen =>
    obtain ⟨c, hcache⟩ : ∃ c, s.recordIdOffsets = some c := by
      cases hcache : s.recordIdOffsets with
      | none => simp [hcache] at hseen
      | some c => exact ⟨c, rfl⟩
    simp only [hcache, Option.map_some, Option.getD_some] at hseen ⊢
    obtain ⟨l, b, r, rfl, hlast⟩ := ((hc c hcache).lastSeen).resolve_left hseen
    obtain ⟨cache', heq, hsearched⟩ := searchFrom_eq (l := l) (r := b :: r) h id
    rw [hlast, heq]
    have hloc := locate_append id DB_HEADER_SIZE l (b :: r)
    cases hfound : locate id (DB_HEADER_SIZE + total l) (b :: r) with
    | some found =>
      -- a live id occurs once, so the block found behind the boundary is the first one
      have hnone : locate id DB_HEADER_SIZE l = none := by
        obtain ⟨l', b', r', hsplit, hb', -⟩ := locate_eq_some (p := found.1) (h := found.2) hfound
        rw [locate_eq_none]
        rw [hsplit, ← List.append_assoc] at h
        intro x hx
        rw [← hb']
        exact (h.unique (by omega)).1 x (List.mem_append_left _ hx)
      rw [hnone, Option.none_or, hfound] at hloc
      refine ⟨cache', by rw [lookup, hloc], hsearched.cachesRight rfl rfl
        (hc.mono fun _ _ => trivial) fun _ x _ hloc' => ?_⟩
      rw [hfound, ← hloc, hloc']
    | none =>
      exact searchFromStart_eq h (hsearched.cachesRight rfl rfl (hc.mono fun _ _ => trivial)
        fun hne => absurd rfl hne)

/-- The cached offset of an id that is not live leads to bytes that look like its header. -/
def StaleHit (s : Store) (bs : List Block) (id : Int) : Prop :=
  (∀ b ∈ bs, b.id ≠ id) ∧
    ∃ c h, s.recordIdOffsets = some c ∧ s.cachedHeader c id = some h ∧ h.id = id

/-- **A record is found exactly when it is live**, unless its id hits stale bytes. -/
theorem getRecordHeader_eq {s : Store} {bs : List Block} (h : Tiled s bs)
    (hc : CacheOk bs s.recordIdOffsets) {id : Int} (hid : 0 < id) (hstale : ¬ StaleHit s bs id) :
    ∃ cache', s.getRecordHeader id = (lookup id bs, s.withCache cache') ∧ CacheOk bs cache' := by
  have hfresh : ∃ cache', ({ s with recordIdOffsets := some {} } : Store).getRecordHeader_NoCache id
      = (lookup id bs, s.withCache cache') ∧ CacheOk bs cache' :=
    getRecordHeader_NoCache_eq (tiled_withCache h (some {})) (CachesRight.empty _ bs) hid
  unfold getRecordHeader
  rw [if_neg (by omega)]
  cases hcache : s.recordIdOffsets with
  | none => exact hfresh
  | some c =>
    simp only
    cases hread : s.cachedHeader c id with
    | none =>
      simp only
      split
      · exact hfresh
      · exact getRecordHeader_NoCache_eq h hc hid
    | some header =>
      simp only
      split
      case isFalse => exact getRecordHeader_NoCache_eq h hc hid
      case isTrue heq =>
        -- the id is live, so its cached offset is the one of its block
        have hlive : ∃ b ∈ bs, b.id = id := by
          by_contra hnone
          exact hstale ⟨fun b hb hb' => hnone ⟨b, hb, hb'⟩, c, header, hcache, hread, heq⟩
        obtain ⟨⟨o, bh⟩, hloc⟩ : ∃ x, locate id DB_HEADER_SIZE bs = some x := by
          cases hloc : locate id DB_HEADER_SIZE bs with
          | some x => exact ⟨x, rfl⟩
          | none =>
            obtain ⟨b, hb, hb'⟩ := hlive
            exact absurd hb' (locate_eq_none.1 hloc b hb)
        unfold cachedHeader at hread
        split at hread
        case isFalse => cases hread
        case isTrue hvalid =>
          have hoff := ((hc c hcache).live id o bh trivial hid hloc).resolve_left hvalid
          obtain ⟨l, b, r, rfl, hb, -, ho, hbh⟩ := locate_eq_some hloc
          obtain ⟨junk, hfile⟩ := h.file
          have hfits := h.fits
          have hb' := h.ids b (by simp)
          simp only [total_append, total_cons] at hfits
          have hblock : readHeader s.file o = some b.header := by
            rw [hfile, chain_append, chain_cons]
            simp only [← List.append_assoc]
            rw [List.append_assoc, List.append_assoc]
            exact readHeader_block (by simp [bytes_header_length, ho, DB_HEADER_SIZE]) (by omega)
              (by omega)
          rw [hoff, hblock] at hread
          obtain rfl : b.header = header := Option.some.inj hread
          refine ⟨s.recordIdOffsets, ?_, hc⟩
          rw [lookup, hloc, hoff, hbh]
          rfl

/-- An id that no block can have is refused. -/
theorem getRecordHeader_nonpos (s : Store) {id : Int} (hid : id ≤ 0) :
    s.getRecordHeader id = (.error .invalidRecordID, s) := by
  rw [getRecordHeader, if_pos hid]

end Store

end FroggyKVM.Rms
