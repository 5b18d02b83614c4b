/-
# FroggyKVM.Rms.Compact — compaction keeps the live blocks.

`compactRecords` walks the chain once.  In front of the walk stand the live blocks seen so far, then
a gap as long as the free blocks seen so far, then the rest of the chain; a live block is moved over
the gap in chunks, each read completely before it is written.
-/
import FroggyKVM.Rms.Update

namespace FroggyKVM.Rms

/-! ## Moving one block -/

namespace Store

/-- **The chunked move.** With `gap` in front of it, `body` ends up in front of a gap of the same
length. -/
theorem moveLoop_eq (pre body rest : List UInt8) {moveUp : Nat} (hgap : 0 < moveUp) :
    ∀ (fuel moved : Nat) (gap : List UInt8), gap.length = moveUp → body.length - moved < fuel →
      moved ≤ body.length →
      ∃ gap', gap'.length = moveUp ∧
        moveLoop (pre.length + moveUp) body.length moveUp fuel moved
          (pre ++ (body.take moved ++ (gap ++ (body.drop moved ++ rest)))) =
            .ok (pre ++ (body ++ (gap' ++ rest)))
  | fuel + 1, moved, gap, hlen, hfuel, hmoved => by
    rcases Nat.eq_or_lt_of_le hmoved with rfl | hlt
    · refine ⟨gap, hlen, ?_⟩
      rw [moveLoop, if_neg (by omega)]
      simp
    · obtain ⟨k, hk, hk₁, hk₂⟩ : ∃ k : Nat, (if (body.length : Int) - moved > COMPACT_BUFFER_SIZE then
          COMPACT_BUFFER_SIZE else (body.length : Int) - moved) = k ∧ 0 < k ∧
            k ≤ body.length - moved := by
        have hbuffer : COMPACT_BUFFER_SIZE = 1024 := rfl
        by_cases hbig : (body.length : Int) - moved > COMPACT_BUFFER_SIZE
        · exact ⟨1024, by rw [if_pos hbig]; rfl, by omega, by omega⟩
        · exact ⟨body.length - moved, by rw [if_neg hbig]; omega, by omega, by omega⟩
      -- the chunk, and what is still to be moved behind it
      obtain ⟨chunk, hchunk⟩ : ∃ chunk, (body.drop moved).take k = chunk := ⟨_, rfl⟩
      have hchunklen : chunk.length = k := by
        rw [← hchunk, List.length_take, List.length_drop]
        omega
      have hbody : body.drop moved = chunk ++ body.drop (moved + k) := by
        rw [← hchunk, ← List.drop_drop, List.take_append_drop]
      have htake : body.take (moved + k) = body.take moved ++ chunk := by
        rw [← hchunk, List.take_add]
      have hread : ((pre ++ (body.take moved ++ (gap ++ (body.drop moved ++ rest)))).drop
          ((pre.length : Int) + moveUp + moved).toNat).take (k : Int).toNat = chunk := by
        have hoff : ((pre.length : Int) + moveUp + moved).toNat =
            (pre ++ (body.take moved ++ gap)).length := by
          simp only [List.length_append, List.length_take]
          lia
        have hsplit : pre ++ (body.take moved ++ (gap ++ (body.drop moved ++ rest))) =
            (pre ++ (body.take moved ++ gap)) ++ (chunk ++ (body.drop (moved + k) ++ rest)) := by
          rw [hbody]
          simp
        rw [hoff, hsplit, List.drop_left, Int.toNat_natCast, List.take_left' hchunklen]
      have hwrite : splice (pre ++ (body.take moved ++ (gap ++ (body.drop moved ++ rest))))
          ((pre.length : Int) + moveUp + moved - moveUp).toNat chunk =
            pre ++ (body.take (moved + k) ++ ((gap ++ chunk).drop k ++
              (body.drop (moved + k) ++ rest))) := by
        have hoff : ((pre.length : Int) + moveUp + moved - moveUp).toNat =
            (pre ++ body.take moved).length := by
          simp only [List.length_append, List.length_take]
          lia
        rw [hoff, ← List.append_assoc pre, splice_append rfl, htake, hbody, hchunklen]
        have hdrop : (gap ++ (chunk ++ body.drop (moved + k) ++ rest)).drop k =
            (gap ++ chunk).drop k ++ (body.drop (moved + k) ++ rest) := by
          rw [List.append_assoc, ← List.append_assoc gap]
          exact List.drop_append_of_le_length (by simp [hchunklen])
        rw [hdrop]
        simp
      obtain ⟨gap', hgap', hrest⟩ := moveLoop_eq pre body rest hgap fuel (moved + k)
        ((gap ++ chunk).drop k) (by simp [hchunklen, hlen]) (by lia) (by lia)
      refine ⟨gap', hgap', ?_⟩
      have hne : chunk ≠ [] := by
        rintro rfl
        simp at hchunklen
        omega
      rw [moveLoop, if_pos (by lia)]
      simp only [hk, hread, hwrite, if_neg hne, hchunklen]
      exact hrest

end Store

/-! ## The walk -/

/-- A cache knows nothing wrong about the live ids of a piece of chain that starts at `o`. -/
def KnowsAt (o : Int) (bs : List Block) (c : OffsetCache) : Prop :=
  ∀ k o' h, 0 < k → locate k o bs = some (o', h) →
    c.elementAt k = INVALID_OFFSET ∨ c.elementAt k = o'

/-- The cache in the middle of a compaction: `kept` stands in front of a gap of `gap` bytes, `bs`
behind it. -/
structure CompactCache (kept : List Block) (gap : Nat) (bs : List Block) (c : OffsetCache) :
    Prop where
  front : KnowsAt DB_HEADER_SIZE kept c
  rest : KnowsAt (DB_HEADER_SIZE + total kept + gap) bs c
  lastSeen : c.LastSeenOffset = NO_OFFSET ∨
    gap = 0 ∧ Boundary DB_HEADER_SIZE (kept ++ bs) c.LastSeenOffset

theorem KnowsAt.append {o : Int} {l r : List Block} {c : OffsetCache}
    (hl : KnowsAt o l c) (hr : KnowsAt (o + total l) r c) : KnowsAt o (l ++ r) c := by
  intro k o' h hk hloc
  rw [locate_append] at hloc
  cases hl' : locate k o l with
  | some x =>
    rw [hl', Option.some_or] at hloc
    cases hloc
    exact hl k o' h hk hl'
  | none =>
    rw [hl', Option.none_or] at hloc
    exact hr k o' h hk hloc

theorem KnowsAt.tail {o : Int} {b : Block} {bs : List Block} {c : OffsetCache}
    (h : KnowsAt o (b :: bs) c) (hb : ∀ k, 0 < k → b.id = k → ∀ x ∈ bs, x.id ≠ k) :
    KnowsAt (o + b.length) bs c := by
  intro k o' h' hk hloc
  by_cases hbk : b.id = k
  · rw [locate_eq_none.2 (hb k hk hbk)] at hloc
    cases hloc
  · exact h k o' h' hk (by rw [locate, if_neg hbk, hloc])

/-- A free block joins the gap. -/
theorem CompactCache.free {kept bs : List Block} {gap : Nat} {b : Block} {c : OffsetCache}
    (h : CompactCache kept gap (b :: bs) c) (hb : b.id = -1) :
    CompactCache kept (gap + b.length) bs { c with LastSeenOffset := NO_OFFSET } where
  front := h.front
  rest := by
    have := h.rest.tail fun k hk hbk => by omega
    rwa [Int.add_assoc, ← Int.natCast_add] at this
  lastSeen := .inl rfl

/-- A live block without a gap in front of it stays. -/
theorem CompactCache.stay {kept bs : List Block} {b : Block} {c : OffsetCache}
    (h : CompactCache kept 0 (b :: bs) c) (hb : ∀ x ∈ bs, x.id ≠ b.id) :
    CompactCache (kept ++ [b]) 0 bs c where
  front := by
    refine h.front.append fun k o' h' hk hloc => ?_
    rw [locate, locate] at hloc
    split at hloc
    case isFalse => cases hloc
    case isTrue hbk =>
      exact h.rest k o' h' hk (by rw [locate, if_pos hbk, ← hloc]; simp)
  rest := by
    have := h.rest.tail fun k hk hbk => by rwa [← hbk]
    simpa [Int.add_assoc] using this
  lastSeen := by simpa using h.lastSeen

/-- A live block is moved over the gap, and its new offset remembered. -/
theorem CompactCache.move {kept bs : List Block} {gap : Nat} {b : Block} {c : OffsetCache}
    (h : CompactCache kept gap (b :: bs) c) (hgap : 0 < gap)
    (hkept : ∀ x ∈ kept, x.id ≠ b.id) (hbs : ∀ x ∈ bs, x.id ≠ b.id) :
    CompactCache (kept ++ [b]) gap bs (c.setElementAt (DB_HEADER_SIZE + total kept) b.id) where
  front := by
    intro k o' h' hk hloc
    rw [OffsetCache.elementAt_setElementAt]
    split_ifs with hkb
    · subst hkb
      rw [locate_append, locate_eq_none.2 hkept, Option.none_or, locate, if_pos rfl] at hloc
      cases hloc
      exact .inr rfl
    · rw [locate_append, locate, if_neg (Ne.symm hkb), locate, Option.or_none] at hloc
      exact h.front k o' h' hk hloc
  rest := by
    intro k o' h' hk hloc
    have hkb : k ≠ b.id := by
      rintro rfl
      rw [locate_eq_none.2 hbs] at hloc
      cases hloc
    rw [OffsetCache.elementAt_setElementAt, if_neg hkb]
    have := h.rest.tail fun k hk hbk => by rwa [← hbk]
    refine this k o' h' hk ?_
    rw [← hloc, total_append, total_cons, total_nil]
    congr 1
    omega
  lastSeen := .inl (h.lastSeen.resolve_right fun h => by omega)

/-- The live blocks of a chain. -/
def liveBlocks (bs : List Block) : List Block := bs.filter Block.live

theorem liveIds_liveBlocks (bs : List Block) : liveIds (liveBlocks bs) = liveIds bs := by
  simp [liveIds, liveBlocks]

theorem liveBlocks_cons_of_pos {b : Block} (h : 0 < b.id) (bs : List Block) :
    liveBlocks (b :: bs) = b :: liveBlocks bs :=
  List.filter_cons_of_pos (by simpa [Block.live] using h)

theorem liveBlocks_cons_of_nonpos {b : Block} (h : b.id ≤ 0) (bs : List Block) :
    liveBlocks (b :: bs) = liveBlocks bs :=
  List.filter_cons_of_neg (by simpa [Block.live] using h)

/-- A store in the middle of a compaction: the live blocks `kept`, a gap, and the chain `bs` that is
still to be walked. -/
structure Compacting (s : Store) (kept : List Block) (gap : List UInt8) (bs : List Block)
    (junk : List UInt8) : Prop where
  file : s.file = s.dbHeader.bytes ++ (chain kept ++ (gap ++ (chain bs ++ junk)))
  dataSize : s.dbHeader.dataSize = (total kept + gap.length + total bs : Nat)
  fits : 40 + (total kept + gap.length + total bs) < 2147483648
  ids : ∀ b ∈ bs, b.id = -1 ∨ 0 < b.id ∧ b.id < 2147483648
  nodup : (liveIds (kept ++ bs)).Nodup
  cache : ∀ c, s.recordIdOffsets = some c → CompactCache kept gap.length bs c

theorem Compacting.distinct {s : Store} {kept : List Block} {gap : List UInt8} {b : Block}
    {bs : List Block} {junk : List UInt8} (h : Compacting s kept gap (b :: bs) junk)
    (hb : 0 < b.id) : (∀ x ∈ kept, x.id ≠ b.id) ∧ ∀ x ∈ bs, x.id ≠ b.id := by
  have hn := h.nodup
  rw [liveIds_append, liveIds_cons_of_pos hb, List.nodup_middle, List.nodup_cons, List.mem_append,
    not_or] at hn
  exact ⟨fun x hx hid => hn.1.1 (mem_liveIds.2 ⟨hb, x, hx, hid⟩),
    fun x hx hid => hn.1.2 (mem_liveIds.2 ⟨hb, x, hx, hid⟩)⟩

namespace Store

/-- **The walk** ends with the live blocks in front and the gap behind them. -/
theorem compactLoop_eq {junk : List UInt8} :
    ∀ (bs kept : List Block) (gap : List UInt8) (s : Store) (fuel : Nat),
      Compacting s kept gap bs junk → bs.length < fuel →
      ∃ s' gap', compactLoop fuel (40 + total kept + gap.length) gap.length s =
          (.ok gap'.length, s') ∧ s'.dbHeader = s.dbHeader ∧
        Compacting s' (kept ++ liveBlocks bs) gap' [] junk
  | [], kept, gap, s, fuel + 1, h, _ => by
    have hsize : s.getSize = 40 + total kept + gap.length := by
      have := h.fits
      simp only [total_nil] at this
      rw [getSize, h.dataSize, i32_of_range (by simp only [DB_HEADER_SIZE, total_nil]; omega)]
      simp only [DB_HEADER_SIZE, total_nil]
      omega
    refine ⟨s, gap, ?_, rfl, by simpa [liveBlocks] using h⟩
    rw [compactLoop, if_neg (by omega)]
  | b :: bs, kept, gap, s, fuel + 1, h, hfuel => by
    have hfits := h.fits
    have hlen := length_pos b
    simp only [total_cons] at hfits
    have hsize : s.getSize = 40 + (total kept + gap.length + (b.length + total bs) : Nat) := by
      rw [getSize, h.dataSize, total_cons,
        i32_of_range (by simp only [DB_HEADER_SIZE]; omega)]
      rfl
    have hids := List.forall_mem_cons.1 h.ids
    have hread : readHeader s.file (40 + total kept + gap.length) = some b.header := by
      have hfile : s.file = (s.dbHeader.bytes ++ (chain kept ++ gap)) ++
          (b.bytes ++ (chain bs ++ junk)) := by
        rw [h.file]
        simp
      rw [hfile]
      refine readHeader_block ?_ (by omega) (by omega)
      simp only [List.length_append, bytes_header_length, chain_length]
      omega
    have hcalc : calculateBlockSize b.header.size = b.length :=
      Block.blockSize (by omega)
    have hnext : i32 (40 + total kept + gap.length + b.length) =
        40 + total kept + gap.length + b.length := i32_of_range (by lia)
    have hid : b.header.id = b.id := rfl
    rw [compactLoop, if_pos (by lia), hread]
    simp only [hcalc, hnext, hid]
    split
    case isTrue hfree =>
      -- a free block joins the gap
      have hb : b.id = -1 := hids.1.resolve_right fun hpos => by omega
      have hgap : i32 ((gap.length : Int) + b.length) = ((gap ++ b.bytes).length : Nat) := by
        rw [i32_of_range (by lia)]
        simp
      have hcompacting : Compacting s.removeBlock kept (gap ++ b.bytes) bs junk := by
        refine ⟨by rw [removeBlock, h.file]; simp, ?_, ?_, hids.2, ?_, ?_⟩
        · rw [show s.removeBlock.dbHeader = s.dbHeader from rfl, h.dataSize]
          simp only [List.length_append, Block.bytes_length, total_cons]
          omega
        · simp only [List.length_append, Block.bytes_length]
          omega
        · have := h.nodup
          rwa [liveIds_append, liveIds_cons_of_nonpos (by omega), ← liveIds_append] at this
        · intro c hc
          obtain ⟨c, hc', rfl⟩ := Option.map_eq_some_iff.1 hc
          simpa using (h.cache c hc').free hb
      obtain ⟨s', gap', hloop, hheader, hdone⟩ := compactLoop_eq bs kept (gap ++ b.bytes)
        s.removeBlock fuel hcompacting (by simpa using hfuel)
      refine ⟨s', gap', ?_, hheader, ?_⟩
      · have hoff : (40 : Int) + total kept + gap.length + b.length =
            40 + total kept + ((gap ++ b.bytes).length : Nat) := by
          simp only [List.length_append, Block.bytes_length]
          omega
        rw [hoff, hgap, hloop]
      · rwa [liveBlocks_cons_of_nonpos (by omega)]
    case isFalse hlive =>
      have hb : 0 < b.id := (hids.1.resolve_left fun h => by omega).1
      obtain ⟨hkept, hbs⟩ := h.distinct hb
      have hnodup : (liveIds ((kept ++ [b]) ++ bs)).Nodup := by simpa using h.nodup
      split
      case isTrue hgap =>
        -- a live block is moved over the gap
        have hpre : (40 : Int) + total kept + gap.length =
            ((s.dbHeader.bytes ++ chain kept).length : Nat) + (gap.length : Nat) := by
          simp [bytes_header_length]
        have hfile : s.file = (s.dbHeader.bytes ++ chain kept) ++ (b.bytes.take 0 ++
            (gap ++ (b.bytes.drop 0 ++ (chain bs ++ junk)))) := by
          rw [h.file]
          simp
        obtain ⟨gap', hgap', hmove⟩ := moveLoop_eq (s.dbHeader.bytes ++ chain kept) b.bytes
          (chain bs ++ junk) (by lia : 0 < gap.length) s.fuel 0 gap rfl
          (by rw [Store.fuel, h.file]; simp; lia) (by lia)
        rw [hpre, hfile]
        rw [Block.bytes_length, Int.natCast_zero] at hmove
        simp only [hmove]
        have hoff : ((s.dbHeader.bytes ++ chain kept).length : Int) + gap.length - gap.length =
            DB_HEADER_SIZE + total kept := by
          simp [bytes_header_length, DB_HEADER_SIZE]
        set s₁ : Store := { s with file := s.dbHeader.bytes ++ chain kept ++
          (b.bytes ++ (gap' ++ (chain bs ++ junk))) } with hs₁
        have hcompacting : Compacting (s₁.updateBlock (DB_HEADER_SIZE + total kept) b.header)
            (kept ++ [b]) gap' bs junk := by
          refine ⟨by simp [updateBlock, hs₁], ?_, ?_, hids.2, hnodup, ?_⟩
          · rw [show (s₁.updateBlock (DB_HEADER_SIZE + total kept) b.header).dbHeader = s.dbHeader
              from rfl, h.dataSize]
            simp only [total_append, total_cons, total_nil, hgap']
            omega
          · simp only [total_append, total_cons, total_nil, hgap']
            omega
          · intro c hc
            obtain ⟨c, hc', rfl⟩ := Option.map_eq_some_iff.1 hc
            rw [hgap']
            exact (h.cache c hc').move (by lia) hkept hbs
        obtain ⟨s', gap'', hloop, hheader, hdone⟩ := compactLoop_eq bs (kept ++ [b]) gap' _ fuel
          hcompacting (by simpa using hfuel)
        refine ⟨s', gap'', ?_, hheader, ?_⟩
        · have hoff' : ((s.dbHeader.bytes ++ chain kept).length : Int) + gap.length + b.length =
              40 + total (kept ++ [b]) + (gap'.length : Nat) := by
            simp only [List.length_append, bytes_header_length, chain_length, total_append,
              total_cons, total_nil, hgap']
            omega
          rw [hoff, hoff', ← hgap', hloop]
        · simpa [liveBlocks_cons_of_pos hb] using hdone
      case isFalse hgap =>
        obtain rfl : gap = [] := List.eq_nil_of_length_eq_zero (by omega)
        have hcompacting : Compacting s (kept ++ [b]) [] bs junk := by
          refine ⟨by rw [h.file]; simp, ?_, ?_, hids.2, hnodup, fun c hc => ?_⟩
          · rw [h.dataSize]
            simp only [total_append, total_cons, total_nil]
            omega
          · simp only [total_append, total_cons, total_nil]
            omega
          · exact (h.cache c hc).stay hbs
        obtain ⟨s', gap', hloop, hheader, hdone⟩ := compactLoop_eq bs (kept ++ [b]) [] s fuel
          hcompacting (by simpa using hfuel)
        refine ⟨s', gap', ?_, hheader, ?_⟩
        · have hoff : (40 : Int) + total kept + (([] : List UInt8).length : Nat) + b.length =
              40 + total (kept ++ [b]) + (([] : List UInt8).length : Nat) := by
            simp only [List.length_nil, total_append, total_cons, total_nil]
            omega
          rw [hoff, hloop]
        · simpa [liveBlocks_cons_of_pos hb] using hdone

/-- **Compaction** leaves the live blocks; only without free space it does not even look. -/
theorem compactRecords_tiled (cfg : Config) {s : Store} {bs : List Block} (h : Tiled s bs)
    (hc : CacheOk bs s.recordIdOffsets) :
    ∃ s' bs', s.compactRecords cfg = (.ok (), s') ∧
      (s.dbHeader.freeSize = 0 ∧ bs' = bs ∨ bs' = liveBlocks bs) ∧ Tiled s' bs' ∧
      CacheOk bs' s'.recordIdOffsets ∧
      ∃ d f, s'.dbHeader = { s.dbHeader with dataSize := d, freeSize := f } := by
  unfold compactRecords
  split
  case isTrue hfree => exact ⟨s, bs, rfl, .inl ⟨hfree, rfl⟩, h, hc, _, _, rfl⟩
  case isFalse =>
    obtain ⟨junk, hfile⟩ := h.file
    have hstart : Compacting s [] [] bs junk := by
      refine ⟨by simpa using hfile, by simpa using h.dataSize, by simpa using h.fits, h.ids,
        by simpa using h.nodup, fun c hc' => ⟨?_, ?_, ?_⟩⟩
      · intro k o h' _ hloc
        cases hloc
      · simpa [KnowsAt] using fun k o h' => (hc c hc').live k o h' trivial
      · simpa using (hc c hc').lastSeen
    obtain ⟨s', gap, hloop, hheader, hdone⟩ := compactLoop_eq bs [] [] s s.fuel hstart h.fuel
    rw [List.nil_append] at hdone
    have hzero : (40 : Int) + (total [] : Nat) + (([] : List UInt8).length : Nat) = DB_HEADER_SIZE :=
      rfl
    rw [hzero, List.length_nil, Int.natCast_zero] at hloop
    have hfits := hdone.fits
    have hdata := hdone.dataSize
    simp only [total_nil, Nat.add_zero] at hfits hdata
    have hids : ∀ b ∈ liveBlocks bs, b.id = -1 ∨ 0 < b.id ∧ b.id < 2147483648 :=
      fun b hb => h.ids b (List.mem_filter.1 hb).1
    have hnodup : (liveIds (liveBlocks bs)).Nodup := by
      rw [liveIds_liveBlocks]
      exact h.nodup
    have hcache : CacheOk (liveBlocks bs) s'.recordIdOffsets := by
      intro c hc'
      obtain ⟨hfront, -, hlast⟩ := hdone.cache c hc'
      exact ⟨fun k o h' _ => hfront k o h', hlast.imp_right fun h => by simpa using h.2⟩
    rw [hloop]
    simp only
    split
    case isTrue hgap =>
      set s₁ : Store := { s' with dbHeader := { s'.dbHeader with
        dataSize := i32 (s'.dbHeader.dataSize - gap.length), freeSize := 0 } } with hs₁
      have hd : s₁.dbHeader.dataSize = total (liveBlocks bs) := by
        rw [hs₁, hdata]
        simp only
        rw [i32_of_range (by omega)]
        omega
      have hfile₁ : (s₁.writeDbHeader 32 8).file = s₁.dbHeader.bytes ++
          (chain (liveBlocks bs) ++ (gap ++ junk)) := by
        refine writeDbHeader_file (d := s'.dbHeader) ?_ (by omega) rfl rfl
        rw [hs₁, hdone.file]
        simp
      have hsize : (s₁.writeDbHeader 32 8).getSize = 40 + total (liveBlocks bs) := by
        rw [getSize, writeDbHeader_dbHeader, hd, i32_of_range (by simp only [DB_HEADER_SIZE]; omega)]
        rfl
      have hheader₁ : s₁.dbHeader = { s.dbHeader with
          dataSize := i32 (s'.dbHeader.dataSize - gap.length), freeSize := 0 } := by
        rw [hs₁, hheader]
      refine ⟨_, liveBlocks bs, rfl, .inr rfl, ?_⟩
      split
      · refine ⟨⟨⟨[], ?_⟩, hd, by omega, hids, hnodup⟩, hcache, _, _, hheader₁⟩
        have htake : (40 + (total (liveBlocks bs) : Int)).toNat =
            (s₁.dbHeader.bytes ++ chain (liveBlocks bs)).length := by
          simp only [List.length_append, bytes_header_length, chain_length]
          omega
        simp only [hsize, hfile₁, htake]
        rw [← List.append_assoc, List.take_left]
        simp
      · exact ⟨⟨⟨_, hfile₁⟩, hd, by omega, hids, hnodup⟩, hcache, _, _, hheader₁⟩
    case isFalse hgap =>
      obtain rfl : gap = [] := List.eq_nil_of_length_eq_zero (by omega)
      refine ⟨s', liveBlocks bs, rfl, .inr rfl, ⟨⟨junk, by rw [hdone.file]; simp⟩, ?_, ?_, hids,
        hnodup⟩, hcache, _, _, hheader⟩
      · simpa using hdata
      · simpa using hfits

end Store

end FroggyKVM.Rms
