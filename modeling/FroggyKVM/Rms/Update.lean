/-
# FroggyKVM.Rms.Update — freeing, splitting and appending blocks.

Each of the three primitives replaces a piece of the chain.  A piece keeps its length when it is
replaced, so the blocks behind it stay where they are and boundaries stay boundaries.
-/
import FroggyKVM.Rms.Search

namespace FroggyKVM.Rms

/-! ## Replacing a piece of the chain -/

@[simp] theorem liveIds_append (l r : List Block) : liveIds (l ++ r) = liveIds l ++ liveIds r := by
  simp [liveIds]

theorem liveIds_cons_of_pos {b : Block} (h : 0 < b.id) (bs : List Block) :
    liveIds (b :: bs) = b.id :: liveIds bs := by
  rw [liveIds, List.filter_cons_of_pos (by simpa [Block.live] using h)]
  rfl

theorem liveIds_cons_of_nonpos {b : Block} (h : b.id ≤ 0) (bs : List Block) :
    liveIds (b :: bs) = liveIds bs := by
  rw [liveIds, List.filter_cons_of_neg (by simpa [Block.live] using h)]
  rfl

theorem liveIds_sublist {bs bs' : List Block} (h : bs.Sublist bs') :
    (liveIds bs).Sublist (liveIds bs') :=
  (h.filter Block.live).map Block.id

/-- Leaving out a block. -/
theorem liveIds_nodup_without {l r : List Block} {b : Block} (h : (liveIds (l ++ b :: r)).Nodup) :
    (liveIds (l ++ r)).Nodup :=
  h.sublist (liveIds_sublist ((List.sublist_cons_self b r).append_left l))

theorem mem_liveIds {id : Int} {bs : List Block} :
    id ∈ liveIds bs ↔ 0 < id ∧ ∃ b ∈ bs, b.id = id := by
  simp only [liveIds, List.mem_map, List.mem_filter, Block.live, decide_eq_true_eq]
  constructor
  · rintro ⟨b, ⟨hb, hpos⟩, rfl⟩
    exact ⟨hpos, b, hb, rfl⟩
  · rintro ⟨hpos, b, hb, rfl⟩
    exact ⟨b, ⟨hb, hpos⟩, rfl⟩

theorem Boundary.replace {o off : Int} {l m r : List Block} {b : Block}
    (h : Boundary o (l ++ b :: r) off) (hm : m ≠ []) (hlen : total m = b.length) :
    Boundary o (l ++ (m ++ r)) off := by
  obtain ⟨b', m', rfl⟩ := List.exists_cons_of_ne_nil hm
  obtain ⟨l₁, b₁, r₁, heq, rfl⟩ := h
  -- the boundary lies before the piece, at its start, or behind it
  rcases List.append_eq_append_iff.1 heq with ⟨k, rfl, hk⟩ | ⟨k, rfl, hk⟩
  · cases k with
    | nil =>
      obtain ⟨rfl, rfl⟩ := List.cons.inj hk
      exact ⟨l, b', m' ++ r, by simp, by simp⟩
    | cons x k =>
      obtain ⟨rfl, rfl⟩ := List.cons.inj hk
      refine ⟨l ++ ((b' :: m') ++ k), b₁, r₁, by simp, ?_⟩
      rw [total_append, total_append, total_append, hlen, total_cons]
  · cases k with
    | nil =>
      obtain ⟨rfl, rfl⟩ := List.cons.inj hk.symm
      exact ⟨l₁, b', m' ++ r, by simp, by simp⟩
    | cons x k =>
      obtain ⟨rfl, rfl⟩ := List.cons.inj hk
      exact ⟨l₁, b₁, k ++ ((b' :: m') ++ r), by simp, rfl⟩

/-- What is known about ids that are not stored in the replaced piece stays right. -/
theorem CachesRight.replace {K : Int → Prop} {l m r : List Block} {b : Block}
    {cache : Option OffsetCache} (h : CachesRight K (l ++ b :: r) cache) (hm : m ≠ [])
    (hlen : total m = b.length) (hK : ∀ k, K k → 0 < k → k ∉ liveIds m)
    (hb : ∀ k, K k → 0 < k → b.id = k → ∀ x ∈ r, x.id ≠ k) :
    CachesRight K (l ++ (m ++ r)) cache := by
  intro c hc
  obtain ⟨hlive, hlast⟩ := h c hc
  refine ⟨fun k o h hKk hk hloc => ?_, hlast.imp_right fun h => h.replace hm hlen⟩
  have hnone : locate k (DB_HEADER_SIZE + total l) m = none := by
    rw [locate_eq_none]
    intro x hx hxk
    exact hK k hKk hk (mem_liveIds.2 ⟨hk, x, hx, hxk⟩)
  rw [locate_append, locate_append, hnone, Option.none_or, hlen] at hloc
  by_cases hbk : b.id = k
  · -- an id that was stored here is stored nowhere else behind
    have hnone' : locate k (DB_HEADER_SIZE + total l + b.length) r = none :=
      locate_eq_none.2 (hb k hKk hk hbk)
    rw [hnone', Option.or_none] at hloc
    exact hlive k o h hKk hk (by rw [locate_append, hloc, Option.some_or])
  · exact hlive k o h hKk hk (by rw [locate_append, locate, if_neg hbk, hloc])

/-- Remembering a free block changes nothing that is known about ids. -/
theorem CachesRight.setElementAt_nonpos {K : Int → Prop} {bs : List Block}
    {cache : Option OffsetCache} (h : CachesRight K bs cache) (o : Int) {key : Int} (hkey : key ≤ 0) :
    CachesRight K bs (cache.map (·.setElementAt o key)) := by
  intro c hc
  obtain ⟨c, rfl, rfl⟩ := Option.map_eq_some_iff.1 hc
  obtain ⟨hlive, hlast⟩ := h c rfl
  refine ⟨fun k o' h' hKk hk hloc => ?_, hlast⟩
  rw [OffsetCache.elementAt_setElementAt, if_neg (by omega)]
  exact hlive k o' h' hKk hk hloc

/-- Remembering the block of a record. -/
theorem CachesRight.setElementAt {K : Int → Prop} {bs : List Block} {cache : Option OffsetCache}
    {o key : Int} (h : CachesRight (fun k => K k ∧ k ≠ key) bs cache)
    (hkey : ∀ o' h', locate key DB_HEADER_SIZE bs = some (o', h') → o = o') :
    CachesRight K bs (cache.map (·.setElementAt o key)) := by
  intro c hc
  obtain ⟨c, rfl, rfl⟩ := Option.map_eq_some_iff.1 hc
  obtain ⟨hlive, hlast⟩ := h c rfl
  refine ⟨fun k o' h' hKk hk hloc => ?_, hlast⟩
  rw [OffsetCache.elementAt_setElementAt]
  split_ifs with heq
  · subst heq
    exact .inr (hkey o' h' hloc)
  · exact hlive k o' h' ⟨hKk, heq⟩ hk hloc

/-! ## `freeBlock` -/

namespace Store

/-- Freeing a region of the file that lies behind the blocks `l`. -/
theorem freeBlock_eq {s : Store} {l : List Block} {region q : List UInt8} {n : Nat}
    (hregion : region.length = n * 8 + 8)
    (hfile : s.file = s.dbHeader.bytes ++ (chain l ++ (region ++ q))) {h : BlockHeader}
    (hsize : calculateBlockSize h.size = region.length) :
    (s.freeBlock (40 + total l) h).file = (s.freeBlock (40 + total l) h).dbHeader.bytes ++
        (chain l ++ ((Block.free region n hregion).bytes ++ q)) ∧
      (s.freeBlock (40 + total l) h).dbHeader =
        { s.dbHeader with freeSize := i32 (s.dbHeader.freeSize + region.length) } ∧
      (s.freeBlock (40 + total l) h).recordIdOffsets =
        s.recordIdOffsets.map (·.setElementAt (40 + total l) (-1)) := by
  have hwrite := writeBlock_file s (s.dbHeader.bytes ++ chain l) (region ++ q)
    (o := 40 + total l) (by simp [bytes_header_length]) (by rw [hfile]; simp)
    { id := -1, size := (region.length : Int) - BLOCK_HEADER_SIZE } []
  have hdrop : (region ++ q).drop 8 = region.drop 8 ++ q :=
    List.drop_append_of_le_length (by omega)
  simp only [List.length_nil, padding, Nat.zero_mod, ne_eq, not_true_eq_false, if_false,
    List.append_nil, Nat.add_zero, hdrop] at hwrite
  have hheader : ({ id := -1, size := (region.length : Int) - BLOCK_HEADER_SIZE } : BlockHeader) =
      (Block.free region n hregion).header := by
    simp only [Block.header, Block.free, BLOCK_HEADER_SIZE, BlockHeader.mk.injEq, true_and]
    omega
  refine ⟨?_, ?_, ?_⟩
  · refine (writeDbHeader_file (d := s.dbHeader) ?_ (by omega) ?_ ?_)
    · simp only [hsize]
      rw [hwrite, hheader]
      simp [Block.bytes, Block.free]
    · simp only [writeBlock_dbHeader]
      rfl
    · rfl
  · simp only [freeBlock, writeDbHeader_dbHeader, writeBlock_dbHeader, hsize]
  · simp only [freeBlock, writeDbHeader_cache, writeBlock_cache]

end Store

/-- A piece of the chain is replaced by one of the same length. -/
theorem Tiled.replace {s s' : Store} {l m r : List Block} {b : Block} (h : Tiled s (l ++ b :: r))
    {j : List UInt8} (hfile : s'.file = s'.dbHeader.bytes ++ (chain (l ++ (m ++ r)) ++ j))
    (hdata : s'.dbHeader.dataSize = s.dbHeader.dataSize) (hlen : total m = b.length)
    (hids : ∀ x ∈ m, x.id = -1 ∨ 0 < x.id ∧ x.id < 2147483648)
    (hnodup : (liveIds (l ++ (m ++ r))).Nodup) : Tiled s' (l ++ (m ++ r)) := by
  have htotal : total (l ++ (m ++ r)) = total (l ++ b :: r) := by simp [hlen]
  refine ⟨⟨j, hfile⟩, ?_, ?_, fun x hx => ?_, hnodup⟩
  · rw [hdata, h.dataSize, htotal]
  · rw [htotal]
    exact h.fits
  · simp only [List.mem_append] at hx
    rcases hx with hx | hx | hx
    · exact h.ids x (by simp [hx])
    · exact hids x hx
    · exact h.ids x (by simp [hx])

/-- The live ids of a chain with a record put into it. -/
theorem liveIds_record_nodup {l r fr : List Block} {b : Block} {id : Int} {data : List UInt8}
    (hnodup : (liveIds (l ++ b :: r)).Nodup) (hid : 0 < id) (hl : ∀ x ∈ l, x.id ≠ id)
    (hr : ∀ x ∈ r, x.id ≠ id) (hfr : ∀ x ∈ fr, x.id = -1) :
    (liveIds (l ++ ((Block.record id data :: fr) ++ r))).Nodup := by
  have hnil : liveIds fr = [] := by
    rw [List.eq_nil_iff_forall_not_mem]
    intro k hk
    obtain ⟨hpos, x, hx, rfl⟩ := mem_liveIds.1 hk
    have := hfr x hx
    omega
  rw [liveIds_append, List.cons_append, liveIds_cons_of_pos (by exact hid), liveIds_append, hnil,
    List.nil_append, List.nodup_middle, List.nodup_cons, ← liveIds_append]
  refine ⟨fun hmem => ?_, liveIds_nodup_without hnodup⟩
  obtain ⟨-, x, hx, hxid⟩ := mem_liveIds.1 hmem
  exact (List.mem_append.1 hx).elim (fun h => hl x h hxid) fun h => hr x h hxid

namespace Store

/-- **Freeing a block** turns it into a free block of the same length. -/
theorem freeBlock_tiled {s : Store} {l r : List Block} {b : Block} (h : Tiled s (l ++ b :: r))
    (hc : CacheOk (l ++ b :: r) s.recordIdOffsets) {header : BlockHeader}
    (hsize : header.size = b.size) :
    ∃ f : Block, f.id = -1 ∧ f.length = b.length ∧
      Tiled (s.freeBlock (40 + total l) header) (l ++ f :: r) ∧
      CacheOk (l ++ f :: r) (s.freeBlock (40 + total l) header).recordIdOffsets ∧
      ∃ n, (s.freeBlock (40 + total l) header).dbHeader = { s.dbHeader with freeSize := n } := by
  obtain ⟨junk, hfile⟩ := h.file
  have hfits := h.fits
  simp only [total_append, total_cons] at hfits
  have hbytes : b.bytes.length = (b.size + 7) / 8 * 8 + 8 := b.bytes_length
  have hcalc : calculateBlockSize header.size = b.bytes.length := by
    rw [hsize, Block.bytes_length, Block.length, calculateBlockSize_eq]
    unfold Block.length at hfits
    omega
  obtain ⟨hfile', hheader, hcache⟩ := freeBlock_eq (s := s) (l := l) (q := chain r ++ junk)
    hbytes (by rw [hfile]; simp) hcalc
  have hflen : total [Block.free b.bytes _ hbytes] = b.length := by
    simp [Block.length, Block.free, blockBytes]
    lia
  refine ⟨Block.free b.bytes _ hbytes, rfl, by simpa using hflen, ?_, ?_, _, hheader⟩
  · refine h.replace (m := [Block.free b.bytes _ hbytes]) (j := junk) ?_ (by rw [hheader]) hflen
      (by simp [Block.free]) ?_
    · rw [hfile']
      simp
    · rw [List.singleton_append, liveIds_append, liveIds_cons_of_nonpos (by simp [Block.free]),
        ← liveIds_append]
      exact liveIds_nodup_without h.nodup
  · rw [hcache]
    refine CachesRight.setElementAt_nonpos ?_ _ (by omega)
    refine CachesRight.replace (m := [Block.free b.bytes _ hbytes]) hc (by simp) hflen ?_ ?_
    · intro k _ hk
      rw [liveIds_cons_of_nonpos (by simp [Block.free])]
      simp [liveIds]
    · intro k _ hk hbk
      subst hbk
      exact (h.unique hk).2

/-- **Splitting a block**: the record takes the front of the block, and what is left over becomes a
free block. -/
theorem splitBlock_tiled {s : Store} {l r : List Block} {b : Block} (h : Tiled s (l ++ b :: r))
    (hc : CacheOk (l ++ b :: r) s.recordIdOffsets) {id : Int} {data : List UInt8}
    (hid : 0 < id ∧ id < 2147483648) (hl : ∀ x ∈ l, x.id ≠ id) (hr : ∀ x ∈ r, x.id ≠ id)
    (hfit : blockBytes data.length ≤ b.length) :
    ∃ fr : List Block, (∀ x ∈ fr, x.id = -1) ∧
      let bs' := l ++ ((Block.record id data :: fr) ++ r)
      let s' := s.splitBlock (40 + total l) { id := id, size := b.size } data
      Tiled s' bs' ∧ CacheOk bs' s'.recordIdOffsets ∧
        ∃ n, s'.dbHeader = { s.dbHeader with freeSize := n } := by
  obtain ⟨junk, hfile⟩ := h.file
  have hfits := h.fits
  simp only [total_append, total_cons] at hfits
  have hold : calculateBlockSize b.size = b.length :=
    calculateBlockSize_eq (n := b.size) (by unfold Block.length at hfits; omega)
  have hnew : calculateBlockSize data.length = blockBytes data.length :=
    calculateBlockSize_eq (by omega)
  -- what is left of the block behind the record
  obtain ⟨region, hregion⟩ : ∃ region, b.bytes.drop (blockBytes data.length) = region := ⟨_, rfl⟩
  have hreglen : region.length = b.length - blockBytes data.length := by
    rw [← hregion, List.length_drop, Block.bytes_length]
  have hreclen : (Block.record id data).length = blockBytes data.length := rfl
  -- the file after the record is written
  set s₁ := s.writeBlock (40 + total l) { id := id, size := data.length } data with hs₁
  have hwrite : s₁.file = s₁.dbHeader.bytes ++ (chain (l ++ [Block.record id data]) ++
      (region ++ (chain r ++ junk))) := by
    have := writeBlock_file s (s.dbHeader.bytes ++ chain l)
      (b.bytes ++ (chain r ++ junk)) (o := 40 + total l) (by simp [bytes_header_length])
      (by rw [hfile]; simp) { id := id, size := data.length } data
    have hlen : 8 + (data ++ padding data.length).length = blockBytes data.length := by
      rw [List.length_append, padding_length]
      unfold blockBytes
      omega
    rw [hlen, List.drop_append_of_le_length (by rw [Block.bytes_length]; exact hfit), hregion] at this
    rw [hs₁, writeBlock_dbHeader, this]
    simp [Block.bytes, Block.header, Block.record]
  have hcache₁ : s₁.recordIdOffsets =
      s.recordIdOffsets.map (·.setElementAt (40 + total l) id) := by simp [hs₁]
  have hheader₁ : s₁.dbHeader = s.dbHeader := by simp [hs₁]
  -- the cache, for whatever is left over
  have hcacheOk : ∀ fr : List Block, (∀ x ∈ fr, x.id = -1) →
      total (Block.record id data :: fr) = b.length →
      CacheOk (l ++ ((Block.record id data :: fr) ++ r)) s₁.recordIdOffsets := by
    intro fr hfr hlen
    rw [hcache₁]
    refine CachesRight.setElementAt ?_ fun o' h' hloc => ?_
    · refine CachesRight.replace (hc.mono fun _ _ => trivial) (by simp) hlen ?_ ?_
      · rintro k ⟨-, hk⟩ hpos hmem
        obtain ⟨-, x, hx, rfl⟩ := mem_liveIds.1 hmem
        rcases List.mem_cons.1 hx with rfl | hx
        · exact hk rfl
        · have := hfr x hx
          omega
      · intro k _ hpos hbk
        subst hbk
        exact (h.unique hpos).2
    · rw [locate_append, locate_eq_none.2 hl, Option.none_or, List.cons_append, locate,
        if_pos (show (Block.record id data).id = id from rfl)] at hloc
      cases hloc
      rfl
  have hids : ∀ fr : List Block, (∀ x ∈ fr, x.id = -1) → ∀ x ∈ Block.record id data :: fr,
      x.id = -1 ∨ 0 < x.id ∧ x.id < 2147483648 := by
    intro fr hfr x hx
    rcases List.mem_cons.1 hx with rfl | hx
    · exact .inr hid
    · exact .inl (hfr x hx)
  have hsplit : s.splitBlock (40 + total l) { id := id, size := b.size } data =
      if i32 ((b.length : Int) - blockBytes data.length - 8) ≥ 0 then
        s₁.freeBlock (i32 (40 + total l + blockBytes data.length))
          { id := id, size := i32 ((b.length : Int) - blockBytes data.length - 8) }
      else s₁ := by
    simp only [splitBlock, hold, hnew]
    rfl
  rw [hsplit, i32_of_range (by unfold blockBytes at hfit ⊢; omega), i32_of_range (by omega)]
  rcases Nat.eq_or_lt_of_le hfit with heq | hlt
  · -- the record takes the whole block
    have hnil : region = [] := List.eq_nil_of_length_eq_zero (by omega)
    rw [if_neg (by omega)]
    refine ⟨[], by simp, ?_, hcacheOk [] (by simp) (by simpa [hreclen] using heq), _, hheader₁⟩
    exact h.replace (m := [Block.record id data]) (j := junk)
      (by rw [hwrite, hnil]; simp) (by rw [hheader₁]) (by simpa [hreclen] using heq)
      (hids [] (by simp)) (liveIds_record_nodup h.nodup hid.1 hl hr (by simp))
  · obtain ⟨n, hn⟩ : ∃ n, region.length = n * 8 + 8 := by
      refine ⟨(b.length - blockBytes data.length) / 8 - 1, ?_⟩
      rw [hreglen]
      unfold Block.length at hlt ⊢
      unfold blockBytes at hlt ⊢
      omega
    have hcalc : calculateBlockSize ((b.length : Int) - blockBytes data.length - 8) =
        region.length := by
      rw [show (b.length : Int) - blockBytes data.length - 8 = ((n * 8 : Nat) : Int) by omega,
        calculateBlockSize_eq (by unfold blockBytes; omega), hn]
      unfold blockBytes
      omega
    have hoff : (40 : Int) + total l + blockBytes data.length =
        40 + total (l ++ [Block.record id data]) := by
      simp [hreclen, Int.add_assoc]
    obtain ⟨hfile₂, hheader₂, hcache₂⟩ := freeBlock_eq hn hwrite
      (h := { id := id, size := (b.length : Int) - blockBytes data.length - 8 }) hcalc
    rw [if_pos (by omega), hoff]
    have hfree : ∀ x ∈ [Block.free region n hn], x.id = -1 := by simp [Block.free]
    have hlen : total [Block.record id data, Block.free region n hn] = b.length := by
      simp only [total_cons, total_nil, hreclen]
      simp only [Block.length, Block.free, blockBytes] at hreglen hlt ⊢
      omega
    refine ⟨[Block.free region n hn], hfree, ?_, ?_, _, by rw [hheader₂, hheader₁]⟩
    · exact h.replace (m := [Block.record id data, Block.free region n hn]) (j := junk)
        (by rw [hfile₂]; simp) (by rw [hheader₂, hheader₁]) hlen (hids _ hfree)
        (liveIds_record_nodup h.nodup hid.1 hl hr hfree)
    · rw [hcache₂]
      exact (hcacheOk _ hfree hlen).setElementAt_nonpos _ (by omega)

/-- **Appending a record** behind the chain. -/
theorem appendBlock_tiled {s : Store} {bs : List Block} (h : Tiled s bs)
    (hc : CacheOk bs s.recordIdOffsets) {id : Int} {data : List UInt8}
    (hid : 0 < id ∧ id < 2147483648) (hnew : ∀ x ∈ bs, x.id ≠ id)
    (hfits : 40 + total bs + blockBytes data.length < 2147483648) :
    Tiled (s.appendBlock id data) (bs ++ [Block.record id data]) ∧
      CacheOk (bs ++ [Block.record id data]) (s.appendBlock id data).recordIdOffsets ∧
      ∃ n, (s.appendBlock id data).dbHeader = { s.dbHeader with dataSize := n } := by
  obtain ⟨junk, hfile⟩ := h.file
  have hsize := h.getSize
  have hcalc : calculateBlockSize data.length = blockBytes data.length :=
    calculateBlockSize_eq (by omega)
  have hreclen : (Block.record id data).length = blockBytes data.length := rfl
  have hdata : i32 (s.dbHeader.dataSize + blockBytes data.length) =
      total (bs ++ [Block.record id data]) := by
    rw [h.dataSize, i32_of_range (by omega)]
    simp [hreclen]
  have hwrite := writeBlock_file s (s.dbHeader.bytes ++ chain bs) junk (o := 40 + total bs)
    (by simp [bytes_header_length]) (by rw [hfile]; simp) { id := id, size := data.length } data
  have heq : s.appendBlock id data = ({ s.writeBlock (40 + total bs)
      { id := id, size := data.length } data with
        dbHeader := { s.dbHeader with dataSize := total (bs ++ [Block.record id data]) } } :
          Store).writeDbHeader 32 4 := by
    simp only [appendBlock, hsize, hcalc, writeBlock_dbHeader, hdata]
  refine ⟨⟨⟨junk.drop (8 + (data ++ padding data.length).length), ?_⟩, ?_, ?_, ?_, ?_⟩, ?_,
    (total (bs ++ [Block.record id data]) : Nat), ?_⟩
  · rw [heq]
    refine writeDbHeader_file (d := s.dbHeader) ?_ (by omega) rfl rfl
    simp only [hwrite]
    simp [Block.bytes, Block.header, Block.record]
  · rw [heq]
    rfl
  · simp only [total_append, total_cons, total_nil, hreclen]
    omega
  · intro b hb
    rcases List.mem_append.1 hb with hb | hb
    · exact h.ids b hb
    · obtain rfl := List.mem_singleton.1 hb
      exact .inr hid
  · rw [liveIds_append, liveIds_cons_of_pos (by exact hid.1), List.nodup_append]
    refine ⟨h.nodup, by simp [liveIds], ?_⟩
    rintro a ha b hb rfl
    obtain ⟨-, x, hx, rfl⟩ := mem_liveIds.1 ha
    simp only [liveIds, List.filter_nil, List.map_nil, List.mem_singleton] at hb
    exact hnew x hx hb
  · rw [heq, writeDbHeader_cache]
    simp only [writeBlock_cache]
    refine CachesRight.setElementAt ?_ fun o' h' hloc => ?_
    · intro c hc'
      obtain ⟨hlive, hlast⟩ := hc c hc'
      refine ⟨fun k o' h' hk hpos hloc => ?_, hlast.imp_right ?_⟩
      · rw [locate_append, locate, if_neg (show (Block.record id data).id ≠ k from
          fun heq => hk.2 heq.symm), locate, Option.or_none] at hloc
        exact hlive k o' h' trivial hpos hloc
      · rintro ⟨l, b, r, rfl, hoff⟩
        exact ⟨l, b, r ++ [Block.record id data], by simp, hoff⟩
    · rw [locate_append, locate_eq_none.2 hnew, Option.none_or, locate,
        if_pos (show (Block.record id data).id = id from rfl)] at hloc
      cases hloc
      rfl
  · rw [heq]
    rfl

end Store

end FroggyKVM.Rms
