/-
# FroggyKVM.Pcsl.Pool — the headers of the pool, and what each operation does to them.

`Pool s bs` says that the pool is the row of blocks `bs`: they tile it from the first header to the
end, and each has its header in memory.  The specifications below carry a row of blocks through the
loops: **the search refines first fit** and writes only into free blocks, and a block that is given
back is marked in its header.
-/
import FroggyKVM.Pcsl.Memory

namespace FroggyKVM.Pcsl

open ByteMemory FirstFit

theorem u32_eq {x : Int} {n : Nat} (hx : x = n) (hn : n < 4294967296) : u32 x = n := by
  rw [u32, hx]
  omega

/-! ## Rounding -/

theorem and_alignment (n : Nat) : n &&& ALIGNMENT = n % 4 := Nat.and_two_pow_sub_one_eq_mod n 2

/-- **Rounding up** to a multiple of four, if the result fits into 32 bits. -/
theorem wordAligned_eq {n : Nat} (h : n ≤ 4294967292) : wordAligned n = (n + 3) / 4 * 4 := by
  have hstep : ∀ k n, n < 4294967295 →
      alignLoop (k + 1) n = if n % 4 = 0 then n else alignLoop k (n + 1) := by
    intro k n hn
    rw [alignLoop, and_alignment, ite_not, u32_eq (n := n + 1) (by omega) (by omega)]
  rw [wordAligned, hstep _ _ (by omega)]
  by_cases h₀ : n % 4 = 0
  · rw [if_pos h₀]
    omega
  · rw [if_neg h₀, hstep _ _ (by omega)]
    by_cases h₁ : (n + 1) % 4 = 0
    · rw [if_pos h₁]
      omega
    · rw [if_neg h₁, hstep _ _ (by omega)]
      by_cases h₂ : (n + 1 + 1) % 4 = 0
      · rw [if_pos h₂]
        omega
      · rw [if_neg h₂, alignLoop]
        omega

/-! ## Fields of a header -/

section Fields
variable {m : Memory} {p x : Nat}

@[simp] theorem magicAt_putMagic (h : x < 65536) : magicAt (putMagic m p x) p = x := get_put h

@[simp] theorem magicAt_putFree : magicAt (putFree m p x) p = magicAt m p :=
  get_put_apart (by omega)

@[simp] theorem magicAt_putSize : magicAt (putSize m p x) p = magicAt m p :=
  get_put_apart (by omega)

@[simp] theorem freeAt_putFree (h : x < 256) : freeAt (putFree m p x) p = x := get_put h

@[simp] theorem freeAt_putSize : freeAt (putSize m p x) p = freeAt m p := get_put_apart (by omega)

@[simp] theorem sizeAt_putFree : sizeAt (putFree m p x) p = sizeAt m p := get_put_apart (by omega)

@[simp] theorem sizeAt_putSize (h : x < 4294967296) : sizeAt (putSize m p x) p = x := get_put h

variable {k : Nat}

theorem putMagic_apart (h : k < p ∨ p + HDR ≤ k) : putMagic m p x k = m k :=
  put_apart (by rw [HDR] at h; omega)

theorem putFree_apart (h : k < p ∨ p + HDR ≤ k) : putFree m p x k = m k :=
  put_apart (by rw [HDR] at h; omega)

theorem putSize_apart (h : k < p ∨ p + HDR ≤ k) : putSize m p x k = m k :=
  put_apart (by rw [HDR] at h; omega)

end Fields

/-- A block has its header in memory. -/
structure Header (m : Memory) (b : Block) : Prop where
  magic : magicAt m b.addr = MAGIC
  free : freeAt m b.addr = if b.free then 1 else 0
  size : sizeAt m b.addr = b.size

section Headers
variable {m m' : Memory} {b : Block}

/-- A header depends on its own bytes. -/
theorem Header.congr (h : Header m b)
    (hsame : ∀ k, b.addr ≤ k → k < b.addr + HDR → m' k = m k) : Header m' b where
  magic := (get_congr fun k hk hlt => hsame k hk (by rw [HDR]; omega)).trans h.magic
  free := (get_congr fun k hk hlt => hsame k (by omega) (by rw [HDR]; omega)).trans h.free
  size := (get_congr fun k hk hlt => hsame k (by omega) (by rw [HDR]; omega)).trans h.size

/-- The flag of a block. -/
theorem Header.putFree (h : Header m b) (free : Bool) :
    Header (putFree m b.addr (if free then 1 else 0)) { b with free := free } where
  magic := magicAt_putFree.trans h.magic
  free := freeAt_putFree (by split <;> omega)
  size := sizeAt_putFree.trans h.size

theorem Header.putSize (h : Header m b) {size : Nat} (hsize : size < 4294967296) :
    Header (putSize m b.addr size) { b with size := size } where
  magic := magicAt_putSize.trans h.magic
  free := freeAt_putSize.trans h.free
  size := sizeAt_putSize hsize

/-- A new header. -/
theorem Header.new (m : Memory) (p size : Nat) (hsize : size < 4294967296) :
    Header (Pcsl.putSize (Pcsl.putFree (putMagic m p MAGIC) p 1) p size) ⟨p, size, true⟩ where
  magic := by simp [MAGIC]
  free := by simp
  size := sizeAt_putSize hsize

/-- The bytes of a free block. -/
def InFree (bs : List Block) (k : Nat) : Prop :=
  ∃ b ∈ bs, b.free = true ∧ b.addr ≤ k ∧ k < b.next HDR

end Headers

/-! ## Merging -/

/-- What the merging loop leaves: one free block `c` at the place of `b`, and the blocks behind. -/
structure Coalesced (stop need : Nat) (m : Memory) (b : Block) (bs : List Block) (m' : Memory)
    (c : Block) (rest : List Block) : Prop where
  addr : c.addr = b.addr
  free : c.free = true
  last : ∀ d ∈ rest.head?, d.free = false
  header : Header m' c
  headers : ∀ d ∈ rest, Header m' d
  tiles : Tiles HDR (c.next HDR) rest (stop + HDR)
  sub : ∀ d ∈ rest, d ∈ bs
  length : rest.length ≤ bs.length
  serves : ∀ bs' r, Serves HDR 12 need (c :: rest) bs' r → Serves HDR 12 need (b :: bs) bs' r
  frame : ∀ k, k < b.addr ∨ b.addr + HDR ≤ k → m' k = m k
  covered : ∀ k, c.addr ≤ k → k < c.next HDR → InFree (b :: bs) k

/-- The address computed from a header is the one behind the block. -/
theorem Header.next {m : Memory} {b : Block} (h : Header m b) (hlt : b.next HDR < 4294967296) :
    u32 (b.addr + u32 (sizeAt m b.addr + HDR)) = b.next HDR := by
  rw [Block.next] at hlt ⊢
  have hinner : u32 (b.size + HDR) = b.size + HDR := u32_eq (by omega) (by omega)
  rw [h.size, hinner]
  exact u32_eq (by omega) hlt

section Coalesce
variable {stop need : Nat} {m : Memory} {b : Block} {bs : List Block}

/-- Nothing is merged. -/
theorem Coalesced.refl (hfree : b.free = true) (hheader : Header m b)
    (hheaders : ∀ c ∈ bs, Header m c) (htiles : Tiles HDR (b.next HDR) bs (stop + HDR))
    (hlast : ∀ d ∈ bs.head?, d.free = false) : Coalesced stop need m b bs m b bs where
  addr := rfl
  free := hfree
  last := hlast
  header := hheader
  headers := hheaders
  tiles := htiles
  sub _ h := h
  length := Nat.le_refl _
  serves _ _ h := h
  frame _ _ := rfl
  covered _ h₁ h₂ := ⟨b, List.mem_cons_self .., hfree, h₁, h₂⟩

/-- A free neighbour is merged first. -/
theorem Coalesced.merge {c d : Block} {m₁ m' : Memory} {rest : List Block} (hfree : b.free = true)
    (hcfree : c.free = true) (hc : c.addr = b.next HDR)
    (hsame : ∀ k, k < b.addr ∨ b.addr + HDR ≤ k → m₁ k = m k)
    (h : Coalesced stop need m₁ ⟨b.addr, b.size + (c.size + HDR), true⟩ bs m' d rest) :
    Coalesced stop need m b (c :: bs) m' d rest where
  addr := h.addr
  free := h.free
  last := h.last
  header := h.header
  headers := h.headers
  tiles := h.tiles
  sub x hx := List.mem_cons_of_mem _ (h.sub x hx)
  length := Nat.le_succ_of_le h.length
  serves bs' r hs := .merge hfree hcfree (h.serves bs' r hs)
  frame k hk := (h.frame k hk).trans (hsame k hk)
  covered k h₁ h₂ := by
    obtain ⟨x, hx, hxfree, hlo, hhi⟩ := h.covered k h₁ h₂
    rcases List.mem_cons.1 hx with rfl | hx
    · -- a byte of the merged block is one of either
      by_cases hk : k < b.next HDR
      · exact ⟨b, List.mem_cons_self .., hfree, hlo, hk⟩
      · refine ⟨c, List.mem_cons_of_mem _ (List.mem_cons_self ..), hcfree, by omega, ?_⟩
        rw [Block.next] at hc hhi ⊢
        dsimp only at hhi
        omega
    · exact ⟨x, List.mem_cons_of_mem _ (List.mem_cons_of_mem _ hx), hxfree, hlo, hhi⟩

/-- **The merging loop**, by induction on the blocks behind. -/
theorem coalesce_spec (hstop : stop + HDR < 4294967296) {fuel : Nat} (hfree : b.free = true)
    (hheader : Header m b) (hheaders : ∀ c ∈ bs, Header m c)
    (htiles : Tiles HDR (b.next HDR) bs (stop + HDR)) (hinside : ∀ c ∈ bs, c.addr < stop)
    (hfuel : bs.length ≤ fuel) :
    ∃ m' c rest, coalesce stop b.addr (fuel + 1) m = .ok m' ∧
      Coalesced stop need m b bs m' c rest := by
  induction bs generalizing m b fuel with
  | nil =>
    -- the end of the pool
    refine ⟨m, b, [], ?_, .refl hfree hheader hheaders htiles nofun⟩
    rw [Tiles] at htiles
    rw [coalesce, hheader.next (by omega), if_neg (show ¬ (b.next HDR < stop ∧ _) by omega), ite_self]
  | cons c bs ih =>
    obtain ⟨haddr, hrest⟩ := htiles
    have hin := hinside c (List.mem_cons_self ..)
    have hc := hheaders c (List.mem_cons_self ..)
    have hflag : freeAt m b.addr = 1 := by rw [hheader.free, hfree, if_pos rfl]
    by_cases hcfree : c.free = true
    · -- a free neighbour is merged, and the loop goes on behind it
      have hbound := hrest.bounds.1
      have hnext := haddr
      rw [Block.next] at hbound hnext
      have hsize : u32 (sizeAt m b.addr + u32 (sizeAt m c.addr + HDR)) = b.size + (c.size + HDR) := by
        have hinner : u32 (c.size + HDR) = c.size + HDR := u32_eq (by lia) (by lia)
        rw [hheader.size, hc.size, hinner]
        exact u32_eq (by lia) (by lia)
      have hmerged : Block.next HDR ⟨b.addr, b.size + (c.size + HDR), true⟩ = c.next HDR := by
        rw [Block.next, Block.next]
        dsimp only
        omega
      have hmheader : Header (putSize m b.addr (b.size + (c.size + HDR)))
          ⟨b.addr, b.size + (c.size + HDR), true⟩ := by
        have := hheader.putSize (show b.size + (c.size + HDR) < 4294967296 by omega)
        rwa [hfree] at this
      have hsame : ∀ k, k < b.addr ∨ b.addr + HDR ≤ k →
          putSize m b.addr (b.size + (c.size + HDR)) k = m k := fun k hk => putSize_apart hk
      obtain ⟨fuel, rfl⟩ := Nat.exists_eq_succ_of_ne_zero (show fuel ≠ 0 by
        rw [List.length_cons] at hfuel
        omega)
      obtain ⟨m', d, rest, hrun, hd⟩ := @ih (putSize m b.addr _) _ fuel rfl hmheader
        (fun d hd => (hheaders d (List.mem_cons_of_mem _ hd)).congr fun k hk _ => hsame k (.inr (by
          have := (hrest.bounds.2 d hd).1
          rw [Block.next] at this
          omega)))
        (by rw [hmerged]; exact hrest) (fun d hd => hinside d (List.mem_cons_of_mem _ hd))
        (by rw [List.length_cons] at hfuel; omega)
      refine ⟨m', d, rest, ?_, hd.merge hfree hcfree haddr hsame⟩
      rw [coalesce, if_pos hflag, hheader.next (by omega), ← haddr, if_pos, hsize]
      · exact hrun
      · exact ⟨hin, by rw [hc.free, hcfree, if_pos rfl], hc.magic⟩
    · -- a used neighbour ends the loop
      refine ⟨m, b, c :: bs, ?_, .refl hfree hheader hheaders ⟨haddr, hrest⟩ ?_⟩
      · rw [coalesce, if_pos hflag, hheader.next (by omega), ← haddr, if_neg]
        rintro ⟨-, hcflag, -⟩
        rw [hc.free, if_neg hcfree] at hcflag
        exact Nat.zero_ne_one hcflag
      · intro d hd
        obtain rfl := Option.some.inj hd
        exact Bool.eq_false_iff.2 hcfree

end Coalesce

/-! ## The search -/

/-- A block given away, and the free one that may be cut off behind it. -/
theorem takeBlock_spec {need : Nat} {m : Memory} {c : Block} (hfree : c.free = true)
    (hheader : Header m c) (hneed : need ≤ c.size) (hlo : 4 ≤ c.addr)
    (hhi : c.next HDR < 4294967296) :
    ∃ taken cut, taken.addr = c.addr ∧ (∀ d ∈ taken :: cut, Header (takeBlock m c.addr need) d) ∧
      (∀ bs, Serves HDR 12 need (c :: bs) (taken :: (cut ++ bs)) (some taken)) ∧
      ∀ k, k < c.addr ∨ c.next HDR ≤ k → takeBlock m c.addr need k = m k := by
  have hHDR : HDR = 8 := rfl
  rw [Block.next] at hhi
  -- block sizes are below `2 ^ 32 - 12`, as no block is at the address 0
  have hroom : u32 (need + HDR + 4) = need + 12 := u32_eq (by omega) (by omega)
  rw [takeBlock, hroom, hheader.size]
  by_cases hsplit : need + 12 < c.size
  · have hnext : u32 (c.addr + need + HDR) = c.addr + HDR + need := u32_eq (by omega) (by omega)
    rw [if_pos hsplit, hnext]
    dsimp only
    have hsame₀ : ∀ k, k < c.addr + HDR + need ∨ c.addr + HDR + need + HDR ≤ k →
        putFree (putMagic m (c.addr + HDR + need) MAGIC) (c.addr + HDR + need) 1 k = m k :=
      fun k hk => by rw [putFree_apart hk, putMagic_apart hk]
    have hrest : u32 (sizeAt (putFree (putMagic m (c.addr + HDR + need) MAGIC)
        (c.addr + HDR + need) 1) c.addr - need - HDR) = c.size - need - HDR := by
      rw [(hheader.congr fun k h₁ h₂ => hsame₀ k (.inl (by omega))).size]
      exact u32_eq (by omega) (by omega)
    rw [hrest]
    have hcut := Header.new m (c.addr + HDR + need) (c.size - need - HDR) (by omega)
    have hsame : ∀ k, k < c.addr + HDR + need ∨ c.addr + HDR + need + HDR ≤ k →
        putSize (putFree (putMagic m (c.addr + HDR + need) MAGIC) (c.addr + HDR + need) 1)
          (c.addr + HDR + need) (c.size - need - HDR) k = m k := fun k hk => by
      rw [putSize_apart hk, hsame₀ k hk]
    generalize putSize (putFree (putMagic m _ MAGIC) _ 1) _ _ = m₁ at hcut hsame ⊢
    have htaken : Header (putFree (putSize m₁ c.addr need) c.addr 0) ⟨c.addr, need, false⟩ :=
      ((hheader.congr fun k h₁ h₂ => hsame k (.inl (by omega))).putSize
        (show need < 4294967296 by omega)).putFree false
    refine ⟨⟨c.addr, need, false⟩, [⟨c.addr + HDR + need, c.size - need - HDR, true⟩], rfl,
      List.forall_mem_cons.2 ⟨htaken, fun d hd => ?_⟩, fun bs => .split hfree hsplit, fun k hk => ?_⟩
    · rw [List.mem_singleton.1 hd]
      exact hcut.congr fun k h₁ h₂ => by
        dsimp only at h₁
        rw [putFree_apart (.inr (by omega)), putSize_apart (.inr (by omega))]
    · rw [Block.next] at hk
      rw [putFree_apart (by omega), putSize_apart (by omega), hsame k (by omega)]
  · rw [if_neg hsplit]
    refine ⟨⟨c.addr, c.size, false⟩, [], rfl, ?_, fun bs => .whole hfree hneed, fun k hk => ?_⟩
    · intro d hd
      rw [List.mem_singleton.1 hd]
      exact hheader.putFree false
    · rw [Block.next] at hk
      exact putFree_apart (by omega)

/-- **The search refines first fit**, by induction on the fuel; it writes only into free blocks. -/
theorem findSlot_spec {stop need : Nat} (hstop : stop + HDR < 4294967296) {fuel : Nat} {m : Memory}
    {p : Nat} {bs : List Block} (hheaders : ∀ b ∈ bs, Header m b)
    (htiles : Tiles HDR p bs (stop + HDR)) (hinside : ∀ b ∈ bs, b.addr < stop) (hlo : 4 ≤ p)
    (hfuel : bs.length < fuel) (hblocks : bs.length < 4294967296) :
    ∃ m' bs' r, findSlot stop need fuel m p = .ok (m', (r.map fun b => b.addr + HDR).getD 0) ∧
      Serves HDR 12 need bs bs' r ∧ (∀ b ∈ bs', Header m' b) ∧
      ∀ k, ¬ InFree bs k → m' k = m k := by
  obtain ⟨fuel, rfl⟩ := Nat.exists_eq_succ_of_ne_zero (Nat.ne_of_gt (Nat.zero_lt_of_lt hfuel))
  induction fuel generalizing m p bs with
  | zero =>
    obtain rfl := List.eq_nil_of_length_eq_zero (Nat.lt_one_iff.1 hfuel)
    rw [Tiles] at htiles
    refine ⟨m, [], none, ?_, .nil, List.forall_mem_nil _, fun _ _ => rfl⟩
    rw [findSlot, if_neg (by omega)]
    rfl
  | succ fuel ih =>
    cases bs with
    | nil =>
      rw [Tiles] at htiles
      refine ⟨m, [], none, ?_, .nil, List.forall_mem_nil _, fun _ _ => rfl⟩
      rw [findSlot, if_neg (by omega)]
      rfl
    | cons b bs =>
      obtain ⟨rfl, hrest⟩ := htiles
      rw [List.forall_mem_cons] at hheaders hinside
      rw [List.length_cons] at hfuel hblocks
      have hbound := hrest.bounds.1
      rw [findSlot, if_pos hinside.1, if_neg (not_not.2 hheaders.1.magic)]
      by_cases hfree : b.free = true
      · obtain ⟨m₁, c, rest, hrun, hc⟩ := @coalesce_spec stop need m b bs hstop 4294967295 hfree
          hheaders.1 hheaders.2 hrest hinside.2 (by omega)
        have hcbound := hc.tiles.bounds.1
        have hflag : freeAt m₁ b.addr = 1 := by rw [← hc.addr, hc.header.free, hc.free, if_pos rfl]
        have hsize : sizeAt m₁ b.addr = c.size := by rw [← hc.addr, hc.header.size]
        -- what the merging loop has written lies in free blocks
        have hframe : ∀ k, ¬ InFree (b :: bs) k → m₁ k = m k := by
          intro k hk
          refine hc.frame k ?_
          by_contra hin
          refine hk ⟨b, List.mem_cons_self .., hfree, by omega, ?_⟩
          rw [Block.next]
          omega
        rw [hrun, ok_bind, hflag, hsize]
        by_cases hneed : need ≤ c.size
        · obtain ⟨taken, cut, haddr, htaken, hserves, hout⟩ := takeBlock_spec hc.free hc.header hneed
            (by rw [hc.addr]; exact hlo) (Nat.lt_of_le_of_lt hcbound hstop)
          rw [hc.addr] at haddr hout htaken
          refine ⟨takeBlock m₁ b.addr need, taken :: (cut ++ rest), some taken, ?_,
            hc.serves _ _ (hserves rest), ?_, ?_⟩
          · rw [if_pos ⟨rfl, hneed⟩, Option.map_some, Option.getD_some, haddr]
            have hloc : u32 (b.addr + HDR) = b.addr + HDR := u32_eq rfl (by
              rw [Block.next] at hbound
              omega)
            rw [hloc]
            rfl
          · rw [← List.cons_append]
            intro d hd
            rcases List.mem_append.1 hd with hd | hd
            · exact htaken d hd
            · exact (hc.headers d hd).congr fun k hk _ =>
                hout k (.inr (Nat.le_trans (hc.tiles.bounds.2 d hd).1 hk))
          · intro k hk
            rw [hout k ?_, hframe k hk]
            by_contra hin
            exact hk (hc.covered k (by rw [hc.addr]; omega) (by omega))
        · obtain ⟨m', bs', r, hrun', hserves, hheaders', hout⟩ := ih hc.headers hc.tiles
            (fun d hd => hinside.2 d (hc.sub d hd)) (by rw [Block.next, hc.addr]; omega)
            (by have := hc.length; omega) (by have := hc.length; omega)
          have hnext : u32 (b.addr + u32 (c.size + HDR)) = c.next HDR := by
            rw [← hc.addr, ← hc.header.size]
            exact hc.header.next (by omega)
          refine ⟨m', c :: bs', r, ?_, hc.serves _ _ (.small hc.free hc.last (by omega) hserves),
            List.forall_mem_cons.2 ⟨?_, hheaders'⟩, fun k hk => ?_⟩
          · rw [if_neg fun h => hneed h.2, hnext]
            exact hrun'
          · refine hc.header.congr fun k h₁ h₂ => hout k ?_
            rintro ⟨d, hd, -, hlo', -⟩
            have := (hc.tiles.bounds.2 d hd).1
            rw [Block.next] at this
            omega
          · rw [hout k ?_, hframe k hk]
            rintro ⟨d, hd, hdfree, hin⟩
            exact hk ⟨d, List.mem_cons_of_mem _ (hc.sub d hd), hdfree, hin⟩
      · -- a used block is passed over
        have hflag : freeAt m b.addr ≠ 1 := by
          rw [hheaders.1.free, if_neg hfree]
          exact Nat.zero_ne_one
        have hstay : coalesce stop b.addr 4294967296 m = .ok m := by rw [coalesce, if_neg hflag]
        obtain ⟨m', bs', r, hrun', hserves, hheaders', hout⟩ := ih hheaders.2 hrest hinside.2
          (by rw [Block.next]; omega) (by omega) (by omega)
        refine ⟨m', b :: bs', r, ?_, .used (Bool.eq_false_iff.2 hfree) hserves,
          List.forall_mem_cons.2 ⟨?_, hheaders'⟩, fun k hk => ?_⟩
        · rw [hstay, ok_bind, if_neg fun h => hflag h.1, hheaders.1.next (by omega)]
          exact hrun'
        · refine hheaders.1.congr fun k h₁ h₂ => hout k ?_
          rintro ⟨d, hd, -, hlo', -⟩
          have := (hrest.bounds.2 d hd).1
          rw [Block.next] at this
          omega
        · refine hout k ?_
          rintro ⟨d, hd, hdfree, hin⟩
          exact hk ⟨d, List.mem_cons_of_mem _ hd, hdfree, hin⟩

/-! ## The pool -/

/-- The pool is the row `bs` of blocks. -/
structure Pool (s : State) (bs : List Block) : Prop where
  start_ge : 4 ≤ s.start
  start_le : s.start ≤ s.stop
  stop_lt : s.stop + HDR < 4294967296
  tiles : Tiles HDR s.start bs (s.stop + HDR)
  headers : ∀ b ∈ bs, Header s.mem b
  aligned : ∀ b ∈ bs, 4 ∣ b.addr
  inside : s.start < s.stop → ∀ b ∈ bs, b.addr < s.stop
  empty : s.start = s.stop → ∀ b ∈ bs, b.free = true

section Pool
variable {s : State} {bs : List Block}

/-- The pool depends on its headers. -/
theorem Pool.congr (h : Pool s bs) {m : Memory}
    (hsame : ∀ b ∈ bs, ∀ k, b.addr ≤ k → k < b.addr + HDR → m k = s.mem k) :
    Pool { s with mem := m } bs :=
  { h with headers := fun b hb => (h.headers b hb).congr (hsame b hb) }

/-- Writing into the body of a block leaves every header. -/
theorem Pool.write (h : Pool s bs) {b : Block} (hb : b ∈ bs) {m : Memory}
    (hsame : ∀ k, k < b.addr + HDR ∨ b.next HDR ≤ k → m k = s.mem k) :
    Pool { s with mem := m } bs := by
  refine h.congr fun c hc k h₁ h₂ => hsame k ?_
  rcases h.tiles.apart hb hc with rfl | hlt | hlt
  · exact .inl h₂
  · exact .inr (Nat.le_trans hlt h₁)
  · rw [Block.next] at hlt
    exact .inl (by omega)

/-- The bytes of a used block are not those of a free one. -/
theorem Pool.not_inFree (h : Pool s bs) {b : Block} (hb : b ∈ bs) (hused : b.free = false) {k : Nat}
    (h₁ : b.addr ≤ k) (h₂ : k < b.next HDR) : ¬ InFree bs k := by
  rintro ⟨c, hc, hfree, hlo, hhi⟩
  rcases h.tiles.apart hb hc with rfl | hlt | hlt
  · exact Bool.noConfusion (hused.symm.trans hfree)
  · omega
  · omega

/-- The rows of a pool are one. -/
theorem Pool.unique (h : Pool s bs) {bs₂ : List Block} (h₂ : Pool s bs₂) : bs = bs₂ := by
  refine h.tiles.unique (Nat.zero_lt_succ _) h₂.tiles fun b hb c hc haddr => ?_
  have hb' := h.headers b hb
  have hc' := h₂.headers c hc
  have hsize : b.size = c.size := by rw [← hb'.size, haddr, hc'.size]
  have hflag : (if b.free then 1 else 0) = if c.free then 1 else 0 := by
    rw [← hb'.free, haddr, hc'.free]
  have hfree : b.free = c.free := by
    cases hb : b.free <;> cases hc : c.free <;> rw [hb, hc] at hflag
    · exact absurd hflag Nat.zero_ne_one
    · exact absurd hflag Nat.one_ne_zero
  cases b
  cases c
  dsimp only at haddr hsize hfree
  rw [haddr, hsize, hfree]

theorem length_le_span (hdr : Nat) (hpos : 0 < hdr) {p e : Nat} (h : Tiles hdr p bs e) :
    bs.length ≤ e := by
  have hsum : p + bs.length ≤ e := by
    induction bs generalizing p with
    | nil => exact Nat.le_of_eq h
    | cons b bs ih =>
      obtain ⟨rfl, hrest⟩ := h
      have := ih hrest
      rw [Block.next] at this
      rw [List.length_cons]
      omega
  omega

/-- What `pcsl_mem_malloc_impl0` leaves. -/
structure Allocated (s : State) (bs : List Block) (n : Nat) (m : Memory) (bs' : List Block)
    (r : Option Block) : Prop where
  pool : Pool { s with mem := m } bs'
  mem_used : ∀ c : Block, c.free = false → (c ∈ bs' ↔ c ∈ bs ∨ r = some c)
  found : ∀ c, r = some c → c.free = false ∧ n ≤ c.size
  fresh : ∀ c, r = some c → ∃ b ∈ bs, b.free = true ∧ b.addr = c.addr
  missing : r = none ↔ ¬ CanHold HDR (wordAligned n) bs
  frame : ∀ k, ¬ InFree bs k → m k = s.mem k

/-- A pool without a body holds nothing but requests for nothing. -/
theorem not_canHold_of_empty {need p : Nat} (hneed : 0 < need) (h : Tiles HDR p bs (p + HDR)) :
    ¬ CanHold HDR need bs := by
  have hspan : ∀ {bs : List Block} {p e : Nat}, Tiles HDR p bs e → p + span HDR bs = e := by
    intro bs
    induction bs with
    | nil => exact fun h => h
    | cons b bs ih =>
      rintro p e ⟨rfl, hrest⟩
      have := ih hrest
      rw [Block.next] at this
      rw [span]
      omega
  have happend : ∀ as bs : List Block, span HDR (as ++ bs) = span HDR as + span HDR bs := by
    intro as bs
    induction as with
    | nil => exact (Nat.zero_add _).symm
    | cons a as ih =>
      rw [List.cons_append, span, span, ih]
      omega
  rintro ⟨pre, run, post, rfl, -, -, hsize⟩
  have := hspan h
  rw [happend, happend] at this
  omega

/-- **Allocation** keeps the pool and what is in use. -/
theorem Pool.memMalloc (h : Pool s bs) {n : Nat} (hn : n ≤ 4294967292)
    (hzero : n = 0 → s.start < s.stop) :
    ∃ m bs' r, memMalloc s n = .ok ({ s with mem := m }, (r.map fun b => b.addr + HDR).getD 0) ∧
      Allocated s bs n m bs' r := by
  have hHDR : HDR = 8 := rfl
  have hround := wordAligned_eq hn
  have hstop := h.stop_lt
  rcases Nat.lt_or_eq_of_le h.start_le with hlt | heq
  · have hlength := length_le_span HDR (by omega) h.tiles
    obtain ⟨m, bs', r, hrun, hserves, hheaders, hframe⟩ := @findSlot_spec _ (wordAligned n)
      hstop 4294967296 _ _ _ h.headers h.tiles (h.inside hlt) h.start_ge (by omega) (by omega)
    refine ⟨m, bs', r, ?_, ⟨⟨h.start_ge, h.start_le, hstop, hserves.tiles (by omega) h.tiles, hheaders,
      hserves.dvd_addr (Nat.dvd_of_mod_eq_zero rfl) (by rw [hround]; exact Nat.dvd_mul_left ..)
        h.aligned, fun _ => ?_, fun heq => absurd heq (Nat.ne_of_lt hlt)⟩,
      fun c hc => hserves.mem_used hc, fun c hc => ?_, fun c => hserves.fresh,
      ⟨hserves.not_canHold, fun hno => by_contra fun hr => hno (hserves.canHold hr)⟩, hframe⟩⟩
    · rw [Pcsl.memMalloc, hrun]
      rfl
    · have := hserves.addr_lt (by omega) h.tiles fun b hb => by
        have := h.inside hlt b hb
        omega
      intro b hb
      have := this b hb
      dsimp only
      omega
    · have := hserves.found hc
      exact ⟨this.1, by omega⟩
  · -- no room for a body
    refine ⟨s.mem, bs, none, ?_, ⟨h, fun c _ => by simp, nofun, nofun, iff_of_true rfl ?_,
      fun _ _ => rfl⟩⟩
    · rw [Pcsl.memMalloc, findSlot, if_neg (by omega)]
      rfl
    · have htiles := h.tiles
      rw [← heq] at htiles
      refine not_canHold_of_empty ?_ htiles
      by_contra hpos
      exact absurd (hzero (by omega)) (by omega)

/-- **Giving back** a block that begins inside the pool marks it as free. -/
theorem Pool.memFree (h : Pool s bs) {b : Block} (hb : b ∈ bs) (hused : b.free = false)
    (hle : b.addr + HDR ≤ s.stop) :
    memFree s (b.addr + HDR) = { s with mem := putFree s.mem b.addr 1 } ∧
      Pool { s with mem := putFree s.mem b.addr 1 } (release b.addr bs) := by
  have hbounds := h.tiles.bounds.2 b hb
  have hheader := h.headers b hb
  have hstop := h.stop_lt
  have hhdr : u32 ((b.addr + HDR : Nat) - HDR) = b.addr := u32_eq (by omega) (by omega)
  refine ⟨?_, { h with tiles := h.tiles.release b.addr, headers := ?_, aligned := ?_, inside := ?_,
                       empty := ?_ }⟩
  · rw [Pcsl.memFree, if_neg (by rw [HDR]; omega), if_neg (by omega), hhdr]
    dsimp only
    rw [if_neg (not_not.2 hheader.magic), if_neg]
    rw [hheader.free, hused]
    exact not_not.2 rfl
  · intro c hc
    rcases mem_release.1 hc with ⟨hc, hne⟩ | ⟨d, hd, haddr, rfl⟩
    · refine (h.headers c hc).congr fun k h₁ h₂ => putFree_apart ?_
      rcases h.tiles.apart hb hc with rfl | hlt | hlt
      · exact absurd rfl hne
      · rw [Block.next] at hlt
        omega
      · rw [Block.next] at hlt
        omega
    · rw [← haddr]
      exact (h.headers d hd).putFree true
  · intro c hc
    rcases mem_release.1 hc with ⟨hc, -⟩ | ⟨d, hd, -, rfl⟩
    · exact h.aligned c hc
    · exact h.aligned d hd
  · intro hlt c hc
    rcases mem_release.1 hc with ⟨hc, -⟩ | ⟨d, hd, -, rfl⟩
    · exact h.inside hlt c hc
    · exact h.inside hlt d hd
  · intro heq c hc
    rcases mem_release.1 hc with ⟨hc, -⟩ | ⟨d, -, -, rfl⟩
    · exact h.empty heq c hc
    · rfl

end Pool

end FroggyKVM.Pcsl
