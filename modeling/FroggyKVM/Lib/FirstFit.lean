/-
# FroggyKVM.Lib.FirstFit — first fit over a row of blocks, with free neighbours merged on the way.

A region is a row of blocks, each a header of `hdr` bytes and a body.  `Serves` is one search: it
walks over the row, merges every free block it meets with the free ones behind it, and takes the
first that is large enough, cutting off what it does not need.  **The search keeps the row and every
used block, and fails only if no run of free neighbours is large enough.**
-/
import Mathlib

namespace FroggyKVM.FirstFit

/-- A block: the address of its header, the size of its body, and whether it is free. -/
structure Block where
  addr : Nat
  size : Nat
  free : Bool
  deriving DecidableEq, Repr

variable (hdr slack need : Nat)

/-- The address behind a block. -/
def Block.next (b : Block) : Nat := b.addr + hdr + b.size

/-- The blocks follow one another from `p` up to `e`. -/
def Tiles : Nat → List Block → Nat → Prop
  | p, [], e => p = e
  | p, b :: bs, e => b.addr = p ∧ Tiles (b.next hdr) bs e

/-- The bytes that blocks take, headers included. -/
def span : List Block → Nat
  | [] => 0
  | b :: bs => hdr + b.size + span bs

/-- Some free neighbours hold `need` bytes together, with the headers between them. -/
def CanHold (bs : List Block) : Prop :=
  ∃ pre run post, bs = pre ++ (run ++ post) ∧ run ≠ [] ∧ (∀ b ∈ run, b.free = true) ∧
    need + hdr ≤ span hdr run

/-- A search for `need` bytes turns one row of blocks into another and finds a block or nothing; more
than `slack` bytes that are not needed are cut off. -/
inductive Serves : List Block → List Block → Option Block → Prop
  | nil : Serves [] [] none
  | used {b : Block} {bs bs' : List Block} {r : Option Block} :
      b.free = false → Serves bs bs' r → Serves (b :: bs) (b :: bs') r
  | merge {b c : Block} {bs bs' : List Block} {r : Option Block} :
      b.free = true → c.free = true →
      Serves (⟨b.addr, b.size + (c.size + hdr), true⟩ :: bs) bs' r → Serves (b :: c :: bs) bs' r
  | small {b : Block} {bs bs' : List Block} {r : Option Block} :
      b.free = true → (∀ c ∈ bs.head?, c.free = false) → b.size < need →
      Serves bs bs' r → Serves (b :: bs) (b :: bs') r
  | split {b : Block} {bs : List Block} :
      b.free = true → need + slack < b.size →
      Serves (b :: bs)
        (⟨b.addr, need, false⟩ :: ⟨b.addr + hdr + need, b.size - need - hdr, true⟩ :: bs)
        (some ⟨b.addr, need, false⟩)
  | whole {b : Block} {bs : List Block} :
      b.free = true → need ≤ b.size →
      Serves (b :: bs) (⟨b.addr, b.size, false⟩ :: bs) (some ⟨b.addr, b.size, false⟩)

/-- Give a block back. -/
def release (addr : Nat) (bs : List Block) : List Block :=
  bs.map fun b => if b.addr = addr then { b with free := true } else b

variable {hdr slack need}

/-! ## The row -/

section Row
variable {bs bs' : List Block} {r : Option Block} {p e : Nat}

theorem Tiles.bounds (h : Tiles hdr p bs e) :
    p ≤ e ∧ ∀ b ∈ bs, p ≤ b.addr ∧ b.next hdr ≤ e := by
  induction bs generalizing p with
  | nil => exact ⟨Nat.le_of_eq h, nofun⟩
  | cons b bs ih =>
    obtain ⟨rfl, hrest⟩ := h
    obtain ⟨hle, hall⟩ := ih hrest
    have hnext : b.addr ≤ b.next hdr := by rw [Block.next]; omega
    refine ⟨Nat.le_trans hnext hle, fun c hc => ?_⟩
    rcases List.mem_cons.1 hc with rfl | hc
    · exact ⟨Nat.le_refl _, hle⟩
    · exact ⟨Nat.le_trans hnext (hall c hc).1, (hall c hc).2⟩

/-- Blocks of a row do not overlap. -/
theorem Tiles.apart (h : Tiles hdr p bs e) {b c : Block} (hb : b ∈ bs) (hc : c ∈ bs) :
    b = c ∨ b.next hdr ≤ c.addr ∨ c.next hdr ≤ b.addr := by
  induction bs generalizing p with
  | nil => exact absurd hb List.not_mem_nil
  | cons d bs ih =>
    obtain ⟨rfl, hrest⟩ := h
    rcases List.mem_cons.1 hb with rfl | hb'
    · rcases List.mem_cons.1 hc with rfl | hc'
      · exact .inl rfl
      · exact .inr (.inl (hrest.bounds.2 c hc').1)
    · rcases List.mem_cons.1 hc with rfl | hc'
      · exact .inr (.inr (hrest.bounds.2 b hb').1)
      · exact ih hrest hb' hc'

/-- An address names one block. -/
theorem Tiles.eq_of_addr (hpos : 0 < hdr) (h : Tiles hdr p bs e) {b c : Block} (hb : b ∈ bs)
    (hc : c ∈ bs) (haddr : b.addr = c.addr) : b = c := by
  rcases h.apart hb hc with h | h | h
  · exact h
  · rw [Block.next] at h
    omega
  · rw [Block.next] at h
    omega

/-- There is no more than one row from `p` to `e` with the same block at each address. -/
theorem Tiles.unique (hpos : 0 < hdr) {bs₂ : List Block} (h : Tiles hdr p bs e)
    (h₂ : Tiles hdr p bs₂ e) (hsame : ∀ b ∈ bs, ∀ c ∈ bs₂, b.addr = c.addr → b = c) :
    bs = bs₂ := by
  induction bs generalizing p bs₂ with
  | nil =>
    cases bs₂ with
    | nil => rfl
    | cons c bs₂ =>
      obtain ⟨rfl, hrest⟩ := h₂
      have := hrest.bounds.1
      rw [Block.next] at this
      rw [Tiles] at h
      omega
  | cons b bs ih =>
    obtain ⟨rfl, hrest⟩ := h
    cases bs₂ with
    | nil =>
      have := hrest.bounds.1
      rw [Block.next] at this
      rw [Tiles] at h₂
      omega
    | cons c bs₂ =>
      obtain ⟨haddr, hrest₂⟩ := h₂
      obtain rfl := hsame b (List.mem_cons_self ..) c (List.mem_cons_self ..) haddr.symm
      rw [ih hrest hrest₂ fun b hb c hc => hsame b (List.mem_cons_of_mem _ hb) c
        (List.mem_cons_of_mem _ hc)]

/-! ## What a search does -/

/-- **A search keeps the row.** -/
theorem Serves.tiles (hslack : hdr ≤ slack) (h : Serves hdr slack need bs bs' r)
    (htiles : Tiles hdr p bs e) : Tiles hdr p bs' e := by
  induction h generalizing p with
  | nil => exact htiles
  | used _ _ ih => exact ⟨htiles.1, ih htiles.2⟩
  | @merge b c bs _ _ _ _ _ ih =>
    obtain ⟨rfl, hc, hrest⟩ := htiles
    refine ih ⟨rfl, ?_⟩
    have hnext : Block.next hdr ⟨b.addr, b.size + (c.size + hdr), true⟩ = c.next hdr := by
      rw [Block.next, Block.next, hc, Block.next]
      dsimp only
      omega
    rw [hnext]
    exact hrest
  | small _ _ _ _ ih => exact ⟨htiles.1, ih htiles.2⟩
  | @split b bs _ hsize =>
    obtain ⟨rfl, hrest⟩ := htiles
    refine ⟨rfl, rfl, ?_⟩
    have hnext : Block.next hdr ⟨b.addr + hdr + need, b.size - need - hdr, true⟩ = b.next hdr := by
      rw [Block.next, Block.next]
      dsimp only
      omega
    rw [hnext]
    exact hrest
  | whole => exact htiles

/-- **Used blocks stay**, and the block found is the only new one. -/
theorem Serves.mem_used (h : Serves hdr slack need bs bs' r) {c : Block} (hc : c.free = false) :
    c ∈ bs' ↔ c ∈ bs ∨ r = some c := by
  have hfree : ∀ {b : Block}, b.free = true → c ≠ b := by
    rintro b hb rfl
    exact Bool.noConfusion (hb.symm.trans hc)
  induction h with
  | nil => simp
  | used _ _ ih => simp only [List.mem_cons, ih, or_assoc]
  | merge hb hc' _ ih =>
    refine ih.trans ?_
    simp only [List.mem_cons, hfree hb, hfree hc', hfree (b := ⟨_, _, true⟩) rfl, false_or]
  | small hb _ _ _ ih => simp only [List.mem_cons, ih, hfree hb, false_or]
  | split hb _ =>
    simp only [List.mem_cons, hfree hb, hfree (b := ⟨_, _, true⟩) rfl, false_or, Option.some.injEq]
    rw [or_comm, eq_comm]
  | whole hb _ =>
    simp only [List.mem_cons, hfree hb, false_or, Option.some.injEq]
    rw [or_comm, eq_comm]

/-- The block found is used from now on and holds what was asked for. -/
theorem Serves.found (h : Serves hdr slack need bs bs' r) {c : Block} (hr : r = some c) :
    c.free = false ∧ need ≤ c.size := by
  induction h with
  | nil => exact absurd hr (Option.some_ne_none c).symm
  | used _ _ ih => exact ih hr
  | merge _ _ _ ih => exact ih hr
  | small _ _ _ _ ih => exact ih hr
  | split _ _ =>
    obtain rfl := Option.some.inj hr
    exact ⟨rfl, Nat.le_refl _⟩
  | whole _ hsize =>
    obtain rfl := Option.some.inj hr
    exact ⟨rfl, hsize⟩

/-- It begins where a free block began. -/
theorem Serves.fresh (h : Serves hdr slack need bs bs' r) {c : Block} (hr : r = some c) :
    ∃ b ∈ bs, b.free = true ∧ b.addr = c.addr := by
  induction h with
  | nil => exact absurd hr (Option.some_ne_none c).symm
  | used _ _ ih =>
    obtain ⟨b, hb, hfree⟩ := ih hr
    exact ⟨b, List.mem_cons_of_mem _ hb, hfree⟩
  | @merge b _ _ _ _ hb _ _ ih =>
    obtain ⟨d, hd, hfree, haddr⟩ := ih hr
    rcases List.mem_cons.1 hd with rfl | hd
    · exact ⟨b, List.mem_cons_self .., hb, haddr⟩
    · exact ⟨d, List.mem_cons_of_mem _ (List.mem_cons_of_mem _ hd), hfree, haddr⟩
  | small _ _ _ _ ih =>
    obtain ⟨b, hb, hfree⟩ := ih hr
    exact ⟨b, List.mem_cons_of_mem _ hb, hfree⟩
  | @split b _ hb _ =>
    obtain rfl := Option.some.inj hr
    exact ⟨b, List.mem_cons_self .., hb, rfl⟩
  | @whole b _ hb _ =>
    obtain rfl := Option.some.inj hr
    exact ⟨b, List.mem_cons_self .., hb, rfl⟩

/-- Headers stay aligned. -/
theorem Serves.dvd_addr {a : Nat} (hhdr : a ∣ hdr) (hneed : a ∣ need)
    (h : Serves hdr slack need bs bs' r) (hall : ∀ b ∈ bs, a ∣ b.addr) : ∀ b ∈ bs', a ∣ b.addr := by
  induction h with
  | nil => exact hall
  | used _ _ ih =>
    rw [List.forall_mem_cons] at hall ⊢
    exact ⟨hall.1, ih hall.2⟩
  | merge _ _ _ ih =>
    rw [List.forall_mem_cons, List.forall_mem_cons] at hall
    exact ih (List.forall_mem_cons.2 ⟨hall.1, hall.2.2⟩)
  | small _ _ _ _ ih =>
    rw [List.forall_mem_cons] at hall ⊢
    exact ⟨hall.1, ih hall.2⟩
  | split _ _ =>
    rw [List.forall_mem_cons] at hall
    rw [List.forall_mem_cons, List.forall_mem_cons]
    exact ⟨hall.1, Nat.dvd_add (Nat.dvd_add hall.1 hhdr) hneed, hall.2⟩
  | whole _ _ => exact List.forall_mem_cons.2 (List.forall_mem_cons.1 hall)

/-- The last body stays nonempty. -/
theorem Serves.addr_lt (hslack : hdr ≤ slack) (h : Serves hdr slack need bs bs' r)
    (htiles : Tiles hdr p bs e) (hall : ∀ b ∈ bs, b.addr + hdr < e) :
    ∀ b ∈ bs', b.addr + hdr < e := by
  induction h generalizing p with
  | nil => exact hall
  | used _ _ ih =>
    rw [List.forall_mem_cons] at hall ⊢
    exact ⟨hall.1, ih htiles.2 hall.2⟩
  | @merge b c bs _ _ _ _ hserves ih =>
    rw [List.forall_mem_cons, List.forall_mem_cons] at hall
    obtain ⟨rfl, hc, hrest⟩ := htiles
    refine ih ⟨rfl, ?_⟩ (List.forall_mem_cons.2 ⟨hall.1, hall.2.2⟩)
    have hnext : Block.next hdr ⟨b.addr, b.size + (c.size + hdr), true⟩ = c.next hdr := by
      rw [Block.next, Block.next, hc, Block.next]
      dsimp only
      omega
    rw [hnext]
    exact hrest
  | small _ _ _ _ ih =>
    rw [List.forall_mem_cons] at hall ⊢
    exact ⟨hall.1, ih htiles.2 hall.2⟩
  | split _ hsize =>
    rw [List.forall_mem_cons] at hall
    rw [List.forall_mem_cons, List.forall_mem_cons]
    have hbound := htiles.2.bounds.1
    rw [Block.next] at hbound
    exact ⟨hall.1, by dsimp only; omega, hall.2⟩
  | whole _ _ => exact List.forall_mem_cons.2 (List.forall_mem_cons.1 hall)

/-! ## When a search fails -/

/-- A row holds what its tail holds. -/
theorem CanHold.cons {b : Block} (h : CanHold hdr need bs) : CanHold hdr need (b :: bs) := by
  obtain ⟨pre, run, post, rfl, hrun⟩ := h
  exact ⟨b :: pre, run, post, rfl, hrun⟩

/-- Runs at the front of a row, and others. -/
theorem canHold_cons {b : Block} : CanHold hdr need (b :: bs) ↔ CanHold hdr need bs ∨
    b.free = true ∧ ∃ run post, bs = run ++ post ∧ (∀ c ∈ run, c.free = true) ∧
      need + hdr ≤ span hdr (b :: run) := by
  constructor
  · rintro ⟨pre, run, post, heq, hne, hfree, hsize⟩
    cases pre with
    | nil =>
      cases run with
      | nil => exact absurd rfl hne
      | cons c run =>
        obtain ⟨rfl, rfl⟩ := List.cons.inj heq
        rw [List.forall_mem_cons] at hfree
        exact .inr ⟨hfree.1, run, post, rfl, hfree.2, hsize⟩
    | cons c pre =>
      obtain ⟨rfl, rfl⟩ := List.cons.inj heq
      exact .inl ⟨pre, run, post, rfl, hne, hfree, hsize⟩
  · rintro (h | ⟨hb, run, post, rfl, hfree, hsize⟩)
    · exact h.cons
    · exact ⟨[], b :: run, post, rfl, List.cons_ne_nil _ _, List.forall_mem_cons.2 ⟨hb, hfree⟩, hsize⟩

/-- Merging two neighbours loses no room. -/
theorem CanHold.merge {b c : Block} (h : CanHold hdr need (b :: c :: bs)) :
    CanHold hdr need (⟨b.addr, b.size + (c.size + hdr), true⟩ :: bs) := by
  rw [canHold_cons] at h ⊢
  rcases h with h | ⟨-, run, post, heq, hfree, hsize⟩
  · rw [canHold_cons] at h
    rcases h with h | ⟨-, run, post, heq, hfree, hsize⟩
    · exact .inl h
    · refine .inr ⟨rfl, run, post, heq, hfree, ?_⟩
      rw [span] at hsize ⊢
      dsimp only
      omega
  · cases run with
    | nil =>
      refine .inr ⟨rfl, [], bs, rfl, nofun, ?_⟩
      rw [span] at hsize ⊢
      dsimp only
      omega
    | cons d run =>
      obtain ⟨rfl, rfl⟩ := List.cons.inj heq
      rw [List.forall_mem_cons] at hfree
      refine .inr ⟨rfl, run, post, rfl, hfree.2, ?_⟩
      rw [span, span] at hsize
      rw [span]
      dsimp only
      omega

/-- Nor does it make any. -/
theorem CanHold.of_merged {b c : Block} (hb : b.free = true) (hc : c.free = true)
    (h : CanHold hdr need (⟨b.addr, b.size + (c.size + hdr), true⟩ :: bs)) :
    CanHold hdr need (b :: c :: bs) := by
  rw [canHold_cons] at h
  rcases h with h | ⟨-, run, post, rfl, hfree, hsize⟩
  · exact h.cons.cons
  · refine ⟨[], b :: c :: run, post, rfl, List.cons_ne_nil _ _, ?_, ?_⟩
    · exact List.forall_mem_cons.2 ⟨hb, List.forall_mem_cons.2 ⟨hc, hfree⟩⟩
    · rw [span] at hsize
      rw [span, span]
      dsimp only at hsize
      omega

/-- **A search fails only if no free neighbours hold the bytes.** -/
theorem Serves.not_canHold (h : Serves hdr slack need bs bs' r) (hr : r = none) :
    ¬ CanHold hdr need bs := by
  induction h with
  | nil =>
    rintro ⟨pre, run, post, heq, hne, -⟩
    have := List.append_eq_nil_iff.1 (List.append_eq_nil_iff.1 heq.symm).2
    exact hne this.1
  | used hb _ ih =>
    rw [canHold_cons]
    rintro (h | ⟨hfree, -⟩)
    · exact ih hr h
    · exact Bool.noConfusion (hfree.symm.trans hb)
  | merge _ _ _ ih => exact fun h => ih hr h.merge
  | small _ hlast hsmall _ ih =>
    rw [canHold_cons]
    rintro (h | ⟨-, run, post, rfl, hfree, hsize⟩)
    · exact ih hr h
    · cases run with
      | nil =>
        rw [span, span] at hsize
        omega
      | cons c run =>
        have hused := hlast c rfl
        rw [List.forall_mem_cons] at hfree
        exact Bool.noConfusion (hfree.1.symm.trans hused)
  | split => exact absurd hr (Option.some_ne_none _)
  | whole => exact absurd hr (Option.some_ne_none _)

/-- A free block holds what fits into it. -/
theorem CanHold.of_mem {b : Block} (hb : b ∈ bs) (hfree : b.free = true) (hsize : need ≤ b.size) :
    CanHold hdr need bs := by
  obtain ⟨pre, post, rfl⟩ := List.append_of_mem hb
  refine ⟨pre, [b], post, rfl, List.cons_ne_nil _ _, ?_, ?_⟩
  · intro c hc
    rw [List.mem_singleton.1 hc]
    exact hfree
  · rw [span, span]
    omega

/-- A search that succeeds finds room that was there. -/
theorem Serves.canHold (h : Serves hdr slack need bs bs' r) (hr : r ≠ none) :
    CanHold hdr need bs := by
  induction h with
  | nil => exact absurd rfl hr
  | used _ _ ih => exact (ih hr).cons
  | merge hb hc _ ih => exact (ih hr).of_merged hb hc
  | small _ _ _ _ ih => exact (ih hr).cons
  | split hb hsize => exact .of_mem (List.mem_cons_self ..) hb (by omega)
  | whole hb hsize => exact .of_mem (List.mem_cons_self ..) hb hsize

/-! ## Giving a block back -/

theorem Tiles.release (addr : Nat) (h : Tiles hdr p bs e) :
    Tiles hdr p (FirstFit.release addr bs) e := by
  induction bs generalizing p with
  | nil => exact h
  | cons b bs ih =>
    obtain ⟨rfl, hrest⟩ := h
    refine ⟨?_, ?_⟩
    · dsimp only
      split <;> rfl
    · have hnext : Block.next hdr (if b.addr = addr then { b with free := true } else b) =
          b.next hdr := by split <;> rfl
      rw [hnext]
      exact ih hrest

theorem mem_release {addr : Nat} {c : Block} : c ∈ release addr bs ↔
    (c ∈ bs ∧ c.addr ≠ addr) ∨ ∃ b ∈ bs, b.addr = addr ∧ c = { b with free := true } := by
  rw [release, List.mem_map]
  constructor
  · rintro ⟨b, hb, rfl⟩
    by_cases h : b.addr = addr
    · rw [if_pos h]
      exact .inr ⟨b, hb, h, rfl⟩
    · rw [if_neg h]
      exact .inl ⟨hb, h⟩
  · rintro (⟨hc, hne⟩ | ⟨b, hb, haddr, rfl⟩)
    · exact ⟨c, hc, if_neg hne⟩
    · exact ⟨b, hb, if_pos haddr⟩

end Row

end FroggyKVM.FirstFit
