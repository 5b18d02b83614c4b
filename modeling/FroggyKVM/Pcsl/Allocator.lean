/-
# FroggyKVM.Pcsl.Allocator — clients of the native memory pool.

A `World` is the pool and, for each pointer a client holds, how many bytes it asked for.  Clients
call the operations in any order, give back what they hold, and write into their blocks.  Three
things go wrong: sizes close to `2 ^ 32` are rounded up to nothing, the product in
`pcsl_mem_calloc_impl0` wraps, and `pcsl_mem_free_impl0` ignores a last block that begins behind
`PcslMemoryEnd`.  **In every run without these the pool is an allocator.**
-/
import FroggyKVM.Lib.Lts
import FroggyKVM.Pcsl.Pool

namespace FroggyKVM.Pcsl

open ByteMemory FirstFit

/-! ## Runs -/

/-- What a client does. -/
inductive Call
  | malloc (size : Nat)
  | calloc (nelem elsize : Nat)
  | realloc (ptr size : Nat)
  | free (ptr : Nat)
  | write (addr : Nat) (byte : UInt8)
  deriving DecidableEq

/-- The pool, and the bytes asked for at each pointer in use. -/
structure World where
  pool : State
  live : Nat → Option Nat

/-- A call, with the pointer it returns. -/
def exec (s : State) : Call → Except MemFault (State × Nat)
  | .malloc size => memMalloc s size
  | .calloc nelem elsize => memCalloc s nelem elsize
  | .realloc ptr size => memRealloc s ptr size
  | .free ptr => .ok (memFree s ptr, 0)
  | .write addr byte => .ok ({ s with mem := Function.update s.mem addr byte }, 0)

/-- The bytes that a call asks for, in exact arithmetic; `realloc` to size 0 only gives back. -/
def Call.asks : Call → Option Nat
  | .malloc size => some size
  | .calloc nelem elsize => some (nelem * elsize)
  | .realloc ptr size => if ptr ≠ 0 ∧ size = 0 then none else some size
  | .free _ => none
  | .write _ _ => none

/-- The call that returns `r` gives the pointer `q` back. -/
def Call.gives (r q : Nat) : Call → Prop
  | .realloc ptr size => ptr = q ∧ ptr ≠ 0 ∧ (r ≠ 0 ∨ size = 0)
  | .free ptr => ptr = q
  | _ => False

/-- What clients hold after a call that returns `r`. -/
def liveAfter (live : Nat → Option Nat) (r : Nat) : Call → Nat → Option Nat
  | .malloc size => if r = 0 then live else Function.update live r (some size)
  | .calloc nelem elsize => if r = 0 then live else Function.update live r (some (nelem * elsize))
  | .realloc ptr size =>
    if r = 0 then if ptr ≠ 0 ∧ size = 0 then Function.update live ptr none else live
    else if ptr = 0 then Function.update live r (some size)
    else Function.update (Function.update live ptr none) r (some size)
  | .free ptr => Function.update live ptr none
  | .write _ _ => live

/-- The size of the block at a pointer. -/
def blockSize (s : State) (ptr : Nat) : Nat := sizeAt s.mem (ptr - HDR)

/-- Sizes are unsigned integers, pointers given back are held, and writes stay inside a block. -/
def World.Valid (w : World) : Call → Prop
  | .malloc size => size < 4294967296
  | .calloc nelem elsize => nelem < 4294967296 ∧ elsize < 4294967296
  | .realloc ptr size => size < 4294967296 ∧ (ptr = 0 ∨ w.live ptr ≠ none)
  | .free ptr => ptr = 0 ∨ w.live ptr ≠ none
  | .write addr _ => ∃ ptr, w.live ptr ≠ none ∧ ptr ≤ addr ∧ addr < ptr + blockSize w.pool ptr

/-- A step of a client. -/
def step (w : World) (l : Call × Nat) (w' : World) : Prop :=
  w.Valid l.1 ∧ exec w.pool l.1 = .ok (w'.pool, l.2) ∧ w'.live = liveAfter w.live l.2 l.1

/-! ## What is asked of the pool -/

/-- A block of at least the bytes asked for at each pointer in use: aligned, in the pool, apart from
the others; and the pool is a row of blocks. -/
structure World.Right (w : World) : Prop where
  tiled : ∃ bs, Pool w.pool bs
  aligned : ∀ p n, w.live p = some n → p % 4 = 0
  provides : ∀ p n, w.live p = some n → n ≤ blockSize w.pool p
  inside : ∀ p n, w.live p = some n →
    w.pool.start ≤ p ∧ p + blockSize w.pool p ≤ w.pool.stop + HDR
  apart : ∀ p n q k, w.live p = some n → w.live q = some k → p ≠ q →
    p + blockSize w.pool p ≤ q ∨ q + blockSize w.pool q ≤ p

/-- What a call does that returns `r`. -/
structure Correct (w : World) (c : Call) (r : Nat) (w' : World) : Prop where
  area : w'.pool.start = w.pool.start ∧ w'.pool.stop = w.pool.stop
  /-- What is asked for is held, at a new pointer or at the one given back. -/
  result : ∀ n, c.asks = some n → r ≠ 0 → w'.live r = some n ∧ (w.live r ≠ none → c.gives r r)
  /-- No block changes that is not given back, but for a byte the client writes. -/
  kept : ∀ q n, w.live q = some n → ¬ c.gives r q →
    w'.live q = some n ∧ blockSize w'.pool q = blockSize w.pool q ∧
      ∀ a, q ≤ a → a < q + blockSize w.pool q → (∀ byte, c ≠ .write a byte) →
        w'.pool.mem a = w.pool.mem a
  /-- `realloc` copies the common part. -/
  copied : ∀ p n, c = .realloc p n → p ≠ 0 → r ≠ 0 →
    ∀ i, i < blockSize w.pool p → i < n → w'.pool.mem (r + i) = w.pool.mem (p + i)
  /-- `calloc` clears. -/
  zeroed : ∀ k e, c = .calloc k e → r ≠ 0 → ∀ i, i < k * e → w'.pool.mem (r + i) = 0
  /-- Nothing is returned only if no free neighbours hold the bytes. -/
  missing : ∀ n, c.asks = some n → r = 0 →
    ∀ bs, Pool w.pool bs → ¬ CanHold HDR (wordAligned n) bs
  /-- What was given back can be allocated. -/
  reusable : ∀ q k, w.live q = some k → c.gives r q → q ≠ r → w'.live q = none ∧
    ∀ n, n ≤ 4294967292 → wordAligned n ≤ blockSize w.pool q →
      ∃ s p, memMalloc w'.pool n = .ok (s, p) ∧ p ≠ 0

/-- A size that can be rounded up, with something to search. -/
def State.Sizable (s : State) (n : Nat) : Prop := n ≤ 4294967292 ∧ (n = 0 → s.start < s.stop)

/-- The calls that meet none of the three defects. -/
def World.Safe (w : World) : Call → Prop
  | .malloc size => w.pool.Sizable size
  | .calloc nelem elsize => w.pool.Sizable (nelem * elsize)
  | .realloc ptr size =>
    if ptr = 0 then w.pool.Sizable size
    else blockSize w.pool ptr = size ∨ (size ≤ 4294967292 ∧ (ptr ≤ w.pool.stop ∨
      (size ≠ 0 ∧ ∀ bs, Pool w.pool bs → ¬ CanHold HDR (wordAligned size) bs)))
  | .free ptr => ptr ≤ w.pool.stop
  | .write _ _ => True

/-! ## The invariant -/

/-- The used blocks of the row `bs` are those that clients hold. -/
structure Sound (w : World) (bs : List Block) : Prop where
  pool : Pool w.pool bs
  used : ∀ p n, w.live p = some n → ∃ b ∈ bs, b.free = false ∧ p = b.addr + HDR ∧ n ≤ b.size
  held : ∀ b ∈ bs, b.free = false → w.live (b.addr + HDR) ≠ none

theorem Pool.blockSize_eq {s : State} {bs : List Block} (h : Pool s bs) {b : Block} (hb : b ∈ bs) :
    blockSize s (b.addr + HDR) = b.size := by
  rw [blockSize, Nat.add_sub_cancel, (h.headers b hb).size]

section Sound
variable {w : World} {bs bs' : List Block} {m : Memory} {n : Nat} {r : Option Block}

theorem Sound.ne_zero (h : Sound w bs) {p : Nat} (hp : w.live p ≠ none) : p ≠ 0 := by
  obtain ⟨k, hk⟩ := Option.ne_none_iff_exists'.1 hp
  obtain ⟨b, -, -, rfl, -⟩ := h.used p k hk
  rw [HDR]
  omega

/-- **The invariant gives what is asked for.** -/
theorem Sound.right (h : Sound w bs) : w.Right where
  tiled := ⟨bs, h.pool⟩
  aligned p n hp := by
    obtain ⟨b, hb, -, rfl, -⟩ := h.used p n hp
    have := Nat.mod_eq_zero_of_dvd (h.pool.aligned b hb)
    rw [HDR]
    omega
  provides p n hp := by
    obtain ⟨b, hb, -, rfl, hsize⟩ := h.used p n hp
    rwa [h.pool.blockSize_eq hb]
  inside p n hp := by
    obtain ⟨b, hb, -, rfl, -⟩ := h.used p n hp
    have := h.pool.tiles.bounds.2 b hb
    rw [Block.next] at this
    rw [h.pool.blockSize_eq hb]
    omega
  apart p n q k hp hq hne := by
    obtain ⟨b, hb, -, rfl, -⟩ := h.used p n hp
    obtain ⟨c, hc, -, rfl, -⟩ := h.used q k hq
    rw [h.pool.blockSize_eq hb, h.pool.blockSize_eq hc]
    rcases h.pool.tiles.apart hb hc with rfl | hlt | hlt
    · exact absurd rfl hne
    · rw [Block.next] at hlt
      omega
    · rw [Block.next] at hlt
      omega

/-- A new block is none that was in use. -/
theorem Sound.fresh (h : Sound w bs) (ha : Allocated w.pool bs n m bs' r) {d : Block}
    (hr : r = some d) : w.live (d.addr + HDR) = none ∧
      ∀ b ∈ bs, b.free = false → b.addr ≠ d.addr := by
  obtain ⟨c, hc, hfree, haddr⟩ := ha.fresh d hr
  have hne : ∀ b ∈ bs, b.free = false → b.addr ≠ d.addr := by
    intro b hb hused heq
    obtain rfl := h.pool.tiles.eq_of_addr (Nat.zero_lt_succ _) hb hc (heq.trans haddr.symm)
    exact Bool.noConfusion (hused.symm.trans hfree)
  refine ⟨?_, hne⟩
  by_contra hlive
  obtain ⟨k, hk⟩ := Option.ne_none_iff_exists'.1 hlive
  obtain ⟨b, hb, hused, heq, -⟩ := h.used _ k hk
  exact hne b hb hused (by omega)

/-- The bytes of a block in use survive an allocation. -/
theorem Sound.frame (h : Sound w bs) (ha : Allocated w.pool bs n m bs' r) {b : Block} (hb : b ∈ bs)
    (hused : b.free = false) {k : Nat} (h₁ : b.addr ≤ k) (h₂ : k < b.next HDR) :
    m k = w.pool.mem k := ha.frame k (h.pool.not_inFree hb hused h₁ h₂)

/-- An allocation that fails. -/
theorem Sound.of_missing (h : Sound w bs) (ha : Allocated w.pool bs n m bs' none) :
    Sound ⟨{ w.pool with mem := m }, w.live⟩ bs' where
  pool := ha.pool
  used p k hp := by
    obtain ⟨b, hb, hused, hrest⟩ := h.used p k hp
    exact ⟨b, (ha.mem_used b hused).2 (.inl hb), hused, hrest⟩
  held b hb hused := by
    rcases (ha.mem_used b hused).1 hb with hb | hb
    · exact h.held b hb hused
    · exact absurd hb (Option.some_ne_none b).symm

/-- An allocation that succeeds. -/
theorem Sound.of_found (h : Sound w bs) {d : Block} (ha : Allocated w.pool bs n m bs' (some d)) :
    Sound ⟨{ w.pool with mem := m }, Function.update w.live (d.addr + HDR) (some n)⟩ bs' where
  pool := ha.pool
  used p k hp := by
    dsimp only at hp
    by_cases heq : p = d.addr + HDR
    · rw [heq, Function.update_self] at hp
      obtain rfl := Option.some.inj hp
      have hd := ha.found d rfl
      exact ⟨d, (ha.mem_used d hd.1).2 (.inr rfl), hd.1, heq, hd.2⟩
    · rw [Function.update_of_ne heq] at hp
      obtain ⟨b, hb, hused, hrest⟩ := h.used p k hp
      exact ⟨b, (ha.mem_used b hused).2 (.inl hb), hused, hrest⟩
  held b hb hused := by
    dsimp only
    by_cases heq : b.addr + HDR = d.addr + HDR
    · rw [heq, Function.update_self]
      exact Option.some_ne_none n
    · rw [Function.update_of_ne heq]
      rcases (ha.mem_used b hused).1 hb with hb | hb
      · exact h.held b hb hused
      · obtain rfl := Option.some.inj hb
        exact absurd rfl heq

/-- Writing into the body of a block. -/
theorem Sound.write (h : Sound w bs) {b : Block} (hb : b ∈ bs)
    (hsame : ∀ k, k < b.addr + HDR ∨ b.next HDR ≤ k → m k = w.pool.mem k) :
    Sound ⟨{ w.pool with mem := m }, w.live⟩ bs :=
  ⟨h.pool.write hb hsame, h.used, h.held⟩

/-- Giving a block back. -/
theorem Sound.release (h : Sound w bs) {b : Block} (hb : b ∈ bs) (hused : b.free = false)
    (hle : b.addr + HDR ≤ w.pool.stop) :
    Sound ⟨memFree w.pool (b.addr + HDR), Function.update w.live (b.addr + HDR) none⟩
      (FirstFit.release b.addr bs) := by
  obtain ⟨hrun, hpool⟩ := h.pool.memFree hb hused hle
  rw [hrun]
  refine ⟨hpool, fun p n hp => ?_, fun c hc hcused => ?_⟩
  · dsimp only at hp
    by_cases heq : p = b.addr + HDR
    · rw [heq, Function.update_self] at hp
      exact absurd hp (Option.some_ne_none n).symm
    · rw [Function.update_of_ne heq] at hp
      obtain ⟨c, hc, hcused, rfl, hsize⟩ := h.used p n hp
      exact ⟨c, mem_release.2 (.inl ⟨hc, by omega⟩), hcused, rfl, hsize⟩
  · rcases mem_release.1 hc with ⟨hc, hne⟩ | ⟨d, -, -, rfl⟩
    · dsimp only
      rw [Function.update_of_ne (by omega)]
      exact h.held c hc hcused
    · exact absurd hcused Bool.noConfusion

end Sound

/-! ## One call -/

/-- The call returns, keeps the invariant and does what it should. -/
def Served (w : World) (c : Call) : Prop :=
  ∃ s r bs, exec w.pool c = .ok (s, r) ∧ Sound ⟨s, liveAfter w.live r c⟩ bs ∧
    Correct w c r ⟨s, liveAfter w.live r c⟩

/-- A free block of the pool can be allocated. -/
theorem Pool.allocates {s : State} {bs : List Block} (h : Pool s bs) {b : Block} (hb : b ∈ bs)
    (hfree : b.free = true) {n : Nat} (hn : n ≤ 4294967292) (hsize : wordAligned n ≤ b.size)
    (hlt : s.start < s.stop) : ∃ s' p, Pcsl.memMalloc s n = .ok (s', p) ∧ p ≠ 0 := by
  obtain ⟨m, bs', r, hrun, ha⟩ := h.memMalloc hn fun _ => hlt
  cases r with
  | none => exact absurd (CanHold.of_mem hb hfree hsize) (ha.missing.1 rfl)
  | some d => exact ⟨_, _, hrun, Nat.succ_ne_zero _⟩

theorem memFree_area (s : State) (p : Nat) :
    (memFree s p).start = s.start ∧ (memFree s p).stop = s.stop := by
  rw [memFree]
  split
  · exact ⟨rfl, rfl⟩
  · split
    · exact ⟨rfl, rfl⟩
    · dsimp only
      split
      · exact ⟨rfl, rfl⟩
      · split <;> exact ⟨rfl, rfl⟩

/-- A block that one state of the pool hands on to another. -/
def Untouched (s s' : State) (q : Nat) : Prop :=
  blockSize s' q = blockSize s q ∧ ∀ a, q ≤ a → a < q + blockSize s q → s'.mem a = s.mem a

theorem Untouched.trans {s s' s'' : State} {q : Nat} (h : Untouched s s' q)
    (h' : Untouched s' s'' q) : Untouched s s'' q :=
  ⟨h'.1.trans h.1, fun a h₁ h₂ => (h'.2 a h₁ (by rw [h.1]; exact h₂)).trans (h.2 a h₁ h₂)⟩

section Call
variable {w : World} {bs bs' : List Block} {m : Memory} {n : Nat} {r : Option Block}

/-- A pool with a block in use has room for a body. -/
theorem Sound.start_lt (h : Sound w bs) {b : Block} (hb : b ∈ bs) (hused : b.free = false) :
    w.pool.start < w.pool.stop := by
  refine Nat.lt_of_le_of_ne h.pool.start_le fun heq => ?_
  exact Bool.noConfusion (hused.symm.trans (h.pool.empty heq b hb))

/-- An allocation touches no block in use. -/
theorem Sound.untouched (h : Sound w bs) (ha : Allocated w.pool bs n m bs' r) {q k : Nat}
    (hq : w.live q = some k) : Untouched w.pool { w.pool with mem := m } q := by
  obtain ⟨b, hb, hused, rfl, -⟩ := h.used q k hq
  have hb' := (ha.mem_used b hused).2 (.inl hb)
  refine ⟨(ha.pool.blockSize_eq hb').trans (h.pool.blockSize_eq hb).symm, fun a h₁ h₂ => ?_⟩
  rw [h.pool.blockSize_eq hb] at h₂
  exact h.frame ha hb hused (by omega) (by rw [Block.next]; omega)

/-- Writing into a block touches no other. -/
theorem Sound.untouched_write (h : Sound w bs) {d : Block} (hd : d ∈ bs)
    (hsame : ∀ k, k < d.addr + HDR ∨ d.next HDR ≤ k → m k = w.pool.mem k) {q k : Nat}
    (hq : w.live q = some k) (hne : q ≠ d.addr + HDR) :
    Untouched w.pool { w.pool with mem := m } q := by
  obtain ⟨b, hb, -, rfl, -⟩ := h.used q k hq
  have hpool := (h.write hd hsame).pool
  refine ⟨(hpool.blockSize_eq hb).trans (h.pool.blockSize_eq hb).symm, fun a h₁ h₂ => hsame a ?_⟩
  rw [h.pool.blockSize_eq hb] at h₂
  rcases h.pool.tiles.apart hb hd with rfl | hlt | hlt
  · exact absurd rfl hne
  · rw [Block.next] at hlt
    omega
  · omega

/-- Giving a block back touches no other. -/
theorem Sound.untouched_release (h : Sound w bs) {b : Block} (hb : b ∈ bs) (hused : b.free = false)
    (hle : b.addr + HDR ≤ w.pool.stop) {q k : Nat} (hq : w.live q = some k)
    (hne : q ≠ b.addr + HDR) : Untouched w.pool (memFree w.pool (b.addr + HDR)) q := by
  obtain ⟨c, hc, -, rfl, -⟩ := h.used q k hq
  obtain ⟨hrun, hpool⟩ := h.pool.memFree hb hused hle
  rw [hrun]
  refine ⟨?_, fun a h₁ h₂ => putFree_apart ?_⟩
  · rw [hpool.blockSize_eq (mem_release.2 (.inl ⟨hc, by omega⟩)), h.pool.blockSize_eq hc]
  · rw [h.pool.blockSize_eq hc] at h₂
    rcases h.pool.tiles.apart hb hc with rfl | hlt | hlt
    · exact absurd rfl hne
    · rw [Block.next] at hlt
      omega
    · rw [Block.next] at hlt
      omega

/-- What was given back can be allocated. -/
theorem Sound.reusable (h : Sound w bs) {b : Block} (hb : b ∈ bs) (hused : b.free = false)
    (hle : b.addr + HDR ≤ w.pool.stop) (hn : n ≤ 4294967292) (hsize : wordAligned n ≤ b.size) :
    ∃ s p, memMalloc (memFree w.pool (b.addr + HDR)) n = .ok (s, p) ∧ p ≠ 0 := by
  obtain ⟨hrun, hpool⟩ := h.pool.memFree hb hused hle
  rw [hrun]
  exact hpool.allocates (mem_release.2 (.inr ⟨b, hb, rfl, rfl⟩)) rfl hn hsize (h.start_lt hb hused)

/-- A call for which there is no room. -/
theorem Sound.served_missing (h : Sound w bs) (ha : Allocated w.pool bs n m bs' none) {c : Call}
    (hexec : exec w.pool c = .ok ({ w.pool with mem := m }, 0)) (hasks : c.asks = some n)
    (hlive : liveAfter w.live 0 c = w.live) (hgives : ∀ q, ¬ c.gives 0 q) : Served w c := by
  refine ⟨_, 0, bs', hexec, ?_, ?_⟩
  · rw [hlive]
    exact h.of_missing ha
  · rw [hlive]
    exact
      { area := ⟨rfl, rfl⟩
        result := fun _ _ hr => absurd rfl hr
        kept := fun q k hq _ =>
          ⟨hq, (h.untouched ha hq).1, fun a h₁ h₂ _ => (h.untouched ha hq).2 a h₁ h₂⟩
        copied := fun _ _ _ _ hr => absurd rfl hr
        zeroed := fun _ _ _ hr => absurd rfl hr
        missing := fun k hk _ bs₂ h₂ => by
          rw [hasks] at hk
          obtain rfl := Option.some.inj hk
          rw [← h.pool.unique h₂]
          exact ha.missing.1 rfl
        reusable := fun q _ _ hg => absurd hg (hgives q) }

/-- The calls that only allocate. -/
theorem Sound.malloc (h : Sound w bs) (hsize : w.pool.Sizable n) {c : Call}
    (hexec : exec w.pool c = memMalloc w.pool n) (hasks : c.asks = some n)
    (hlive : ∀ r, liveAfter w.live r c = if r = 0 then w.live else Function.update w.live r (some n))
    (hgives : ∀ r q, ¬ c.gives r q) (hrealloc : ∀ p n, c = .realloc p n → p = 0)
    (hcalloc : ∀ k e, c ≠ .calloc k e) : Served w c := by
  obtain ⟨m, bs', r, hrun, ha⟩ := h.pool.memMalloc hsize.1 hsize.2
  cases r with
  | none =>
    exact h.served_missing ha (hexec.trans hrun) hasks ((hlive 0).trans (if_pos rfl)) (hgives 0)
  | some d =>
    have hne : d.addr + HDR ≠ 0 := Nat.succ_ne_zero _
    have hafter : liveAfter w.live (d.addr + HDR) c =
        Function.update w.live (d.addr + HDR) (some n) := (hlive _).trans (if_neg hne)
    have hfresh := h.fresh ha rfl
    refine ⟨_, d.addr + HDR, bs', hexec.trans hrun, ?_, ?_⟩
    · rw [hafter]
      exact h.of_found ha
    · rw [hafter]
      exact
        { area := ⟨rfl, rfl⟩
          result := fun k hk _ => by
            rw [hasks] at hk
            exact ⟨(Function.update_self ..).trans hk, fun hno => absurd hfresh.1 hno⟩
          kept := fun q k hq _ => by
            have hkept := h.untouched ha hq
            refine ⟨(Function.update_of_ne ?_ ..).trans hq, hkept.1, fun a h₁ h₂ _ => hkept.2 a h₁ h₂⟩
            rintro rfl
            exact Option.some_ne_none k (hq.symm.trans hfresh.1)
          copied := fun p k hc hp _ => absurd (hrealloc p k hc) hp
          zeroed := fun k e hc _ => absurd hc (hcalloc k e)
          missing := fun _ _ hr => absurd hr hne
          reusable := fun q _ _ hg => absurd hg (hgives _ q) }

/-- `free`. -/
theorem Sound.free (h : Sound w bs) {p : Nat} (hvalid : w.Valid (.free p)) (hsafe : p ≤ w.pool.stop) :
    Served w (.free p) := by
  rcases hvalid with rfl | hlive
  · -- nothing is given back
    have hnone : w.live 0 = none := by
      by_contra hno
      exact h.ne_zero hno rfl
    have hafter : liveAfter w.live 0 (.free 0) = w.live := Function.update_eq_self_iff.2 hnone.symm
    refine ⟨w.pool, 0, bs, rfl, ?_, ?_⟩
    · rw [hafter]
      exact h
    · rw [hafter]
      exact
        { area := ⟨rfl, rfl⟩
          result := fun _ hk => absurd hk (Option.some_ne_none _).symm
          kept := fun q k hq _ => ⟨hq, rfl, fun _ _ _ _ => rfl⟩
          copied := fun _ _ hc => Call.noConfusion hc
          zeroed := fun _ _ hc => Call.noConfusion hc
          missing := fun _ hk => absurd hk (Option.some_ne_none _).symm
          reusable := fun q k hq hg => absurd (hg ▸ hnone : w.live q = none) (by rw [hq]; nofun) }
  · obtain ⟨k, hk⟩ := Option.ne_none_iff_exists'.1 hlive
    obtain ⟨b, hb, hused, rfl, -⟩ := h.used p k hk
    refine ⟨_, 0, _, rfl, h.release hb hused hsafe, ?_⟩
    exact
      { area := memFree_area ..
        result := fun _ hk => absurd hk (Option.some_ne_none _).symm
        kept := fun q n hq hg => by
          have hne : q ≠ b.addr + HDR := fun heq => hg heq.symm
          have hkept := h.untouched_release hb hused hsafe hq hne
          exact ⟨(Function.update_of_ne hne ..).trans hq, hkept.1, fun a h₁ h₂ _ => hkept.2 a h₁ h₂⟩
        copied := fun _ _ hc => Call.noConfusion hc
        zeroed := fun _ _ hc => Call.noConfusion hc
        missing := fun _ hk => absurd hk (Option.some_ne_none _).symm
        reusable := fun q n _ hg _ => by
          obtain rfl : b.addr + HDR = q := hg
          rw [h.pool.blockSize_eq hb]
          exact ⟨Function.update_self .., fun n hn hsize => h.reusable hb hused hsafe hn hsize⟩ }

/-- A client writes into its block. -/
theorem Sound.clientWrite (h : Sound w bs) {addr : Nat} {byte : UInt8}
    (hvalid : w.Valid (.write addr byte)) : Served w (.write addr byte) := by
  obtain ⟨p, hlive, hlo, hhi⟩ := hvalid
  obtain ⟨k, hk⟩ := Option.ne_none_iff_exists'.1 hlive
  obtain ⟨b, hb, -, rfl, -⟩ := h.used p k hk
  rw [h.pool.blockSize_eq hb] at hhi
  have hsound := h.write hb (m := Function.update w.pool.mem addr byte) fun k hk =>
    Function.update_of_ne (by rw [Block.next] at hk; omega) ..
  refine ⟨_, 0, bs, rfl, hsound, ?_⟩
  exact
    { area := ⟨rfl, rfl⟩
      result := fun _ hk => absurd hk (Option.some_ne_none _).symm
      kept := fun q n hq _ => by
        obtain ⟨c, hc, -, rfl, -⟩ := h.used q n hq
        refine ⟨hq, ?_, fun a _ _ hne => Function.update_of_ne (fun heq => hne byte (by rw [heq])) ..⟩
        rw [h.pool.blockSize_eq hc]
        exact hsound.pool.blockSize_eq hc
      copied := fun _ _ hc => Call.noConfusion hc
      zeroed := fun _ _ hc => Call.noConfusion hc
      missing := fun _ hk => absurd hk (Option.some_ne_none _).symm
      reusable := fun _ _ _ hg => absurd hg id }

/-- A block to which something is copied when it is allocated. -/
theorem Sound.of_filled (h : Sound w bs) {d : Block} (ha : Allocated w.pool bs n m bs' (some d))
    {bytes : List UInt8} (hbytes : bytes.length ≤ d.size) :
    Sound ⟨{ w.pool with mem := store m (d.addr + HDR) bytes },
      Function.update w.live (d.addr + HDR) (some n)⟩ bs' ∧
    ∀ q k, w.live q = some k →
      Untouched w.pool { w.pool with mem := store m (d.addr + HDR) bytes } q := by
  have hd := ha.found d rfl
  have hmem := (ha.mem_used d hd.1).2 (.inr rfl)
  have hout : ∀ k, k < d.addr + HDR ∨ d.next HDR ≤ k → store m (d.addr + HDR) bytes k = m k :=
    fun k hk => store_apart (by rw [Block.next] at hk; omega)
  have hfound := h.of_found ha
  refine ⟨hfound.write hmem hout, fun q k hq => ?_⟩
  have hne : q ≠ d.addr + HDR := by
    rintro rfl
    exact Option.some_ne_none k (hq.symm.trans (h.fresh ha rfl).1)
  exact (h.untouched ha hq).trans
    (hfound.untouched_write hmem hout ((Function.update_of_ne hne ..).trans hq) hne)

/-- `calloc`. -/
theorem Sound.calloc (h : Sound w bs) {nelem elsize : Nat}
    (hsize : w.pool.Sizable (nelem * elsize)) : Served w (.calloc nelem elsize) := by
  obtain ⟨m, bs', r, hrun, ha⟩ := h.pool.memMalloc hsize.1 hsize.2
  have hexact : u32 (nelem * elsize) = nelem * elsize := by
    refine u32_eq (by push_cast; rfl) ?_
    have := hsize.1
    omega
  cases r with
  | none =>
    refine h.served_missing ha ?_ rfl rfl fun _ hg => hg
    rw [exec, memCalloc, hexact, hrun]
    rfl
  | some d =>
    have hne : d.addr + HDR ≠ 0 := Nat.succ_ne_zero _
    have hbytes : (List.replicate (nelem * elsize) (0 : UInt8)).length ≤ d.size := by
      rw [List.length_replicate]
      exact (ha.found d rfl).2
    obtain ⟨hsound, huntouched⟩ := h.of_filled ha hbytes
    have hafter : liveAfter w.live (d.addr + HDR) (.calloc nelem elsize) =
        Function.update w.live (d.addr + HDR) (some (nelem * elsize)) := by
      rw [liveAfter, if_neg hne]
    refine ⟨{ w.pool with mem := store m (d.addr + HDR) (List.replicate (nelem * elsize) 0) },
      d.addr + HDR, bs', ?_, ?_, ?_⟩
    · rw [exec, memCalloc, hexact, hrun, ok_bind]
      dsimp only
      rw [Option.map_some, Option.getD_some, if_pos hne]
      rfl
    · rw [hafter]
      exact hsound
    · rw [hafter]
      have hfresh := (h.fresh ha rfl).1
      exact
        { area := ⟨rfl, rfl⟩
          result := fun k hk _ => ⟨(Function.update_self ..).trans hk, fun hno => absurd hfresh hno⟩
          kept := fun q k hq _ => by
            have hkept := huntouched q k hq
            refine ⟨(Function.update_of_ne ?_ ..).trans hq, hkept.1, fun a h₁ h₂ _ => hkept.2 a h₁ h₂⟩
            rintro rfl
            exact Option.some_ne_none k (hq.symm.trans hfresh)
          copied := fun _ _ hc => Call.noConfusion hc
          zeroed := fun k e hc _ i hi => by
            obtain ⟨rfl, rfl⟩ := Call.calloc.inj hc
            refine (store_at (by rwa [List.length_replicate])).trans ?_
            exact List.getElem_replicate ..
          missing := fun _ _ hr => absurd hr hne
          reusable := fun _ _ _ hg => absurd hg id }

/-- `realloc` to the size that the block has. -/
theorem Sound.realloc_same (h : Sound w bs) {b : Block} (hb : b ∈ bs) (hused : b.free = false)
    (hexec : exec w.pool (.realloc (b.addr + HDR) b.size) = .ok (w.pool, b.addr + HDR)) :
    Served w (.realloc (b.addr + HDR) b.size) := by
  have hne : b.addr + HDR ≠ 0 := Nat.succ_ne_zero _
  have hafter : liveAfter w.live (b.addr + HDR) (.realloc (b.addr + HDR) b.size) =
      Function.update w.live (b.addr + HDR) (some b.size) := by
    rw [liveAfter, if_neg hne, if_neg hne, Function.update_idem]
  refine ⟨w.pool, b.addr + HDR, bs, hexec, ?_, ?_⟩
  · rw [hafter]
    refine ⟨h.pool, fun p n hp => ?_, fun c hc hcused => ?_⟩
    · dsimp only at hp
      by_cases heq : p = b.addr + HDR
      · rw [heq, Function.update_self] at hp
        exact ⟨b, hb, hused, heq, Nat.le_of_eq (Option.some.inj hp).symm⟩
      · rw [Function.update_of_ne heq] at hp
        exact h.used p n hp
    · dsimp only
      by_cases heq : c.addr + HDR = b.addr + HDR
      · rw [heq, Function.update_self]
        exact Option.some_ne_none _
      · rw [Function.update_of_ne heq]
        exact h.held c hc hcused
  · rw [hafter]
    exact
      { area := ⟨rfl, rfl⟩
        result := fun k hk _ => by
          refine ⟨(Function.update_self ..).trans ?_, fun _ => ⟨rfl, hne, .inl hne⟩⟩
          by_contra hno
          rw [Call.asks] at hk
          split at hk
          · exact Option.some_ne_none k hk.symm
          · exact hno hk
        kept := fun q k hq hg => by
          have hqne : q ≠ b.addr + HDR := fun heq => hg ⟨heq.symm, hne, .inl hne⟩
          exact ⟨(Function.update_of_ne hqne ..).trans hq, rfl, fun _ _ _ _ => rfl⟩
        copied := fun p n hc _ _ i _ _ => by rw [(Call.realloc.inj hc).1]
        zeroed := fun _ _ hc => Call.noConfusion hc
        missing := fun _ _ hr => absurd hr hne
        reusable := fun q _ _ hg hqne => absurd hg.1.symm hqne }

/-- `realloc` to size 0. -/
theorem Sound.realloc_zero (h : Sound w bs) {b : Block} (hb : b ∈ bs) (hused : b.free = false)
    (hle : b.addr + HDR ≤ w.pool.stop)
    (hexec : exec w.pool (.realloc (b.addr + HDR) 0) = .ok (memFree w.pool (b.addr + HDR), 0)) :
    Served w (.realloc (b.addr + HDR) 0) := by
  have hne : b.addr + HDR ≠ 0 := Nat.succ_ne_zero _
  have hafter : liveAfter w.live 0 (.realloc (b.addr + HDR) 0) =
      Function.update w.live (b.addr + HDR) none := by
    rw [liveAfter, if_pos rfl, if_pos ⟨hne, rfl⟩]
  refine ⟨_, 0, FirstFit.release b.addr bs, hexec, ?_, ?_⟩
  · rw [hafter]
    exact h.release hb hused hle
  · rw [hafter]
    exact
      { area := memFree_area ..
        result := fun _ _ hr => absurd rfl hr
        kept := fun q n hq hg => by
          have hqne : q ≠ b.addr + HDR := fun heq => hg ⟨heq.symm, hne, .inr rfl⟩
          have hkept := h.untouched_release hb hused hle hq hqne
          exact ⟨(Function.update_of_ne hqne ..).trans hq, hkept.1, fun a h₁ h₂ _ => hkept.2 a h₁ h₂⟩
        copied := fun _ _ _ _ hr => absurd rfl hr
        zeroed := fun _ _ hc => Call.noConfusion hc
        missing := fun n hk => by
          rw [Call.asks, if_pos ⟨hne, rfl⟩] at hk
          exact absurd hk (Option.some_ne_none n).symm
        reusable := fun q n _ hg _ => by
          obtain rfl : b.addr + HDR = q := hg.1
          rw [h.pool.blockSize_eq hb]
          exact ⟨Function.update_self .., fun n hn hsize => h.reusable hb hused hle hn hsize⟩ }

/-- `realloc` to another block. -/
theorem Sound.realloc_moved (h : Sound w bs) {b d : Block} (hb : b ∈ bs) (hused : b.free = false)
    (hle : b.addr + HDR ≤ w.pool.stop) (ha : Allocated w.pool bs n m bs' (some d))
    (hexec : exec w.pool (.realloc (b.addr + HDR) n) =
      .ok (memFree { w.pool with mem := store m (d.addr + HDR) (load m (b.addr + HDR)
        (if b.size < n then b.size else n)) } (b.addr + HDR), d.addr + HDR)) :
    Served w (.realloc (b.addr + HDR) n) := by
  have hne : b.addr + HDR ≠ 0 := Nat.succ_ne_zero _
  have hdne : d.addr + HDR ≠ 0 := Nat.succ_ne_zero _
  have hd := ha.found d rfl
  have hdmem := (ha.mem_used d hd.1).2 (.inr rfl)
  have hbmem := (ha.mem_used b hused).2 (.inl hb)
  have hfresh := h.fresh ha rfl
  have hbd : b.addr + HDR ≠ d.addr + HDR := by
    have := hfresh.2 b hb hused
    omega
  have hlength : (load m (b.addr + HDR) (if b.size < n then b.size else n)).length =
      if b.size < n then b.size else n := by rw [load, List.length_map, List.length_range]
  have hfits : (load m (b.addr + HDR) (if b.size < n then b.size else n)).length ≤ d.size := by
    rw [hlength]
    split <;> omega
  obtain ⟨hsound, huntouched⟩ := h.of_filled ha hfits
  generalize hbytes : load m (b.addr + HDR) (if b.size < n then b.size else n) = bytes
    at hexec hsound huntouched hlength
  have hafter : liveAfter w.live (d.addr + HDR) (.realloc (b.addr + HDR) n) =
      Function.update (Function.update w.live (d.addr + HDR) (some n)) (b.addr + HDR) none := by
    rw [liveAfter, if_neg hdne, if_neg hne, Function.update_comm hbd]
  refine ⟨_, d.addr + HDR, FirstFit.release b.addr bs', hexec, ?_, ?_⟩
  · rw [hafter]
    exact hsound.release hbmem hused hle
  · rw [hafter]
    exact
      { area := memFree_area ..
        result := fun k hk _ => by
          refine ⟨?_, fun hno => absurd hfresh.1 hno⟩
          refine (Function.update_of_ne hbd.symm ..).trans ((Function.update_self ..).trans ?_)
          rw [Call.asks] at hk
          split at hk
          · exact absurd hk (Option.some_ne_none k).symm
          · exact hk
        kept := fun q k hq hg => by
          have hqb : q ≠ b.addr + HDR := fun heq => hg ⟨heq.symm, hne, .inl hdne⟩
          have hqd : q ≠ d.addr + HDR := by
            rintro rfl
            exact Option.some_ne_none k (hq.symm.trans hfresh.1)
          have hq' : Function.update w.live (d.addr + HDR) (some n) q = some k :=
            (Function.update_of_ne hqd ..).trans hq
          have hkept := (huntouched q k hq).trans (hsound.untouched_release hbmem hused hle hq' hqb)
          exact ⟨(Function.update_of_ne hqb ..).trans hq', hkept.1,
            fun a h₁ h₂ _ => hkept.2 a h₁ h₂⟩
        copied := fun p k hc _ _ i hi hik => by
          obtain ⟨rfl, rfl⟩ := Call.realloc.inj hc
          rw [h.pool.blockSize_eq hb] at hi
          have hin : i < bytes.length := by
            rw [hlength]
            split <;> omega
          have hread : bytes[i] = m (b.addr + HDR + i) := by
            simp only [← hbytes, load, List.getElem_map, List.getElem_range]
          -- the header that is marked last is not in the new block
          obtain ⟨hfree, -⟩ := hsound.pool.memFree hbmem hused hle
          dsimp only at hfree ⊢
          rw [hfree]
          refine (putFree_apart ?_).trans ((store_at hin).trans (hread.trans ?_))
          · have hlen : bytes.length ≤ d.size := by
              rw [hlength]
              split <;> omega
            rcases ha.pool.tiles.apart hbmem hdmem with rfl | hlt | hlt
            · exact absurd rfl hbd
            · rw [Block.next] at hlt
              omega
            · rw [Block.next] at hlt
              omega
          · exact h.frame ha hb hused (by omega) (by rw [Block.next]; omega)
        zeroed := fun _ _ hc => Call.noConfusion hc
        missing := fun _ _ hr => absurd hr hdne
        reusable := fun q k _ hg _ => by
          obtain rfl : b.addr + HDR = q := hg.1
          rw [h.pool.blockSize_eq hb]
          exact ⟨Function.update_self .., fun n hn hsize =>
            hsound.reusable hbmem hused hle hn hsize⟩ }

/-- `realloc`. -/
theorem Sound.realloc (h : Sound w bs) {p : Nat} (hvalid : w.Valid (.realloc p n))
    (hsafe : w.Safe (.realloc p n)) : Served w (.realloc p n) := by
  rw [World.Safe] at hsafe
  by_cases hp : p = 0
  · subst hp
    rw [if_pos rfl] at hsafe
    refine h.malloc hsafe ?_ ?_ (fun r => ?_) (fun r q hg => hg.2.1 rfl)
      (fun p n hc => (Call.realloc.inj hc).1.symm) nofun
    · rw [exec, memRealloc, if_pos rfl]
    · rw [Call.asks, if_neg fun hno => hno.1 rfl]
    · rw [liveAfter, if_neg (show ¬ (0 ≠ 0 ∧ n = 0) from fun hno => hno.1 rfl), if_pos rfl]
  · rw [if_neg hp] at hsafe
    obtain ⟨k, hk⟩ := Option.ne_none_iff_exists'.1 (hvalid.2.resolve_left hp)
    obtain ⟨b, hb, hused, rfl, -⟩ := h.used p k hk
    have hbounds := h.pool.tiles.bounds.2 b hb
    have hstop := h.pool.stop_lt
    rw [Block.next] at hbounds
    have hhdr : u32 ((b.addr + HDR : Nat) - HDR) = b.addr := u32_eq (by omega) (by omega)
    rw [h.pool.blockSize_eq hb] at hsafe
    by_cases hsame : b.size = n
    · subst hsame
      refine h.realloc_same hb hused ?_
      rw [exec, memRealloc, if_neg hp]
      dsimp only
      rw [hhdr, (h.pool.headers b hb).size, if_neg (not_not.2 rfl)]
      rfl
    · obtain ⟨hn, hroom⟩ := hsafe.resolve_left hsame
      have hother : sizeAt w.pool.mem b.addr ≠ n := by rwa [(h.pool.headers b hb).size]
      by_cases hzero : n = 0
      · subst hzero
        refine h.realloc_zero hb hused (hroom.resolve_right fun hno => hno.1 rfl) ?_
        rw [exec, memRealloc, if_neg hp]
        dsimp only
        rw [hhdr, if_pos hother, if_neg (not_not.2 rfl)]
        rfl
      · obtain ⟨m, bs', r, hrun, ha⟩ := h.pool.memMalloc hn fun hno => absurd hno hzero
        have hexec : exec w.pool (.realloc (b.addr + HDR) n) = (do
            let q ← memMalloc w.pool n
            if q.2 ≠ 0 then
              let n := if sizeAt q.1.mem b.addr < n then sizeAt q.1.mem b.addr else n
              return (memFree { q.1 with
                mem := store q.1.mem q.2 (load q.1.mem (b.addr + HDR) n) } (b.addr + HDR), q.2)
            else return (q.1, q.2)) := by
          rw [exec, memRealloc, if_neg hp]
          dsimp only
          rw [hhdr, if_pos hother, if_pos hzero]
        rw [hrun, ok_bind] at hexec
        cases r with
        | none =>
          refine h.served_missing ha hexec (if_neg fun hno => hzero hno.2) ?_ fun q hg => ?_
          · rw [liveAfter, if_pos rfl, if_neg fun hno => hzero hno.2]
          · exact hg.2.2.elim (fun hno => hno rfl) hzero
        | some d =>
          have hheader := ha.pool.headers b ((ha.mem_used b hused).2 (.inl hb))
          have hle := hroom.resolve_right fun hno =>
            Option.some_ne_none d (ha.missing.2 (hno.2 bs h.pool))
          refine h.realloc_moved hb hused hle ha (hexec.trans ?_)
          rw [Option.map_some, Option.getD_some]
          dsimp only
          rw [if_pos (show d.addr + HDR ≠ 0 from Nat.succ_ne_zero _), hheader.size]
          rfl

/-- **Every call of the safe ones is right.** -/
theorem Sound.served (h : Sound w bs) {c : Call} (hvalid : w.Valid c) (hsafe : w.Safe c) :
    Served w c := by
  cases c with
  | malloc n =>
    exact h.malloc hsafe rfl rfl (fun _ => rfl) (fun _ _ hg => hg) nofun nofun
  | calloc k e => exact h.calloc hsafe
  | realloc p n => exact h.realloc hvalid hsafe
  | free p => exact h.free hvalid hsafe
  | write a x => exact h.clientWrite hvalid

end Call

/-! ## All runs -/

/-- **A new pool** is one free block, if there is room for a header. -/
theorem memInitialize_sound {port : Nat → Option (Nat × Nat)} {s : State} {startAddr : Nat} {size : Int}
    {memory n : Nat} (hfirst : s.start = 0) (harea : poolArea port startAddr size = some (memory, n))
    (hpos : 0 < memory) (hfits : memory + n < 4294967296)
    (hroom : (memory + 3) / 4 * 4 + HDR ≤ memory + n) :
    ∃ s' bs, memInitialize port s startAddr size = some s' ∧ memory ≤ s'.start ∧
      s'.stop + HDR = memory + n ∧ Sound ⟨s', fun _ => none⟩ bs := by
  have hHDR : HDR = 8 := rfl
  have halign : wordAligned memory = (memory + 3) / 4 * 4 := wordAligned_eq (by omega)
  generalize hstart : (memory + 3) / 4 * 4 = start at hroom halign
  have hstop : u32 (memory + n - HDR) = memory + n - HDR := u32_eq (by lia) (by lia)
  have hsize : u32 (memory - start + n - HDR) = memory + n - HDR - start :=
    u32_eq (by omega) (by omega)
  refine ⟨⟨memory, start, memory + n - HDR, putSize (putFree (putMagic s.mem start MAGIC) start 1)
    start (memory + n - HDR - start)⟩, [⟨start, memory + n - HDR - start, true⟩], ?_, ?_, ?_, ?_, nofun,
    ?_⟩
  · rw [memInitialize, if_neg (not_not.2 hfirst), harea]
    dsimp only
    rw [halign, hstop, hsize]
  · dsimp only
    omega
  · dsimp only
    lia
  · exact
      { start_ge := by dsimp only; lia
        start_le := by dsimp only; lia
        stop_lt := by dsimp only; lia
        tiles := ⟨rfl, by dsimp only [Tiles, Block.next]; lia⟩
        headers := fun b hb => by
          rw [List.mem_singleton.1 hb]
          exact Header.new s.mem start _ (by omega)
        aligned := fun b hb => by
          rw [List.mem_singleton.1 hb]
          exact ⟨(memory + 3) / 4, by dsimp only; omega⟩
        inside := fun hlt b hb => by
          rw [List.mem_singleton.1 hb]
          exact hlt
        empty := fun _ b hb => by rw [List.mem_singleton.1 hb] }
  · intro b hb hused
    rw [List.mem_singleton.1 hb] at hused
    exact Bool.noConfusion hused

/-- The invariant of a run, by induction on its steps. -/
theorem Sound.run {w w' : World} {ls : List (Call × Nat)} {bs : List Block} (h : Sound w bs)
    (hrun : Lts.Run (Lts.Guarded step fun w l => w.Safe l.1) w ls w') :
    (∃ bs', Sound w' bs') ∧ w'.pool.start = w.pool.start ∧ w'.pool.stop = w.pool.stop := by
  refine hrun.invariant (I := fun w' => (∃ bs', Sound w' bs') ∧ w'.pool.start = w.pool.start ∧
    w'.pool.stop = w.pool.stop) ?_ ⟨⟨bs, h⟩, rfl, rfl⟩
  rintro w₁ ⟨c, r⟩ ⟨pool, live⟩ ⟨⟨bs₁, h₁⟩, hstart, hstop⟩ ⟨hsafe, hvalid, hexec, hlive⟩
  obtain ⟨s, r', bs₂, hexec', hsound, hcorrect⟩ := h₁.served hvalid hsafe
  obtain ⟨rfl, rfl⟩ := Prod.mk.inj (Except.ok.inj (hexec.symm.trans hexec'))
  dsimp only at hlive
  subst hlive
  exact ⟨⟨bs₂, hsound⟩, hcorrect.area.1.trans hstart, hcorrect.area.2.trans hstop⟩

/-- **The pool is an allocator** in every run without a size that wraps and without giving back a
last block that begins behind `PcslMemoryEnd`. -/
theorem pool_allocator {port : Nat → Option (Nat × Nat)} {s s' : State} {startAddr : Nat} {size : Int}
    {memory n : Nat} (hfirst : s.start = 0) (harea : poolArea port startAddr size = some (memory, n))
    (hpos : 0 < memory) (hfits : memory + n < 4294967296)
    (hroom : (memory + 3) / 4 * 4 + HDR ≤ memory + n)
    (hinit : memInitialize port s startAddr size = some s') {ls : List (Call × Nat)} {w : World}
    (hrun : Lts.Run (Lts.Guarded step fun w l => w.Safe l.1) ⟨s', fun _ => none⟩ ls w) :
    w.Right ∧ memory ≤ w.pool.start ∧ w.pool.stop + HDR = memory + n ∧
    ∀ c, w.Valid c → w.Safe c → ∃ s r, exec w.pool c = .ok (s, r) ∧
      Correct w c r ⟨s, liveAfter w.live r c⟩ := by
  obtain ⟨s₁, bs, hinit', hlo, hhi, hsound⟩ := memInitialize_sound hfirst harea hpos hfits hroom
  obtain rfl := Option.some.inj (hinit.symm.trans hinit')
  obtain ⟨⟨bs', h⟩, hstart, hstop⟩ := hsound.run hrun
  refine ⟨h.right, by rw [hstart]; exact hlo, by rw [hstop]; exact hhi, fun c hvalid hsafe => ?_⟩
  obtain ⟨s, r, -, hexec, -, hcorrect⟩ := h.served hvalid hsafe
  exact ⟨s, r, hexec, hcorrect⟩

/-! ## A small pool -/

/-- A pool of 64 bytes at the address 4096. -/
def tinyPool : State :=
  (memInitialize (fun _ => none) ⟨0, 0, 0, fun _ => 0⟩ 4096 64).getD ⟨0, 0, 0, fun _ => 0⟩

theorem memInitialize_tinyPool :
    memInitialize (fun _ => none) ⟨0, 0, 0, fun _ => 0⟩ 4096 64 = some tinyPool := rfl

/-- A call in the small pool, by its result and the size of the block there. -/
theorem exec_tinyPool {c : Call} {r size : Nat} (h : (exec tinyPool c).toOption.map (fun x =>
    (x.2, blockSize x.1 x.2)) = some (r, size)) :
    ∃ s, exec tinyPool c = .ok (s, r) ∧ blockSize s r = size := by
  cases hexec : exec tinyPool c with
  | error e =>
    rw [hexec] at h
    exact absurd h (Option.some_ne_none _).symm
  | ok x =>
    obtain ⟨s, r'⟩ := x
    rw [hexec] at h
    obtain ⟨rfl, rfl⟩ := Prod.mk.inj (Option.some.inj h)
    exact ⟨s, rfl, rfl⟩

/-- Five bytes get a block of eight. -/
theorem pool_allocator_tiny : ∃ w : World, w.live 4104 = some 5 ∧ blockSize w.pool 4104 = 8 ∧ w.Right := by
  obtain ⟨s, hexec, hsize⟩ := @exec_tinyPool (.malloc 5) 4104 8
    (by decide +kernel)
  refine ⟨⟨s, liveAfter (fun _ => none) 4104 (.malloc 5)⟩, rfl, hsize, ?_⟩
  refine (@pool_allocator _ _ _ _ _ 4096 64 rfl rfl (by omega) (by omega) (by decide)
    memInitialize_tinyPool [(.malloc 5, 4104)] _ (.cons ⟨?_, ?_, hexec, rfl⟩ (.nil _))).1
  · exact ⟨by omega, fun h => absurd h (by omega)⟩
  · exact (by omega : 5 < 4294967296)

/-- **A size close to `2 ^ 32` gets a block of no bytes.** -/
theorem pool_not_allocator : ¬ ∀ (port : Nat → Option (Nat × Nat)) (s s' : State) (startAddr : Nat)
    (size : Int) (memory n : Nat), s.start = 0 → poolArea port startAddr size = some (memory, n) →
    0 < memory → memory + n < 4294967296 → (memory + 3) / 4 * 4 + HDR ≤ memory + n →
    memInitialize port s startAddr size = some s' → ∀ (ls : List (Call × Nat)) (w : World),
    Lts.Run step ⟨s', fun _ => none⟩ ls w → w.Right := by
  intro h
  obtain ⟨s, hexec, hsize⟩ := @exec_tinyPool (.malloc 4294967293) 4104 0
    (by decide +kernel)
  have hright := h _ _ _ 4096 64 4096 64 rfl rfl (by omega) (by omega) (by decide)
    memInitialize_tinyPool [(.malloc 4294967293, 4104)]
    ⟨s, liveAfter (fun _ => none) 4104 (.malloc 4294967293)⟩
    (.cons ⟨(by omega : 4294967293 < 4294967296), hexec, rfl⟩ (.nil _))
  have hprovides := hright.provides 4104 4294967293 rfl
  rw [hsize] at hprovides
  omega

end FroggyKVM.Pcsl
