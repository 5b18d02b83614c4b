/-
# FroggyKVM.Pcsl.Memory — the native memory pool (`pcsl_memory.c`, without `PCSL_DEBUG`).

The pool is a row of blocks in one chunk of memory, each behind a header with a magic number, a flag
and a size; there is no other book-keeping.  Memory is bytes, so that headers and contents can
overwrite one another; loops over headers take fuel, as a bad size may lead them in a circle.
**On a row of well-formed headers the search of `pcsl_mem_malloc_impl0` is first fit.**
-/
import FroggyKVM.Lib.Buffer
import FroggyKVM.Lib.ByteMemory
import FroggyKVM.Lib.FirstFit

namespace FroggyKVM.Pcsl

open ByteMemory FirstFit

/-- Conversion to an unsigned integer or a pointer of 32 bits. -/
def u32 (x : Int) : Nat := (x % 4294967296).toNat

/-- `sizeof(_PcslMemHdr)`. -/
def HDR : Nat := 8

def MAGIC : Nat := 0xCAFE

def ALIGNMENT : Nat := 3

def DEFAULT_POOL_SIZE : Nat := 8 * 1280 * 1024 + 1024 * 1024

/-! ## Headers -/

/-- `hdr->magic`. -/
def magicAt (m : Memory) (hdr : Nat) : Nat := get 2 m hdr

/-- `hdr->free`. -/
def freeAt (m : Memory) (hdr : Nat) : Nat := get 1 m (hdr + 2)

/-- `hdr->size`. -/
def sizeAt (m : Memory) (hdr : Nat) : Nat := get 4 m (hdr + 4)

def putMagic (m : Memory) (hdr x : Nat) : Memory := put 2 m hdr x

def putFree (m : Memory) (hdr x : Nat) : Memory := put 1 m (hdr + 2) x

def putSize (m : Memory) (hdr x : Nat) : Memory := put 4 m (hdr + 4) x

/-! ## The operations -/

/-- The static variables and the memory of the process. -/
structure State where
  memory : Nat
  start : Nat
  stop : Nat
  mem : Memory

/-- `while ((n & ALIGNMENT) != 0) n++`, for `k` steps at most. -/
def alignLoop : (k n : Nat) → Nat
  | 0, n => n
  | k + 1, n => if n &&& ALIGNMENT ≠ 0 then alignLoop k (u32 (n + 1)) else n

/-- The loop ends after three steps. -/
def wordAligned (n : Nat) : Nat := alignLoop 3 n

/-- The chunk of memory of the pool, with its size; `port` is `pcsl_heap_allocate_port`, which gives
an address and a size or fails. -/
def poolArea (port : Nat → Option (Nat × Nat)) (startAddr : Nat) (size : Int) : Option (Nat × Nat) :=
  let size := if size ≤ 0 then DEFAULT_POOL_SIZE else size.toNat
  if startAddr ≠ 0 then some (startAddr, size) else port size

/-- `pcsl_mem_initialize_impl0`. -/
def memInitialize (port : Nat → Option (Nat × Nat)) (s : State) (startAddr : Nat) (size : Int) :
    Option State :=
  if s.start ≠ 0 then some s
  else
    match poolArea port startAddr size with
    | none => none
    | some (memory, size) =>
      let start := wordAligned memory
      let m := putFree (putMagic s.mem start MAGIC) start 1
      some
        { memory := memory
          start := start
          stop := u32 (memory + size - HDR)
          mem := putSize m start (u32 (memory - start + size - HDR)) }

/-- The merging loop at the header `hdr`. -/
def coalesce (stop hdr : Nat) : Nat → Memory → Except MemFault Memory
  | 0, _ => .error .outOfFuel
  | fuel + 1, m =>
    if freeAt m hdr = 1 then
      let temp := u32 (hdr + u32 (sizeAt m hdr + HDR))
      if temp < stop ∧ freeAt m temp = 1 ∧ magicAt m temp = MAGIC then
        coalesce stop hdr fuel (putSize m hdr (u32 (sizeAt m hdr + u32 (sizeAt m temp + HDR))))
      else .ok m
    else .ok m

/-- Give the block at `ptr` away, after cutting off what is not needed. -/
def takeBlock (m : Memory) (ptr numBytes : Nat) : Memory :=
  let m :=
    if u32 (numBytes + HDR + 4) < sizeAt m ptr then
      let nextHdr := u32 (ptr + numBytes + HDR)
      let m := putFree (putMagic m nextHdr MAGIC) nextHdr 1
      putSize (putSize m nextHdr (u32 (sizeAt m ptr - numBytes - HDR))) ptr numBytes
    else m
  putFree m ptr 0

/-- The search for a free slot. -/
def findSlot (stop numBytes : Nat) : Nat → Memory → (ptr : Nat) → Except MemFault (Memory × Nat)
  | 0, _, _ => .error .outOfFuel
  | fuel + 1, m, ptr =>
    if ptr < stop then
      if magicAt m ptr ≠ MAGIC then .ok (m, 0)
      else do
        let m ← coalesce stop ptr 4294967296 m
        if freeAt m ptr = 1 ∧ numBytes ≤ sizeAt m ptr then
          return (takeBlock m ptr numBytes, u32 (ptr + HDR))
        else findSlot stop numBytes fuel m (u32 (ptr + u32 (sizeAt m ptr + HDR)))
    else .ok (m, 0)

/-- `pcsl_mem_malloc_impl0`. -/
def memMalloc (s : State) (size : Nat) : Except MemFault (State × Nat) := do
  let (m, loc) ← findSlot s.stop (wordAligned size) 4294967296 s.mem s.start
  return ({ s with mem := m }, loc)

/-- `pcsl_mem_calloc_impl0`. -/
def memCalloc (s : State) (nelem elsize : Nat) : Except MemFault (State × Nat) := do
  let (s, loc) ← memMalloc s (u32 (nelem * elsize))
  if loc ≠ 0 then
    return ({ s with mem := store s.mem loc (List.replicate (u32 (nelem * elsize)) 0) }, loc)
  else return (s, loc)

/-- `pcsl_mem_free_impl0`. -/
def memFree (s : State) (ptr : Nat) : State :=
  if ptr = 0 then s
  else if s.stop < ptr ∨ ptr < s.start then s
  else
    let hdr := u32 (ptr - HDR)
    if magicAt s.mem hdr ≠ MAGIC then s
    else if freeAt s.mem hdr ≠ 0 then s
    else { s with mem := putFree s.mem hdr 1 }

/-- `pcsl_mem_realloc_impl0`. -/
def memRealloc (s : State) (ptr size : Nat) : Except MemFault (State × Nat) :=
  if ptr = 0 then memMalloc s size
  else
    let memHdr := u32 (ptr - HDR)
    if sizeAt s.mem memHdr ≠ size then
      if size ≠ 0 then do
        let (s, newPtr) ← memMalloc s size
        if newPtr ≠ 0 then
          let n := if sizeAt s.mem memHdr < size then sizeAt s.mem memHdr else size
          return (memFree { s with mem := store s.mem newPtr (load s.mem ptr n) } ptr, newPtr)
        else return (s, newPtr)
      else return (memFree s ptr, 0)
    else return (s, ptr)

end FroggyKVM.Pcsl
