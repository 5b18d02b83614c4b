/-
# FroggyKVM.Gc.Resize — changing the size of an existing object heap.

`adjust_heap_size` recomputes the parameters of the slice table, then asks the system for two
chunks of memory, and gives them back when it did not get both.  The parameters are saved after
they were recomputed, so a failed call restores the new ones.
-/
import FroggyKVM.Lib.MachineInt

namespace FroggyKVM.Gc

/-! ## The parameters of the slice table -/

/-- The globals that `update_slices_size` sets. -/
structure SliceGlobals where
  nearMask : UInt32
  sliceShift : UInt32
  sliceOffsetBits : UInt32
  sliceOffsetMask : UInt32
  sliceSize : UInt32
  nofSlices : UInt32
deriving DecidableEq, Repr

/-- The loop that shifts `s` down to zero; a 32-bit word is zero after 32 shifts. -/
def countBitsLoop : Nat → UInt32 → UInt32
  | 0, _ => 0
  | fuel + 1, s => if s = 0 then 0 else countBitsLoop fuel (s >>> 1) + 1

def countBits (s : UInt32) : UInt32 := countBitsLoop 32 s

/-- `right_n_bits`. -/
def rightNBits (n : UInt32) : UInt32 := (if n ≥ 32 then 0 else (1 : UInt32) <<< n) - 1

/-- `align_size_up`. -/
def alignSizeUp (size alignment : UInt32) : UInt32 := (size + (alignment - 1)) &&& ~~~(alignment - 1)

/-- `align_up`: to as many words as a word has bits. -/
def alignUp (size : UInt32) : UInt32 := alignSizeUp size 128

/-- The bits that a near pointer needs in a heap of this size and in the ROM. -/
def nearBits (romMaxOffset objectHeapSize : UInt32) : UInt32 :=
  let near_bits := countBits ((objectHeapSize - 1) >>> 2)
  let rom_near_bits := countBits romMaxOffset
  if near_bits < rom_near_bits then rom_near_bits else near_bits

/-- `update_slices_size`: the size of the slice table, and the globals. -/
def updateSlicesSize (romMaxOffset objectHeapSize : UInt32) : UInt32 × SliceGlobals :=
  let near_bits := nearBits romMaxOffset objectHeapSize
  let near_mask := rightNBits near_bits
  let slice_offset_bits := 32 - near_bits - 1
  let slice_size := 1 <<< slice_offset_bits
  let slice_size_in_bytes := slice_size * 4
  let nof_slices := (objectHeapSize + slice_size_in_bytes - 1) / slice_size_in_bytes
  (nof_slices * 4,
    { nearMask := near_mask
      sliceShift := near_bits
      sliceOffsetBits := slice_offset_bits
      sliceOffsetMask := ~~~near_mask &&& 0x7fffffff
      sliceSize := slice_size
      nofSlices := nof_slices })

/-- `SavedHeapConfig`. -/
structure SavedHeapConfig where
  oldNearMask : UInt32
  oldSliceShift : UInt32
  oldSliceOffsetBits : UInt32
  oldSliceOffsetMask : UInt32
  oldSliceSize : UInt32

def saveHeapConfig (g : SliceGlobals) : SavedHeapConfig :=
  { oldNearMask := g.nearMask
    oldSliceShift := g.sliceShift
    oldSliceOffsetBits := g.sliceOffsetBits
    oldSliceOffsetMask := g.sliceOffsetMask
    oldSliceSize := g.sliceSize }

/-- The number of slices is not among what is restored. -/
def restoreHeapConfig (state : SavedHeapConfig) (g : SliceGlobals) : SliceGlobals :=
  { g with
    nearMask := state.oldNearMask
    sliceShift := state.oldSliceShift
    sliceOffsetBits := state.oldSliceOffsetBits
    sliceOffsetMask := state.oldSliceOffsetMask
    sliceSize := state.oldSliceSize }

/-! ## Chunks of memory -/

inductive Chunk where
  | heap
  | bitv
deriving DecidableEq

/-- What the heap relies on of `OsMemory_adjust_chunk`: it returns the old size, or 0 when the
chunk could not be expanded, and leaves the other chunk alone.  A system may round sizes. -/
structure OsMemory where
  State : Type
  size : State → Chunk → UInt32
  adjustChunk : State → Chunk → UInt32 → UInt32 × State
  round : UInt32 → UInt32
  round_size : ∀ s c, round (size s c) = size s c
  failed : ∀ s c n, (adjustChunk s c n).1 = 0 → size (adjustChunk s c n).2 c = size s c
  adjusted : ∀ s c n, (adjustChunk s c n).1 ≠ 0 →
    (adjustChunk s c n).1 = size s c ∧ size (adjustChunk s c n).2 c = round n
  other : ∀ s c n c', c' ≠ c → size (adjustChunk s c n).2 c' = size s c'

namespace OsMemory

variable (os : OsMemory)

/-- Both adjustments: the answers for the heap and for the bit vector. -/
def adjustChunks (s : os.State) (heapChunkSize bitvChunkSize : UInt32) :
    UInt32 × UInt32 × os.State :=
  let (old_heap_size, s) := os.adjustChunk s .heap heapChunkSize
  let (old_bitv_size, s) := os.adjustChunk s .bitv bitvChunkSize
  (old_heap_size, old_bitv_size, s)

/-- An adjustment back to the size that the first one returned, unless that one failed. -/
def restoreChunk (s : os.State) (c : Chunk) (oldSize : UInt32) : os.State :=
  if oldSize ≠ 0 then (os.adjustChunk s c oldSize).2 else s

end OsMemory

/-! ## The heap -/

/-- What does not change when the heap is resized. -/
structure HeapConfig where
  heapCapacity : UInt32
  preallocatedSpaceSize : UInt32
  glueCodeSize : UInt32
  romMaxOffset : UInt32
  heapChunk : UInt32
  bitvChunk : UInt32

/-- The sizes and addresses that `adjust_heap_size` sets when it succeeds. -/
structure HeapLayout where
  heapSize : UInt32
  heapStart : UInt32
  heapTop : UInt32
  heapLimit : UInt32
  heapEnd : UInt32
  bitvectorStart : UInt32
  slicesStart : UInt32
  bitvectorBase : UInt32
  youngGenerationTargetSize : UInt32
deriving DecidableEq, Repr

/-- An existing heap. -/
structure ObjectHeap (os : OsMemory) where
  slices : SliceGlobals
  layout : HeapLayout
  memory : os.State
  lastHeapExpansionFailed : Bool

def MimimumMarkingStackSize : UInt32 := 2 * 1024

def YoungGenerationTarget : UInt32 := 5

/-- The space at the start of the heap chunk that is not heap. -/
def extraSize (c : HeapConfig) : UInt32 :=
  alignSizeUp (c.preallocatedSpaceSize + c.glueCodeSize) 128

def heapChunkSize (c : HeapConfig) (targetHeapSize : UInt32) : UInt32 :=
  extraSize c + targetHeapSize + MimimumMarkingStackSize * 4

def bitvectorSize (targetHeapSize : UInt32) : UInt32 := targetHeapSize / 32

/-- The bit vector and the slice table share a chunk. -/
def bitvChunkSize (c : HeapConfig) (targetHeapSize : UInt32) : UInt32 :=
  bitvectorSize targetHeapSize + (updateSlicesSize c.romMaxOffset targetHeapSize).1

/-- The assignments at the end of `adjust_heap_size`. -/
def layoutFor (c : HeapConfig) (targetHeapSize : UInt32) : HeapLayout :=
  let heap_start := c.heapChunk + extraSize c
  let heap_top := heap_start + targetHeapSize / 4 * 4
  let heap_limit := heap_top + MimimumMarkingStackSize * 4
  { heapSize := targetHeapSize
    heapStart := heap_start
    heapTop := heap_top
    heapLimit := heap_limit
    heapEnd := heap_limit
    bitvectorStart := c.bitvChunk
    slicesStart := c.bitvChunk + bitvectorSize targetHeapSize
    bitvectorBase := c.bitvChunk - (heap_start >>> 2) / 8
    youngGenerationTargetSize := alignSizeUp (targetHeapSize / YoungGenerationTarget) 4 }

/-- `adjust_heap_size` on a heap that has its chunks. -/
def adjustHeapSize {os : OsMemory} (c : HeapConfig) (h : ObjectHeap os) (targetHeapSize : UInt32) :
    Bool × ObjectHeap os :=
  let target_heap_size := alignUp targetHeapSize
  -- the globals of the first of the two calls are overwritten by the second
  let h := { h with slices := (updateSlicesSize c.romMaxOffset c.heapCapacity).2 }
  let h := { h with slices := (updateSlicesSize c.romMaxOffset target_heap_size).2 }
  let saved_state := saveHeapConfig h.slices
  let (old_heap_size, old_bitv_size, memory) := os.adjustChunks h.memory
    (heapChunkSize c target_heap_size) (bitvChunkSize c target_heap_size)
  if old_heap_size = 0 ∨ old_bitv_size = 0 then
    let memory := os.restoreChunk memory .heap old_heap_size
    let memory := os.restoreChunk memory .bitv old_bitv_size
    (false,
      { h with
        memory := memory
        slices := restoreHeapConfig saved_state h.slices
        lastHeapExpansionFailed := true })
  else
    (true,
      { h with
        memory := memory
        layout := layoutFor c target_heap_size
        lastHeapExpansionFailed := false })

/-! ## What a call does -/

variable {os : OsMemory} {c : HeapConfig} {h : ObjectHeap os} {target : UInt32}

/-- The answers to the two adjustments of a call. -/
def answers (c : HeapConfig) (h : ObjectHeap os) (target : UInt32) : UInt32 × UInt32 × os.State :=
  os.adjustChunks h.memory (heapChunkSize c (alignUp target)) (bitvChunkSize c (alignUp target))

/-- A failed call leaves the parameters of the size that was asked for. -/
theorem adjustHeapSize_failed (hf : (adjustHeapSize c h target).1 = false) :
    ((answers c h target).1 = 0 ∨ (answers c h target).2.1 = 0) ∧
      (adjustHeapSize c h target).2 =
        { slices := (updateSlicesSize c.romMaxOffset (alignUp target)).2
          layout := h.layout
          memory := os.restoreChunk
            (os.restoreChunk (answers c h target).2.2 .heap (answers c h target).1) .bitv
            (answers c h target).2.1
          lastHeapExpansionFailed := true } := by
  unfold adjustHeapSize at hf ⊢
  simp only at hf ⊢
  split at hf
  · next hzero =>
    rw [if_pos hzero]
    exact ⟨hzero, rfl⟩
  · exact absurd hf (by simp)

theorem adjustHeapSize_succeeded (hs : (adjustHeapSize c h target).1 = true) :
    (adjustHeapSize c h target).2.slices = (updateSlicesSize c.romMaxOffset (alignUp target)).2 ∧
      (adjustHeapSize c h target).2.layout = layoutFor c (alignUp target) := by
  unfold adjustHeapSize at hs ⊢
  simp only at hs ⊢
  split at hs
  · exact absurd hs (by simp)
  · next hzero =>
    rw [if_neg hzero]
    exact ⟨rfl, rfl⟩

/-! ## Giving the chunks back -/

/-- The adjustments back to the old sizes do not fail. -/
structure RestoresSucceed (os : OsMemory) (r : UInt32 × UInt32 × os.State) : Prop where
  heap : r.1 ≠ 0 → (os.adjustChunk r.2.2 .heap r.1).1 ≠ 0
  bitv : r.2.1 ≠ 0 → (os.adjustChunk (os.restoreChunk r.2.2 .heap r.1) .bitv r.2.1).1 ≠ 0

namespace OsMemory

variable (os : OsMemory) {s : os.State} {ch : Chunk} {old : UInt32}

theorem restoreChunk_other {ch' : Chunk} (h : ch' ≠ ch) :
    os.size (os.restoreChunk s ch old) ch' = os.size s ch' := by
  unfold restoreChunk
  split
  · exact os.other s ch old ch' h
  · rfl

/-- A chunk that was adjusted once has its old size again, whether or not that failed. -/
theorem size_restoreChunk {s₁ s₂ : os.State} {n : UInt32}
    (hbefore : os.size s₂ ch = os.size (os.adjustChunk s₁ ch n).2 ch)
    (hold : old = (os.adjustChunk s₁ ch n).1)
    (hrestore : old ≠ 0 → (os.adjustChunk s₂ ch old).1 ≠ 0) :
    os.size (os.restoreChunk s₂ ch old) ch = os.size s₁ ch := by
  subst hold
  unfold restoreChunk
  split
  · next hok =>
    rw [(os.adjusted _ _ _ (hrestore hok)).2, (os.adjusted _ _ _ hok).1, os.round_size]
  · next hzero =>
    rw [hbefore, os.failed _ _ _ (not_not.mp hzero)]

/-- **After two adjustments and their restoration both chunks have the sizes they had.** -/
theorem restoreChunks_size {n m : UInt32} (hr : RestoresSucceed os (os.adjustChunks s n m))
    (ch : Chunk) :
    os.size (os.restoreChunk (os.restoreChunk (os.adjustChunks s n m).2.2 .heap
      (os.adjustChunks s n m).1) .bitv (os.adjustChunks s n m).2.1) ch = os.size s ch := by
  cases ch with
  | heap =>
    rw [os.restoreChunk_other (by decide)]
    exact os.size_restoreChunk (os.other _ _ _ _ (by decide)) rfl hr.heap
  | bitv =>
    have hbitv := os.size_restoreChunk (os.restoreChunk_other (by decide)) rfl hr.bitv
    exact hbitv.trans (os.other _ _ _ _ (by decide))

end OsMemory

/-! ## Unchanged globals -/

/-- The globals that later operations read, and the sizes of both chunks, are the same. -/
structure Unchanged (h h' : ObjectHeap os) : Prop where
  slices : h'.slices = h.slices
  layout : h'.layout = h.layout
  chunks : ∀ ch, os.size h'.memory ch = os.size h.memory ch

/-- The parameters are those of a heap of `size` bytes. -/
structure SlicedFor (romMaxOffset size : UInt32) (g : SliceGlobals) : Prop where
  shift : g.sliceShift = nearBits romMaxOffset size
  mask : g.nearMask = rightNBits g.sliceShift
  offsetBits : g.sliceOffsetBits = 32 - g.sliceShift - 1
  offsetMask : g.sliceOffsetMask = ~~~g.nearMask &&& 0x7fffffff
  sliceSize : g.sliceSize = 1 <<< g.sliceOffsetBits
  nofSlices : g.nofSlices = (size + g.sliceSize * 4 - 1) / (g.sliceSize * 4)

theorem slicedFor_iff {romMaxOffset size : UInt32} {g : SliceGlobals} :
    SlicedFor romMaxOffset size g ↔ (updateSlicesSize romMaxOffset size).2 = g := by
  constructor
  · rintro ⟨hshift, hmask, hbits, hoffset, hsize, hcount⟩
    cases g
    simp only at hshift hmask hbits hoffset hsize hcount
    subst hshift hmask hbits hoffset hsize hcount
    rfl
  · rintro rfl
    exact ⟨rfl, rfl, rfl, rfl, rfl, rfl⟩

/-- A call; one that fails has asked for a size with the parameters of the heap. -/
def Resizes (c : HeapConfig) (h : ObjectHeap os) (target : UInt32) (h' : ObjectHeap os) : Prop :=
  (adjustHeapSize c h target).2 = h' ∧
    ((adjustHeapSize c h target).1 = false → SlicedFor c.romMaxOffset (alignUp target) h.slices)

/-- **Such a call leaves the parameters of the size the heap then has.** -/
theorem Resizes.slicedFor {h' : ObjectHeap os} (hcall : Resizes c h target h')
    (hs : SlicedFor c.romMaxOffset h.layout.heapSize h.slices) :
    SlicedFor c.romMaxOffset h'.layout.heapSize h'.slices := by
  obtain ⟨rfl, hsame⟩ := hcall
  cases hok : (adjustHeapSize c h target).1 with
  | true =>
    obtain ⟨hslices, hlayout⟩ := adjustHeapSize_succeeded hok
    rw [slicedFor_iff, hlayout, hslices]
    rfl
  | false =>
    rw [(adjustHeapSize_failed hok).2]
    dsimp only
    rwa [slicedFor_iff.1 (hsame hok)]

/-- **A failed call changes nothing exactly when the slice table of the heap that was asked for has
the parameters the heap already has.** -/
theorem adjustHeapSize_unchanged_iff (hf : (adjustHeapSize c h target).1 = false)
    (hr : RestoresSucceed os (answers c h target)) :
    Unchanged h (adjustHeapSize c h target).2 ↔
      SlicedFor c.romMaxOffset (alignUp target) h.slices := by
  obtain ⟨-, hfailed⟩ := adjustHeapSize_failed hf
  rw [slicedFor_iff, hfailed]
  constructor
  · intro hunchanged
    exact hunchanged.slices
  · intro hslices
    exact ⟨hslices, rfl, os.restoreChunks_size hr⟩

/-! ## A heap that cannot grow -/

/-- Chunks that are never empty and grow up to a limit. -/
def limitedMemory (limit : Chunk → UInt32) : OsMemory where
  State := Chunk → {n : UInt32 // n ≠ 0}
  size := fun s c => (s c).val
  adjustChunk := fun s c n =>
    if h : n ≠ 0 ∧ n ≤ limit c then ((s c).val, fun c' => if c' = c then ⟨n, h.1⟩ else s c')
    else (0, s)
  round := id
  round_size := fun _ _ => rfl
  failed := by
    intro s c n h
    by_cases hn : n ≠ 0 ∧ n ≤ limit c
    · rw [dif_pos hn] at h
      exact absurd h (s c).property
    · rw [dif_neg hn]
  adjusted := by
    intro s c n h
    by_cases hn : n ≠ 0 ∧ n ≤ limit c
    · rw [dif_pos hn]
      exact ⟨rfl, by simp⟩
    · rw [dif_neg hn] at h
      exact absurd rfl h
  other := by
    intro s c n c' hc
    split
    · simp [hc]
    · rfl

def config1M : HeapConfig :=
  { heapCapacity := 0x100000
    preallocatedSpaceSize := 0
    glueCodeSize := 0
    romMaxOffset := 0x1000
    heapChunk := 0x200000
    bitvChunk := 0x80000 }

/-- The system has no more memory for the heap chunk of `heap48K`. -/
def fullMemory : OsMemory :=
  limitedMemory fun c => match c with
    | .heap => heapChunkSize config1M 0xc000
    | .bitv => 0x10000

/-- A heap of 48K. -/
def heap48K : ObjectHeap fullMemory :=
  { slices := (updateSlicesSize config1M.romMaxOffset 0xc000).2
    layout := layoutFor config1M 0xc000
    memory := fun c => match c with
      | .heap => ⟨heapChunkSize config1M 0xc000, by decide +kernel⟩
      | .bitv => ⟨bitvChunkSize config1M 0xc000, by decide +kernel⟩
    lastHeapExpansionFailed := false }

/-- The near pointers of 48K and of 64K have the same width. -/
theorem grow_to_64K_unchanged :
    Unchanged heap48K (adjustHeapSize config1M heap48K 0x10000).2 :=
  (adjustHeapSize_unchanged_iff (by decide +kernel)
    ⟨by decide +kernel, by decide +kernel⟩).mpr (slicedFor_iff.mpr (by decide +kernel))

/-- The near pointers of 128K are a bit wider. -/
theorem grow_to_128K_changes :
    (adjustHeapSize config1M heap48K 0x20000).1 = false ∧
      RestoresSucceed fullMemory (answers config1M heap48K 0x20000) ∧
      SlicedFor config1M.romMaxOffset heap48K.layout.heapSize heap48K.slices ∧
      ¬ Unchanged heap48K (adjustHeapSize config1M heap48K 0x20000).2 := by
  refine ⟨by decide +kernel, ⟨by decide +kernel, by decide +kernel⟩,
    slicedFor_iff.mpr (by decide +kernel), ?_⟩
  intro hunchanged
  exact absurd hunchanged.slices (by decide +kernel)

end FroggyKVM.Gc
