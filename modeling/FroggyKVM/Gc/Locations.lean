/-
# FroggyKVM.Gc.Locations — where the live objects go.

The second phase of a collection walks over the heap behind the objects that stay.  It writes into
each live object how far it goes from the destination of its slice, an entry for every slice that it
comes to, and into each dead range where the next live range starts and ends.
-/
import FroggyKVM.Gc.Forwarding
import FroggyKVM.Gc.Heap

namespace FroggyKVM.Gc

/-- The assertions of the second phase, and the end of a loop's fuel. -/
inductive LocationFault where
  | sliceTable
  | sliceOffset
  | outOfFuel
deriving DecidableEq, Repr

namespace Bitvector

/-- `clear_bit_for`. -/
def clearBitFor (bv : Bitvector) (p : Nat) : Bitvector :=
  Function.update bv (p / 32) (bv (p / 32) &&& ~~~BitVec.twoPow 32 (p % 32))

/-- `clear_bit_range`: whole words are set to zero, the bits at the ends one by one. -/
def clearBitRange (bv : Bitvector) (start stop : Nat) : Bitvector :=
  let aligned_start := (start + 31) / 32 * 32
  let aligned_end := stop / 32 * 32
  if aligned_start ≥ aligned_end then (List.range' start (stop - start)).foldl clearBitFor bv
  else
    let bv := (List.range' start (aligned_start - start)).foldl clearBitFor bv
    let bv := (List.range' aligned_end (stop - aligned_end)).reverse.foldl clearBitFor bv
    fun i => if aligned_start / 32 ≤ i ∧ i < aligned_end / 32 then 0 else bv i

end Bitvector

/-! ## Live ranges -/

/-- What memory holds: a machine word at every address. -/
abbrev Memory := Nat → UInt32

namespace LiveRange

/-- `LiveRange::set_next_live`. -/
def setNextLive (memory : Memory) (position p : Nat) : Memory :=
  Function.update memory position (if position + 1 = p then 0x1 else pointer p)

/-- `LiveRange::set_next_dead`. -/
def setNextDead (memory : Memory) (position p : Nat) : Memory :=
  if memory position = 0x1 then Function.update memory position (pointer p ||| 0x1)
  else Function.update memory (position + 1) (pointer p)

/-- `LiveRange::get_range`: the next live and the next dead address. -/
def getRange (memory : Memory) (position : Nat) : Nat × Nat :=
  let first_word := memory position
  if first_word &&& 0x1 ≠ 0 then (position + 1, address (first_word &&& ~~~0x1))
  else (address first_word, address (memory (position + 1)))

end LiveRange

/-! ## The marked heap -/

/-- The heap when the marking phase is over.  The size of an object depends on its class and on its
own length, neither of which this phase writes to. -/
structure MarkedHeap where
  memory : Memory
  bitvector : Bitvector
  /-- the fields of the class at a pointer -/
  farClass : UInt32 → FarClassDesc
  /-- `object_size_for`, in words -/
  objectSizeFor : FarClassDesc → Nat → Nat
  /-- the slots that `oops_do_for` visits -/
  oopsDoFor : FarClassDesc → Nat → List Nat
  heapStart : Nat
  collectionAreaStart : Nat
  collectionAreaEnd : Nat
  oldGenerationEnd : Nat
  youngGenerationStart : Nat
  inlineAllocationTop : Nat
  markAreaEnd : Nat
  rom : Rom
  slices : SliceGlobals
  /-- every object has the word of its near -/
  objectSize_pos : ∀ fcd p, 0 < objectSizeFor fcd p
  collectionArea_le : heapStart ≤ collectionAreaStart
  youngGeneration_le : heapStart ≤ youngGenerationStart
  allocationTop_le : inlineAllocationTop ≤ markAreaEnd

namespace MarkedHeap

variable (heap : MarkedHeap)

/-- `contains`. -/
def Contains (target : UInt32) : Prop :=
  4 * heap.heapStart ≤ target.toNat ∧ target.toNat < 4 * heap.markAreaEnd

instance (target : UInt32) : Decidable (heap.Contains target) := by
  unfold Contains
  infer_instance

/-! ## The objects that stay -/

/-- `blueprint`: the near of the near. -/
def blueprint (p : Nat) : FarClassDesc :=
  heap.farClass (heap.memory (address (heap.memory p)))

/-- `mark_forward_pointer`. -/
def markForwardPointer (bits : Bitvector) (base : Nat) : Bitvector :=
  let obj := (heap.memory base).toNat
  if 4 * base < obj ∧ obj < 4 * heap.inlineAllocationTop then bits.setBitFor base else bits

/-- `mark_forward_pointers` from `p` on: the end of the live objects that follow one another. -/
def markForwardPointers : Nat → Nat → Bitvector → Except LocationFault (Nat × Bitvector)
  | 0, _, _ => .error .outOfFuel
  | fuel + 1, p, bits =>
    if p < heap.inlineAllocationTop ∧ bits.testBitFor p then
      let blueprint := heap.blueprint p
      markForwardPointers fuel (p + heap.objectSizeFor blueprint p)
        ((heap.oopsDoFor blueprint p).foldl heap.markForwardPointer bits)
    else .ok (p, bits)

/-! ## The walk -/

/-- The local variables of `compute_new_object_locations`, and what it writes to. -/
structure Scan where
  p : Nat
  thisSlice : Nat
  thisSliceDestination : Nat
  nextSlice : Nat
  /-- the entries written from `_slices_start` on -/
  slices : List Nat
  compactionTop : Nat
  compactionStarted : Bool
  compactionStart : Nat
  lastDead : Option Nat
  prevLastDead : Option Nat
  firstDead : Option Nat
  memory : Memory
  bits : Bitvector

/-- The entry for the next slice: its objects go to the compaction top. -/
def enterSlice (s : Scan) : Scan :=
  { s with
    thisSlice := s.nextSlice
    nextSlice := s.nextSlice + heap.slices.sliceSize.toNat
    thisSliceDestination := s.compactionTop
    slices := s.slices ++ [s.compactionTop] }

/-- `while (p >= next_slice)` -/
def passSlices : Nat → Scan → Except LocationFault Scan
  | 0, _ => .error .outOfFuel
  | fuel + 1, s =>
    if s.p ≥ s.nextSlice then
      let s := heap.enterSlice s
      if s.slices.length ≤ heap.slices.nofSlices.toNat then passSlices fuel s
      else .error .sliceTable
    else .ok s

/-- `decode_far_class_with_real_near`: the near's own near is a forwarding word if the walk has come
to the near. -/
def decodeFarClassWithRealNear (s : Scan) (obj : Nat) : FarClassDesc :=
  let n := s.memory obj
  if address n ≥ s.compactionStart ∧ n < pointer obj ∧ heap.Contains n ∧ s.bits.testBitFor (address n)
  then heap.farClass (decodeNear heap.slices heap.rom heap.heapStart (s.memory (address n)))
  else heap.farClass (s.memory (address n))

/-- `near_offset` of the object's near. -/
def nearOffset (obj_near : UInt32) : UInt32 :=
  if heap.Contains obj_near then UInt32.ofNat (address obj_near - heap.heapStart)
  else romNear (heap.rom.romOffsetOf obj_near)

/-- The body of the loop for a live object. -/
def liveObject (s : Scan) : Except LocationFault Scan :=
  let fcd := heap.decodeFarClassWithRealNear s s.p
  let size := heap.objectSizeFor fcd s.p
  let obj_near := s.memory s.p
  let slice_offset := s.compactionTop - s.thisSliceDestination
  if slice_offset < heap.slices.sliceSize.toNat then
    let memory := Function.update s.memory s.p
      (encodeKlass heap.slices (UInt32.ofNat slice_offset) (heap.nearOffset obj_near))
    .ok { s with
      compactionStarted := true
      compactionStart := if s.compactionStarted then s.compactionStart else s.p
      memory := s.lastDead.elim memory fun last_dead => LiveRange.setNextLive memory last_dead s.p
      prevLastDead := s.lastDead.or s.prevLastDead
      lastDead := none
      bits :=
        if fcd.instance_size = size_execution_stack ∧ 1 < size then
          s.bits.clearBitRange (s.p + 1) (s.p + size)
        else s.bits
      compactionTop := s.compactionTop + size
      p := s.p + size }
  else .error .sliceOffset

/-- `while (bitvector_word_ptr <= last_bitvector_word_ptr && bitword == 0)` -/
def skipWords (bits : Bitvector) (last : Nat) : Nat → Nat → BitVec 32 → BitVec 32 × Nat
  | 0, ptr, bitword => (bitword, ptr)
  | fuel + 1, ptr, bitword =>
    if ptr ≤ last ∧ bitword = 0 then skipWords bits last fuel (ptr + 1) (bits (ptr + 1))
    else (bitword, ptr)

/-- The next live object at `p` or behind it. -/
def findLive (bits : Bitvector) (p : Nat) : Nat :=
  let last := heap.inlineAllocationTop / 32
  let bitword := bits (p / 32) &&& ~~~(BitVec.twoPow 32 (p % 32) - 1)
  let x := skipWords bits last (last + 2 - p / 32) (p / 32) bitword
  (nextBit (x.1, 32 * x.2)).2

/-- The body of the loop for a dead range. -/
def deadRange (s : Scan) : Scan :=
  { s with
    memory := s.prevLastDead.elim s.memory fun prev => LiveRange.setNextDead s.memory prev s.p
    firstDead := if s.prevLastDead.isSome then s.firstDead else some s.p
    lastDead := some s.p
    p := heap.findLive s.bits s.p }

/-- The body of the loop. -/
def scanStep (s : Scan) : Except LocationFault Scan :=
  match heap.passSlices (s.p - s.nextSlice + 2) s with
  | .error e => .error e
  | .ok s => if s.bits.testBitFor s.p then heap.liveObject s else .ok (heap.deadRange s)

/-- `while (p < inline_allocation_top)` -/
def scanLoop : Nat → Scan → Except LocationFault Scan
  | 0, _ => .error .outOfFuel
  | fuel + 1, s =>
    if s.p < heap.inlineAllocationTop then
      match heap.scanStep s with
      | .error e => .error e
      | .ok s => scanLoop fuel s
    else .ok s

/-! ## The phase -/

/-- The record of the last dead range. -/
def lastRange (s : Scan) : Memory :=
  let top := heap.inlineAllocationTop
  match s.lastDead with
  | some last_dead => LiveRange.setNextDead (LiveRange.setNextLive s.memory last_dead top) last_dead top
  | none => s.prevLastDead.elim s.memory fun prev => LiveRange.setNextDead s.memory prev top

/-- The record that makes the space between the generations a dead range. -/
def splitRange (s : Scan) (memory : Memory) : Memory :=
  let start := heap.oldGenerationEnd
  if s.compactionStart = heap.youngGenerationStart then
    LiveRange.setNextDead (LiveRange.setNextLive memory start heap.youngGenerationStart) start
      (s.firstDead.getD heap.inlineAllocationTop)
  else
    let x := LiveRange.getRange memory heap.youngGenerationStart
    LiveRange.setNextDead (LiveRange.setNextLive memory start x.1) start x.2

/-- The globals that `compute_new_object_locations` sets, the slice table, and the memory. -/
structure Locations where
  endFixedObjects : Nat
  compactionStart : Nat
  compactionTop : Nat
  slices : List Nat
  memory : Memory
  bits : Bitvector

/-- The state before the walk over the objects from `p` on. -/
def startScan (p compactionTop : Nat) (bits : Bitvector) : Scan :=
  { p := p
    thisSlice := 0
    thisSliceDestination := 0
    nextSlice := heap.heapStart
    slices := []
    compactionTop := compactionTop
    compactionStarted := false
    compactionStart := heap.collectionAreaEnd
    lastDead := none
    prevLastDead := none
    firstDead := none
    memory := heap.memory
    bits := bits }

/-- The young generation is collected alone, and is not next to the old one. -/
def SplitCollection : Prop :=
  heap.oldGenerationEnd ≠ heap.youngGenerationStart ∧ heap.collectionAreaStart ≠ heap.heapStart

instance : Decidable heap.SplitCollection := by
  unfold SplitCollection
  infer_instance

/-- Where the walk starts. -/
def firstScan : Except LocationFault Scan :=
  if heap.SplitCollection then
    .ok (heap.startScan heap.youngGenerationStart heap.oldGenerationEnd heap.bitvector)
  else
    match heap.markForwardPointers (heap.inlineAllocationTop - heap.collectionAreaStart + 1)
      heap.collectionAreaStart heap.bitvector with
    | .error e => .error e
    | .ok r => .ok (heap.startScan r.1 r.1 r.2)

/-- `compute_new_object_locations`. -/
def computeNewObjectLocations : Except LocationFault Locations :=
  match heap.firstScan with
  | .error e => .error e
  | .ok start =>
    match heap.scanLoop (heap.inlineAllocationTop - start.p + 1) start with
    | .error e => .error e
    | .ok s =>
      .ok {
        endFixedObjects := start.compactionTop
        compactionStart := s.compactionStart
        compactionTop := s.compactionTop
        slices := s.slices
        memory := if heap.SplitCollection then heap.splitRange s (heap.lastRange s) else heap.lastRange s
        bits := s.bits }

variable {heap}

/-! ## What the parts do -/

/-- The live objects that follow one another end somewhere. -/
theorem markForwardPointers_eq : ∀ {fuel p : Nat} {bits : Bitvector},
    heap.inlineAllocationTop - p < fuel →
    ∃ q bits', heap.markForwardPointers fuel p bits = .ok (q, bits') ∧ p ≤ q
  | 0, _, _, hfuel => absurd hfuel (Nat.not_lt_zero _)
  | fuel + 1, p, bits, hfuel => by
    unfold markForwardPointers
    split
    · next hlive =>
      have hpos := heap.objectSize_pos (heap.blueprint p) p
      obtain ⟨q, bits', hrest, hle⟩ := @markForwardPointers_eq fuel
        (p + heap.objectSizeFor (heap.blueprint p) p)
        ((heap.oopsDoFor (heap.blueprint p) p).foldl heap.markForwardPointer bits) (by omega)
      exact ⟨q, bits', hrest, by omega⟩
    · exact ⟨p, bits, rfl, Nat.le_refl p⟩

theorem le_skipBits (n : Nat) (x : BitVec 32 × Nat) : x.2 ≤ (skipBits n x).2 := by
  unfold skipBits
  split
  · exact Nat.le_add_right _ _
  · exact Nat.le_refl _

theorem le_nextBit (x : BitVec 32 × Nat) : x.2 ≤ (nextBit x).2 := by
  unfold nextBit
  exact (le_skipBits 16 x).trans <| (le_skipBits 8 _).trans <| (le_skipBits 4 _).trans <|
    (le_skipBits 2 _).trans (le_skipBits 1 _)

/-- Zero words are skipped, up to the word behind the last one. -/
theorem skipWords_spec {bits : Bitvector} {last : Nat} : ∀ {fuel ptr : Nat} {bitword : BitVec 32},
    last + 2 - ptr ≤ fuel → ptr ≤ last + 1 →
    ∃ i, skipWords bits last fuel ptr bitword = (if i = 0 then bitword else bits (ptr + i), ptr + i) ∧
      (∀ j < i, (if j = 0 then bitword else bits (ptr + j)) = 0) ∧
      (ptr + i ≤ last → (if i = 0 then bitword else bits (ptr + i)) ≠ 0)
  | 0, ptr, _, hfuel, hptr => by omega
  | fuel + 1, ptr, bitword, hfuel, hptr => by
    unfold skipWords
    split
    · next hskip =>
      obtain ⟨i, heq, hzero, hnext⟩ := @skipWords_spec bits last fuel (ptr + 1) (bits (ptr + 1))
        (by omega) (by omega)
      have hword : ∀ j, (if j = 0 then bits (ptr + 1) else bits (ptr + 1 + j)) =
          if j + 1 = 0 then bitword else bits (ptr + (j + 1)) := by
        intro j
        rw [if_neg (Nat.succ_ne_zero j)]
        split
        · next hj => rw [hj]
        · rw [Nat.add_assoc, Nat.add_comm 1]
      rw [hword] at heq hnext
      refine ⟨i + 1, by rw [heq, Nat.add_assoc, Nat.add_comm 1], fun j hj => ?_, fun hle => hnext (by omega)⟩
      cases j with
      | zero => exact hskip.2
      | succ j =>
        rw [← hword]
        exact hzero j (by omega)
    · next hstop =>
      refine ⟨0, rfl, fun j hj => absurd hj (Nat.not_lt_zero j), fun hle => ?_⟩
      rw [if_pos rfl]
      exact fun hz => hstop ⟨hle, hz⟩

/-- The bits of the words from `p` on, the first of them without what is before `p`. -/
theorem getLsbD_word (bits : Bitvector) {p q : Nat} (hq : p / 32 ≤ q / 32) :
    (if q / 32 - p / 32 = 0 then bits (p / 32) &&& ~~~(BitVec.twoPow 32 (p % 32) - 1)
      else bits (p / 32 + (q / 32 - p / 32))).getLsbD (q % 32) = (decide (p ≤ q) && bits.testBitFor q) := by
  have hmod : q % 32 < 32 := Nat.mod_lt _ (by decide)
  unfold Bitvector.testBitFor
  split
  · next hzero =>
    have hsame : q / 32 = p / 32 := by omega
    have hle : p ≤ q ↔ ¬ q % 32 < p % 32 := by omega
    rw [BitVec.getLsbD_and, BitVec.getLsbD_not, getLsbD_mask (Nat.mod_lt _ (by decide)), hsame,
      decide_eq_true hmod, Bool.true_and, Bool.and_comm, decide_eq_decide.2 hle, decide_not]
  · have hsame : p / 32 + (q / 32 - p / 32) = q / 32 := by omega
    rw [hsame, decide_eq_true (by omega : p ≤ q), Bool.true_and]

/-- **The next live object**: behind a dead word, with no live object between. -/
theorem findLive_spec {bits : Bitvector} {p : Nat} (hp : p < heap.inlineAllocationTop)
    (hdead : bits.testBitFor p = false) :
    p < heap.findLive bits p ∧
      (heap.findLive bits p < heap.inlineAllocationTop → bits.testBitFor (heap.findLive bits p) = true) ∧
      ∀ q, p ≤ q → q < heap.findLive bits p → q < heap.inlineAllocationTop →
        bits.testBitFor q = false := by
  obtain ⟨i, heq, hzero, hnext⟩ := @skipWords_spec bits (heap.inlineAllocationTop / 32)
    (heap.inlineAllocationTop / 32 + 2 - p / 32) (p / 32)
    (bits (p / 32) &&& ~~~(BitVec.twoPow 32 (p % 32) - 1)) (Nat.le_refl _) (by omega)
  -- the words that were skipped
  have hskipped : ∀ q, p ≤ q → q / 32 < p / 32 + i → bits.testBitFor q = false := by
    intro q hpq hq
    have hbit := getLsbD_word bits (show p / 32 ≤ q / 32 by omega)
    rw [hzero (q / 32 - p / 32) (by omega), decide_eq_true hpq, Bool.true_and] at hbit
    rw [← hbit]
    exact BitVec.getLsbD_zero
  unfold findLive
  dsimp only
  rw [heq]
  dsimp only
  by_cases hword : (if i = 0 then bits (p / 32) &&& ~~~(BitVec.twoPow 32 (p % 32) - 1)
      else bits (p / 32 + i)) = 0
  · -- no live object is left
    have hout : heap.inlineAllocationTop / 32 < p / 32 + i :=
      Nat.lt_of_not_le fun hle => hnext hle hword
    have hge := le_nextBit ((if i = 0 then bits (p / 32) &&& ~~~(BitVec.twoPow 32 (p % 32) - 1)
      else bits (p / 32 + i)), 32 * (p / 32 + i))
    dsimp only at hge
    exact ⟨by omega, fun hlt => by omega, fun q hpq _ hq => hskipped q hpq (by omega)⟩
  · obtain ⟨k, hk, hbit, hbelow⟩ := nextBit_eq (p := 32 * (p / 32 + i)) hword
    have hk32 := BitVec.lt_of_getLsbD hbit
    rw [hk]
    dsimp only
    have hplace : ∀ j < 32, (32 * (p / 32 + i) + j) / 32 = p / 32 + i ∧
        (32 * (p / 32 + i) + j) % 32 = j := by
      intro j hj
      omega
    have hread : ∀ j < 32, (if i = 0 then bits (p / 32) &&& ~~~(BitVec.twoPow 32 (p % 32) - 1)
        else bits (p / 32 + i)).getLsbD j =
          (decide (p ≤ 32 * (p / 32 + i) + j) && bits.testBitFor (32 * (p / 32 + i) + j)) := by
      intro j hj
      obtain ⟨hdiv, hmod⟩ := hplace j hj
      rw [← getLsbD_word bits (by omega), hdiv, hmod, Nat.add_sub_cancel_left]
    rw [hread k hk32, Bool.and_eq_true, decide_eq_true_eq] at hbit
    refine ⟨Nat.lt_of_le_of_ne hbit.1 fun heq' => ?_, fun _ => hbit.2, fun q hpq hqk _ => ?_⟩
    · have hlive := hbit.2
      rw [← heq', hdead] at hlive
      cases hlive
    · by_cases hq : q / 32 < p / 32 + i
      · exact hskipped q hpq hq
      · have hlow := hbelow (q % 32) (by omega)
        have hsame : 32 * (p / 32 + i) + q % 32 = q := by omega
        rwa [hread _ (by omega), hsame, decide_eq_true hpq, Bool.true_and] at hlow

/-! ## The slices -/

/-- The slice table has an entry for every slice that starts before the allocation top. -/
structure TableFits (heap : MarkedHeap) : Prop where
  sliceSize_pos : 0 < heap.slices.sliceSize.toNat
  table : ∀ k, heap.heapStart + k * heap.slices.sliceSize.toNat < heap.inlineAllocationTop →
    k < heap.slices.nofSlices.toNat

/-- The slices that the walk has come to.  Since the start of its slice the walk has come at least
as far as the compaction top. -/
structure SlicesInv (heap : MarkedHeap) (s : Scan) : Prop where
  next : s.nextSlice = heap.heapStart + s.slices.length * heap.slices.sliceSize.toNat
  table : s.slices.length ≤ heap.slices.nofSlices.toNat
  start : s.slices ≠ [] → s.thisSlice + heap.slices.sliceSize.toNat = s.nextSlice ∧
    s.thisSlice ≤ s.p ∧ s.thisSliceDestination ≤ s.compactionTop ∧
    s.compactionTop + s.thisSlice ≤ s.p + s.thisSliceDestination

/-- `s'` is `s` but for the slices. -/
def SameButSlices (s s' : Scan) : Prop :=
  s' = { s with
    thisSlice := s'.thisSlice
    thisSliceDestination := s'.thisSliceDestination
    nextSlice := s'.nextSlice
    slices := s'.slices }

theorem SameButSlices.p_eq {s s' : Scan} (h : SameButSlices s s') : s'.p = s.p :=
  (congrArg Scan.p h :)

/-- **Every slice up to `p` gets its entry.** -/
theorem passSlices_spec (hfits : heap.TableFits) : ∀ {fuel : Nat} {s : Scan}, heap.SlicesInv s →
    s.p < heap.inlineAllocationTop → s.p - s.nextSlice + 1 < fuel →
    ∃ s', heap.passSlices fuel s = .ok s' ∧ SameButSlices s s' ∧ heap.SlicesInv s' ∧
      s.p < s'.nextSlice
  | 0, _, _, _, hfuel => absurd hfuel (Nat.not_lt_zero _)
  | fuel + 1, s, hinv, hp, hfuel => by
    unfold passSlices
    split
    · next hpass =>
      have hpos := hfits.sliceSize_pos
      have hnext := hinv.next
      have hlen : s.slices.length < heap.slices.nofSlices.toNat :=
        hfits.table _ (by rw [← hnext]; exact Nat.lt_of_le_of_lt hpass hp)
      have hinv' : heap.SlicesInv (heap.enterSlice s) := by
        refine ⟨?_, ?_, fun _ => ⟨rfl, hpass, Nat.le_refl _, ?_⟩⟩ <;> unfold enterSlice <;> dsimp only
        · rw [hnext, List.length_append, List.length_singleton, Nat.add_mul, Nat.one_mul, Nat.add_assoc]
        · rw [List.length_append, List.length_singleton]
          exact hlen
        · omega
      have hnext' : (heap.enterSlice s).nextSlice = s.nextSlice + heap.slices.sliceSize.toNat := rfl
      have hp' : (heap.enterSlice s).p = s.p := rfl
      dsimp only
      rw [if_pos hinv'.table]
      by_cases hmore : (heap.enterSlice s).nextSlice ≤ s.p
      · exact passSlices_spec hfits hinv' hp (by omega)
      · -- this was the last one
        cases fuel with
        | zero => lia
        | succ fuel =>
          refine ⟨heap.enterSlice s, ?_, rfl, hinv', by lia⟩
          unfold passSlices
          exact if_neg hmore
    · next hstop => exact ⟨s, rfl, rfl, hinv, Nat.lt_of_not_le hstop⟩

/-- A live object is less than a slice behind the destination of its slice. -/
theorem SlicesInv.sliceOffset_lt {s : Scan} (hinv : heap.SlicesInv s) (hlt : s.p < s.nextSlice)
    (hstart : heap.heapStart ≤ s.p) :
    s.slices ≠ [] ∧ s.compactionTop - s.thisSliceDestination < heap.slices.sliceSize.toNat := by
  have hne : s.slices ≠ [] := by
    intro hnil
    have := hinv.next
    rw [hnil, List.length_nil, Nat.zero_mul] at this
    omega
  have := hinv.start hne
  exact ⟨hne, by lia⟩

/-- **One turn of the walk** does not fail, gets on, and keeps the slices right. -/
theorem scanStep_spec (hfits : heap.TableFits) {s : Scan} (hinv : heap.SlicesInv s)
    (hstart : heap.heapStart ≤ s.p) (hp : s.p < heap.inlineAllocationTop) :
    ∃ s', heap.scanStep s = .ok s' ∧ heap.SlicesInv s' ∧ s.p < s'.p := by
  obtain ⟨t, hpass, hsame, hinv', hlt⟩ := passSlices_spec hfits hinv hp (Nat.lt_succ_self _)
  have hpt := hsame.p_eq
  rw [← hpt] at hstart hp hlt ⊢
  obtain ⟨hne, hoffset⟩ := hinv'.sliceOffset_lt hlt hstart
  obtain ⟨hthis, hle, hdest, hsum⟩ := hinv'.start hne
  unfold scanStep
  rw [hpass]
  dsimp only
  split
  · have hpos := heap.objectSize_pos (heap.decodeFarClassWithRealNear t t.p) t.p
    unfold liveObject
    dsimp only
    rw [if_pos hoffset]
    refine ⟨_, rfl, ⟨hinv'.next, hinv'.table, fun _ => ⟨hthis, ?_, ?_, ?_⟩⟩, ?_⟩ <;>
      dsimp only <;> omega
  · next hdead =>
    have hgt := (findLive_spec hp (Bool.eq_false_iff.2 hdead)).1
    refine ⟨_, rfl, ⟨hinv'.next, hinv'.table, fun _ => ⟨hthis, ?_, hdest, ?_⟩⟩, hgt⟩ <;>
      unfold deadRange <;> dsimp only <;> omega

/-- **The walk** does not fail. -/
theorem scanLoop_spec (hfits : heap.TableFits) : ∀ {fuel : Nat} {s : Scan}, heap.SlicesInv s →
    heap.heapStart ≤ s.p → heap.inlineAllocationTop - s.p < fuel →
    ∃ s', heap.scanLoop fuel s = .ok s' ∧ heap.SlicesInv s'
  | 0, _, _, _, hfuel => absurd hfuel (Nat.not_lt_zero _)
  | fuel + 1, s, hinv, hstart, hfuel => by
    unfold scanLoop
    split
    · next hp =>
      obtain ⟨s', hstep, hinv', hgt⟩ := scanStep_spec hfits hinv hstart hp
      rw [hstep]
      exact scanLoop_spec hfits hinv' (by omega) (by omega)
    · exact ⟨s, rfl, hinv⟩

/-- The walk starts inside the heap, before the first slice. -/
theorem firstScan_spec : ∃ p top bits, heap.firstScan = .ok (heap.startScan p top bits) ∧
    heap.heapStart ≤ p := by
  unfold firstScan
  split
  · exact ⟨_, _, _, rfl, heap.youngGeneration_le⟩
  · obtain ⟨q, bits, hmark, hle⟩ := @markForwardPointers_eq heap _ heap.collectionAreaStart
      heap.bitvector (Nat.lt_succ_self _)
    rw [hmark]
    exact ⟨q, q, bits, rfl, heap.collectionArea_le.trans hle⟩

theorem startScan_inv {p top : Nat} {bits : Bitvector} :
    heap.SlicesInv (heap.startScan p top bits) :=
  ⟨by simp [startScan], Nat.zero_le _, fun hne => absurd rfl hne⟩

/-- The states at the start of the loop's body. -/
inductive Walk (heap : MarkedHeap) : Scan → Prop where
  | start {s : Scan} (h : heap.firstScan = .ok s) : Walk heap s
  | turn {s s' : Scan} (h : Walk heap s) (hp : s.p < heap.inlineAllocationTop)
      (hstep : heap.scanStep s = .ok s') : Walk heap s'

theorem Walk.inv (hfits : heap.TableFits) {s : Scan} (h : heap.Walk s) :
    heap.SlicesInv s ∧ heap.heapStart ≤ s.p := by
  induction h with
  | start h =>
    obtain ⟨p, top, bits, hfirst, hp⟩ := @firstScan_spec heap
    obtain rfl := Except.ok.inj (h.symm.trans hfirst)
    exact ⟨startScan_inv, hp⟩
  | turn _ hp hstep ih =>
    obtain ⟨s', hstep', hinv, hgt⟩ := scanStep_spec hfits ih.1 ih.2 hp
    obtain rfl := Except.ok.inj (hstep.symm.trans hstep')
    exact ⟨hinv, ih.2.trans (Nat.le_of_lt hgt)⟩

/-- **The slice offset fits** wherever the walk comes to a live object. -/
theorem Walk.sliceOffset_lt (hfits : heap.TableFits) {s : Scan} (h : heap.Walk s)
    (hp : s.p < heap.inlineAllocationTop) :
    ∃ t, heap.passSlices (s.p - s.nextSlice + 2) s = .ok t ∧
      t.compactionTop - t.thisSliceDestination < heap.slices.sliceSize.toNat := by
  obtain ⟨hinv, hstart⟩ := h.inv hfits
  obtain ⟨t, hpass, hsame, hinv', hlt⟩ := passSlices_spec hfits hinv hp (Nat.lt_succ_self _)
  rw [← hsame.p_eq] at hlt hstart
  exact ⟨t, hpass, (hinv'.sliceOffset_lt hlt hstart).2⟩

/-- **The phase ends**, and its slice table has at most `_nof_slices` entries. -/
theorem computeNewObjectLocations_ok (hfits : heap.TableFits) :
    ∃ r, heap.computeNewObjectLocations = .ok r ∧ r.slices.length ≤ heap.slices.nofSlices.toNat := by
  obtain ⟨p, top, bits, hfirst, hp⟩ := @firstScan_spec heap
  obtain ⟨s, hloop, hinv⟩ := scanLoop_spec hfits startScan_inv hp (Nat.lt_succ_self _)
  unfold computeNewObjectLocations
  rw [hfirst]
  dsimp only
  rw [hloop]
  exact ⟨_, rfl, hinv.table⟩

/-! ## Nears as pointers -/

/-- A pointer to an object in the heap or in the ROM. -/
def IsNear (heap : MarkedHeap) (w : UInt32) : Prop :=
  w.toNat % 4 = 0 ∧ (heap.Contains w ∨ heap.rom.systemContains w)

/-- **The near of an object can be read from its word.** -/
theorem decodeNear_encodeKlass {romMaxOffset size : UInt32} (hfit : SlicesFit romMaxOffset size)
    (hslices : (updateSlicesSize romMaxOffset size).2 = heap.slices)
    (hrom : heap.rom.Sound) (hbound : heap.rom.getMaxOffset ≤ romMaxOffset)
    (hend : heap.markAreaEnd ≤ heap.heapStart + size.toNat / 4) {so w : UInt32}
    (hso : so < heap.slices.sliceSize) (hw : heap.IsNear w) :
    decodeNear heap.slices heap.rom heap.heapStart
      (encodeKlass heap.slices so (heap.nearOffset w)) = w := by
  obtain ⟨haligned, hin⟩ := hw
  unfold nearOffset
  by_cases hcontains : heap.Contains w
  · rw [if_pos hcontains]
    obtain ⟨hlow, hhigh⟩ := hcontains
    have hlt := w.toNat_lt
    have hoff : (UInt32.ofNat (address w - heap.heapStart)).toNat = address w - heap.heapStart := by
      unfold address
      rw [UInt32.toNat_ofNat_of_lt' (show _ < 2 ^ 32 by omega)]
    have hdist : address w - heap.heapStart < size.toNat / 4 := by
      unfold address
      omega
    rw [((hfit.lossless hslices hso).1 (by rw [hoff]; exact hdist)).pointer_heap _ _ not_false, hoff]
    unfold pointer address
    rw [show 4 * (heap.heapStart + (w.toNat / 4 - heap.heapStart)) = w.toNat by omega]
    exact UInt32.ofNat_toNat
  · rw [if_neg hcontains]
    obtain ⟨hle, hback⟩ := hrom.round_trip haligned (hin.resolve_left hcontains)
    rw [((hfit.lossless hslices hso).2 (UInt32.le_trans hle hbound)).pointer_rom _ _ trivial, hback]

end MarkedHeap

/-! ## Heaps of every size -/

/-- The slice table of a heap of this size is large enough. -/
theorem SliceNumbers.tableFits {n size : Nat} {heap : MarkedHeap} (h : SliceNumbers n size heap.slices)
    (htop : heap.inlineAllocationTop ≤ heap.heapStart + size / 4) : heap.TableFits := by
  have hpos : 0 < 2 ^ (31 - n) := Nat.two_pow_pos _
  refine ⟨by rw [h.sliceSize]; exact hpos, fun k hk => ?_⟩
  rw [h.sliceSize] at hk
  have hkle : (k + 1) * (2 ^ (31 - n) * 4) ≤ size + 2 ^ (31 - n) * 4 - 1 := by
    have hexpand : (k + 1) * (2 ^ (31 - n) * 4) = 4 * (k * 2 ^ (31 - n)) + 2 ^ (31 - n) * 4 := by ring
    omega
  rw [h.nofSlices]
  exact Nat.lt_of_succ_le ((Nat.le_div_iff_mul_le (by omega)).2 hkle)

/-- **The forwarding word is lossless and the slice table is large enough**, for every size of the
heap and of the ROM for which `update_slices_size` succeeds. -/
theorem forwarding_lossless {romMaxOffset size : UInt32} (hfit : SlicesFit romMaxOffset size) :
    let g := (updateSlicesSize romMaxOffset size).2
    (∀ so off : UInt32, so < g.sliceSize →
      (off.toNat < size.toNat / 4 → Lossless g so off False (encodeKlass g so off)) ∧
        (off ≤ romMaxOffset → Lossless g so off True (encodeKlass g so (romNear off)))) ∧
      ∀ heap : MarkedHeap, heap.slices = g →
        heap.inlineAllocationTop ≤ heap.heapStart + size.toNat / 4 →
        (∀ s, heap.Walk s → s.p < heap.inlineAllocationTop →
          ∃ t, heap.passSlices (s.p - s.nextSlice + 2) s = .ok t ∧
            t.compactionTop - t.thisSliceDestination < g.sliceSize.toNat) ∧
        ∃ r, heap.computeNewObjectLocations = .ok r ∧ r.slices.length ≤ g.nofSlices.toNat := by
  intro g
  refine ⟨fun so off hso => hfit.lossless rfl hso, ?_⟩
  intro heap hslices htop
  have hnumbers := hfit.numbers
  change SliceNumbers _ _ g at hnumbers
  rw [← hslices] at hnumbers ⊢
  have hfits := hnumbers.tableFits htop
  exact ⟨fun s hwalk hp => hwalk.sliceOffset_lt hfits hp, MarkedHeap.computeNewObjectLocations_ok hfits⟩

/-- A heap of 48K. -/
theorem forwarding_lossless_48K : SlicesFit 0x1000 0xc000 ∧
    Lossless (updateSlicesSize 0x1000 0xc000).2 3 5 False
      (encodeKlass (updateSlicesSize 0x1000 0xc000).2 3 5) := by
  have hfit : SlicesFit 0x1000 0xc000 := ⟨by decide, by decide, by decide +kernel⟩
  exact ⟨hfit, ((forwarding_lossless hfit).1 3 5 (by decide +kernel)).1 (by decide)⟩

end FroggyKVM.Gc
