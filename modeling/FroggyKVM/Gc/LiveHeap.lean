/-
# FroggyKVM.Gc.LiveHeap — a heap of live objects and dead ranges.

Behind the objects that stay, the heap consists of live objects, which are marked at their start, and
of dead words.  `mark_forward_pointers` passes the objects that stay.
-/
import FroggyKVM.Gc.LiveRanges

namespace FroggyKVM.Gc

/-! ## Clearing bits -/

namespace Bitvector

theorem testBitFor_clearBitFor {p q : Nat} (bv : Bitvector) (hq : q ≠ p) :
    (bv.clearBitFor p).testBitFor q = bv.testBitFor q := by
  unfold testBitFor clearBitFor
  by_cases hword : q / 32 = p / 32
  · have hne : q % 32 ≠ p % 32 := by omega
    have hmod : q % 32 < 32 := Nat.mod_lt _ (by decide)
    rw [hword, Function.update_self, BitVec.getLsbD_and, BitVec.getLsbD_not, BitVec.getLsbD_twoPow,
      decide_eq_true hmod, decide_eq_false hne.symm]
    simp
  · rw [Function.update_of_ne hword]

theorem testBitFor_clear {ps : List Nat} {q : Nat} (hq : q ∉ ps) (bv : Bitvector) :
    (ps.foldl clearBitFor bv).testBitFor q = bv.testBitFor q := by
  induction ps generalizing bv with
  | nil => rfl
  | cons p ps ih =>
    rw [List.mem_cons, not_or] at hq
    rw [List.foldl_cons, ih hq.2, testBitFor_clearBitFor bv hq.1]

/-- The bits outside of the range stay. -/
theorem testBitFor_clearBitRange {start stop q : Nat} (hq : q < start ∨ stop ≤ q) (bv : Bitvector) :
    (bv.clearBitRange start stop).testBitFor q = bv.testBitFor q := by
  unfold clearBitRange
  dsimp only
  split
  · apply testBitFor_clear
    rw [List.mem_range'_1]
    omega
  · next hwords =>
    have hin : ¬ ((start + 31) / 32 * 32 / 32 ≤ q / 32 ∧ q / 32 < stop / 32 * 32 / 32) := by
      omega
    have hlow : q ∉ List.range' start ((start + 31) / 32 * 32 - start) := by
      rw [List.mem_range'_1]
      omega
    have hhigh : q ∉ (List.range' (stop / 32 * 32) (stop - stop / 32 * 32)).reverse := by
      rw [List.mem_reverse, List.mem_range'_1]
      omega
    rw [testBitFor, if_neg hin, ← testBitFor, testBitFor_clear hhigh, testBitFor_clear hlow]

end Bitvector

namespace MarkedHeap

variable (heap : MarkedHeap)

/-! ## Live objects and dead ranges -/

/-- `object_size` before the phase, in words. -/
def objectSize (o : Nat) : Nat := heap.objectSizeFor (heap.blueprint o) o

/-- The words of an object. -/
def span (o : Nat) : Nat × Nat := (o, o + heap.objectSize o)

/-- From `p` on, the heap consists of the live objects `objects`, which are marked at their start,
and of dead words, which are not marked. -/
def Laid (bits : Bitvector) : Nat → List Nat → Prop
  | p, [] => ∀ x, p ≤ x → x < heap.inlineAllocationTop → bits.testBitFor x = false
  | p, o :: os => p ≤ o ∧ (∀ x, p ≤ x → x < o → bits.testBitFor x = false) ∧
      bits.testBitFor o = true ∧ o + heap.objectSize o ≤ heap.inlineAllocationTop ∧
      Laid bits (o + heap.objectSize o) os

/-- Where the collected part of the heap starts. -/
def walkStart : Nat :=
  if heap.SplitCollection then heap.youngGenerationStart else heap.collectionAreaStart

/-- **A heap of live objects and dead ranges**, marked and ready for the second phase: the near of a
live object is live, and its own near is a near. -/
structure LiveHeap (objects : List Nat) : Prop where
  laid : heap.Laid heap.bitvector heap.walkStart objects
  near : ∀ o ∈ objects, heap.IsNear (heap.memory (address (heap.memory o)))
  near_live : ∀ o ∈ objects, heap.walkStart ≤ address (heap.memory o) →
    address (heap.memory o) < heap.inlineAllocationTop → address (heap.memory o) ∈ objects
  /-- the slots of an object are words of the object -/
  slots : ∀ o ∈ objects, ∀ slot ∈ heap.oopsDoFor (heap.blueprint o) o,
    slot < o + heap.objectSize o
  walkStart_le : heap.walkStart ≤ heap.inlineAllocationTop
  oldGenerationEnd_le : heap.oldGenerationEnd ≤ heap.youngGenerationStart
  heapStart_le : heap.heapStart ≤ heap.oldGenerationEnd
  /-- `internal_collect_prologue` -/
  areaEnd : heap.collectionAreaEnd = heap.inlineAllocationTop
  /-- addresses are those of a 32-bit machine -/
  top_lt : 4 * heap.inlineAllocationTop < 2 ^ 32

/-- The word is in none of the objects. -/
def Free (objects : List Nat) (x : Nat) : Prop := ∀ o ∈ objects, ¬ InSpan (heap.span o) x

variable {heap}

theorem span_pos (o : Nat) : 0 < heap.objectSize o := heap.objectSize_pos _ _

section Laid

variable {bits bits' : Bitvector} {p : Nat} {objects : List Nat}

theorem Laid.congr (h : heap.Laid bits p objects)
    (heq : ∀ x, p ≤ x → bits'.testBitFor x = bits.testBitFor x) : heap.Laid bits' p objects := by
  induction objects generalizing p with
  | nil => exact fun x hp hx => (heq x hp).trans (h x hp hx)
  | cons o os ih =>
    obtain ⟨hle, hdead, hlive, htop, hrest⟩ := h
    refine ⟨hle, fun x hp hx => (heq x hp).trans (hdead x hp hx), (heq o hle).trans hlive, htop, ?_⟩
    exact ih hrest fun x hx => heq x (by omega)

theorem Laid.bounds (h : heap.Laid bits p objects) : ∀ o ∈ objects,
    p ≤ o ∧ o + heap.objectSize o ≤ heap.inlineAllocationTop ∧ bits.testBitFor o = true := by
  induction objects generalizing p with
  | nil => exact fun o ho => absurd ho List.not_mem_nil
  | cons o os ih =>
    obtain ⟨hle, hdead, hlive, htop, hrest⟩ := h
    intro o' ho'
    rcases List.mem_cons.1 ho' with rfl | ho'
    · exact ⟨hle, htop, hlive⟩
    · obtain ⟨hle', htop', hlive'⟩ := ih hrest o' ho'
      exact ⟨by omega, htop', hlive'⟩

theorem Laid.ascending (h : heap.Laid bits p objects) : Ascending p (objects.map heap.span) := by
  induction objects generalizing p with
  | nil => trivial
  | cons o os ih =>
    obtain ⟨hle, hdead, hlive, htop, hrest⟩ := h
    exact ⟨hle, Nat.lt_add_of_pos_right (span_pos o), ih hrest⟩

/-- At a live word the next object starts. -/
theorem Laid.at_live (h : heap.Laid bits p objects) (hp : p < heap.inlineAllocationTop)
    (hlive : bits.testBitFor p = true) : ∃ os, objects = p :: os ∧
      p + heap.objectSize p ≤ heap.inlineAllocationTop ∧
      heap.Laid bits (p + heap.objectSize p) os := by
  cases objects with
  | nil =>
    have hdead := h p (Nat.le_refl p) hp
    rw [hlive] at hdead
    cases hdead
  | cons o os =>
    obtain ⟨hle, hdead, -, htop, hrest⟩ := h
    rcases Nat.eq_or_lt_of_le hle with rfl | hlt
    · exact ⟨os, rfl, htop, hrest⟩
    · have hbit := hdead p (Nat.le_refl p) hlt
      rw [hlive] at hbit
      cases hbit

/-- Dead words can be passed over. -/
theorem Laid.skip {q : Nat} (h : heap.Laid bits p objects) (hpq : p ≤ q)
    (hdead : ∀ x, p ≤ x → x < q → x < heap.inlineAllocationTop → bits.testBitFor x = false) :
    heap.Laid bits q objects ∧ ∀ o ∈ objects, q ≤ o := by
  cases objects with
  | nil => exact ⟨fun x hx => h x (by omega), fun o ho => absurd ho List.not_mem_nil⟩
  | cons o os =>
    have hsize := @span_pos heap o
    have hbounds := h.bounds
    obtain ⟨hle, hfree, hlive, htop, hrest⟩ := h
    have hqo : q ≤ o := by
      refine Nat.le_of_not_lt fun hlt => ?_
      have hbit := hdead o hle hlt (by omega)
      rw [hlive] at hbit
      cases hbit
    refine ⟨⟨hqo, fun x hx => hfree x (by omega), hlive, htop, hrest⟩, fun o' ho' => ?_⟩
    rcases List.mem_cons.1 ho' with rfl | ho'
    · exact hqo
    · have hle' := (hrest.bounds o' ho').1
      omega

end Laid

/-! ## The fixed prefix -/

theorem testBitFor_markForwardPointer {slots : List Nat} {bits : Bitvector} {q : Nat}
    (hq : ∀ slot ∈ slots, slot < q) {x : Nat} (hx : q ≤ x) :
    (slots.foldl heap.markForwardPointer bits).testBitFor x = bits.testBitFor x := by
  induction slots generalizing bits with
  | nil => rfl
  | cons slot slots ih =>
    have hlt := hq slot List.mem_cons_self
    rw [List.foldl_cons, ih fun s hs => hq s (List.mem_cons_of_mem _ hs)]
    unfold markForwardPointer
    dsimp only
    split
    · rw [Bitvector.testBitFor_setBitFor, decide_eq_false (by omega), Bool.false_or]
    · rfl

/-- **The objects that stay** are live objects that follow one another; a dead word comes next. -/
theorem markForwardPointers_laid : ∀ {fuel p : Nat} {bits : Bitvector} {objects : List Nat},
    heap.inlineAllocationTop - p < fuel → p ≤ heap.inlineAllocationTop → heap.Laid bits p objects →
    (∀ o ∈ objects, ∀ slot ∈ heap.oopsDoFor (heap.blueprint o) o, slot < o + heap.objectSize o) →
    ∃ q bits' fixed moving, heap.markForwardPointers fuel p bits = .ok (q, bits') ∧
      objects = fixed ++ moving ∧ p ≤ q ∧ q ≤ heap.inlineAllocationTop ∧ heap.Laid bits' q moving ∧
      (∀ o ∈ fixed, o < q) ∧ ∀ o ∈ moving, q < o := by
  intro fuel
  induction fuel with
  | zero => exact fun hfuel => absurd hfuel (Nat.not_lt_zero _)
  | succ fuel ih =>
    intro p bits objects hfuel hle hlaid hslots
    unfold markForwardPointers
    split
    · next hlive =>
      obtain ⟨os, rfl, htop, hrest⟩ := hlaid.at_live hlive.1 hlive.2
      have hpos := @span_pos heap p
      have hrest' : heap.Laid ((heap.oopsDoFor (heap.blueprint p) p).foldl heap.markForwardPointer bits)
          (p + heap.objectSize p) os :=
        hrest.congr fun x hx => testBitFor_markForwardPointer (hslots p List.mem_cons_self) hx
      obtain ⟨q, bits', fixed, moving, hmark, rfl, hpq, hq, hmoving, hfixed, hbehind⟩ :=
        ih (by omega) htop hrest' fun o ho => hslots o (List.mem_cons_of_mem _ ho)
      refine ⟨q, bits', p :: fixed, moving, hmark, rfl, by omega, hq, hmoving, fun o ho => ?_, hbehind⟩
      rcases List.mem_cons.1 ho with rfl | ho
      · omega
      · exact hfixed o ho
    · next hstop =>
      refine ⟨p, bits, [], objects, rfl, rfl, Nat.le_refl p, hle, hlaid,
        fun o ho => absurd ho List.not_mem_nil, fun o ho => ?_⟩
      obtain ⟨hpo, htop, hlive⟩ := hlaid.bounds o ho
      have hpos := @span_pos heap o
      refine Nat.lt_of_le_of_ne hpo fun heq => hstop ⟨by omega, ?_⟩
      rw [heq]
      exact hlive

end MarkedHeap

end FroggyKVM.Gc
