/-
# FroggyKVM.Gc.Marking — marking from the roots with a stack that may overflow.

The marking stack is the list of its elements, the top first; its capacity is the distance of
`_marking_stack_start` and `_marking_stack_end`, and a write behind the capacity is a fault.
-/
import FroggyKVM.Gc.Heap
import FroggyKVM.Lib.GraphSearch

namespace FroggyKVM.Gc

/-- The state of the marking phase. -/
structure Marks where
  bitvector : Bitvector
  markingStack : List Nat := []
  markingStackOverflow : Bool := false

namespace Marks

/-- `*_marking_stack_top++ = obj`. -/
def push (heap : Heap) (obj : Nat) (m : Marks) : Except Fault Marks :=
  if m.markingStack.length < heap.markingStackSize then
    .ok { m with markingStack := obj :: m.markingStack }
  else .error .stackOverrun

/-- Mark an object that is not marked yet. -/
def setBit (m : Marks) (obj : Nat) : Marks := { m with bitvector := m.bitvector.setBitFor obj }

/-- `mark_and_push`. -/
def markAndPush (heap : Heap) (m : Marks) (p : Nat) : Except Fault Marks :=
  match heap.target p with
  | none => .ok m
  | some obj =>
    if m.bitvector.testBitFor obj then .ok m
    else if m.markingStack.length = heap.markingStackSize then
      .ok { m.setBit obj with markingStackOverflow := true }
    else (m.setBit obj).push heap obj

/-- The loop of `continue_marking` over the embedded oop map of an instance. -/
def markEmbedded (heap : Heap) : List UInt8 → Nat → Marks → Except Fault Marks
  | [], _, m => .ok m
  | entry :: map, p, m =>
    if entry = OopMapSentinel then .ok m
    else if entry.toNat < 0x80 then
      match m.markAndPush heap (p + entry.toNat) with
      | .error e => .error e
      | .ok m => markEmbedded heap map (p + entry.toNat) m
    else markEmbedded heap map (p + (OopMapEscape - 1)) m

/-- `mark_and_push` on each slot of a list. -/
def markAll (heap : Heap) : List Nat → Marks → Except Fault Marks
  | [], m => .ok m
  | p :: ps, m =>
    match m.markAndPush heap p with
    | .error e => .error e
    | .ok m => markAll heap ps m

/-- `continue_marking`. -/
def continueMarking (heap : Heap) : Nat → Marks → Except Fault Marks
  | 0, _ => .error .outOfFuel
  | fuel + 1, m =>
    match m.markingStack with
    | [] => .ok m
    | obj :: rest =>
      match ({ m with markingStack := rest } : Marks).markAndPush heap obj with
      | .error e => .error e
      | .ok m =>
        let blueprint := heap.blueprint obj
        let r := if blueprint.instance_size > 0 then markEmbedded heap blueprint.oop_map obj m
          else markAll heap (heap.oopsDoFor obj blueprint) m
        match r with
        | .error e => .error e
        | .ok m => continueMarking heap fuel m

/-- Enough iterations of `continue_marking`: an object is on the stack at most once. -/
def fuel (heap : Heap) : Nat := 2 * (heap.inlineAllocationTop - heap.heapStart) + 2

/-- `mark_root_and_stack`; its write to the stack is not checked. -/
def markRootAndStack (heap : Heap) (m : Marks) (p : Nat) : Except Fault Marks :=
  match heap.target p with
  | none => .ok m
  | some obj =>
    if m.bitvector.testBitFor obj then .ok m
    else
      match (m.setBit obj).push heap obj with
      | .error e => .error e
      | .ok m => continueMarking heap (fuel heap) m

/-- `mark_root_and_stack` on each slot of a list. -/
def markRoots (heap : Heap) : List Nat → Marks → Except Fault Marks
  | [], m => .ok m
  | p :: ps, m =>
    match m.markRootAndStack heap p with
    | .error e => .error e
    | .ok m => markRoots heap ps m

/-- `mark_and_stack_root_and_interior_pointers`. -/
def markInterior (heap : Heap) (p : Nat) (m : Marks) : Except Fault Marks :=
  markRoots heap (heap.slots p) m

/-- `check_marking_stack_overflow`. -/
def checkMarkingStackOverflow (heap : Heap) : Nat → Marks → Except Fault Marks
  | 0, _ => .error .outOfFuel
  | fuel + 1, m =>
    if m.markingStackOverflow then
      let m := { m with markingStackOverflow := false }
      let old := if heap.heapStart = heap.collectionAreaStart then
          writeBarrierOopsLoop bitvector (markInterior heap) heap.heapStart heap.oldGenerationEnd m
        else .ok m
      match old with
      | .error e => .error e
      | .ok m =>
        match writeBarrierOopsLoop bitvector (markInterior heap) heap.youngGenerationStart
            heap.inlineAllocationTop m with
        | .error e => .error e
        | .ok m => checkMarkingStackOverflow heap fuel m
    else .ok m

/-- The marking of a full collection: all roots, and then the check for an overflow. -/
def markObjects (heap : Heap) (roots : List Nat) (m : Marks) : Except Fault Marks :=
  match markRoots heap roots m with
  | .error e => .error e
  | .ok m => checkMarkingStackOverflow heap (fuel heap) m

end Marks

end FroggyKVM.Gc
