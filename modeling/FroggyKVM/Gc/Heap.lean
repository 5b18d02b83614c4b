/-
# FroggyKVM.Gc.Heap — the words of the heap, and the pointer slots of an object.

Addresses are word indices, and a word that holds a pointer holds the index it points to.  The
fields of a class that are not pointers (its instance size and its oop map) are kept apart from the
words.  The frames of an execution stack are given by the slots that `stack_oops_do` visits.
-/
import FroggyKVM.Gc.Bitvector

namespace FroggyKVM.Gc

/-! ## Classes -/

/-- The constants of `InstanceSize`. -/
def size_obj_array : Int := -1
def size_type_array_1 : Int := -2
def size_type_array_2 : Int := -3
def size_type_array_4 : Int := -4
def size_type_array_8 : Int := -5
def size_instance_class : Int := -6
def size_generic_near : Int := -9
def size_mixed_oop : Int := -13
def size_task_mirror : Int := -14
def size_entry_activation : Int := -16
def size_execution_stack : Int := -17
def size_symbol : Int := -18
def size_constant_pool : Int := -20
def size_class_info : Int := -21
def size_stackmap_list : Int := -23
def size_refnode : Int := -24

/-- `OopMapSentinel` and `OopMapEscape`. -/
def OopMapSentinel : UInt8 := 0
def OopMapEscape : Nat := 0x80

/-- The fields of a `FarClassDesc` that the collector reads besides its pointers.  The bytes of an
oop map end with a sentinel; in an instance class the map of the static fields follows. -/
structure FarClassDesc where
  instance_size : Int
  oop_map : List UInt8

/-! ## The heap -/

/-- What does not change while objects are marked. -/
structure Heap where
  memory : Nat → Nat
  farClass : Nat → FarClassDesc
  /-- the slots of the frames on the stack of a thread -/
  stackOops : Nat → List Nat
  heapStart : Nat
  collectionAreaStart : Nat
  oldGenerationEnd : Nat
  youngGenerationStart : Nat
  inlineAllocationTop : Nat
  largeObjectAreaBottom : Nat
  /-- `_marking_stack_end - _marking_stack_start` -/
  markingStackSize : Nat

namespace Heap

/-- `mark_area_end`. -/
def markAreaEnd (heap : Heap) : Nat := heap.largeObjectAreaBottom

/-- `blueprint`: the class of the near pointer's class. -/
def blueprint (heap : Heap) (obj : Nat) : FarClassDesc :=
  heap.farClass (heap.memory (heap.memory obj))

/-- A byte, and a `jushort`, of a word. -/
def byteAt (heap : Heap) (p i : Nat) : Nat := heap.memory (p + i / 4) / 256 ^ (i % 4) % 256

def shortAt (heap : Heap) (p i : Nat) : Nat := heap.memory p / 65536 ^ i % 65536

/-! ## Visitors

A visitor is written as the list of the slots to which it applies `do_oop`, in its order. -/

/-- `map_oops_do` from `base` on. -/
def mapOops : List UInt8 → Nat → List Nat
  | [], _ => []
  | entry :: map, base =>
    if entry = OopMapSentinel then []
    else if entry.toNat < 0x80 then (base + entry.toNat) :: mapOops map (base + entry.toNat)
    else mapOops map (base + (OopMapEscape - 1))

/-- The map of the static fields, behind the first sentinel. -/
def staticMap (map : List UInt8) : List UInt8 := (map.dropWhile (· ≠ OopMapSentinel)).drop 1

/-- `ObjArrayDesc::variable_oops_do`. -/
def objArrayOops (heap : Heap) (obj : Nat) : List Nat :=
  (List.range' (obj + 2) (heap.memory (obj + 1))).filter fun p => heap.memory p ≠ 0

/-- `MixedOopDesc::variable_oops_do`. -/
def mixedOops (heap : Heap) (obj : Nat) : List Nat := List.range' (obj + 2) (heap.byteAt (obj + 1) 3)

/-- `ConstantTag::is_oop`. -/
def isOopTag (tag : Nat) : Bool :=
  -- UTF8, UnresolvedClass, String, UnresolvedString, ResolvedStaticMethod,
  -- ResolvedFinalUncommonInterfaceMethod
  tag ∈ [1, 13, 8, 15, 37, 61]

/-- `ConstantPoolDesc::variable_oops_do`; the tags are a byte array. -/
def constantPoolOops (heap : Heap) (obj : Nat) : List Nat :=
  let tags := heap.memory (obj + 2)
  if tags = 0 then []
  else ((List.range (heap.shortAt (obj + 1) 0)).filter fun i =>
    isOopTag (heap.byteAt (tags + 2) i)).map (obj + 3 + ·)

/-- `EntryActivationDesc::variable_oops_do`: the values whose tag is `obj_tag`. -/
def entryActivationOops (heap : Heap) (obj : Nat) : List Nat :=
  ((List.range (heap.memory (obj + 1))).filter fun i =>
    heap.memory (obj + 4 + 2 * i + 1) = 1).map (obj + 4 + 2 * ·)

/-- `TaskMirrorDesc::variable_oops_do`: the static fields, by the map of the containing class. -/
def taskMirrorOops (heap : Heap) (obj : Nat) : List Nat :=
  let containingClass := heap.memory (obj + 2)
  if heap.memory (obj + 3) = 28 ∨ containingClass = 0 then []
  else mapOops (staticMap (heap.farClass containingClass).oop_map) obj

/-- `ClassInfoDesc::variable_oops_do`. -/
def classInfoOops (heap : Heap) (obj : Nat) : List Nat :=
  let isArrayClass := (heap.memory (obj + 4)).testBit 26
  let vtable := obj + 10
  let itable := vtable + heap.shortAt (obj + 1) 1
  let start := itable + 2 * heap.shortAt (obj + 2) 0
  -- methods, local interfaces, fields and constants
  (if isArrayClass then [] else [obj + 5, obj + 8, obj + 6, obj + 9]) ++
    List.range' vtable (heap.shortAt (obj + 1) 1) ++
    List.range' start (obj + heap.shortAt (obj + 1) 0 / 4 - start)

/-- `StackmapListDesc::variable_oops_do`: the entries without the flag of a short map. -/
def stackmapOops (heap : Heap) (obj : Nat) : List Nat :=
  (List.range' (obj + 2) (heap.memory (obj + 1))).filter fun p => (heap.memory p).testBit 0 = false

/-- `ExecutionStackDesc::variable_oops_do`. -/
def executionStackOops (heap : Heap) (obj : Nat) : List Nat :=
  let thread := heap.memory (obj + 2)
  if thread = 0 then [] else (obj + 2) :: heap.stackOops thread

/-- `oops_do_for`: all slots but the near pointer. -/
def oopsDoFor (heap : Heap) (obj : Nat) (blueprint : FarClassDesc) : List Nat :=
  let size := blueprint.instance_size
  let fixed := mapOops blueprint.oop_map obj
  if size ∈ [size_type_array_1, size_type_array_2, size_type_array_4, size_type_array_8,
    size_generic_near, size_symbol, size_refnode] then []
  else if size = size_execution_stack then heap.executionStackOops obj
  else if size = size_obj_array then heap.objArrayOops obj
  else if size = size_mixed_oop then heap.mixedOops obj ++ fixed
  else if size = size_constant_pool then heap.constantPoolOops obj ++ fixed
  else if size = size_entry_activation then heap.entryActivationOops obj ++ fixed
  else if size = size_class_info then heap.classInfoOops obj ++ fixed
  else if size = size_stackmap_list then heap.stackmapOops obj ++ fixed
  else if size = size_task_mirror then heap.taskMirrorOops obj ++ fixed
  -- an instance, a class, a near, a boundary or a method
  else fixed

/-- `oops_do`. -/
def oopsDo (heap : Heap) (obj : Nat) : List Nat := heap.oopsDoFor obj (heap.blueprint obj)

/-- All slots of an object: its near pointer is at its start. -/
def slots (heap : Heap) (obj : Nat) : List Nat := obj :: heap.oopsDo obj

/-! ## References -/

/-- The test of a visitor: the object that the slot `p` refers to, if it is being collected. -/
def target (heap : Heap) (p : Nat) : Option Nat :=
  let obj := heap.memory p
  if heap.collectionAreaStart ≤ obj ∧ obj < heap.markAreaEnd then some obj else none

/-- The objects that an object refers to. -/
def references (heap : Heap) (obj : Nat) : List Nat := (heap.slots obj).filterMap heap.target

end Heap

end FroggyKVM.Gc
