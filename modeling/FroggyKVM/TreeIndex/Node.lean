/-
# FroggyKVM.TreeIndex.Node — the B-tree record index (`RecordStoreIndex.java`, `tree_index`).

The index file has a header of four numbers and slots of one node each.  A node in memory is a copy
of a slot, with room for one key more; parents are remembered as a stack of offsets.  An access
outside the 2 GB that a file position can address throws, and so does reading where there is no
slot.  Loops over the tree take fuel, since the links of a damaged file could form a cycle.
-/
import FroggyKVM.Lib.MachineInt
import FroggyKVM.Lib.Returns

namespace FroggyKVM.TreeIndex

/-! ## The index file -/

def IDX_HEADER_SIZE : Int := 16

/-- The maximum number of data elements in each node. -/
def NODE_ELEMENTS : Nat := 8

/-- The size of the tree blocks. -/
def NODE_SIZE : Int := 100

/-- `IOException`, or a loop that was cut off. -/
inductive Fault
  | io
  | outOfFuel
  deriving DecidableEq, Repr

/-- `key[i]`, `value[i]` and `child[i + 1]`, which the code moves together. -/
structure Triplet where
  key : Int
  value : Int
  child : Int
  deriving DecidableEq, Repr

def Triplet.zero : Triplet := ⟨0, 0, 0⟩

/-- The numbers in a slot of the file: the first child and eight triplets. -/
structure Slot where
  child0 : Int
  triplets : List Triplet
  deriving DecidableEq, Repr

/-- The header (size, root of the id tree, root of the free block tree, head of the free list) and
the slots, by offset. -/
structure IndexFile where
  size : Int
  idRoot : Int
  freeRoot : Int
  freeNodeHead : Int
  slots : Int → Option Slot

namespace IndexFile

/-- The file of a new index. -/
def new : IndexFile where
  size := IDX_HEADER_SIZE + NODE_SIZE * 2
  idRoot := IDX_HEADER_SIZE
  freeRoot := IDX_HEADER_SIZE + NODE_SIZE
  freeNodeHead := 0
  slots := fun offset =>
    if offset = IDX_HEADER_SIZE ∨ offset = IDX_HEADER_SIZE + NODE_SIZE then
      some ⟨0, List.replicate NODE_ELEMENTS .zero⟩ else none

/-- What `save` writes at an offset. -/
def write (file : IndexFile) (offset : Int) (s : Slot) : IndexFile :=
  { file with slots := Function.update file.slots offset (some s) }

/-- `allocateNode`. -/
def allocateNode (file : IndexFile) : Except Fault (IndexFile × Int) :=
  let offset := file.freeNodeHead
  if offset = 0 then
    -- no free blocks, add one to the end of the index file
    .ok ({ file with size := i32 (file.size + NODE_SIZE) }, file.size)
  else
    match file.slots offset with
    | none => .error .io
    | some s => .ok ({ file with freeNodeHead := s.child0 }, offset)

/-- `freeNode`: the link to the next free node takes the place of the first child. -/
def freeNode (file : IndexFile) (offset : Int) : IndexFile :=
  { file.write offset ⟨file.freeNodeHead, ((file.slots offset).map Slot.triplets).getD []⟩ with
    freeNodeHead := offset }

end IndexFile

/-! ## Nodes in memory -/

/-- `Node`; the stack of parents has its top first. -/
structure Node where
  numKeys : Nat
  offset : Int
  child0 : Int
  triplet : Nat → Triplet
  parentStack : List Int

namespace Node

/-- `new Node(idxFile)`. -/
def new : Node := ⟨0, 0, 0, fun _ => .zero, []⟩

def key (n : Node) (i : Nat) : Int := (n.triplet i).key

def value (n : Node) (i : Nat) : Int := (n.triplet i).value

/-- `child[i]`. -/
def child (n : Node) : Nat → Int
  | 0 => n.child0
  | i + 1 => (n.triplet i).child

def pushParent (n : Node) (offset : Int) : Node := { n with parentStack := offset :: n.parentStack }

/-- `popParent`. -/
def popParent (n : Node) : Int × Node :=
  match n.parentStack with
  | [] => (0, n)
  | offset :: stack => (offset, { n with parentStack := stack })

def copyStack (n fromNode : Node) : Node := { n with parentStack := fromNode.parentStack }

/-- `init`. -/
def init (n : Node) (offset : Int) : Node :=
  { n with offset := offset, numKeys := 0, child0 := 0, triplet := fun _ => .zero }

/-- A triplet at an index is replaced. -/
def set (n : Node) (i : Nat) (x : Triplet) : Node :=
  { n with triplet := Function.update n.triplet i x }

/-- `for (int i = numKeys; i > index; i--)` moves a triplet up. -/
def addKeyLoop (index : Nat) : Nat → (Nat → Triplet) → Nat → Triplet
  | 0, t => t
  | i + 1, t => if index < i + 1 then addKeyLoop index i (Function.update t (i + 1) (t i)) else t

/-- `addKey`. -/
def addKey (n : Node) (newKey newValue rightChild : Int) (index : Nat) : Node :=
  { n with
    triplet := Function.update (addKeyLoop index n.numKeys n.triplet) index
      ⟨newKey, newValue, rightChild⟩
    numKeys := n.numKeys + 1 }

/-- `for (int i = index; i < numKeys; i++)` moves a triplet down; `left` rounds are left. -/
def deleteKeyLoop : (left i : Nat) → (Nat → Triplet) → Nat → Triplet
  | 0, _, t => t
  | left + 1, i, t => deleteKeyLoop left (i + 1) (Function.update t i (t (i + 1)))

/-- `deleteKey`. -/
def deleteKey (n : Node) (index : Nat) : Node :=
  { n with
    triplet := deleteKeyLoop (n.numKeys - index) index n.triplet
    numKeys := n.numKeys - 1 }

/-- The triplets up to the first without a key are loaded. -/
def loadLoop : List Triplet → (i : Nat) → (Nat → Triplet) → Nat × (Nat → Triplet)
  | [], i, t => (i, t)
  | x :: xs, i, t => if x.key ≤ 0 then (i, t) else loadLoop xs (i + 1) (Function.update t i x)

/-- The rest of the entries is cleared. -/
def clearLoop : (left i : Nat) → (Nat → Triplet) → Nat → Triplet
  | 0, _, t => t
  | left + 1, i, t => clearLoop left (i + 1) (Function.update t i .zero)

/-- `load`. -/
def load (n : Node) (file : IndexFile) (offset : Int) : Except Fault Node :=
  match file.slots offset with
  | none => .error .io
  | some s =>
    let (numKeys, t) := loadLoop s.triplets 0 n.triplet
    .ok { n with
      offset := offset
      numKeys := numKeys
      child0 := s.child0
      triplet := clearLoop (NODE_ELEMENTS + 1 - numKeys) numKeys t }

/-- `save`. -/
def save (n : Node) (file : IndexFile) : Except Fault IndexFile :=
  if 0 ≤ n.offset ∧ n.offset + NODE_SIZE ≤ 2147483647 then
    .ok (file.write n.offset ⟨n.child0, (List.range NODE_ELEMENTS).map n.triplet⟩)
  else .error .io

/-- The first index, from `i` on, whose child is at the offset; `left` indices are left. -/
def findChild (n : Node) (offset : Int) : (left i : Nat) → Nat
  | 0, i => i
  | left + 1, i => if n.child i = offset then i else findChild n offset left (i + 1)

end Node

/-! ## Searching -/

/-- A bound on the rounds of any loop over the tree: a node has 100 bytes. -/
def IndexFile.fuel (file : IndexFile) : Nat := file.size.toNat

/-- `findNodeWithKey`, at index `i` of a node. -/
def findNodeWithKey (file : IndexFile) (key : Int) : (fuel : Nat) → Node → Nat →
    Except Fault (Node × Nat)
  | 0, _, _ => .error .outOfFuel
  | fuel + 1, node, i =>
    if i < NODE_ELEMENTS + 1 then
      if 0 < node.key i ∧ key = node.key i then .ok (node, i)
      else if node.key i ≤ 0 ∨ key < node.key i then
        -- the end of the keys, or a greater key: the child to the left of it
        if 0 < node.child i then do
          let node ← (node.pushParent node.offset).load file (node.child i)
          findNodeWithKey file key fuel node 0
        else .ok (node, i)
      else findNodeWithKey file key fuel node (i + 1)
    else .ok (node, i)

/-- `getKeyValue`. -/
def getKeyValue (file : IndexFile) (node : Node) (key : Int) : Except Fault Int := do
  let (node, index) ← findNodeWithKey file key file.fuel node 0
  if node.key index = key then return node.value index else return 0

/-- The walk along the child at an index, after which the node is loaded again; `sub` walks along a
subtree, `out` is the filled part of the array. -/
def walkChild (file : IndexFile) (sub : Node → List Int → Except Fault (List Int)) (node : Node)
    (i : Nat) (out : List Int) : Except Fault (Node × List Int) :=
  if 0 < node.child i then do
    let parentOffset := node.offset
    let childNode ← node.load file (node.child i)
    let out ← sub childNode out
    let node ← childNode.load file parentOffset
    return (node, out)
  else return (node, out)

/-- The loop of `walk` from index `i` on; `left` indices are left. -/
def walkLoop (file : IndexFile) (len : Nat) (sub : Node → List Int → Except Fault (List Int)) :
    (left i : Nat) → Node → List Int → Except Fault (List Int)
  | 0, _, _, out => .ok out
  | left + 1, i, node, out =>
    if out.length < len then do
      let (node, out) ← walkChild file sub node i out
      if 0 < node.key i ∧ out.length < len then
        walkLoop file len sub left (i + 1) node (out ++ [node.key i])
      else return out
    else .ok out

/-- `walk`, into an array of `len` elements. -/
def walk (file : IndexFile) (len : Nat) : (fuel : Nat) → Node → List Int → Except Fault (List Int)
  | 0, _, _ => .error .outOfFuel
  | fuel + 1, node, out =>
    if len ≤ out.length then .ok out
    else walkLoop file len (walk file len fuel) (NODE_ELEMENTS + 1) 0 node out

/-- `getRecordIds`: the ids placed in an array of `len` elements. -/
def getRecordIds (file : IndexFile) (len : Nat) : Except Fault (List Int) := do
  let node ← Node.new.load file file.idRoot
  walk file len file.fuel node []

/-- What `getBlockOffsetOfRecord` looks up: 0 for an id that is not in the index. -/
def getRecordOffset (file : IndexFile) (recordId : Int) : Except Fault Int := do
  let node ← Node.new.load file file.idRoot
  getKeyValue file node recordId

end FroggyKVM.TreeIndex
