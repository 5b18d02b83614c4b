/-
# FroggyKVM.TreeIndex.Operations — changing the record index (`RecordStoreIndex.java`, `tree_index`).

An insertion splits full nodes on the way up, a deletion takes the least key of the right subtree
when it is not in a leaf and then merges or rebalances nodes on the way up.  Both return the offset
of a new root, or 0.
-/
import FroggyKVM.TreeIndex.Node

namespace FroggyKVM.TreeIndex

/-! ## Insertion -/

/-- The copy of the top half of a node into a new one, triplet `4 + 1 + j` for `j` up to 3. -/
def splitLoop (node newNode : Node) : Node × Node :=
  (List.range (NODE_ELEMENTS / 2)).foldl (fun p j =>
    let i := NODE_ELEMENTS / 2 + 1 + j
    (p.1.set i .zero, p.2.set j (p.1.triplet i))) (node, newNode)

/-- A node that has overflowed is split in two, which are saved: the left one, the midpoint between
the two and the offset of the right one. -/
def splitNode (file : IndexFile) (node : Node) :
    Except Fault (IndexFile × Node × Triplet × Int) := do
  let (file, newOffset) ← file.allocateNode
  let midpoint := node.triplet (NODE_ELEMENTS / 2)
  let node := node.set (NODE_ELEMENTS / 2) .zero
  let newNode := { Node.new.init newOffset with child0 := midpoint.child }
  let (node, newNode) := splitLoop node newNode
  let node := { node with numKeys := NODE_ELEMENTS / 2 }
  let newNode := { newNode with numKeys := NODE_ELEMENTS / 2 }
  let file ← node.save file
  let file ← newNode.save file
  return (file, node, midpoint, newNode.offset)

/-- A new root is added to the tree. -/
def growRoot (file : IndexFile) (node : Node) (leftChild : Int) (midpoint : Triplet)
    (rightChild : Int) : Except Fault (IndexFile × Int) := do
  let (file, newRoot) ← file.allocateNode
  let node := { node.init newRoot with child0 := leftChild }
  let node := node.set 0 ⟨midpoint.key, midpoint.value, rightChild⟩
  let file ← node.save file
  return (file, newRoot)

/-- The loop of `updateKey`, which adds a triplet to a node. -/
def updateLoop : (fuel : Nat) → IndexFile → Node → (key value rightChild : Int) → (index : Nat) →
    Except Fault (IndexFile × Int)
  | 0, _, _, _, _, _, _ => .error .outOfFuel
  | fuel + 1, file, node, key, value, rightChild, index =>
    if key ≤ 0 then .ok (file, 0)
    else
      let node := node.addKey key value rightChild index
      -- check if node has overflowed
      if node.key NODE_ELEMENTS = 0 then do
        let file ← node.save file
        return (file, 0)
      else do
        let (file, node, midpoint, rightChild) ← splitNode file node
        let leftChild := node.offset
        -- load the parent of the node
        let (parentOffset, node) := node.popParent
        if parentOffset = 0 then growRoot file node leftChild midpoint rightChild
        else
          let node ← node.load file parentOffset
          let index := node.findChild leftChild NODE_ELEMENTS 0
          updateLoop fuel file node midpoint.key midpoint.value rightChild index

/-- `updateKey`. -/
def updateKey (file : IndexFile) (node : Node) (key value : Int) :
    Except Fault (IndexFile × Int) := do
  let (node, index) ← findNodeWithKey file key file.fuel node 0
  if node.key index = key then
    -- key is already in the tree, update it
    let node := node.set index { node.triplet index with value := value }
    let file ← node.save file
    return (file, 0)
  else updateLoop (node.parentStack.length + 1) file node key value 0 index

/-- `updateRecordId`. -/
def updateRecordId (file : IndexFile) (recordId blockOffset : Int) : Except Fault IndexFile := do
  let node ← Node.new.load file file.idRoot
  let (file, newOffset) ← updateKey file node recordId blockOffset
  if 0 < newOffset then return { file with idRoot := newOffset } else return file

/-! ## Deletion -/

/-- The descent to the least key of a subtree. -/
def leastLoop (file : IndexFile) : (fuel : Nat) → Node → Except Fault Node
  | 0, _ => .error .outOfFuel
  | fuel + 1, node =>
    if 0 < node.child 0 then do
      let node ← (node.pushParent node.offset).load file (node.child 0)
      leastLoop file fuel node
    else .ok node

/-- The keys and children of the right node are added to the left one, from index `i` on. -/
def mergeLoop (rightNode : Node) : (left i : Nat) → Node → Node
  | 0, _, leftNode => leftNode
  | left + 1, i, leftNode =>
    mergeLoop rightNode left (i + 1) (leftNode.addKey (rightNode.key i) (rightNode.value i)
      (rightNode.child (i + 1)) leftNode.numKeys)

/-- The left node, with the midpoint of the parent and the right node added. -/
def mergeNodes (leftNode rightNode : Node) (midpoint : Triplet) : Node :=
  mergeLoop rightNode rightNode.numKeys 0
    (leftNode.addKey midpoint.key midpoint.value (rightNode.child 0) leftNode.numKeys)

/-- The sibling on the left, if there is one. -/
def leftSibling (file : IndexFile) (parentNode : Node) (childIdx : Nat) :
    Except Fault (Option Node × Nat) :=
  if 1 ≤ childIdx then do
    let siblingNode ← Node.new.load file (parentNode.child (childIdx - 1))
    return (some siblingNode, childIdx - 1)
  else return (none, childIdx)

/-- The sibling a node is merged or balanced with, and the index of the key between the two. -/
def chooseSibling (file : IndexFile) (node parentNode : Node) (childIdx : Nat) :
    Except Fault (Node × Nat) := do
  let (siblingNode, midpointIdx) ← leftSibling file parentNode childIdx
  match siblingNode with
  | some siblingNode =>
    if NODE_ELEMENTS < node.numKeys + siblingNode.numKeys + 1 ∧ childIdx + 1 < NODE_ELEMENTS + 1 ∧
        0 < parentNode.child (childIdx + 1) then
      -- not a merge candidate, check the right sibling
      let siblingNode ← siblingNode.load file (parentNode.child (childIdx + 1))
      return (siblingNode, childIdx)
    else return (siblingNode, midpointIdx)
  | none =>
    if childIdx + 1 < NODE_ELEMENTS + 1 ∧ 0 < parentNode.child (childIdx + 1) then
      let siblingNode ← Node.new.load file (parentNode.child (childIdx + 1))
      return (siblingNode, childIdx)
    else return (Node.new, midpointIdx)

/-- A node on the left takes a key from its sibling on the right: the node, the parent and the
sibling. -/
def borrowRight (node parentNode siblingNode : Node) (midpointIdx : Nat) : Node × Node × Node :=
  let node := node.addKey (parentNode.key midpointIdx) (parentNode.value midpointIdx)
    (siblingNode.child 0) node.numKeys
  let parentNode := parentNode.set midpointIdx { parentNode.triplet midpointIdx with
    key := siblingNode.key 0, value := siblingNode.value 0 }
  let siblingNode := { siblingNode with child0 := siblingNode.child 1 }.deleteKey 0
  (node, parentNode, siblingNode)

/-- A node on the right takes a key from its sibling on the left. -/
def borrowLeft (node parentNode siblingNode : Node) (midpointIdx : Nat) : Node × Node × Node :=
  let node := node.addKey (parentNode.key midpointIdx) (parentNode.value midpointIdx)
    (node.child 0) 0
  let tempIdx := siblingNode.numKeys
  let node := { node with child0 := siblingNode.child tempIdx }
  let parentNode := parentNode.set midpointIdx { parentNode.triplet midpointIdx with
    key := siblingNode.key (tempIdx - 1), value := siblingNode.value (tempIdx - 1) }
  let siblingNode := siblingNode.deleteKey (tempIdx - 1)
  (node, parentNode, siblingNode)

/-- Two siblings are merged, and the right one is freed: the left node and the parent, which is not
saved. -/
def mergeSiblings (file : IndexFile) (leftNode rightNode parentNode : Node) (midpointIdx : Nat) :
    Except Fault (IndexFile × Node × Node) := do
  let leftNode := mergeNodes leftNode rightNode (parentNode.triplet midpointIdx)
  let file ← leftNode.save file
  let file := file.freeNode rightNode.offset
  return (file, leftNode, parentNode.deleteKey midpointIdx)

/-- A node takes a key from its sibling, and all three nodes are saved. -/
def balanceSiblings (file : IndexFile) (node parentNode siblingNode : Node) (midpointIdx : Nat)
    (onLeft : Bool) : Except Fault (IndexFile × Node × Node × Node) := do
  let (node, parentNode, siblingNode) :=
    if onLeft then borrowRight node parentNode siblingNode midpointIdx
    else borrowLeft node parentNode siblingNode midpointIdx
  let file ← siblingNode.save file
  let file ← parentNode.save file
  let file ← node.save file
  return (file, node, parentNode, siblingNode)

/-- In a parent, the child at `tempOffset` is replaced. -/
def replaceChild (n : Node) (tempOffset offset : Int) : Node :=
  match n.findChild tempOffset (NODE_ELEMENTS + 1) 0 with
  | 0 => { n with child0 := offset }
  | x + 1 =>
    if x < NODE_ELEMENTS then n.set x { n.triplet x with child := offset } else n

/-- The loop of `deleteKeyFromNode` that rebalances the tree. -/
def rebalanceLoop : (fuel : Nat) → IndexFile → Node → (parentOffset : Int) →
    Except Fault (IndexFile × Int)
  | 0, _, _, _ => .error .outOfFuel
  | fuel + 1, file, node, parentOffset =>
    if parentOffset ≤ 0 then .ok (file, 0)
    else if NODE_ELEMENTS / 2 ≤ node.numKeys then do
      -- this node has at least the minimum number of keys
      let node ← node.load file parentOffset
      let (parentOffset, node) := node.popParent
      rebalanceLoop fuel file node parentOffset
    else do
      let parentNode ← Node.new.load file parentOffset
      let childIdx := parentNode.findChild node.offset (NODE_ELEMENTS + 1) 0
      let (siblingNode, midpointIdx) ← chooseSibling file node parentNode childIdx
      if node.numKeys + siblingNode.numKeys + 1 ≤ NODE_ELEMENTS then
        -- merge the siblings
        let (leftNode, rightNode) :=
          if childIdx = midpointIdx then (node, siblingNode) else (siblingNode, node)
        let (file, leftNode, parentNode) ←
          mergeSiblings file leftNode rightNode parentNode midpointIdx
        if 0 < parentNode.numKeys then
          let file ← parentNode.save file
          let (parentOffset, parentNode) := (parentNode.copyStack node).popParent
          rebalanceLoop fuel file parentNode parentOffset
        else
          -- parentNode is empty
          let (parentOffset, node) := node.popParent
          if parentOffset = 0 then
            -- the parent node is the root
            return (file, leftNode.offset)
          else
            let tempOffset := parentNode.offset
            let file := file.freeNode parentNode.offset
            let parentNode ← parentNode.load file parentOffset
            let parentNode := replaceChild parentNode tempOffset leftNode.offset
            let (parentOffset, parentNode) := (parentNode.copyStack node).popParent
            rebalanceLoop fuel file parentNode parentOffset
      else
        -- could not merge the siblings
        let (file, node, parentNode, siblingNode) ←
          balanceSiblings file node parentNode siblingNode midpointIdx
            (decide (midpointIdx = childIdx))
        if siblingNode.numKeys < NODE_ELEMENTS / 2 then
          -- make the sibling the merge candidate
          rebalanceLoop fuel file (siblingNode.copyStack node) parentOffset
        else
          let (parentOffset, parentNode) := (parentNode.copyStack node).popParent
          rebalanceLoop fuel file parentNode parentOffset

/-- A key with a right child is replaced by the least key of the subtree, which is deleted
instead: the node and the index to delete. -/
def replaceByLeast (file : IndexFile) (node : Node) (index : Nat) :
    Except Fault (IndexFile × Node × Nat) :=
  if 0 < node.child (index + 1) then do
    -- find the least key in the subtree
    let rootNode := node
    let node ← Node.new.load file (rootNode.child (index + 1))
    let node ← leastLoop file file.fuel ((node.copyStack rootNode).pushParent rootNode.offset)
    -- replace delete key with discovered key
    let rootNode := rootNode.set index { rootNode.triplet index with
      key := node.key 0, value := node.value 0 }
    let file ← rootNode.save file
    -- preserve right subtree from deleting
    return (file, { node with child0 := node.child 1 }, 0)
  else return (file, node, index)

/-- `deleteKeyFromNode`. -/
def deleteKeyFromNode (file : IndexFile) (node : Node) (index : Nat) :
    Except Fault (IndexFile × Int) := do
  let (file, node, index) ← replaceByLeast file node index
  let node := node.deleteKey index
  let file ← node.save file
  let (parentOffset, node) := node.popParent
  rebalanceLoop file.fuel file node parentOffset

/-- `deleteKey`. -/
def deleteKey (file : IndexFile) (node : Node) (key : Int) : Except Fault (IndexFile × Int) := do
  let (node, index) ← findNodeWithKey file key file.fuel node 0
  if node.key index = key then deleteKeyFromNode file node index else return (file, 0)

/-- `deleteRecordIndex`. -/
def deleteRecordIndex (file : IndexFile) (recordId : Int) : Except Fault IndexFile := do
  let rootOffset := file.idRoot
  let node ← Node.new.load file rootOffset
  let (file, offset) ← deleteKey file node recordId
  if 0 < offset then
    -- new root, free old one
    return { file.freeNode rootOffset with idRoot := offset }
  else return file

end FroggyKVM.TreeIndex
