import DistributedAvl.Tree.Word

namespace DistributedAvl

-- A shared_ptr<NodeData>: null, an ordinary NodeData object, or a RemoteDataNode whose client
-- stands for the machine whose AVLTree root is the tree it carries.  Every method called through
-- the null pointer is `none`.
inductive NodePtr where
  | null
  | node (left : NodePtr) (height : Int) (word : Word) (counter : Int) (right : NodePtr)
  | remote (root : NodePtr)
  deriving DecidableEq, Repr

namespace NodePtr

def present : NodePtr → Bool
  | null => false
  | _ => true

def fresh : NodePtr := node null (-1) [] 0 null

def create (word : Word) : NodePtr := node null 0 word 1 null

def getWord : NodePtr → Option Word
  | null => none
  | node _ _ w _ _ => some w
  | remote root => root.getWord

def getCounter : NodePtr → Option Int
  | null => none
  | node _ _ _ c _ => some c
  | remote root => root.getCounter

def getHeight : NodePtr → Option Int
  | null => none
  | node _ h _ _ _ => some h
  | remote root => root.getHeight

-- RemoteDataNode inherits getLeft and getRight: it answers with its own, empty, children.
def getLeft : NodePtr → Option NodePtr
  | null => none
  | node l _ _ _ _ => some l
  | remote _ => some null

def getRight : NodePtr → Option NodePtr
  | null => none
  | node _ _ _ _ r => some r
  | remote _ => some null

def hasWord (this : NodePtr) : Option Bool := do
  let height ← this.getHeight
  let counter ← this.getCounter
  let word ← this.getWord
  return decide (height > -1) && decide (counter ≠ 0) && decide (word ≠ [])

def equalWord (this : NodePtr) (word : Word) : Option Bool := do
  return decide (Word.compare word (← this.getWord) = 0)

def greaterWord (this : NodePtr) (word : Word) : Option Bool := do
  return decide (Word.compare word (← this.getWord) > 0)

def smaller (child : NodePtr) (word : Word) : Option Bool :=
  if child.present then do
    if ← child.hasWord then return decide (Word.compare word (← child.getWord) < 0)
    else return false
  else some false

-- setWord, increaseCounter, decreaseCounter and updateHeight are not forwarded: on a proxy they
-- touch only fields that no forwarded getter reads.
def setWord : NodePtr → Word → Option NodePtr
  | null, _ => none
  | node l _ _ c r, word => some (node l 0 word (c + 1) r)
  | remote root, _ => some (remote root)

def increaseCounter : NodePtr → Option NodePtr
  | null => none
  | node l h w c r => some (node l h w (c + 1) r)
  | remote root => some (remote root)

def decreaseCounter : NodePtr → Option NodePtr
  | null => none
  | node l h w c r => some (node l h w (c - 1) r)
  | remote root => some (remote root)

def setData : NodePtr → Word → Int → Option NodePtr
  | null, _, _ => none
  | node l _ _ _ r, word, counter => some (node l 0 word counter r)
  | remote root, word, counter => do return remote (← root.setData word counter)

def childHeight (child : NodePtr) : Option Int :=
  if child.present then child.getHeight else some (-1)

def updateHeight : NodePtr → Option (NodePtr × Int)
  | null => none
  | node l _ w c r => do
      let left_height ← l.childHeight
      let right_height ← r.childHeight
      return (node l (max left_height right_height + 1) w c r, right_height - left_height)
  | remote root => some (remote root, 0)

-- RemoteDataNode::clear on a machine's own root (no client): emptied in place.
def reset : NodePtr → Option NodePtr
  | null => none
  | node l _ _ _ r => do
      let l₁ ← (match l with
        | remote root => do return remote (← root.reset)
        | _ => some null)
      let r₁ ← (match r with
        | remote root => do return remote (← root.reset)
        | _ => some null)
      return node l₁ (-1) [] 0 r₁
  | remote root => do return remote (← root.reset)

-- NodeData::clear gives nullptr, RemoteDataNode::clear empties the far tree and gives itself.
def clear : NodePtr → Option NodePtr
  | null => none
  | node _ _ _ _ _ => some null
  | remote root => do return remote (← root.reset)

def clearChild (child : NodePtr) : Option NodePtr :=
  if child.present then child.clear else some null

def clearData : NodePtr → Option NodePtr
  | node l _ _ _ r => do return node (← l.clearChild) (-1) [] 0 (← r.clearChild)
  | t => some t

end NodePtr

end DistributedAvl
