import DistributedAvl.Tree.NodeData

namespace DistributedAvl

structure DataNodeMessage where
  counter : Int
  word : Word
  deriving DecidableEq, Repr

-- An `optional PabloSubtree` field: unset, or set to a message with its own optional fields.
inductive PabloSubtree where
  | unset
  | set (node : Option DataNodeMessage) (left right : PabloSubtree)
  deriving DecidableEq, Repr

namespace SubtreeMessageParser

open NodePtr

def parseNodeTree (tree : DataNodeMessage) : NodePtr :=
  if tree.counter = 0 then null else node null 0 tree.word tree.counter null

-- Reading an unset field gives the default message, which has no node.
def parseTree : PabloSubtree → NodePtr
  | .unset => null
  | .set none _ _ => null
  | .set (some d) left right =>
      match parseNodeTree d with
      | node _ h w c _ => node (parseTree left) h w c (parseTree right)
      | root => root

def parseProtoTree : NodePtr → Option PabloSubtree
  | null => some (.set none .unset .unset)
  | node l _ w c r => do
      let left ← (if l.present then parseProtoTree l else some .unset)
      let right ← (if r.present then parseProtoTree r else some .unset)
      return .set (some ⟨c, w⟩) left right
  | remote root => do
      let word ← root.getWord
      let counter ← root.getCounter
      return .set (some ⟨counter, word⟩) .unset .unset

def parseProtoNode (node : NodePtr) : Option DataNodeMessage := do
  let word ← node.getWord
  let counter ← node.getCounter
  return ⟨counter, word⟩

end SubtreeMessageParser

namespace NodePtr

open SubtreeMessageParser

-- What a tree becomes when it crosses a connection: encoded there, decoded here.
def carried (t : NodePtr) : Option NodePtr := do
  return parseTree (← parseProtoTree t)

end NodePtr

end DistributedAvl
