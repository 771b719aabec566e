import DistributedAvl.Tree.Operations

namespace DistributedAvl

open NodePtr SubtreeMessageParser

inductive MessageType where
  | insert | preorder | getValue | getCount | setData | clear2
  | pushRightSubTree | pushLeftSubTree | pullLeftSubTree | pullRightSubTree
  | setLeftSubTree | setRightSubTree | rotateWithLeftChild | rotateWithRightChild
  | setSubTree | getHeight | getSubtree | remove | findLesserSuccessor
  | contains | initBackup | endBackup
  deriving DecidableEq, Repr

inductive Branch where
  | left | right | both
  deriving DecidableEq, Repr

structure Message where
  type : MessageType
  insert : Option Word
  remove : Option Word
  dataNode : Option DataNodeMessage
  branch : Option Branch
  subtree : PabloSubtree
  deriving Repr

structure Response where
  type : MessageType
  stringValue : Option Word
  intValue : Option Int
  subtree : PabloSubtree
  dataNode : Option DataNodeMessage
  deriving Repr

namespace Message

def ofType (type : MessageType) : Message := ⟨type, none, none, none, none, .unset⟩

-- Reading a field that is not set gives the field's default.
def insertWord (msg : Message) : Word := msg.insert.getD []

def removeWord (msg : Message) : Word := msg.remove.getD []

def dataNodeWord (msg : Message) : Word := (msg.dataNode.getD ⟨0, []⟩).word

def dataNodeCounter (msg : Message) : Int := (msg.dataNode.getD ⟨0, []⟩).counter

def branchOrDefault (msg : Message) : Branch := msg.branch.getD .left

end Message

namespace RemoteTreeManager

abbrev Handler := NodePtr → Message → Option (NodePtr × Response)

def createResponse (type : MessageType) : Response := ⟨type, none, none, .unset, none⟩

def setData : Handler := fun root msg => do
  return (← root.setData msg.dataNodeWord msg.dataNodeCounter, createResponse .setData)

def getWord : Handler := fun root _ => do
  return (root, { createResponse .getValue with stringValue := some (← root.getWord) })

def getCounter : Handler := fun root _ => do
  return (root, { createResponse .getCount with intValue := some (← root.getCounter) })

def getHeight : Handler := fun root _ => do
  return (root, { createResponse .getHeight with intValue := some (← root.getHeight) })

def insert : Handler := fun root msg => do
  return (← root.insert msg.insertWord, createResponse .insert)

def remove : Handler := fun root msg => do
  return (← root.remove msg.removeWord, createResponse .remove)

def rotateLeft : Handler := fun root _ => do
  return (← root.rotateLeft, createResponse .rotateWithLeftChild)

def rotateRight : Handler := fun root _ => do
  return (← root.rotateRight, createResponse .rotateWithRightChild)

def pushLeftSubtree : Handler := fun root msg => do
  return (← root.pushLeftSubtree msg.dataNodeWord msg.dataNodeCounter,
    createResponse .pushLeftSubTree)

def pushRightSubtree : Handler := fun root msg => do
  return (← root.pushRightSubtree msg.dataNodeWord msg.dataNodeCounter,
    createResponse .pushRightSubTree)

def pullLeftSubtree : Handler := fun root _ => do
  return (← root.pullLeftSubtree, createResponse .pullLeftSubTree)

def pullRightSubtree : Handler := fun root _ => do
  return (← root.pullRightSubtree, createResponse .pullRightSubTree)

def setSubtree : Handler := fun root msg => do
  return (← root.setSubtree (parseTree msg.subtree), createResponse .setSubTree)

def setLeftSubtree : Handler := fun root msg => do
  return (← root.setLeftSubtree (parseTree msg.subtree), createResponse .setLeftSubTree)

def setRightSubtree : Handler := fun root msg => do
  return (← root.setRightSubtree (parseTree msg.subtree), createResponse .setRightSubTree)

def getSubtree : Handler := fun root msg => do
  let tree ← (match msg.branchOrDefault with
    | .both => parseProtoTree root
    | .left => do parseProtoTree (← root.getLeft)
    | .right => do parseProtoTree (← root.getRight))
  return (root, { createResponse .getSubtree with subtree := tree })

def findSuccessor : Handler := fun root _ => do
  let (value, root₁) ← root.findSuccessor
  return (root₁, { createResponse .findLesserSuccessor with
    dataNode := some (← parseProtoNode value) })

def clear : Handler := fun root _ => do
  return (← root.reset, createResponse .clear2)

-- preorder only writes to the log.
def preorder : Handler := fun root _ => some (root, createResponse .preorder)

def registerMessageHandler : MessageType → Option Handler
  | .setData => some setData
  | .getValue => some getWord
  | .getCount => some getCounter
  | .getHeight => some getHeight
  | .insert => some insert
  | .remove => some remove
  | .rotateWithLeftChild => some rotateLeft
  | .rotateWithRightChild => some rotateRight
  | .pushLeftSubTree => some pushLeftSubtree
  | .pushRightSubTree => some pushRightSubtree
  | .pullLeftSubTree => some pullLeftSubtree
  | .pullRightSubTree => some pullRightSubtree
  | .setSubTree => some setSubtree
  | .setLeftSubTree => some setLeftSubtree
  | .setRightSubTree => some setRightSubtree
  | .getSubtree => some getSubtree
  | .findLesserSuccessor => some findSuccessor
  | .clear2 => some clear
  | .preorder => some preorder
  | .contains => none
  | .initBackup => none
  | .endBackup => none

end RemoteTreeManager

namespace AVLMessageHandler

-- A message without a handler is dropped and nothing is written back.
def parseMessage (root : NodePtr) (msg : Message) : Option (NodePtr × Option Response) :=
  match RemoteTreeManager.registerMessageHandler msg.type with
  | some handler => do
      let (root₁, response) ← handler root msg
      return (root₁, some response)
  | none => some (root, none)

end AVLMessageHandler

end DistributedAvl
