import DistributedAvl.Remote.TreeManager

namespace DistributedAvl

open NodePtr SubtreeMessageParser

namespace RemoteAVLTreeClient

variable (far : NodePtr)

def handleResponse (type : MessageType) (response : Response) : Option Response :=
  if response.type = type then some response else none

-- send, the far machine's work, and handle_response; a reply that never comes is never read.
def call (msg : Message) : Option (NodePtr × Option Response) := do
  let (far₁, reply) ← AVLMessageHandler.parseMessage far msg
  let response ← reply
  return (far₁, handleResponse msg.type response)

def tell (msg : Message) : Option NodePtr := do
  let (far₁, _) ← call far msg
  return far₁

def setData (word : Word) (counter : Int) : Option NodePtr :=
  tell far { Message.ofType .setData with dataNode := some ⟨counter, word⟩ }

-- Without a response getWord makes a std::string of the null pointer.
def getWord : Option (NodePtr × Word) := do
  let (far₁, response) ← call far (Message.ofType .getValue)
  return (far₁, (← response).stringValue.getD [])

def getCounter : Option (NodePtr × Int) := do
  let (far₁, response) ← call far (Message.ofType .getCount)
  return (far₁, (response.bind Response.intValue).getD 0)

def getHeight : Option (NodePtr × Int) := do
  let (far₁, response) ← call far (Message.ofType .getHeight)
  return (far₁, (response.bind Response.intValue).getD 0)

def insert (word : Word) : Option NodePtr :=
  tell far { Message.ofType .insert with insert := some word }

def remove (word : Word) : Option NodePtr :=
  tell far { Message.ofType .remove with remove := some word }

def getSubtree (branch : Branch) : Option (NodePtr × PabloSubtree) := do
  let (far₁, response) ← call far { Message.ofType .getSubtree with branch := some branch }
  return (far₁, (response.map Response.subtree).getD .unset)

def findSuccessor : Option (NodePtr × Option DataNodeMessage) := do
  let (far₁, response) ← call far (Message.ofType .findLesserSuccessor)
  return (far₁, response.bind Response.dataNode)

def pushLeftSubtree (word : Word) (counter : Int) : Option NodePtr :=
  tell far { Message.ofType .pushLeftSubTree with dataNode := some ⟨counter, word⟩ }

def pushRightSubtree (word : Word) (counter : Int) : Option NodePtr :=
  tell far { Message.ofType .pushRightSubTree with dataNode := some ⟨counter, word⟩ }

def pullLeftSubtree : Option NodePtr := tell far (Message.ofType .pullLeftSubTree)

def pullRightSubtree : Option NodePtr := tell far (Message.ofType .pullLeftSubTree)

def setSubtree (tree : PabloSubtree) : Option NodePtr :=
  tell far { Message.ofType .setSubTree with subtree := tree }

def setLeftSubtree (tree : PabloSubtree) : Option NodePtr :=
  tell far { Message.ofType .setLeftSubTree with subtree := tree }

def setRightSubtree (tree : PabloSubtree) : Option NodePtr :=
  tell far { Message.ofType .setRightSubTree with subtree := tree }

def rotateLeft : Option NodePtr := tell far (Message.ofType .rotateWithLeftChild)

def rotateRight : Option NodePtr := tell far (Message.ofType .rotateWithRightChild)

def clear : Option NodePtr := tell far (Message.ofType .clear2)

end RemoteAVLTreeClient

inductive Operation where
  | setData (word : Word) (counter : Int)
  | getWord
  | getCounter
  | getHeight
  | insert (word : Word)
  | remove (word : Word)
  | rotateLeft
  | rotateRight
  | pushLeftSubtree (word : Word) (counter : Int)
  | pushRightSubtree (word : Word) (counter : Int)
  | pullLeftSubtree
  | pullRightSubtree
  | setSubtree (tree : NodePtr)
  | setLeftSubtree (tree : NodePtr)
  | setRightSubtree (tree : NodePtr)
  | getSubtree
  | getRightSubtree
  | getLeftSubtree
  | findSuccessor
  | clear

inductive Answer where
  | done
  | word (word : Word)
  | number (number : Int)
  | tree (tree : NodePtr)

namespace Operation

-- The method called on the root itself; the root of a machine's tree is a RemoteDataNode without
-- client, so its clear empties it in place.
def direct (root : NodePtr) : Operation → Option (NodePtr × Answer)
  | setData word counter => do return (← root.setData word counter, .done)
  | getWord => do return (root, .word (← root.getWord))
  | getCounter => do return (root, .number (← root.getCounter))
  | getHeight => do return (root, .number (← root.getHeight))
  | insert word => do return (← root.insert word, .done)
  | remove word => do return (← root.remove word, .done)
  | rotateLeft => do return (← root.rotateLeft, .done)
  | rotateRight => do return (← root.rotateRight, .done)
  | pushLeftSubtree word counter => do return (← root.pushLeftSubtree word counter, .done)
  | pushRightSubtree word counter => do return (← root.pushRightSubtree word counter, .done)
  | pullLeftSubtree => do return (← root.pullLeftSubtree, .done)
  | pullRightSubtree => do return (← root.pullRightSubtree, .done)
  | setSubtree tree => do return (← root.setSubtree tree, .done)
  | setLeftSubtree tree => do return (← root.setLeftSubtree tree, .done)
  | setRightSubtree tree => do return (← root.setRightSubtree tree, .done)
  | getSubtree => do return (root, .tree (← root.getSubtree))
  | getRightSubtree => do return (root, .tree (← root.getRightSubtree))
  | getLeftSubtree => do return (root, .tree (← root.getLeftSubtree))
  | findSuccessor => do
      let (value, root₁) ← root.findSuccessor
      return (root₁, .tree value)
  | clear => do return (← root.reset, .done)

-- The RemoteDataNode method, its client stub, the message, the dispatch, the handler, the response.
def overClient (far : NodePtr) : Operation → Option (NodePtr × Answer)
  | setData word counter => do return (← RemoteAVLTreeClient.setData far word counter, .done)
  | getWord => do
      let (far₁, word) ← RemoteAVLTreeClient.getWord far
      return (far₁, .word word)
  | getCounter => do
      let (far₁, counter) ← RemoteAVLTreeClient.getCounter far
      return (far₁, .number counter)
  | getHeight => do
      let (far₁, height) ← RemoteAVLTreeClient.getHeight far
      return (far₁, .number height)
  | insert word => do return (← RemoteAVLTreeClient.insert far word, .done)
  | remove word => do return (← RemoteAVLTreeClient.remove far word, .done)
  | rotateLeft => do return (← RemoteAVLTreeClient.rotateLeft far, .done)
  | rotateRight => do return (← RemoteAVLTreeClient.rotateRight far, .done)
  | pushLeftSubtree word counter => do
      return (← RemoteAVLTreeClient.pushLeftSubtree far word counter, .done)
  | pushRightSubtree word counter => do
      return (← RemoteAVLTreeClient.pushRightSubtree far word counter, .done)
  | pullLeftSubtree => do return (← RemoteAVLTreeClient.pullLeftSubtree far, .done)
  | pullRightSubtree => do return (← RemoteAVLTreeClient.pullRightSubtree far, .done)
  | setSubtree tree => do
      return (← RemoteAVLTreeClient.setSubtree far (← parseProtoTree tree), .done)
  | setLeftSubtree tree => do
      return (← RemoteAVLTreeClient.setLeftSubtree far (← parseProtoTree tree), .done)
  | setRightSubtree tree => do
      return (← RemoteAVLTreeClient.setRightSubtree far (← parseProtoTree tree), .done)
  | getSubtree => do
      let (far₁, tree) ← RemoteAVLTreeClient.getSubtree far .both
      return (far₁, .tree (parseTree tree))
  | getRightSubtree => do
      let (far₁, tree) ← RemoteAVLTreeClient.getSubtree far .right
      return (far₁, .tree (parseTree tree))
  | getLeftSubtree => do
      let (far₁, tree) ← RemoteAVLTreeClient.getSubtree far .left
      return (far₁, .tree (parseTree tree))
  | findSuccessor => do
      let (far₁, value) ← RemoteAVLTreeClient.findSuccessor far
      return (far₁, .tree ((value.map parseNodeTree).getD null))
  | clear => do return (← RemoteAVLTreeClient.clear far, .done)

end Operation

end DistributedAvl
