import DistributedAvl.Requests.FileManager
import DistributedAvl.Wire.Line
import DistributedAvl.Worker.AVLTree

namespace DistributedAvl

open AVLTree (Kind MessageToRoot)

structure MessageFromRoot where
  reset : Bool
  deriving DecidableEq, Repr

-- What Sender::write sends; it then reads the reply and keeps nothing of it.
def Sender.message (operation : Kind) (word : Word) : MessageToRoot where
  type := match operation with
    | .add => .addWord
    | .remove => .removeWord
  word := some word

namespace RootDutiesManager

-- The root's process: the tree with its queue, and what its own FileManager has still to insert.
-- log records whose call submitted what; none is the root itself.
structure Root where
  avl : AVLTree.State
  words : List Word
  log : List (Option Nat × Kind × Word)
  deriving Repr

def submits : Option MessageToRoot → List (Kind × Word)
  | some ⟨.addWord, word⟩ => [(.add, word.getD [])]
  | some ⟨.removeWord, word⟩ => [(.remove, word.getD [])]
  | some ⟨.heartbeat, _⟩ => []
  | none => []

-- One round of handleRequests: it replies whatever it has read, and starts again.
def handleRequests (root : Root) (client : Nat) (msg : Option MessageToRoot) :
    Option (Root × Option MessageFromRoot) := do
  let avl ← AVLTree.step root.avl (.message client msg)
  let log := root.log ++ (submits msg).map fun call => (some client, call)
  return ({ root with avl := avl, log := log }, some ⟨false⟩)

inductive Local where
  | insert
  | invoke
  deriving DecidableEq, Repr

-- The root's own threads: its FileManager, and the worker, whose turns change nothing while the
-- queue is empty.
def work (root : Root) : Local → Option Root
  | .insert =>
      match root.words with
      | [] => none
      | word :: words => do
          let avl ← AVLTree.step root.avl (.insert word)
          return ⟨avl, words, root.log ++ [(none, .add, word)]⟩
  | .invoke =>
      if root.avl.queue = [] then none
      else do return { root with avl := ← AVLTree.step root.avl .invoke }

abbrev State := Calls.State Nat Root MessageToRoot MessageFromRoot Buffer Buffer

abbrev Act := Calls.Act Nat Local

variable (toRoot : Protobuf MessageToRoot) (fromRoot : Protobuf MessageFromRoot)

-- A thread of the pool for every node that has joined, each on that node's connection.
def system : Calls.System Nat Root MessageToRoot MessageFromRoot Buffer Buffer Local where
  requestLine := Connection.line toRoot
  replyLine := Connection.line fromRoot
  handle := handleRequests
  own := work

def step (s : State) (act : Act) : Option State := (system toRoot fromRoot).step s act

def script (joiners : List Nat) (files : Nat → FileManager) (n : Nat) : List MessageToRoot :=
  if n ∈ joiners then (files n).start.map (Sender.message .add) else []

def start (tree : NodePtr) (joiners : List Nat) (files : Nat → FileManager) : State :=
  (system toRoot fromRoot).start ⟨AVLTree.start tree, (files 1).start, []⟩ (script joiners files)

end RootDutiesManager

end DistributedAvl
