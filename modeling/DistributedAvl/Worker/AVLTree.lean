import DistributedAvl.Tree.Operations

namespace DistributedAvl

namespace AVLTree

inductive Kind where
  | add
  | remove
  deriving DecidableEq, Repr

inductive RootMessageType where
  | heartbeat
  | addWord
  | removeWord
  deriving DecidableEq, Repr

structure MessageToRoot where
  type : RootMessageType
  word : Option Word
  deriving DecidableEq, Repr

-- queue_ is read from its front, words_ from its back.  After a null pointer is followed there is
-- no root and no process any more.  submitted and applied record the calls and the worker's work.
structure State where
  root : Option NodePtr
  queue : List Kind
  words : List Word
  submitted : List (Kind × Word)
  applied : List (Kind × Word)
  deriving Repr

def start (root : NodePtr) : State := ⟨some root, [], [], [], []⟩

def submit (s : State) (kind : Kind) (word : Word) : State :=
  { s with
    queue := s.queue ++ [kind], words := s.words ++ [word],
    submitted := s.submitted ++ [(kind, word)] }

def insert (s : State) (word : Word) : State := submit s .add word

def remove (s : State) (word : Word) : State := submit s .remove word

-- RootMessageHandler::parseMessage; none is a buffer that does not parse.
def parseMessage (s : State) : Option MessageToRoot → State
  | none => s
  | some ⟨.addWord, word⟩ => insert s (word.getD [])
  | some ⟨.removeWord, word⟩ => remove s (word.getD [])
  | some ⟨.heartbeat, _⟩ => s

def work (root : NodePtr) (kind : Kind) (word : Word) : Option NodePtr :=
  match kind with
  | .add => root.insert word
  | .remove => root.remove word

def invoke (s : State) (root : NodePtr) : State :=
  match s.queue with
  | [] => s
  | kind :: queue =>
      match s.words.getLast? with
      | none => { s with root := none }
      | some word =>
          { s with
            root := work root kind word, queue := queue, words := s.words.dropLast,
            applied := s.applied ++ [(kind, word)] }

inductive Action where
  | insert (word : Word)
  | remove (word : Word)
  | message (client : Nat) (msg : Option MessageToRoot)
  | invoke
  deriving DecidableEq, Repr

def step (s : State) (action : Action) : Option State := do
  let root ← s.root
  match action with
  | .insert word => return insert s word
  | .remove word => return remove s word
  | .message _ msg => return parseMessage s msg
  | .invoke => return invoke s root

end AVLTree

end DistributedAvl
