import DistributedAvl.Startup.Endpoints

namespace DistributedAvl

open RemoteTreeManager

namespace Server

-- One node's side of the start-up, connections named by the id of the node that opened them:
-- those not yet accepted, the one in the Sender and the one in root_connection_.
structure Peer where
  helloReady : Bool
  dummySent : Bool
  waiting : List Nat
  sender : Option Nat
  rootConnection : Option Nat
  deriving Repr

structure State where
  peers : Nat → Peer
  dummiesAnswered : Bool

def State.update (s : State) (n : Nat) (peer : Peer) : State :=
  { s with peers := fun k => if k = n then peer else s.peers k }

-- The connections createLocalRootConnection opens at a node that finds its own endpoint.
def opened (endpoints : Endpoint.Map) (n : Nat) : List Nat :=
  let root := localRoot endpoints n
  (root.parent.toList ++ root.left.toList ++ root.right.toList).map Prod.fst

def State.connect (s : State) (n : Nat) (targets : List Nat) : State :=
  { s with
    peers := fun k =>
      if k ∈ targets then { s.peers k with waiting := (s.peers k).waiting ++ [n] } else s.peers k }

-- The part of handle_accept for a node that is not the root.
def handleAccept (peer : Peer) (opener : Nat) : Peer :=
  let peer := { peer with waiting := peer.waiting.erase opener }
  if !peer.helloReady then { peer with sender := some opener }
  else { peer with rootConnection := some opener }

def joiners (endpoints : Endpoint.Map) : List Nat :=
  (endpoints.map Prod.fst).filter fun n => decide (n ≠ 1)

-- RootDutiesManager::createConnection has opened a connection to every other node.
def start (endpoints : Endpoint.Map) : State where
  peers := fun n => ⟨false, false, if n ∈ joiners endpoints then [1] else [], none, none⟩
  dummiesAnswered := false

inductive Event where
  | accept (n opener : Nat)
  | hello (n : Nat)
  | dummy (n : Nat)
  | resendDummy
  deriving DecidableEq, Repr

-- A node reads its Hello over a connection of its own; the root's connection to it is accepted
-- first.  A Dummy follows the Hello, and the root's own connections follow the last Dummy.
def step (endpoints : Endpoint.Map) (s : State) : Event → Option State
  | .accept n opener =>
      if n ∈ joiners endpoints ∧ opener ∈ (s.peers n).waiting then
        some (s.update n (handleAccept (s.peers n) opener))
      else none
  | .hello n =>
      if n ∈ joiners endpoints ∧ !(s.peers n).helloReady ∧ 1 ∉ (s.peers n).waiting then
        some ((s.update n { s.peers n with helloReady := true }).connect n (opened endpoints n))
      else none
  | .dummy n =>
      if n ∈ joiners endpoints ∧ (s.peers n).helloReady ∧ !(s.peers n).dummySent then
        some (s.update n { s.peers n with dummySent := true })
      else none
  | .resendDummy =>
      if !s.dummiesAnswered ∧ ∀ n ∈ joiners endpoints, (s.peers n).dummySent then
        some ({ s with dummiesAnswered := true }.connect 1 (opened endpoints 1))
      else none

end Server

end DistributedAvl
