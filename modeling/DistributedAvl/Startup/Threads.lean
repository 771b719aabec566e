import DistributedAvl.Foundation.Pool
import DistributedAvl.Startup.Addresses
import DistributedAvl.Startup.Registration
import Mathlib.Data.List.Perm.Subperm

namespace DistributedAvl

open Pool

namespace ThreadPool

inductive Task where
  | handleRequests (connection : Nat)
  | writeHello (connection : Nat)
  | readDummy (connection : Nat)
  deriving DecidableEq, Repr

-- What has come over the root's connections: Hellos written, Dummies sent back, Dummies read.
structure Exchange where
  hellos : List Nat
  dummies : List Nat
  read : List Nat
  deriving DecidableEq, Repr

def ends (s : Exchange) : Task → Option Exchange
  -- no joiner sends a word before the Dummies, and after each word handleRequests calls itself
  | .handleRequests _ => none
  | .writeHello connection => some { s with hellos := s.hellos ++ [connection] }
  | .readDummy connection =>
      if connection ∈ s.dummies ∧ connection ∉ s.read then
        some { s with read := s.read ++ [connection] }
      else none

end ThreadPool

open ThreadPool

def RootDutiesManager.requests (connectionsMind : List Nat) : List Task :=
  connectionsMind.map .handleRequests

-- What a call of sayHello posts.
def Server.sayHello {A : Type} (fromString : String → Option A) (print : A → String)
    (rootEndpoint : AsioEndpoint A) (greeting : Registration.Greeting) : Option (List Task) := do
  let connectionsMind ←
    RootDutiesManager.createConnection fromString print greeting.endpoints rootEndpoint
  return RootDutiesManager.requests connectionsMind ++
    greeting.connections.map .writeHello ++ greeting.connections.map .readDummy

namespace ThreadPool

section Tasks

variable (minded connections : List Nat) {f : Task → Option Nat} {task : Nat → Task}

end Tasks

section Runs

variable {minded connections : List Nat} {nodeCounter : Nat} {s s' : Pool.State Task Exchange}

end Runs

end ThreadPool

namespace Server

open RootDutiesManager

section SayHello

variable {message : Nat → InitSystemMessage} {joiners : Nat} {s s' : Registration.State}

variable {A : Type} (fromString : String → Option A) (print : A → String)
  (rootEndpoint : AsioEndpoint A) (nodeCounter : Nat)

end SayHello

end Server

end DistributedAvl
