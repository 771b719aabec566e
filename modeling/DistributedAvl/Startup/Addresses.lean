import DistributedAvl.Startup.OwnEndpoint
import DistributedAvl.Startup.Server
import Mathlib.Data.List.TakeWhile

namespace DistributedAvl

open OrderedMap

def isspace (c : Char) : Bool := decide (c = ' ') || decide (9 ≤ c.toNat ∧ c.toNat ≤ 13)

-- White space, a sign, and the digits before the first other character.
def atoi (text : String) : Int :=
  let value (chars : List Char) : Int := (Nat.ofDigitChars 10 (chars.takeWhile Char.isDigit) 0 : Nat)
  match text.toList.dropWhile isspace with
  | '-' :: chars => -value chars
  | '+' :: chars => value chars
  | chars => value chars

section Addresses

-- An IP address, what the resolver makes of an argument, what from_string makes of a text, throwing
-- where it is no address, and how to_string prints an address.
variable {A : Type} (resolve fromString : String → Option A) (print : A → String)

def Endpoint.asioEndpoint (node : Endpoint.MapEndpoint) : Option (AsioEndpoint A) := do
  let address ← fromString node.1
  return ⟨address, BitVec.ofInt 16 (atoi node.2)⟩

-- The nodes that the root connects to, so as to read their words; none where from_string throws,
-- which ends the process before anything is posted.
def RootDutiesManager.createConnection : Endpoint.Map → AsioEndpoint A → Option (List Nat)
  | [], _ => some []
  | node :: endpoints, rootEndpoint =>
      if node.2 ≠ Endpoint.resolver print rootEndpoint then do
        let _ ← Endpoint.asioEndpoint fromString node.2
        return node.1 :: (← createConnection endpoints rootEndpoint)
      else createConnection endpoints rootEndpoint

def RemoteTreeManager.LocalRoot.links (root : LocalRoot) : Endpoint.Map :=
  root.parent.toList ++ root.left.toList ++ root.right.toList

-- A process with its first two arguments and the endpoint it listens at.
structure Node where
  ip : String
  port : BitVec 16
  endpoint : AsioEndpoint A
  listens : Main.endpointServer resolve ip port = some endpoint

variable {resolve}

def Node.init (node : Node resolve) : InitSystemMessage := Main.init node.ip node.port

def registered (nodes : List (Node resolve)) : Endpoint.Map :=
  numbered 1 ((nodes.map Node.init).map InitSystemMessage.endpoint)

variable {fromString print} {nodes : List (Node resolve)}

section Canonical

variable (hprint : ∀ node ∈ nodes, fromString (print node.endpoint.address) =
    some node.endpoint.address)
  (hip : ∀ node ∈ nodes, print node.endpoint.address = node.ip)

include hprint hip

end Canonical

end Addresses

end DistributedAvl
