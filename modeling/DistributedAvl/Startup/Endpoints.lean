import DistributedAvl.Foundation.OrderedMap

namespace DistributedAvl

open OrderedMap

structure InitSystemMessage where
  ip : String
  port : Int
  deriving DecidableEq, Repr

structure Tree where
  id : Nat
  ip : String
  port : Int
  deriving DecidableEq, Repr

structure Hello where
  id : Nat
  tree : List Tree
  deriving DecidableEq, Repr

namespace Endpoint

abbrev MapEndpoint := String × String

-- std::map: one entry a key, in the order of the keys.
abbrev Map := List (Nat × MapEndpoint)

def make (ip : String) (port : Int) : MapEndpoint := (ip, toString port)

end Endpoint

structure InitTreeHandler where
  hello : Hello
  ip : Nat
  nodeCounter : Nat
  endpointMap : Endpoint.Map
  deriving Repr

namespace InitTreeHandler

def addInitToTree (this : InitTreeHandler) (init : InitSystemMessage) : InitTreeHandler :=
  { this with
    hello := { this.hello with tree := this.hello.tree ++ [⟨this.ip, init.ip, init.port⟩] }
    endpointMap := assign this.ip (Endpoint.make init.ip init.port) this.endpointMap
    ip := this.ip + 1 }

def create (root : InitSystemMessage) (nodeCounter : Nat) : InitTreeHandler :=
  addInitToTree ⟨⟨1, []⟩, 1, nodeCounter, []⟩ root

def ready (this : InitTreeHandler) : Bool := decide (this.ip > this.nodeCounter)

-- The handler after the message, and whether it tells its observers that it is ready.
def parseMessage (this : InitTreeHandler) : Option InitSystemMessage → InitTreeHandler × Bool
  | some init => (this.addInitToTree init, (this.addInitToTree init).ready)
  | none => (this, false)

def parseAll (this : InitTreeHandler) (inits : List InitSystemMessage) : InitTreeHandler :=
  inits.foldl (fun this init => (this.parseMessage (some init)).1) this

end InitTreeHandler

structure HelloMessageHandler where
  isReady : Bool
  endpointMap : Endpoint.Map
  deriving Repr

namespace HelloMessageHandler

def create : HelloMessageHandler := ⟨false, []⟩

def parseMessage (this : HelloMessageHandler) : Option Hello → HelloMessageHandler
  | some hello =>
      { isReady := true
        endpointMap := hello.tree.foldl
          (fun map node => assign node.id (Endpoint.make node.ip node.port) map) this.endpointMap }
  | none => this

end HelloMessageHandler

namespace RemoteTreeManager

structure LocalRoot where
  id : Nat
  parent : Option (Nat × Endpoint.MapEndpoint)
  left : Option (Nat × Endpoint.MapEndpoint)
  right : Option (Nat × Endpoint.MapEndpoint)
  deriving Repr

def createChild (endpoints : Endpoint.Map) (id : Nat) : Option (Nat × Endpoint.MapEndpoint) :=
  (find id endpoints).map fun endpoint => (id, endpoint)

def localRoot (endpoints : Endpoint.Map) (id : Nat) : LocalRoot where
  id := id
  parent := if id / 2 > 1 then createChild endpoints (id / 2) else none
  left := createChild endpoints (id * 2)
  right := createChild endpoints (id * 2 + 1)

-- The search for the node's own endpoint runs off the map when it is not there.
def createLocalRootConnection (endpoints : Endpoint.Map) (own : Endpoint.MapEndpoint) :
    Option LocalRoot := do
  let (id, _) ← endpoints.find? fun node => decide (node.2 = own)
  return localRoot endpoints id

end RemoteTreeManager

end DistributedAvl
