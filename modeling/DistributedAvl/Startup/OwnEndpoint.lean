import DistributedAvl.Startup.Links

namespace DistributedAvl

open OrderedMap

structure AsioEndpoint (A : Type) where
  address : A
  port : BitVec 16

section Resolver

-- An IP address, what the resolver makes of an argument, and how to_string prints an address.
variable {A : Type} (resolve : String → Option A) (print : A → String)

def Endpoint.resolver (endpoint : AsioEndpoint A) : Endpoint.MapEndpoint :=
  Endpoint.make (print endpoint.address) endpoint.port.toNat

-- What a node registers: the text of its first argument.
def Main.init (ip : String) (port : BitVec 16) : InitSystemMessage := ⟨ip, port.toNat⟩

def Main.endpointServer (ip : String) (port : BitVec 16) : Option (AsioEndpoint A) := do
  let address ← resolve ip
  return ⟨address, port⟩

-- The search of createLocalRootConnection for the endpoint the node listens at stops at id.
def StopsAt (endpoints : Endpoint.Map) (endpoint : AsioEndpoint A) (id : Nat) : Prop :=
  ∃ root, RemoteTreeManager.createLocalRootConnection endpoints (Endpoint.resolver print endpoint) =
    some root ∧ root.id = id

variable {resolve} {ip : String} {port : BitVec 16} {endpoint : AsioEndpoint A}

theorem resolver_registered (hserver : Main.endpointServer resolve ip port = some endpoint) :
    (Main.init ip port).endpoint = Endpoint.resolver print endpoint ↔
      print endpoint.address = ip := by
  obtain ⟨address, -, hsome⟩ := Option.bind_eq_some_iff.mp hserver
  cases hsome
  simp [InitSystemMessage.endpoint, Main.init, Endpoint.resolver, Endpoint.make, eq_comm]

theorem stopsAt_iff (endpoints : Endpoint.Map) (endpoint : AsioEndpoint A) (id : Nat) :
    StopsAt print endpoints endpoint id ↔
      ∃ p, endpoints.find? (fun p => decide (p.2 = Endpoint.resolver print endpoint)) = some p ∧
        p.1 = id := by
  simp only [StopsAt, RemoteTreeManager.createLocalRootConnection]
  cases endpoints.find? (fun p => decide (p.2 = Endpoint.resolver print endpoint)) with
  | none => simp
  | some p => simp [RemoteTreeManager.localRoot]

theorem own_endpoint_iff (hserver : Main.endpointServer resolve ip port = some endpoint)
    {endpoints : Endpoint.Map} (hkeys : (endpoints.map Prod.fst).Nodup)
    (hdistinct : (endpoints.map Prod.snd).Nodup) {id : Nat}
    (hown : (id, (Main.init ip port).endpoint) ∈ endpoints) :
    StopsAt print endpoints endpoint id ↔ print endpoint.address = ip := by
  rw [stopsAt_iff, find?_value_iff hkeys hdistinct hown, resolver_registered print hserver]

end Resolver

def dotted (octets : List Nat) : String := String.intercalate "." (octets.map toString)

theorem own_endpoint_iff_numeric :
    StopsAt dotted [(1, ("10.0.0.1", "80")), (2, ("10.0.0.2", "80"))] ⟨[10, 0, 0, 2], 80⟩ 2 ↔
      dotted [10, 0, 0, 2] = "10.0.0.2" := by
  have hserver : Main.endpointServer
      (fun ip => if ip = "10.0.0.2" then some [10, 0, 0, 2] else none) "10.0.0.2" 80 =
        some ⟨[10, 0, 0, 2], 80⟩ := rfl
  exact own_endpoint_iff dotted hserver (by decide) (by decide) (by decide)

-- The groups of an IPv6 address, of which only ::1 is shortened here.
def colons (groups : List Nat) : String :=
  if groups = [0, 0, 0, 0, 0, 0, 0, 1] then "::1"
  else String.intercalate ":" (groups.map fun group => String.ofList (Nat.toDigits 16 group))

-- The root is registered under the text it was started with and looked for as "::1".
theorem own_endpoint_missed : ¬ ∀ (A : Type) (resolve : String → Option A) (print : A → String)
    (ip : String) (port : BitVec 16) (endpoint : AsioEndpoint A) (endpoints : Endpoint.Map)
    (id : Nat), Main.endpointServer resolve ip port = some endpoint →
    (endpoints.map Prod.fst).Nodup → (endpoints.map Prod.snd).Nodup →
    (id, (Main.init ip port).endpoint) ∈ endpoints → StopsAt print endpoints endpoint id := by
  intro hall
  have hstops := hall (List Nat)
    (fun ip => if ip = "0:0:0:0:0:0:0:1" ∨ ip = "::1" then some [0, 0, 0, 0, 0, 0, 0, 1] else none)
    colons "0:0:0:0:0:0:0:1" 80 ⟨[0, 0, 0, 0, 0, 0, 0, 1], 80⟩
    [(1, ("0:0:0:0:0:0:0:1", "80")), (2, ("::1", "81"))] 1 rfl (by decide) (by decide) (by decide)
  rw [stopsAt_iff] at hstops
  obtain ⟨p, hfind, -⟩ := hstops
  have hnone : [(1, ("0:0:0:0:0:0:0:1", "80")), (2, ("::1", "81"))].find? (fun p =>
      decide (p.2 = Endpoint.resolver colons ⟨[0, 0, 0, 0, 0, 0, 0, 1], 80⟩)) = none := by decide
  rw [hnone] at hfind
  cases hfind

end DistributedAvl
