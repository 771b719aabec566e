import DistributedAvl.Startup.Endpoints
import DistributedAvl.Foundation.HeapOrder

namespace DistributedAvl

open OrderedMap HeapOrder

def InitSystemMessage.endpoint (init : InitSystemMessage) : Endpoint.MapEndpoint :=
  Endpoint.make init.ip init.port

namespace InitTreeHandler

structure Collected (this : InitTreeHandler) (inits : List InitSystemMessage) : Prop where
  next : this.ip = 1 + inits.length
  map : this.endpointMap = numbered 1 (inits.map InitSystemMessage.endpoint)
  tree : this.hello.tree = (numbered 1 inits).map fun p => ⟨p.1, p.2.ip, p.2.port⟩

theorem addInitToTree_collected {this : InitTreeHandler} {inits : List InitSystemMessage}
    (h : Collected this inits) (init : InitSystemMessage) :
    Collected (this.addInitToTree init) (inits ++ [init]) where
  next := by simp [addInitToTree, h.next, Nat.add_assoc]
  map := by
    have hsnoc := numbered_snoc (inits.map InitSystemMessage.endpoint) init.endpoint 1
    rw [List.length_map] at hsnoc
    simp only [addInitToTree, h.map, h.next, List.map_append, List.map_cons, List.map_nil]
    exact hsnoc
  tree := by simp [addInitToTree, h.tree, h.next, numbered_append, numbered]

theorem parseAll_collected (inits : List InitSystemMessage) :
    ∀ {this : InitTreeHandler} {past : List InitSystemMessage}, Collected this past →
      Collected (this.parseAll inits) (past ++ inits) := by
  induction inits with
  | nil => intro this past h; simpa [parseAll] using h
  | cons init inits ih =>
      intro this past h
      have hrest := ih (addInitToTree_collected h init)
      simpa [parseAll, parseMessage] using hrest

theorem create_collected (root : InitSystemMessage) (nodeCounter : Nat) :
    Collected (create root nodeCounter) [root] := by
  have hempty : Collected ⟨⟨1, []⟩, 1, nodeCounter, []⟩ [] := ⟨rfl, rfl, rfl⟩
  exact addInitToTree_collected hempty root

theorem collected (root : InitSystemMessage) (nodeCounter : Nat) (inits : List InitSystemMessage) :
    Collected ((create root nodeCounter).parseAll inits) (root :: inits) :=
  parseAll_collected inits (create_collected root nodeCounter)

end InitTreeHandler

open InitTreeHandler

theorem HelloMessageHandler.parseMessage_numbered (id : Nat) (inits : List InitSystemMessage) :
    (create.parseMessage (some ⟨id, (numbered 1 inits).map fun p =>
      ⟨p.1, p.2.ip, p.2.port⟩⟩)).endpointMap =
        numbered 1 (inits.map InitSystemMessage.endpoint) := by
  induction inits using List.reverseRecOn with
  | nil => rfl
  | append_singleton inits init ih =>
      have hsnoc := numbered_snoc (inits.map InitSystemMessage.endpoint) init.endpoint 1
      rw [List.length_map] at hsnoc
      simp only [create, parseMessage] at ih ⊢
      rw [numbered_append, List.map_append, List.foldl_append, ih]
      simpa [numbered, InitSystemMessage.endpoint] using hsnoc

-- The node n connects, for its left or its right side, to the endpoint that the child has in the map.
def LinksTo (endpoints : Endpoint.Map) (own : Nat → Endpoint.MapEndpoint) (n child : Nat) : Prop :=
  n ∈ endpoints.map Prod.fst ∧
    ∃ root endpoint, RemoteTreeManager.createLocalRootConnection endpoints (own n) = some root ∧
      find child endpoints = some endpoint ∧
      (root.left = some (child, endpoint) ∨ root.right = some (child, endpoint))

theorem createChild_endpoint (endpoints : Endpoint.Map) (id child : Nat) :
    (∃ endpoint, find child endpoints = some endpoint ∧
      RemoteTreeManager.createChild endpoints id = some (child, endpoint)) ↔
        (RemoteTreeManager.createChild endpoints id).map Prod.fst = some child := by
  constructor
  · rintro ⟨endpoint, -, hchild⟩
    rw [hchild]
    rfl
  · intro hid
    obtain ⟨link, hlink, rfl⟩ := Option.map_eq_some_iff.mp hid
    obtain ⟨endpoint, hfind, rfl⟩ := Option.map_eq_some_iff.mp hlink
    exact ⟨endpoint, hfind, hlink⟩

theorem createChild_numbered (endpoints : List Endpoint.MapEndpoint) (id child : Nat) :
    (RemoteTreeManager.createChild (numbered 1 endpoints) id).map Prod.fst = some child ↔
      child = id ∧ 1 ≤ id ∧ id ≤ endpoints.length := by
  rw [RemoteTreeManager.createChild, find_numbered]
  by_cases hid : 1 ≤ id
  · rcases Nat.lt_or_ge (id - 1) endpoints.length with hlt | hge
    · simp only [hid, if_true, List.getElem?_eq_getElem hlt, Option.map_some, Option.some.injEq,
        true_and]
      exact ⟨fun h => ⟨h.symm, by omega⟩, fun h => h.1.symm⟩
    · simp only [hid, if_true, List.getElem?_eq_none hge, Option.map_none, reduceCtorEq, false_iff]
      omega
  · simp [hid]

theorem createLocalRootConnection_numbered {endpoints : List Endpoint.MapEndpoint}
    (hnodup : endpoints.Nodup) {own : Nat → Endpoint.MapEndpoint}
    (hown : ∀ p ∈ numbered 1 endpoints, own p.1 = p.2) {n : Nat} (hlow : 1 ≤ n)
    (hhigh : n ≤ endpoints.length) :
    RemoteTreeManager.createLocalRootConnection (numbered 1 endpoints) (own n) =
      some (RemoteTreeManager.localRoot (numbered 1 endpoints) n) := by
  obtain ⟨j, rfl⟩ := Nat.exists_eq_add_of_le hlow
  have hlt : j < endpoints.length := by omega
  have hfind := find?_numbered (i := 1) hnodup (List.getElem?_eq_getElem hlt)
  have hself := hown _ (List.mem_of_find?_eq_some hfind)
  simp only at hself
  simp [RemoteTreeManager.createLocalRootConnection, hself, hfind]

theorem linksTo_iff {endpoints : List Endpoint.MapEndpoint} (hnodup : endpoints.Nodup)
    {own : Nat → Endpoint.MapEndpoint}
    (hown : ∀ p ∈ numbered 1 endpoints, own p.1 = p.2) {n child : Nat} :
    LinksTo (numbered 1 endpoints) own n child ↔ Below endpoints.length n child := by
  rw [below_iff, LinksTo, numbered_keys, List.mem_range'_1]
  by_cases hn : 1 ≤ n ∧ n ≤ endpoints.length
  · rw [createLocalRootConnection_numbered hnodup hown hn.1 hn.2]
    simp only [Option.some.injEq, exists_and_left, exists_eq_left', RemoteTreeManager.localRoot,
      and_or_left, exists_or, createChild_endpoint, createChild_numbered]
    omega
  · constructor
    · rintro ⟨hmem, -⟩
      omega
    · rintro ⟨hchild, hlow, hside⟩
      omega

theorem startup_tree (root : InitSystemMessage) (nodeCounter : Nat)
    (inits : List InitSystemMessage) :
    let handler := (create root nodeCounter).parseAll inits
    (HelloMessageHandler.create.parseMessage (some handler.hello)).endpointMap =
        handler.endpointMap ∧
      handler.endpointMap.map Prod.fst = List.range' 1 (inits.length + 1) ∧
      ((handler.endpointMap.map Prod.snd).Nodup → ∀ own : Nat → Endpoint.MapEndpoint,
        (∀ p ∈ handler.endpointMap, own p.1 = p.2) →
        (∀ child, 2 ≤ child → child ≤ inits.length + 1 →
          ∃! n, LinksTo handler.endpointMap own n child) ∧
        (∀ n, ¬ LinksTo handler.endpointMap own n 1) ∧
        ∀ n, 1 ≤ n → n ≤ inits.length + 1 →
          Relation.ReflTransGen (LinksTo handler.endpointMap own) 1 n) := by
  intro handler
  have hcollected : Collected handler (root :: inits) := collected root nodeCounter inits
  have hmap := hcollected.map
  have hlength : ((root :: inits).map InitSystemMessage.endpoint).length = inits.length + 1 := by
    simp
  refine ⟨?_, ?_, ?_⟩
  · rw [hmap, ← HelloMessageHandler.parseMessage_numbered handler.hello.id, ← hcollected.tree]
  · rw [hmap, numbered_keys, hlength]
  · rw [hmap, numbered_values]
    intro hnodup own hown
    have hlinks : LinksTo (numbered 1 ((root :: inits).map InitSystemMessage.endpoint)) own =
        Below (inits.length + 1) := by
      funext n child
      rw [← hlength, linksTo_iff hnodup hown]
    rw [hlinks]
    exact ⟨fun child hlow hhigh => below_unique hlow hhigh, fun n h => absurd h.1 (by decide),
      reached⟩

theorem startup_tree_three :
    (∀ child, 2 ≤ child → child ≤ 3 → ∃! n, LinksTo [(1, ("a", "1")), (2, ("b", "2")),
        (3, ("c", "3"))] (fun n => [("a", "1"), ("b", "2"), ("c", "3")].getD (n - 1) ("", "")) n
        child) ∧
      (∀ n, ¬ LinksTo [(1, ("a", "1")), (2, ("b", "2")), (3, ("c", "3"))]
        (fun n => [("a", "1"), ("b", "2"), ("c", "3")].getD (n - 1) ("", "")) n 1) ∧
      ∀ n, 1 ≤ n → n ≤ 3 → Relation.ReflTransGen (LinksTo [(1, ("a", "1")), (2, ("b", "2")),
        (3, ("c", "3"))]
          (fun n => [("a", "1"), ("b", "2"), ("c", "3")].getD (n - 1) ("", ""))) 1 n :=
  (startup_tree ⟨"a", 1⟩ 3 [⟨"b", 2⟩, ⟨"c", 3⟩]).2.2 (by decide) _ (by decide)

end DistributedAvl
