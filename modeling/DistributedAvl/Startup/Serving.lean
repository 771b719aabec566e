import DistributedAvl.Startup.Roles

namespace DistributedAvl

open OrderedMap

namespace Server

-- early is the connections a node has accepted before its Hello, posted those it has accepted since
-- and whose readMessage it has posted on its strand.
structure Serving where
  server : State
  early : Nat → List Nat
  posted : Nat → List Nat

def Serving.start (endpoints : Endpoint.Map) : Serving :=
  ⟨Server.start endpoints, fun _ => [], fun _ => []⟩

def Serving.accept (s : Serving) (n opener : Nat) : Serving :=
  if (s.server.peers n).helloReady then
    { s with posted := fun k => if k = n then s.posted n ++ [opener] else s.posted k }
  else { s with early := fun k => if k = n then s.early n ++ [opener] else s.early k }

-- The acceptor hands out connections in the order in which they have come.
def Serving.step (endpoints : Endpoint.Map) (s : Serving) : Event → Option Serving
  | .accept n opener =>
      if (s.server.peers n).waiting.head? = some opener then do
        return { s.accept n opener with server := ← Server.step endpoints s.server (.accept n opener) }
      else none
  | event => do return { s with server := ← Server.step endpoints s.server event }

-- The words go to the root, and the node above is answered: the first read on the strand never ends,
-- as each message is answered and the next one read over root_connection_.
def Works (s : Serving) (n : Nat) : Prop :=
  (s.server.peers n).sender = some 1 ∧ (s.posted n).head? = some (n / 2) ∧
    (s.server.peers n).rootConnection = some (n / 2)

-- All connections that have ever been opened to a node.
def Serving.links (s : Serving) (n : Nat) : List Nat :=
  s.early n ++ s.posted n ++ (s.server.peers n).waiting

def Serving.ready (s : Serving) (n : Nat) : Bool := (s.server.peers n).helloReady

section Numbered

variable {endpoints : List Endpoint.MapEndpoint} {s s' : Serving} {n m k opener : Nat}

inductive Accepts (s s' : Serving) (n opener : Nat) (rest : List Nat) : Prop where
  | early (ready : s.ready n = false)
      (peer : s'.server.peers n = { s.server.peers n with waiting := rest, sender := some opener })
      (early : s'.early n = s.early n ++ [opener]) (posted : s'.posted n = s.posted n)
  | posted (ready : s.ready n = true)
      (peer : s'.server.peers n =
        { s.server.peers n with waiting := rest, rootConnection := some opener })
      (early : s'.early n = s.early n) (posted : s'.posted n = s.posted n ++ [opener])

theorem accept_cases (h : s.step (numbered 1 endpoints) (.accept n opener) = some s') :
    n ∈ joiners (numbered 1 endpoints) ∧
      (∃ rest, (s.server.peers n).waiting = opener :: rest ∧ Accepts s s' n opener rest) ∧
      s'.server.dummiesAnswered = s.server.dummiesAnswered ∧
      ∀ k, k ≠ n → s'.server.peers k = s.server.peers k ∧ s'.early k = s.early k ∧
        s'.posted k = s.posted k := by
  obtain ⟨hhead, h⟩ := Option.ite_none_right_eq_some.mp h
  obtain ⟨server, hserver, heq⟩ := Option.bind_eq_some_iff.mp h
  cases heq
  obtain ⟨⟨hn, -⟩, ⟨⟩⟩ := Option.ite_none_right_eq_some.mp hserver
  obtain ⟨rest, hwaiting⟩ := List.head?_eq_some_iff.mp hhead
  refine ⟨hn, ⟨rest, hwaiting, ?_⟩, rfl, fun k hk => ⟨if_neg hk, ?_, ?_⟩⟩
  · cases hready : (s.server.peers n).helloReady with
    | false =>
        refine .early hready ?_ ?_ ?_ <;>
          simp [Serving.accept, State.update, handleAccept, hready, hwaiting]
    | true =>
        refine .posted hready ?_ ?_ ?_ <;>
          simp [Serving.accept, State.update, handleAccept, hready, hwaiting]
  · rw [Serving.accept]
    split
    · rfl
    · exact if_neg hk
  · rw [Serving.accept]
    split
    · exact if_neg hk
    · rfl

structure Unaccepted (s s' : Serving) : Prop where
  early : s'.early = s.early
  posted : s'.posted = s.posted
  sender : ∀ k, (s'.server.peers k).sender = (s.server.peers k).sender
  rootConnection : ∀ k, (s'.server.peers k).rootConnection = (s.server.peers k).rootConnection

theorem connect_waiting (s : State) (targets : List Nat) :
    ((s.connect n targets).peers k).waiting =
      (s.peers k).waiting ++ if k ∈ targets then [n] else [] := by
  simp only [State.connect]
  split <;> simp

theorem hello_cases (h : s.step (numbered 1 endpoints) (.hello n) = some s') :
    Unaccepted s s' ∧ n ∈ joiners (numbered 1 endpoints) ∧ s.ready n = false ∧
      1 ∉ (s.server.peers n).waiting ∧
      (∀ k, s'.ready k = (decide (k = n) || s.ready k)) ∧
      (∀ k, (s'.server.peers k).dummySent = (s.server.peers k).dummySent) ∧
      s'.server.dummiesAnswered = s.server.dummiesAnswered ∧
      ∀ k, s'.links k = s.links k ++ if k ∈ opened (numbered 1 endpoints) n then [n] else [] := by
  obtain ⟨server, hserver, heq⟩ := Option.bind_eq_some_iff.mp h
  cases heq
  obtain ⟨⟨hn, hready, hroot⟩, ⟨⟩⟩ := Option.ite_none_right_eq_some.mp hserver
  have hpeer : ∀ k, (s.server.update n { s.server.peers n with helloReady := true }).peers k =
      { s.server.peers k with helloReady := decide (k = n) || s.ready k } := by
    intro k
    simp only [State.update, Serving.ready]
    split
    · rename_i hk
      simp [hk]
    · rename_i hk
      simp [hk]
  have hconnect : ∀ k, ∃ waiting, ((s.server.update n { s.server.peers n with
      helloReady := true }).connect n (opened (numbered 1 endpoints) n)).peers k =
        { s.server.peers k with helloReady := decide (k = n) || s.ready k, waiting := waiting } := by
    intro k
    simp only [State.connect]
    split
    · exact ⟨_, by rw [hpeer]⟩
    · exact ⟨_, hpeer k⟩
  refine ⟨⟨rfl, rfl, fun k => ?_, fun k => ?_⟩, hn, by simpa [Serving.ready] using hready, hroot,
    fun k => ?_, fun k => ?_, rfl, fun k => ?_⟩
  · obtain ⟨waiting, hk⟩ := hconnect k
    simp [hk]
  · obtain ⟨waiting, hk⟩ := hconnect k
    simp [hk]
  · obtain ⟨waiting, hk⟩ := hconnect k
    simp [Serving.ready, hk]
  · obtain ⟨waiting, hk⟩ := hconnect k
    simp [hk]
  · simp only [Serving.links, connect_waiting, hpeer, List.append_assoc]

theorem dummy_cases (h : s.step (numbered 1 endpoints) (.dummy n) = some s') :
    Unaccepted s s' ∧ s.ready n = true ∧ s'.ready = s.ready ∧
      (∀ k, (s'.server.peers k).dummySent = (decide (k = n) || (s.server.peers k).dummySent)) ∧
      s'.server.dummiesAnswered = s.server.dummiesAnswered ∧ s'.links = s.links := by
  obtain ⟨server, hserver, heq⟩ := Option.bind_eq_some_iff.mp h
  cases heq
  obtain ⟨⟨hn, hready, -⟩, ⟨⟩⟩ := Option.ite_none_right_eq_some.mp hserver
  have hpeer : ∀ k, (s.server.update n { s.server.peers n with dummySent := true }).peers k =
      { s.server.peers k with
        dummySent := decide (k = n) || (s.server.peers k).dummySent } := by
    intro k
    simp only [State.update]
    split
    · rename_i hk
      simp [hk]
    · rename_i hk
      simp [hk]
  exact ⟨⟨rfl, rfl, fun k => by rw [hpeer], fun k => by rw [hpeer]⟩, hready,
    funext fun k => by simp only [Serving.ready, hpeer], fun k => by rw [hpeer], rfl,
    funext fun k => by simp only [Serving.links, hpeer]⟩

theorem resend_cases (h : s.step (numbered 1 endpoints) .resendDummy = some s') :
    Unaccepted s s' ∧ s.server.dummiesAnswered = false ∧
      (∀ k ∈ joiners (numbered 1 endpoints), (s.server.peers k).dummySent = true) ∧
      s'.ready = s.ready ∧
      (∀ k, (s'.server.peers k).dummySent = (s.server.peers k).dummySent) ∧
      s'.server.dummiesAnswered = true ∧
      ∀ k, s'.links k = s.links k ++ if k ∈ opened (numbered 1 endpoints) 1 then [1] else [] := by
  obtain ⟨server, hserver, heq⟩ := Option.bind_eq_some_iff.mp h
  cases heq
  obtain ⟨⟨hanswered, hsent⟩, ⟨⟩⟩ := Option.ite_none_right_eq_some.mp hserver
  have hconnect : ∀ k, ∃ waiting, (State.connect { s.server with dummiesAnswered := true } 1
      (opened (numbered 1 endpoints) 1)).peers k =
        { s.server.peers k with waiting := waiting } := by
    intro k
    simp only [State.connect]
    split
    · exact ⟨_, rfl⟩
    · exact ⟨_, rfl⟩
  refine ⟨⟨rfl, rfl, fun k => ?_, fun k => ?_⟩, by simpa using hanswered, hsent,
    funext fun k => ?_, fun k => ?_, rfl, fun k => ?_⟩
  · obtain ⟨waiting, hk⟩ := hconnect k
    simp [hk]
  · obtain ⟨waiting, hk⟩ := hconnect k
    simp [hk]
  · obtain ⟨waiting, hk⟩ := hconnect k
    simp [Serving.ready, hk]
  · obtain ⟨waiting, hk⟩ := hconnect k
    simp [hk]
  · simp only [Serving.links, connect_waiting, List.append_assoc]

theorem accept_ready (h : s.step (numbered 1 endpoints) (.accept n opener) = some s') (k : Nat) :
    s'.ready k = s.ready k ∧
      (s'.server.peers k).dummySent = (s.server.peers k).dummySent := by
  obtain ⟨-, ⟨rest, -, haccepts⟩, -, hother⟩ := accept_cases h
  by_cases hk : k = n
  · subst hk
    cases haccepts with
    | early hready hpeer _ _ => simp [Serving.ready, hpeer]
    | posted hready hpeer _ _ => simp [Serving.ready, hpeer]
  · simp [Serving.ready, (hother k hk).1]

structure Routed (s : Serving) (n : Nat) : Prop where
  sender : (s.server.peers n).sender = (s.early n).getLast?
  rootConnection : (s.server.peers n).rootConnection = (s.posted n).getLast?
  posted : s.ready n = false → s.posted n = []

theorem unaccepted_routed (hs : Routed s n) (h : Unaccepted s s')
    (hready : s.ready n = true → s'.ready n = true) : Routed s' n where
  sender := by rw [h.sender, h.early, hs.sender]
  rootConnection := by rw [h.rootConnection, h.posted, hs.rootConnection]
  posted := by
    intro hnot
    rw [h.posted]
    refine hs.posted (Bool.eq_false_iff.mpr fun hyes => ?_)
    exact absurd (hready hyes) (by simp [hnot])

theorem step_routed {event : Event} (hs : ∀ n, Routed s n)
    (h : s.step (numbered 1 endpoints) event = some s') (n : Nat) : Routed s' n := by
  cases event with
  | accept k opener =>
      obtain ⟨-, ⟨rest, -, haccepts⟩, -, hother⟩ := accept_cases h
      by_cases hn : n = k
      · subst hn
        cases haccepts with
        | early hready hpeer hearly hposted =>
            refine ⟨by simp [hpeer, hearly], ?_, fun _ => ?_⟩
            · rw [hpeer, hposted]
              exact (hs n).rootConnection
            · rw [hposted, (hs n).posted hready]
        | posted hready hpeer hearly hposted =>
            refine ⟨?_, by simp [hpeer, hposted], fun hnot => ?_⟩
            · rw [hpeer, hearly]
              exact (hs n).sender
            · rw [(accept_ready h n).1, hready] at hnot
              cases hnot
      · obtain ⟨hpeer, hearly, hposted⟩ := hother n hn
        have hn := hs n
        refine ⟨by rw [hpeer, hearly, hn.sender], by rw [hpeer, hposted, hn.rootConnection],
          fun hnot => ?_⟩
        rw [hposted]
        exact hn.posted (by rw [← hnot, Serving.ready, Serving.ready, hpeer])
  | hello k =>
      obtain ⟨hsame, -, -, -, hready, -⟩ := hello_cases h
      exact unaccepted_routed (hs n) hsame fun hyes => by simp [hready, hyes]
  | dummy k =>
      obtain ⟨hsame, -, hready, -⟩ := dummy_cases h
      exact unaccepted_routed (hs n) hsame fun hyes => by rw [hready, hyes]
  | resendDummy =>
      obtain ⟨hsame, -, -, hready, -⟩ := resend_cases h
      exact unaccepted_routed (hs n) hsame fun hyes => by rw [hready, hyes]

theorem accept_links (hs : Routed s n)
    (h : s.step (numbered 1 endpoints) (.accept n opener) = some s') : s'.links = s.links := by
  obtain ⟨-, ⟨rest, hwaiting, haccepts⟩, -, hother⟩ := accept_cases h
  funext k
  by_cases hk : k = n
  · subst hk
    cases haccepts with
    | early hready hpeer hearly hposted =>
        simp [Serving.links, hpeer, hearly, hposted, hwaiting, hs.posted hready]
    | posted hready hpeer hearly hposted =>
        simp [Serving.links, hpeer, hearly, hposted, hwaiting]
  · obtain ⟨hpeer, hearly, hposted⟩ := hother k hk
    simp [Serving.links, hpeer, hearly, hposted]

-- The root opens one connection to every other node first and, after the last Dummy, a second one to
-- those below it; every other node opens one to each of its neighbours after its Hello.
structure Opened (endpoints : List Endpoint.MapEndpoint) (s : Serving) : Prop where
  sent : ∀ n, (s.server.peers n).dummySent = true → s.ready n = true
  answered : s.server.dummiesAnswered = true →
    ∀ n ∈ joiners (numbered 1 endpoints), s.ready n = true
  first : ∀ n ∈ joiners (numbered 1 endpoints), (s.links n).head? = some 1
  root : ∀ n ∈ joiners (numbered 1 endpoints),
    (s.links n).count 1 = if s.server.dummiesAnswered = true ∧ n ≤ 3 then 2 else 1
  once : ∀ n m, m ≠ 1 → (s.links n).count m ≤ if s.ready m = true then 1 else 0
  joined : ∀ n m, s.ready m = true → m ≠ 1 → n ∈ opened (numbered 1 endpoints) m → m ∈ s.links n
  near : ∀ n, ∀ m ∈ s.links n, m = 1 ∨ m ≤ endpoints.length ∧ (m = n / 2 ∨ m / 2 = n)

theorem start_opened : Opened endpoints (Serving.start (numbered 1 endpoints)) where
  sent := by
    intro n hsent
    cases hsent
  answered := by
    intro hanswered
    cases hanswered
  first := by
    intro n hn
    simp [Serving.start, Serving.links, start, hn]
  root := by
    intro n hn
    simp [Serving.start, Serving.links, start, hn]
  once := by
    intro n m hm
    simp only [Serving.start, Serving.links, start, List.nil_append]
    split
    · simp [Ne.symm hm]
    · simp
  joined := by
    intro n m hready
    cases hready
  near := by
    intro n m hm
    simp only [Serving.start, Serving.links, start, List.nil_append] at hm
    split at hm
    · exact Or.inl (List.mem_singleton.mp hm)
    · cases hm

theorem mem_opened_one : n ∈ opened (numbered 1 endpoints) 1 ↔
    n ∈ joiners (numbered 1 endpoints) ∧ n ≤ 3 := by
  rw [mem_opened, mem_joiners]
  omega

theorem hello_opened (hs : Opened endpoints s)
    (h : s.step (numbered 1 endpoints) (.hello n) = some s') : Opened endpoints s' := by
  obtain ⟨-, hn, hnot, -, hready, hsent, hanswered, hlinks⟩ := hello_cases h
  have hkept : ∀ k, s.ready k = true → s'.ready k = true := fun k hk => by simp [hready, hk]
  have hsize := mem_joiners.mp hn
  refine ⟨fun k hk => ?_, fun ha k hk => ?_, fun k hk => ?_, fun k hk => ?_, fun k m hm => ?_,
    fun k m hm hne ho => ?_, fun k m hm => ?_⟩
  · exact hkept k (hs.sent k (by rwa [hsent] at hk))
  · exact hkept k (hs.answered (hanswered ▸ ha) k hk)
  · rw [hlinks, List.head?_append, hs.first k hk]
    rfl
  · have hone : List.count 1 (if k ∈ opened (numbered 1 endpoints) n then [n] else []) = 0 := by
      split
      · simp [show n ≠ 1 by omega]
      · rfl
    rw [hlinks, List.count_append, hs.root k hk, hanswered, hone, Nat.add_zero]
  · have hle := hs.once k m hm
    rw [hlinks, List.count_append]
    by_cases hmn : m = n
    · subst hmn
      have hone : List.count m (if k ∈ opened (numbered 1 endpoints) m then [m] else []) ≤ 1 := by
        split <;> simp
      rw [hnot] at hle
      simp only [hready, decide_true, Bool.true_or, if_true]
      simp only [Bool.false_eq_true, if_false] at hle
      omega
    · have hzero : List.count m (if k ∈ opened (numbered 1 endpoints) n then [n] else []) = 0 := by
        split
        · simp [Ne.symm hmn]
        · rfl
      rw [hzero, hready]
      simpa [hmn] using hle
  · rw [hlinks]
    by_cases hmn : m = n
    · subst hmn
      simp [ho]
    · rw [hready] at hm
      have hold := hs.joined k m (by simpa [hmn] using hm) hne ho
      exact List.mem_append_left _ hold
  · rw [hlinks] at hm
    rcases List.mem_append.mp hm with hm | hm
    · exact hs.near k m hm
    · split at hm
      · rename_i hk
        obtain rfl := List.mem_singleton.mp hm
        have := mem_opened.mp hk
        omega
      · cases hm

theorem resend_opened (hs : Opened endpoints s)
    (h : s.step (numbered 1 endpoints) .resendDummy = some s') : Opened endpoints s' := by
  obtain ⟨-, hnot, hdummies, hready, hsent, hanswered, hlinks⟩ := resend_cases h
  refine ⟨fun k hk => ?_, fun _ k hk => ?_, fun k hk => ?_, fun k hk => ?_, fun k m hm => ?_,
    fun k m hm hne ho => ?_, fun k m hm => ?_⟩
  · rw [hsent] at hk
    rw [hready]
    exact hs.sent k hk
  · rw [hready]
    exact hs.sent k (hdummies k hk)
  · rw [hlinks, List.head?_append, hs.first k hk]
    rfl
  · have hold := hs.root k hk
    rw [hnot] at hold
    rw [hlinks, List.count_append, hanswered]
    simp only [mem_opened_one, hk, true_and]
    split
    · simpa using hold
    · simpa using hold
  · have hzero : List.count m (if k ∈ opened (numbered 1 endpoints) 1 then [1] else []) = 0 := by
      split
      · simp [Ne.symm hm]
      · rfl
    rw [hlinks, List.count_append, hzero, hready, Nat.add_zero]
    exact hs.once k m hm
  · rw [hlinks]
    rw [hready] at hm
    exact List.mem_append_left _ (hs.joined k m hm hne ho)
  · rw [hlinks] at hm
    rcases List.mem_append.mp hm with hm | hm
    · exact hs.near k m hm
    · split at hm
      · exact Or.inl (List.mem_singleton.mp hm)
      · cases hm

theorem step_opened {event : Event} (hrouted : ∀ n, Routed s n) (hs : Opened endpoints s)
    (h : s.step (numbered 1 endpoints) event = some s') : Opened endpoints s' := by
  cases event with
  | accept n opener =>
      have hlinks := accept_links (hrouted n) h
      have hready : s'.ready = s.ready := funext fun k => (accept_ready h k).1
      have hsent := fun k => (accept_ready h k).2
      obtain ⟨-, -, hanswered, -⟩ := accept_cases h
      refine ⟨fun k => ?_, ?_, ?_, ?_, ?_, ?_, ?_⟩
      · rw [hsent, hready]
        exact hs.sent k
      all_goals simp only [hlinks, hready, hanswered]
      · exact hs.answered
      · exact hs.first
      · exact hs.root
      · exact hs.once
      · exact hs.joined
      · exact hs.near
  | hello n => exact hello_opened hs h
  | dummy n =>
      obtain ⟨-, hn, hready, hsent, hanswered, hlinks⟩ := dummy_cases h
      refine ⟨fun k hk => ?_, ?_, ?_, ?_, ?_, ?_, ?_⟩
      · rw [hready]
        rw [hsent, Bool.or_eq_true, decide_eq_true_eq] at hk
        rcases hk with rfl | hk
        · exact hn
        · exact hs.sent k hk
      all_goals simp only [hlinks, hready, hanswered]
      · exact hs.answered
      · exact hs.first
      · exact hs.root
      · exact hs.once
      · exact hs.joined
      · exact hs.near
  | resendDummy => exact resend_opened hs h

structure Greeted (s : Serving) (n : Nat) : Prop where
  early : s.ready n = true → s.early n ≠ []
  alone : (s.early n).count 1 ≤ 1

theorem unaccepted_greeted (hs : Greeted s n) (h : Unaccepted s s')
    (hready : s'.ready n = true → s.ready n = true ∨ s.early n ≠ []) : Greeted s' n where
  early := by
    intro hyes
    rw [h.early]
    exact (hready hyes).elim hs.early id
  alone := by
    rw [h.early]
    exact hs.alone

theorem step_greeted {event : Event} (hrouted : ∀ n, Routed s n) (hopened : Opened endpoints s)
    (hs : ∀ n ∈ joiners (numbered 1 endpoints), Greeted s n)
    (h : s.step (numbered 1 endpoints) event = some s') :
    ∀ n ∈ joiners (numbered 1 endpoints), Greeted s' n := by
  intro n hn
  cases event with
  | accept k opener =>
      have hlinks := accept_links (hrouted k) h
      have hsame := accept_ready h
      obtain ⟨-, ⟨rest, -, haccepts⟩, -, hother⟩ := accept_cases h
      by_cases hnk : n = k
      · subst hnk
        cases haccepts with
        | posted hready hpeer hearly hposted =>
            exact ⟨fun _ => hearly ▸ (hs n hn).early hready, hearly ▸ (hs n hn).alone⟩
        | early hready hpeer hearly hposted =>
            refine ⟨fun hyes => ?_, ?_⟩
            · rw [(hsame n).1, hready] at hyes
              cases hyes
            · -- the root has not answered the Dummies yet, so it has one connection here
              have hone := hopened.root n hn
              have hnot : s.server.dummiesAnswered ≠ true := fun ha => by
                have := hopened.answered ha n hn
                rw [hready] at this
                cases this
              rw [if_neg (fun ha => hnot ha.1), ← hlinks, Serving.links, List.count_append,
                List.count_append] at hone
              omega
      · obtain ⟨hpeer, hearly, -⟩ := hother n hnk
        refine ⟨fun hyes => ?_, hearly ▸ (hs n hn).alone⟩
        rw [(hsame n).1] at hyes
        exact hearly ▸ (hs n hn).early hyes
  | hello k =>
      obtain ⟨hsame, hk, hnot, hone, hready, -⟩ := hello_cases h
      refine unaccepted_greeted (hs n hn) hsame fun hyes => ?_
      rw [hready, Bool.or_eq_true, decide_eq_true_eq] at hyes
      rcases hyes with rfl | hyes
      · refine Or.inr fun hnil => hone ?_
        have hfirst := hopened.first n hn
        rw [Serving.links, hnil, (hrouted n).posted hnot, List.nil_append, List.nil_append] at hfirst
        exact List.mem_of_mem_head? hfirst
      · exact Or.inl hyes
  | dummy k =>
      obtain ⟨hsame, -, hready, -⟩ := dummy_cases h
      exact unaccepted_greeted (hs n hn) hsame fun hyes => Or.inl (by rwa [hready] at hyes)
  | resendDummy =>
      obtain ⟨hsame, -, -, hready, -⟩ := resend_cases h
      exact unaccepted_greeted (hs n hn) hsame fun hyes => Or.inl (by rwa [hready] at hyes)

structure Started (endpoints : List Endpoint.MapEndpoint) (s : Serving) : Prop where
  routed : ∀ n, Routed s n
  opened : Opened endpoints s
  greeted : ∀ n ∈ joiners (numbered 1 endpoints), Greeted s n

theorem run_started {events : List Event}
    (hrun : Runs.run (Serving.step (numbered 1 endpoints)) (Serving.start (numbered 1 endpoints))
      events = some s) : Started endpoints s := by
  refine Runs.run_invariant (fun s event s' hs h => ?_) events _ s ?_ hrun
  · exact ⟨step_routed hs.routed h, step_opened hs.routed hs.opened h,
      step_greeted hs.routed hs.opened hs.greeted h⟩
  · exact ⟨fun n => ⟨rfl, rfl, fun _ => rfl⟩, start_opened,
      fun n _ => ⟨fun hready => (nomatch hready), Nat.zero_le _⟩⟩

theorem stuck_complete
    (hstuck : ∀ event, s.step (numbered 1 endpoints) event = none) :
    s.server.dummiesAnswered = true ∧ ∀ n ∈ joiners (numbered 1 endpoints),
      s.ready n = true ∧ s.links n = s.early n ++ s.posted n := by
  have hwaiting : ∀ n ∈ joiners (numbered 1 endpoints), (s.server.peers n).waiting = [] := by
    intro n hn
    cases hw : (s.server.peers n).waiting with
    | nil => rfl
    | cons opener rest =>
        have hnone := hstuck (.accept n opener)
        simp [Serving.step, hw, step, hn] at hnone
  have hready : ∀ n ∈ joiners (numbered 1 endpoints), s.ready n = true := by
    intro n hn
    by_contra hnot
    have hnone := hstuck (.hello n)
    simp only [Serving.ready, Bool.not_eq_true] at hnot
    simp [Serving.step, step, hn, hnot, hwaiting n hn] at hnone
  have hsent : ∀ n ∈ joiners (numbered 1 endpoints), (s.server.peers n).dummySent = true := by
    intro n hn
    by_contra hnot
    have hnone := hstuck (.dummy n)
    have hyes : (s.server.peers n).helloReady = true := hready n hn
    simp only [Bool.not_eq_true] at hnot
    simp [Serving.step, step, hn, hyes, hnot] at hnone
  refine ⟨?_, fun n hn => ⟨hready n hn, by simp [Serving.links, hwaiting n hn]⟩⟩
  by_contra hnot
  have hnone := hstuck .resendDummy
  simp only [Bool.not_eq_true] at hnot
  simp [Serving.step, step, hnot] at hnone
  obtain ⟨n, hn, hunsent⟩ := hnone
  rw [hsent n hn] at hunsent
  cases hunsent

theorem two_of_ends {xs : List Nat} {a b : Nat} (hhead : xs.head? = some a)
    (hlast : xs.getLast? = some a) (hb : b ∈ xs) (hne : b ≠ a) : 2 ≤ xs.count a := by
  obtain ⟨rest, rfl⟩ := List.head?_eq_some_iff.mp hhead
  have hmem : b ∈ rest := (List.mem_cons.mp hb).resolve_left hne
  have hend : a ∈ rest := by
    cases rest with
    | nil => cases hmem
    | cons c rest =>
        rw [List.getLast?_cons_cons] at hlast
        exact List.mem_of_getLast? hlast
  have := List.count_pos_iff.mpr hend
  rw [List.count_cons_self]
  omega

theorem early_first (hs : Started endpoints s) (hn : n ∈ joiners (numbered 1 endpoints))
    (hready : s.ready n = true) : (s.early n).head? = some 1 := by
  have hfirst := hs.opened.first n hn
  rw [Serving.links, List.append_assoc] at hfirst
  rwa [List.head?_append_of_ne_nil _ ((hs.greeted n hn).early hready)] at hfirst

theorem above_fails (hs : Started endpoints s)
    (hstuck : ∀ event, s.step (numbered 1 endpoints) event = none) (hn : 2 ≤ n)
    (hbelow : n * 2 ≤ endpoints.length) : ¬ Works s n := by
  rintro ⟨hsender, hposted, hroot⟩
  have hjoiner : n ∈ joiners (numbered 1 endpoints) := mem_joiners.mpr ⟨hn, by omega⟩
  have hchild : n * 2 ∈ joiners (numbered 1 endpoints) := mem_joiners.mpr ⟨by omega, hbelow⟩
  obtain ⟨hanswered, hcomplete⟩ := stuck_complete hstuck
  obtain ⟨hready, hlinks⟩ := hcomplete n hjoiner
  have hmem : n * 2 ∈ s.links n := by
    refine hs.opened.joined n (n * 2) (hcomplete _ hchild).1 (by omega) (mem_opened.mpr ?_)
    omega
  have hfirst := early_first hs hjoiner hready
  have halone := (hs.greeted n hjoiner).alone
  rw [(hs.routed n).sender] at hsender
  rw [(hs.routed n).rootConnection] at hroot
  rw [hlinks] at hmem
  rcases List.mem_append.mp hmem with hmem | hmem
  · have := two_of_ends hfirst hsender hmem (by omega)
    omega
  · have htwice := two_of_ends hposted hroot hmem (by omega)
    by_cases hone : n / 2 = 1
    · have hcount := hs.opened.root n hjoiner
      have hroot := List.count_pos_iff.mpr (List.mem_of_mem_head? hfirst)
      rw [hlinks, List.count_append] at hcount
      rw [hone] at htwice
      split at hcount <;> omega
    · have hcount := hs.opened.once n (n / 2) hone
      rw [hlinks, List.count_append] at hcount
      split at hcount <;> omega

theorem eq_singleton {xs : List Nat} {a : Nat} (hall : ∀ x ∈ xs, x = a) (hcount : xs.count a = 1) :
    xs = [a] := by
  have hlength := List.count_eq_length.mpr fun x hx => (hall x hx).symm
  obtain ⟨x, rfl⟩ := List.length_eq_one_iff.mp (hlength.symm.trans hcount)
  rw [hall x (by simp)]

theorem small_works (hs : Started endpoints s)
    (hstuck : ∀ event, s.step (numbered 1 endpoints) event = none)
    (hsmall : endpoints.length ≤ 3) (hn : n ∈ joiners (numbered 1 endpoints)) : Works s n := by
  have hsize := mem_joiners.mp hn
  obtain ⟨hanswered, hcomplete⟩ := stuck_complete hstuck
  obtain ⟨hready, hlinks⟩ := hcomplete n hn
  have hall : ∀ m ∈ s.early n ++ s.posted n, m = 1 := by
    intro m hm
    have := hs.opened.near n m (hlinks ▸ hm)
    omega
  have hcount := hs.opened.root n hn
  have hfirst := early_first hs hn hready
  have halone := (hs.greeted n hn).alone
  have hpos := List.count_pos_iff.mpr (List.mem_of_mem_head? hfirst)
  rw [hlinks, List.count_append, if_pos ⟨hanswered, by omega⟩] at hcount
  have hearly := eq_singleton (fun m hm => hall m (List.mem_append_left _ hm)) (by omega)
  have hposted := eq_singleton (fun m hm => hall m (List.mem_append_right _ hm)) (by omega)
  have hhalf : n / 2 = 1 := by omega
  exact ⟨by rw [(hs.routed n).sender, hearly]; rfl, by rw [hposted, hhalf]; rfl,
    by rw [(hs.routed n).rootConnection, hposted, hhalf]; rfl⟩

end Numbered

theorem startup_works_iff (root : InitSystemMessage) (nodeCounter : Nat)
    (inits : List InitSystemMessage) :
    let endpoints := ((InitTreeHandler.create root nodeCounter).parseAll inits).endpointMap
    ∀ events s, Runs.run (Serving.step endpoints) (Serving.start endpoints) events = some s →
      (∀ event, s.step endpoints event = none) →
        (∀ n, 2 ≤ n → n * 2 ≤ inits.length + 1 → ¬ Works s n) ∧
          ((∀ n ∈ joiners endpoints, Works s n) ↔ inits.length + 1 ≤ 3) := by
  intro endpoints events s hrun hstuck
  have hmap : endpoints = numbered 1 ((root :: inits).map InitSystemMessage.endpoint) :=
    (InitTreeHandler.collected root nodeCounter inits).map
  have hlength : ((root :: inits).map InitSystemMessage.endpoint).length = inits.length + 1 := by
    simp
  rw [hmap] at hrun hstuck ⊢
  rw [← hlength]
  have hs := run_started hrun
  refine ⟨fun n hn hbelow => above_fails hs hstuck hn hbelow, ?_⟩
  constructor
  · intro hworks
    by_contra hlarge
    refine above_fails hs hstuck (le_refl 2) (by omega) (hworks 2 (mem_joiners.mpr ?_))
    omega
  · intro hsmall n hn
    exact small_works hs hstuck hsmall hn

def pair : Endpoint.Map :=
  ((InitTreeHandler.create ⟨"a", 1⟩ 2).parseAll [⟨"b", 2⟩]).endpointMap

theorem startup_works_pair : ∃ s,
    Runs.run (Serving.step pair) (Serving.start pair)
      [.accept 2 1, .hello 2, .dummy 2, .resendDummy, .accept 2 1] = some s ∧
    (∀ event, s.step pair event = none) ∧
    (∀ n, 2 ≤ n → n * 2 ≤ 2 → ¬ Works s n) ∧ ((∀ n ∈ joiners pair, Works s n) ↔ 2 ≤ 3) := by
  obtain ⟨s, hrun, hstuck⟩ : ∃ s,
      Runs.run (Serving.step pair) (Serving.start pair)
        [.accept 2 1, .hello 2, .dummy 2, .resendDummy, .accept 2 1] = some s ∧
      ∀ event, s.step pair event = none := by
    have hjoiner : ∀ n, n ≠ 2 → n ∉ joiners pair := by
      intro n hn hmem
      have hjoiners : joiners pair = [2] := rfl
      rw [hjoiners] at hmem
      exact hn (List.mem_singleton.mp hmem)
    refine ⟨_, rfl, fun event => ?_⟩
    cases event with
    | accept n opener =>
        rcases eq_or_ne n 2 with rfl | hn
        · rfl
        · simp [Serving.step, step, hjoiner n hn]
    | hello n =>
        rcases eq_or_ne n 2 with rfl | hn
        · rfl
        · simp [Serving.step, step, hjoiner n hn]
    | dummy n =>
        rcases eq_or_ne n 2 with rfl | hn
        · rfl
        · simp [Serving.step, step, hjoiner n hn]
    | resendDummy => rfl
  exact ⟨s, hrun, hstuck, startup_works_iff ⟨"a", 1⟩ 2 [⟨"b", 2⟩] _ s hrun hstuck⟩

end Server

end DistributedAvl
