import DistributedAvl.Remote.Client
import DistributedAvl.Wire.Line

namespace DistributedAvl

namespace RemoteTreeManager

-- The connection to the machine above: a buffer that does not parse is dropped like a message
-- without a handler.
def serveMessage (root : NodePtr) : Option Message → Option (NodePtr × Option Response)
  | none => some (root, none)
  | some msg => AVLMessageHandler.parseMessage root msg

variable (toNode : Protobuf Message) (fromNode : Protobuf Response)

def channel : Calls.System Unit NodePtr Message Response Buffer Buffer Empty where
  requestLine := Connection.line toNode
  replyLine := Connection.line fromNode
  handle := fun root _ msg => serveMessage root msg
  own := fun _ action => nomatch action

abbrev Link := Calls.State Unit NodePtr Message Response Buffer Buffer

abbrev Act := Calls.Act Unit Empty

def step (s : Link) (act : Act) : Option Link := (channel toNode fromNode).step s act

def connect (root : NodePtr) (msgs : List Message) : Link :=
  (channel toNode fromNode).start root fun _ => msgs

end RemoteTreeManager

namespace RemoteAVLTreeClient

-- The same messages as calls, each over before the next begins.
def converse (far : NodePtr) : List Message → Option (NodePtr × List (Option Response))
  | [] => some (far, [])
  | msg :: msgs => do
      let (far₁, response) ← call far msg
      let (far₂, responses) ← converse far₁ msgs
      return (far₂, response :: responses)

theorem converse_snoc {far far₁ far₂ : NodePtr} {msgs : List Message} {msg : Message}
    {responses : List (Option Response)} {response : Option Response}
    (hmsgs : converse far msgs = some (far₁, responses))
    (hmsg : call far₁ msg = some (far₂, response)) :
    converse far (msgs ++ [msg]) = some (far₂, responses ++ [response]) := by
  induction msgs generalizing far responses with
  | nil =>
      cases hmsgs
      simp [converse, hmsg]
  | cons first msgs ih =>
      obtain ⟨⟨far', answer⟩, hfirst, hmsgs⟩ := Option.bind_eq_some_iff.mp hmsgs
      obtain ⟨⟨far'', rest⟩, hrest, heq⟩ := Option.bind_eq_some_iff.mp hmsgs
      cases heq
      have hsnoc := ih hrest
      simp [converse, hfirst, hsnoc]

end RemoteAVLTreeClient

namespace RemoteTreeManager

variable {toNode : Protobuf Message} {fromNode : Protobuf Response} {root : NodePtr}
  {msgs : List Message} {acts : List Act} {s : Link}

theorem handler_type {type : MessageType} {handler : Handler} {root' : NodePtr} {msg : Message}
    {response : Response} (h : registerMessageHandler type = some handler)
    (hwork : handler root msg = some (root', response)) : response.type = type := by
  cases type with
  | contains => cases h
  | initBackup => cases h
  | endBackup => cases h
  | preorder =>
      cases h
      cases hwork
      rfl
  | findLesserSuccessor =>
      cases h
      obtain ⟨p, -, hwork⟩ := Option.bind_eq_some_iff.mp hwork
      obtain ⟨node, -, heq⟩ := Option.bind_eq_some_iff.mp hwork
      cases heq
      rfl
  | _ =>
      cases h
      obtain ⟨x, -, heq⟩ := Option.bind_eq_some_iff.mp hwork
      cases heq
      rfl

def Registered (msg : Message) : Prop := (registerMessageHandler msg.type).isSome = true

theorem served_call {root' : NodePtr} {msg : Message} {reply : Option Response}
    (hmsg : Registered msg) (hserve : serveMessage root (some msg) = some (root', reply)) :
    ∃ response, reply = some response ∧
      RemoteAVLTreeClient.call root msg = some (root', some response) := by
  obtain ⟨handler, hhandler⟩ := Option.isSome_iff_exists.mp hmsg
  have hparse := hserve
  simp only [serveMessage, AVLMessageHandler.parseMessage, hhandler] at hserve
  obtain ⟨⟨root₁, response⟩, hwork, heq⟩ := Option.bind_eq_some_iff.mp hserve
  cases heq
  refine ⟨response, rfl, ?_⟩
  have htype := handler_type hhandler hwork
  simp only [serveMessage] at hparse
  simp [RemoteAVLTreeClient.call, hparse, RemoteAVLTreeClient.handleResponse, htype]

def Conversed (root : NodePtr) (past : List (Calls.Served Unit Message Response))
    (server : NodePtr) : Prop :=
  ∀ msgs, past.map Calls.Served.request = msgs.map some → (∀ msg ∈ msgs, Registered msg) →
    ∃ responses : List Response, past.map Calls.Served.reply = responses.map some ∧
      RemoteAVLTreeClient.converse root msgs = some (server, responses.map some)

theorem serve_conversed {past : List (Calls.Served Unit Message Response)} {server server' : NodePtr}
    (client : Unit) {msg : Option Message} {reply : Option Response}
    (h : Conversed root past server) (hserve : serveMessage server msg = some (server', reply)) :
    Conversed root (past ++ [⟨client, msg, reply⟩]) server' := by
  intro msgs hmsgs hregistered
  rw [List.map_append] at hmsgs
  obtain ⟨front, last, rfl, hfront, hlast⟩ := List.append_eq_map_iff.mp hmsgs
  obtain ⟨msg, rfl, rfl⟩ := List.map_eq_singleton_iff.mp hlast
  obtain ⟨responses, hreplies, hconverse⟩ :=
    h front hfront.symm fun msg hmem => hregistered msg (by simp [hmem])
  obtain ⟨response, rfl, hcall⟩ := served_call (hregistered msg (by simp)) hserve
  refine ⟨responses ++ [response], by simp [hreplies], ?_⟩
  simpa using RemoteAVLTreeClient.converse_snoc hconverse hcall

structure Conversing (root : NodePtr) (msgs : List Message) (s : Link) (called : List Message)
    (responses : List Response) : Prop where
  calls : RemoteAVLTreeClient.converse root called = some (s.server, responses.map some)
  script : ∃ calling : List Message, calling.length ≤ 1 ∧ msgs = called ++ calling ++ s.todo ()
  received : ∃ coming : List Response, coming.length ≤ 1 ∧
    responses.map some = s.received () ++ coming.map some
  between : s.waiting () = false → msgs = called ++ s.todo () ∧
    s.received () = responses.map some ∧ s.requests () = [] ∧ s.replies () = []

theorem servedTo_all (s : Link) : s.servedTo () = s.served := by
  simp [Calls.State.servedTo]

theorem flow_conversing {pending : Calls.Pending Message Response}
    (hregistered : ∀ msg ∈ msgs, Registered msg) (hs : Conversed root s.served s.server)
    (hflow : Calls.Flow (channel toNode fromNode) s () msgs pending) :
    pending ≠ .silence ∧ ∃ called responses, Conversing root msgs s called responses := by
  obtain ⟨called, hcalled, hscript⟩ := hflow.script
  have hreplies := hflow.replies
  have hline : s.requests () = pending.requestOn (Connection.line toNode) := hflow.requestLine
  have hback : s.replies () = pending.replyOn (Connection.line fromNode) := hflow.replyLine
  have hwait := hflow.waiting
  rw [servedTo_all] at hcalled hreplies
  obtain ⟨responses, hanswers, hconverse⟩ := hs called hcalled fun msg hmem =>
    hregistered msg (by simp [hscript, hmem])
  rw [hanswers] at hreplies
  have hspoken : pending ≠ .silence := by
    rintro rfl
    have hmem : none ∈ responses.map some := by simp [hreplies, Calls.Pending.answered]
    simp at hmem
  refine ⟨hspoken, called, responses, hconverse, ⟨pending.asked, ?_, hscript⟩, ?_, ?_⟩
  · cases pending <;> simp [Calls.Pending.asked]
  · cases pending with
    | silence => exact absurd rfl hspoken
    | reply response => exact ⟨[response], by simp, by simpa [Calls.Pending.answered] using hreplies⟩
    | _ => exact ⟨[], by simp, by simpa [Calls.Pending.answered] using hreplies⟩
  · intro hidle
    rw [hidle] at hwait
    cases pending with
    | idle =>
        refine ⟨by simpa [Calls.Pending.asked] using hscript, ?_, hline, hback⟩
        simpa [Calls.Pending.answered] using hreplies.symm
    | _ => cases hwait

structure Sendable (toNode : Protobuf Message) (fromNode : Protobuf Response) (root : NodePtr)
    (msgs : List Message) : Prop where
  registered : ∀ msg ∈ msgs, Registered msg
  messages : ∀ msg ∈ msgs, toNode.Faithful msg
  responses : ∀ (called : List Message) (far : NodePtr) (responses : List Response),
    called <+: msgs →
      RemoteAVLTreeClient.converse root called = some (far, responses.map some) →
        ∀ response ∈ responses, fromNode.Faithful response

theorem Sendable.carries (hsend : Sendable toNode fromNode root msgs) :
    ∀ msg ∈ msgs, (channel toNode fromNode).requestLine.Carries msg :=
  fun msg hmem => Connection.line_carries (hsend.messages msg hmem)

theorem reply_carried {pending : Calls.Pending Message Response}
    (hsend : Sendable toNode fromNode root msgs) (hs : Conversed root s.served s.server)
    (hflow : Calls.Flow (channel toNode fromNode) s () msgs pending) (act : Act) :
    (channel toNode fromNode).ReplyCarried s act := by
  cases act with
  | serve client =>
      intro request requests server reply hget hhandle
      obtain ⟨msg, rfl, rfl, -⟩ := hflow.requested hsend.carries hget
      obtain ⟨called, hcalled, hscript⟩ := hflow.script
      rw [servedTo_all] at hcalled
      replace hhandle : serveMessage s.server (some msg) = some (server, some reply) := hhandle
      have hserved := serve_conversed client hs hhandle (called ++ [msg])
        (by simp [hcalled]) fun m hm => hsend.registered m (by
          rw [hscript]
          exact List.mem_append_left _ hm)
      obtain ⟨responses, hreplies, hconverse⟩ := hserved
      refine Connection.line_carries (hsend.responses _ _ _ ?_ hconverse reply ?_)
      · rw [hscript]
        exact List.prefix_append _ _
      · have hmem : some reply ∈ responses.map some := by simp [← hreplies]
        simpa using hmem
  | _ => trivial

theorem run_session (hsend : Sendable toNode fromNode root msgs)
    (hrun : Runs.run (step toNode fromNode) (connect toNode fromNode root msgs) acts = some s) :
    Conversed root s.served s.server ∧
      ∃ pending, Calls.Progress (channel toNode fromNode) () msgs acts s pending := by
  have hstart : Conversed root [] root := by
    intro called hcalled _
    obtain rfl := List.map_eq_nil_iff.mp hcalled.symm
    exact ⟨[], rfl, rfl⟩
  refine Runs.along_history (C := fun _ _ => True)
    (I := fun past s => Conversed root s.served s.server ∧
      ∃ pending, Calls.Progress (channel toNode fromNode) () msgs past s pending)
    (fun past s act s' hs _ hstep => by
      obtain ⟨hconversed, pending, hprogress⟩ := hs
      replace hstep : (channel toNode fromNode).step s act = some s' := hstep
      refine ⟨?_, Calls.step_progress hsend.carries
        (reply_carried hsend hconversed hprogress.flow act) hprogress hstep⟩
      exact Calls.step_served (J := Conversed root)
        (fun _ _ client _ _ _ h hhandle => serve_conversed client h hhandle) (fun _ _ action => nomatch action)
        s act s' hconversed hstep)
    acts [] _ s ⟨hstart, _, Calls.start_progress (channel toNode fromNode) root (fun _ => msgs) ()⟩
    (Runs.along_of_forall (fun _ _ => trivial) acts _) hrun

theorem acts_own (acts : List Act) : acts.countP (Calls.Act.isOf ()) = acts.length := by
  rw [List.countP_eq_length]
  intro act _
  cases act with
  | own action => exact nomatch action
  | _ => rfl

theorem session_calls (hsend : Sendable toNode fromNode root msgs)
    (hrun : Runs.run (step toNode fromNode) (connect toNode fromNode root msgs) acts = some s) :
    (∃ called responses, Conversing root msgs s called responses) ∧
      acts.length ≤ 3 * msgs.length ∧
      ((∀ act, step toNode fromNode s act = none) →
        s.todo () = [] ∧ s.waiting () = false ∨
          ∃ msg ∈ msgs, RemoteAVLTreeClient.call s.server msg = none) := by
  obtain ⟨hconversed, pending, hflow, hsteps⟩ := run_session hsend hrun
  obtain ⟨hspoken, hconversing⟩ := flow_conversing hsend.registered hconversed hflow
  rw [acts_own] at hsteps
  refine ⟨hconversing, by omega, fun hstuck => ?_⟩
  obtain ⟨rfl, htodo⟩ | ⟨msg, rfl, hnone⟩ | rfl :=
    hflow.blocked hsend.carries (hstuck (.call ())) (hstuck (.serve ())) (hstuck (.take ()))
  · exact Or.inl ⟨htodo, hflow.waiting⟩
  · obtain ⟨past, -, hscript⟩ := hflow.script
    refine Or.inr ⟨msg, by simp [hscript, Calls.Pending.asked], ?_⟩
    replace hnone : AVLMessageHandler.parseMessage s.server msg = none := hnone
    simp [RemoteAVLTreeClient.call, hnone]
  · exact absurd rfl hspoken

-- The bytes of Insert and GetValue and of the responses to them, for words shorter than 126.
def shortToNode : Protobuf Message where
  serializeToArray := fun msg =>
    match msg.insert with
    | some word =>
        [8, 2, 34, BitVec.ofNat 8 (word.length + 2), 10, BitVec.ofNat 8 word.length] ++
          word.map BitVec.ofFin
    | none => [8, 4]
  parseFromArray := fun bytes =>
    match bytes with
    | [8, 4] => some (Message.ofType .getValue)
    | 8 :: 2 :: 34 :: _ :: 10 :: n :: word =>
        if n.toNat = word.length then
          some { Message.ofType .insert with insert := some (word.map BitVec.toFin) }
        else none
    | _ => none

def shortFromNode : Protobuf Response where
  serializeToArray := fun response =>
    match response.stringValue with
    | some word => [8, 4, 18, BitVec.ofNat 8 word.length] ++ word.map BitVec.ofFin
    | none => [8, 2]
  parseFromArray := fun bytes =>
    match bytes with
    | [8, 2] => some (createResponse .insert)
    | 8 :: 4 :: 18 :: n :: word =>
        if n.toNat = word.length then
          some { createResponse .getValue with stringValue := some (word.map BitVec.toFin) }
        else none
    | _ => none

def insertAndGet (word : Word) : List Message :=
  [{ Message.ofType .insert with insert := some word }, Message.ofType .getValue]

theorem insertAndGet_sendable :
    Sendable shortToNode shortFromNode .fresh (insertAndGet [97]) where
  registered := by
    intro msg hmem
    rcases List.mem_pair.mp hmem with rfl | rfl <;> rfl
  messages := by
    intro msg hmem
    rcases List.mem_pair.mp hmem with rfl | rfl <;> exact ⟨rfl, by decide⟩
  responses := by
    intro called far responses hcalled hconverse
    have hanswers : ∀ answers : List Response, responses.map some = answers.map some →
        (∀ response ∈ answers, shortFromNode.Faithful response) →
          ∀ response ∈ responses, shortFromNode.Faithful response := by
      intro answers heq
      rw [List.map_injective_iff.mpr (Option.some_injective _) heq]
      exact id
    have hlast := congrArg (Option.map Prod.snd) hconverse
    obtain rfl | ⟨rest, rfl, hrest⟩ := List.prefix_cons_iff.mp hcalled
    · exact hanswers [] (Option.some.inj hlast).symm (by simp)
    · obtain rfl | ⟨last, rfl, hnil⟩ := List.prefix_cons_iff.mp hrest
      · refine hanswers [createResponse .insert] (Option.some.inj hlast).symm fun response hmem => ?_
        rw [List.mem_singleton.mp hmem]
        exact ⟨rfl, by decide⟩
      · obtain rfl := List.prefix_nil.mp hnil
        refine hanswers [createResponse .insert, { createResponse .getValue with
          stringValue := some [97] }] (Option.some.inj hlast).symm fun response hmem => ?_
        rcases List.mem_pair.mp hmem with rfl | rfl <;> exact ⟨rfl, by decide⟩

theorem session_calls_two : ∃ s, Runs.run (step shortToNode shortFromNode)
    (connect shortToNode shortFromNode .fresh (insertAndGet [97]))
      [.call (), .serve (), .take (), .call (), .serve ()] = some s ∧
    (∃ called responses, Conversing .fresh (insertAndGet [97]) s called responses) ∧
      ([.call (), .serve (), .take (), .call (), .serve ()] : List Act).length ≤
        3 * (insertAndGet [97]).length ∧
      ((∀ act, step shortToNode shortFromNode s act = none) →
        s.todo () = [] ∧ s.waiting () = false ∨
          ∃ msg ∈ insertAndGet [97], RemoteAVLTreeClient.call s.server msg = none) := by
  obtain ⟨s, hrun⟩ : ∃ s, Runs.run (step shortToNode shortFromNode)
      (connect shortToNode shortFromNode .fresh (insertAndGet [97]))
        [.call (), .serve (), .take (), .call (), .serve ()] = some s := ⟨_, rfl⟩
  exact ⟨s, hrun, session_calls insertAndGet_sendable hrun⟩

end RemoteTreeManager

end DistributedAvl
