import DistributedAvl.Foundation.Runs
import Mathlib.Data.List.Basic

namespace Calls

-- One direction of a connection.  A message that arrives may be unreadable.
structure Line (M W : Type) where
  idle : W
  put : W → M → W
  get : W → Option (Option M × W)
  get_idle : get idle = none

def Line.Carries {M W : Type} (line : Line M W) (message : M) : Prop :=
  line.get (line.put line.idle message) = some (some message, line.idle)

structure Served (C Q R : Type) where
  caller : C
  request : Option Q
  reply : Option R

structure State (C S Q R V W : Type) where
  server : S
  todo : C → List Q
  waiting : C → Bool
  requests : C → V
  replies : C → W
  received : C → List (Option R)
  served : List (Served C Q R)

inductive Act (C A : Type) where
  | call (caller : C)
  | serve (caller : C)
  | take (caller : C)
  | own (action : A)
  deriving DecidableEq, Repr

-- Callers that wait for the reply to a request before they make the next, and one server, which may
-- leave a request without reply and may also act by itself.
structure System (C S Q R V W A : Type) where
  requestLine : Line Q V
  replyLine : Line R W
  handle : S → C → Option Q → Option (S × Option R)
  own : S → A → Option S

variable {C S Q R V W A : Type}

namespace System

def start (sys : System C S Q R V W A) (server : S) (script : C → List Q) :
    State C S Q R V W where
  server := server
  todo := script
  waiting := fun _ => false
  requests := fun _ => sys.requestLine.idle
  replies := fun _ => sys.replyLine.idle
  received := fun _ => []
  served := []

variable [DecidableEq C]

def call (sys : System C S Q R V W A) (s : State C S Q R V W) (c : C) :
    Option (State C S Q R V W) :=
  match s.todo c with
  | [] => none
  | request :: todo =>
      if s.waiting c then none
      else
        some { s with
          todo := Function.update s.todo c todo
          waiting := Function.update s.waiting c true
          requests := Function.update s.requests c (sys.requestLine.put (s.requests c) request) }

def serve (sys : System C S Q R V W A) (s : State C S Q R V W) (c : C) :
    Option (State C S Q R V W) := do
  let (request, requests) ← sys.requestLine.get (s.requests c)
  let (server, reply) ← sys.handle s.server c request
  return { s with
    server := server
    requests := Function.update s.requests c requests
    replies :=
      match reply with
      | some reply => Function.update s.replies c (sys.replyLine.put (s.replies c) reply)
      | none => s.replies
    served := s.served ++ [⟨c, request, reply⟩] }

def take (sys : System C S Q R V W A) (s : State C S Q R V W) (c : C) :
    Option (State C S Q R V W) :=
  if s.waiting c then do
    let (reply, replies) ← sys.replyLine.get (s.replies c)
    return { s with
      waiting := Function.update s.waiting c false
      replies := Function.update s.replies c replies
      received := Function.update s.received c (s.received c ++ [reply]) }
  else none

def step (sys : System C S Q R V W A) (s : State C S Q R V W) :
    Act C A → Option (State C S Q R V W)
  | .call c => sys.call s c
  | .serve c => sys.serve s c
  | .take c => sys.take s c
  | .own a => do return { s with server := ← sys.own s.server a }

def ReplyCarried (sys : System C S Q R V W A) (s : State C S Q R V W) : Act C A → Prop
  | .serve c => ∀ request requests server reply,
      sys.requestLine.get (s.requests c) = some (request, requests) →
        sys.handle s.server c request = some (server, some reply) → sys.replyLine.Carries reply
  | _ => True

end System

inductive Pending (Q R : Type) where
  | idle
  | request (request : Q)
  | reply (reply : R)
  | silence

namespace Pending

def waits : Pending Q R → Bool
  | idle => false
  | _ => true

def asked : Pending Q R → List Q
  | request q => [q]
  | _ => []

def answered : Pending Q R → List (Option R)
  | reply r => [some r]
  | silence => [none]
  | _ => []

def requestOn (line : Line Q V) : Pending Q R → V
  | request q => line.put line.idle q
  | _ => line.idle

def replyOn (line : Line R W) : Pending Q R → W
  | reply r => line.put line.idle r
  | _ => line.idle

end Pending

variable [DecidableEq C]

def State.servedTo (s : State C S Q R V W) (c : C) : List (Served C Q R) :=
  s.served.filter fun p => decide (p.caller = c)

structure Flow (sys : System C S Q R V W A) (s : State C S Q R V W) (c : C) (script : List Q)
    (pending : Pending Q R) : Prop where
  script : ∃ past, (s.servedTo c).map Served.request = past.map some ∧
    script = past ++ pending.asked ++ s.todo c
  replies : (s.servedTo c).map Served.reply = s.received c ++ pending.answered
  waiting : s.waiting c = pending.waits
  requestLine : s.requests c = pending.requestOn sys.requestLine
  replyLine : s.replies c = pending.replyOn sys.replyLine
  carried : ∀ r, pending = .reply r → sys.replyLine.Carries r

variable {sys : System C S Q R V W A} {s s' : State C S Q R V W} {c c' : C} {script : List Q}
  {pending : Pending Q R}

namespace System

theorem call_cases (h : sys.call s c = some s') :
    ∃ request todo, s.todo c = request :: todo ∧ s.waiting c = false ∧
      s' = { s with
        todo := Function.update s.todo c todo
        waiting := Function.update s.waiting c true
        requests := Function.update s.requests c (sys.requestLine.put (s.requests c) request) } := by
  rw [call] at h
  cases htodo : s.todo c with
  | nil => simp [htodo] at h
  | cons request todo =>
      rw [htodo] at h
      cases hwait : s.waiting c with
      | true => simp [hwait] at h
      | false => exact ⟨request, todo, rfl, rfl, by simpa [hwait] using h.symm⟩

theorem serve_cases (h : sys.serve s c = some s') :
    ∃ request requests server reply, sys.requestLine.get (s.requests c) = some (request, requests) ∧
      sys.handle s.server c request = some (server, reply) ∧
      s' = { s with
        server := server
        requests := Function.update s.requests c requests
        replies :=
          match reply with
          | some reply => Function.update s.replies c (sys.replyLine.put (s.replies c) reply)
          | none => s.replies
        served := s.served ++ [⟨c, request, reply⟩] } := by
  obtain ⟨⟨request, requests⟩, hget, h⟩ := Option.bind_eq_some_iff.mp h
  obtain ⟨⟨server, reply⟩, hhandle, h⟩ := Option.bind_eq_some_iff.mp h
  exact ⟨request, requests, server, reply, hget, hhandle, (Option.some.inj h).symm⟩

theorem take_cases (h : sys.take s c = some s') :
    s.waiting c = true ∧ ∃ reply replies, sys.replyLine.get (s.replies c) = some (reply, replies) ∧
      s' = { s with
        waiting := Function.update s.waiting c false
        replies := Function.update s.replies c replies
        received := Function.update s.received c (s.received c ++ [reply]) } := by
  rw [take] at h
  split at h
  · rename_i hwait
    obtain ⟨⟨reply, replies⟩, hget, h⟩ := Option.bind_eq_some_iff.mp h
    exact ⟨hwait, reply, replies, hget, (Option.some.inj h).symm⟩
  · cases h

end System

theorem Flow.frame (h : Flow sys s c script pending) (htodo : s'.todo c = s.todo c)
    (hwaiting : s'.waiting c = s.waiting c) (hrequests : s'.requests c = s.requests c)
    (hreplies : s'.replies c = s.replies c) (hreceived : s'.received c = s.received c)
    (hserved : s'.servedTo c = s.servedTo c) : Flow sys s' c script pending where
  script := by rw [hserved, htodo]; exact h.script
  replies := by rw [hserved, hreceived]; exact h.replies
  waiting := hwaiting.trans h.waiting
  requestLine := hrequests.trans h.requestLine
  replyLine := hreplies.trans h.replyLine
  carried := h.carried

theorem start_flow (sys : System C S Q R V W A) (server : S) (script : C → List Q) (c : C) :
    Flow sys (sys.start server script) c (script c) .idle where
  script := ⟨[], rfl, rfl⟩
  replies := rfl
  waiting := rfl
  requestLine := rfl
  replyLine := rfl
  carried := by intro r hr; cases hr

theorem Flow.requested (h : Flow sys s c script pending) {request : Option Q} {requests : V}
    (hcarries : ∀ q ∈ script, sys.requestLine.Carries q)
    (hget : sys.requestLine.get (s.requests c) = some (request, requests)) :
    ∃ q, pending = .request q ∧ request = some q ∧ requests = sys.requestLine.idle := by
  rw [h.requestLine] at hget
  cases pending with
  | request q =>
      obtain ⟨past, -, hscript⟩ := h.script
      have hq : sys.requestLine.Carries q := hcarries q (by simp [hscript, Pending.asked])
      cases hq.symm.trans hget
      exact ⟨q, rfl, rfl, rfl⟩
  | idle => cases sys.requestLine.get_idle.symm.trans hget
  | reply r => cases sys.requestLine.get_idle.symm.trans hget
  | silence => cases sys.requestLine.get_idle.symm.trans hget

theorem Flow.replied (h : Flow sys s c script pending) {reply : Option R} {replies : W}
    (hget : sys.replyLine.get (s.replies c) = some (reply, replies)) :
    ∃ r, pending = .reply r ∧ reply = some r ∧ replies = sys.replyLine.idle := by
  rw [h.replyLine] at hget
  cases pending with
  | reply r =>
      cases (h.carried r rfl).symm.trans hget
      exact ⟨r, rfl, rfl, rfl⟩
  | idle => cases sys.replyLine.get_idle.symm.trans hget
  | request q => cases sys.replyLine.get_idle.symm.trans hget
  | silence => cases sys.replyLine.get_idle.symm.trans hget

theorem call_flow (h : Flow sys s c script pending) (hcall : sys.call s c = some s') :
    ∃ request, pending = .idle ∧ s.todo c = request :: s'.todo c ∧
      Flow sys s' c script (.request request) := by
  obtain ⟨request, todo, htodo, hwait, rfl⟩ := System.call_cases hcall
  have hrest := Function.update_self c todo s.todo
  have hidle : pending = .idle := by
    have := h.waiting.symm.trans hwait
    cases pending <;> first | rfl | cases this
  subst hidle
  obtain ⟨past, hpast, hscript⟩ := h.script
  refine ⟨request, rfl, htodo.trans (congrArg (List.cons request) hrest.symm),
    ⟨past, hpast, ?_⟩, h.replies, ?_, ?_, h.replyLine, ?_⟩
  · simpa [Pending.asked, htodo] using hscript
  · exact Function.update_self c true s.waiting
  · simp only [Function.update_self, h.requestLine]
    rfl
  · intro r hr
    cases hr

theorem serve_flow (h : Flow sys s c script pending)
    (hcarries : ∀ q ∈ script, sys.requestLine.Carries q)
    (hreply : sys.ReplyCarried s (.serve c : Act C A)) (hserve : sys.serve s c = some s') :
    ∃ q reply, pending = .request q ∧
      sys.handle s.server c (some q) = some (s'.server, reply) ∧
      s'.served = s.served ++ [⟨c, some q, reply⟩] ∧ s'.todo c = s.todo c ∧
      Flow sys s' c script (match reply with | some r => .reply r | none => .silence) := by
  obtain ⟨request, requests, server, reply, hget, hhandle, rfl⟩ := System.serve_cases hserve
  obtain ⟨q, rfl, rfl, rfl⟩ := h.requested hcarries hget
  refine ⟨q, reply, rfl, hhandle, rfl, rfl, ?_⟩
  obtain ⟨past, hpast, hscript⟩ := h.script
  have hline : s.replies c = sys.replyLine.idle := h.replyLine
  have hreplies := h.replies
  simp only [Pending.answered, List.append_nil] at hreplies
  have hserved : State.servedTo { s with served := s.served ++ [⟨c, some q, reply⟩] } c =
      s.servedTo c ++ [⟨c, some q, reply⟩] := by
    simp [State.servedTo, List.filter_append]
  have hpast' : past ++ [q] ++ s.todo c = script := hscript.symm
  cases reply with
  | none =>
      refine ⟨⟨past ++ [q], ?_, ?_⟩, ?_, h.waiting, ?_, hline, ?_⟩
      · exact (congrArg (List.map Served.request) hserved).trans (by simp [hpast])
      · simpa [Pending.asked] using hpast'.symm
      · exact (congrArg (List.map Served.reply) hserved).trans (by simp [hreplies, Pending.answered])
      · exact Function.update_self c _ s.requests
      · intro r hr
        cases hr
  | some r =>
      refine ⟨⟨past ++ [q], ?_, ?_⟩, ?_, h.waiting, ?_, ?_, ?_⟩
      · exact (congrArg (List.map Served.request) hserved).trans (by simp [hpast])
      · simpa [Pending.asked] using hpast'.symm
      · exact (congrArg (List.map Served.reply) hserved).trans (by simp [hreplies, Pending.answered])
      · exact Function.update_self c _ s.requests
      · simp only [Function.update_self, hline]
        rfl
      · intro r' hr'
        cases hr'
        exact hreply _ _ _ _ hget hhandle

theorem take_flow (h : Flow sys s c script pending) (htake : sys.take s c = some s') :
    ∃ r, pending = .reply r ∧ s'.todo c = s.todo c ∧ s'.received c = s.received c ++ [some r] ∧
      Flow sys s' c script .idle := by
  obtain ⟨-, reply, replies, hget, rfl⟩ := System.take_cases htake
  obtain ⟨r, rfl, rfl, rfl⟩ := h.replied hget
  have hreceived := Function.update_self c (s.received c ++ [some r]) s.received
  refine ⟨r, rfl, rfl, hreceived, h.script, ?_, Function.update_self c false s.waiting, h.requestLine,
    Function.update_self c _ s.replies, ?_⟩
  · simp only [hreceived]
    exact h.replies.trans (List.append_nil _).symm
  · intro r hr
    cases hr

def Act.isOf (c : C) : Act C A → Bool
  | .call c' => decide (c' = c)
  | .serve c' => decide (c' = c)
  | .take c' => decide (c' = c)
  | .own _ => false

theorem step_other {act : Act C A} (h : Flow sys s c script pending) (hact : act.isOf c = false)
    (hstep : sys.step s act = some s') :
    s'.todo c = s.todo c ∧ Flow sys s' c script pending := by
  cases act with
  | call c' =>
      have hne : c ≠ c' := fun heq => of_decide_eq_false hact heq.symm
      obtain ⟨request, todo, -, -, rfl⟩ := System.call_cases hstep
      have htodo := Function.update_of_ne hne todo s.todo
      exact ⟨htodo, h.frame htodo (Function.update_of_ne hne _ _) (Function.update_of_ne hne _ _)
        rfl rfl rfl⟩
  | serve c' =>
      have hne : c' ≠ c := of_decide_eq_false hact
      obtain ⟨request, requests, server, reply, -, -, rfl⟩ := System.serve_cases hstep
      refine ⟨rfl, h.frame rfl rfl (Function.update_of_ne hne.symm _ _) ?_ rfl ?_⟩
      · cases reply with
        | none => rfl
        | some reply => exact Function.update_of_ne hne.symm _ _
      · simp [State.servedTo, List.filter_append, hne]
  | take c' =>
      have hne : c ≠ c' := fun heq => of_decide_eq_false hact heq.symm
      obtain ⟨-, reply, replies, -, rfl⟩ := System.take_cases hstep
      exact ⟨rfl, h.frame rfl (Function.update_of_ne hne _ _) rfl (Function.update_of_ne hne _ _)
        (Function.update_of_ne hne _ _) rfl⟩
  | own a =>
      obtain ⟨server, -, heq⟩ := Option.bind_eq_some_iff.mp hstep
      cases heq
      exact ⟨rfl, h.frame rfl rfl rfl rfl rfl rfl⟩

def Pending.left : Pending Q R → Nat
  | idle => 0
  | request _ => 2
  | reply _ => 1
  | silence => 1

structure Progress (sys : System C S Q R V W A) (c : C) (script : List Q) (past : List (Act C A))
    (s : State C S Q R V W) (pending : Pending Q R) : Prop where
  flow : Flow sys s c script pending
  steps : past.countP (Act.isOf c) + 3 * (s.todo c).length + pending.left = 3 * script.length

theorem step_progress {act : Act C A} {past : List (Act C A)}
    (hcarries : ∀ q ∈ script, sys.requestLine.Carries q) (hreply : sys.ReplyCarried s act)
    (h : Progress sys c script past s pending) (hstep : sys.step s act = some s') :
    ∃ pending', Progress sys c script (past ++ [act]) s' pending' := by
  obtain ⟨hflow, hsteps⟩ := h
  cases hof : act.isOf c with
  | false =>
      obtain ⟨htodo, hother⟩ := step_other hflow hof hstep
      exact ⟨pending, hother, by simpa [List.countP_append, hof, htodo] using hsteps⟩
  | true =>
      have hcount : (past ++ [act]).countP (Act.isOf c) = past.countP (Act.isOf c) + 1 := by
        simp [List.countP_append, hof]
      cases act with
      | call c' =>
          obtain rfl : c' = c := of_decide_eq_true hof
          obtain ⟨request, rfl, htodo, hcalled⟩ := call_flow hflow hstep
          refine ⟨_, hcalled, ?_⟩
          rw [htodo, List.length_cons] at hsteps
          simp only [hcount, Pending.left] at hsteps ⊢
          omega
      | serve c' =>
          obtain rfl : c' = c := of_decide_eq_true hof
          obtain ⟨q, reply, rfl, -, -, htodo, hserved⟩ := serve_flow hflow hcarries hreply hstep
          refine ⟨_, hserved, ?_⟩
          rw [hcount, htodo]
          cases reply <;> simp only [Pending.left] at hsteps ⊢ <;> omega
      | take c' =>
          obtain rfl : c' = c := of_decide_eq_true hof
          obtain ⟨r, rfl, htodo, -, htaken⟩ := take_flow hflow hstep
          refine ⟨_, htaken, ?_⟩
          rw [hcount, htodo]
          simp only [Pending.left] at hsteps ⊢
          omega
      | own a => cases hof

theorem start_progress (sys : System C S Q R V W A) (server : S) (script : C → List Q) (c : C) :
    Progress sys c (script c) [] (sys.start server script) .idle :=
  ⟨start_flow sys server script c, by simp [System.start, Pending.left]⟩

theorem run_progress {script : C → List Q} {server : S} {acts : List (Act C A)}
    (hcarries : ∀ c, ∀ q ∈ script c, sys.requestLine.Carries q)
    (hreplies : Runs.Along sys.step sys.ReplyCarried (sys.start server script) acts)
    (hrun : Runs.run sys.step (sys.start server script) acts = some s) (c : C) :
    ∃ pending, Progress sys c (script c) acts s pending := by
  have hhistory := Runs.along_history
    (I := fun past s => ∃ pending, Progress sys c (script c) past s pending)
    (fun past s act s' hs hreply hstep => by
      obtain ⟨pending, hs⟩ := hs
      exact step_progress (hcarries c) hreply hs hstep)
    acts [] _ s ⟨_, start_progress sys server script c⟩ hreplies hrun
  simpa using hhistory

theorem Flow.blocked (h : Flow sys s c script pending)
    (hcarries : ∀ q ∈ script, sys.requestLine.Carries q)
    (hcall : sys.call s c = none) (hserve : sys.serve s c = none) (htake : sys.take s c = none) :
    (pending = .idle ∧ s.todo c = []) ∨
      (∃ q, pending = .request q ∧ sys.handle s.server c (some q) = none) ∨ pending = .silence := by
  have hwait := h.waiting
  cases pending with
  | idle =>
      refine Or.inl ⟨rfl, ?_⟩
      cases htodo : s.todo c with
      | nil => rfl
      | cons request todo => simp [System.call, htodo, hwait, Pending.waits] at hcall
  | request q =>
      refine Or.inr (Or.inl ⟨q, rfl, ?_⟩)
      obtain ⟨past, -, hscript⟩ := h.script
      have hq : sys.requestLine.Carries q := hcarries q (by simp [hscript, Pending.asked])
      have hget : sys.requestLine.get (s.requests c) = some (some q, sys.requestLine.idle) := by
        rw [h.requestLine]; exact hq
      cases hhandle : sys.handle s.server c (some q) with
      | none => rfl
      | some p => simp [System.serve, hget, hhandle] at hserve
  | reply r =>
      have hget : sys.replyLine.get (s.replies c) = some (some r, sys.replyLine.idle) := by
        rw [h.replyLine]; exact h.carried r rfl
      simp [System.take, hwait, Pending.waits, hget] at htake
  | silence => exact Or.inr (Or.inr rfl)

theorem perm_by_key {K X : Type} [DecidableEq K] (key : X → K) {keys : List K} (hkeys : keys.Nodup) :
    ∀ {xs : List X}, (∀ x ∈ xs, key x ∈ keys) →
      xs.Perm (keys.flatMap fun k => xs.filter fun x => decide (key x = k)) := by
  induction keys with
  | nil =>
      intro xs hxs
      cases xs with
      | nil => exact List.Perm.refl _
      | cons x xs => exact absurd (hxs x (by simp)) (by simp)
  | cons k keys ih =>
      intro xs hxs
      obtain ⟨hk, hnodup⟩ := List.nodup_cons.mp hkeys
      let rest := xs.filter fun x => !decide (key x = k)
      have hrest : rest.Perm (keys.flatMap fun k' => rest.filter fun x => decide (key x = k')) := by
        refine ih hnodup fun x hx => ?_
        obtain ⟨hmem, hne⟩ := List.mem_filter.mp hx
        exact (List.mem_cons.mp (hxs x hmem)).resolve_left (by simpa using hne)
      have hsame : (keys.flatMap fun k' => rest.filter fun x => decide (key x = k')) =
          keys.flatMap fun k' => xs.filter fun x => decide (key x = k') := by
        refine List.flatMap_congr fun k' hk' => ?_
        rw [List.filter_filter]
        refine List.filter_congr fun x _ => ?_
        by_cases hx : key x = k'
        · have hne : k' ≠ k := fun heq => hk (heq ▸ hk')
          simp [hx, hne]
        · simp [hx]
      rw [hsame] at hrest
      exact (List.filter_append_perm _ xs).symm.trans (hrest.append_left _)

section Server

variable {J : List (Served C Q R) → S → Prop}
  (hhandle : ∀ past server c q server' reply, J past server →
    sys.handle server c q = some (server', reply) → J (past ++ [⟨c, q, reply⟩]) server')
  (hown : ∀ past server a server', J past server → sys.own server a = some server' →
    J past server')

include hhandle hown

theorem step_served (s : State C S Q R V W) (act : Act C A) (s' : State C S Q R V W)
    (hs : J s.served s.server) (hstep : sys.step s act = some s') : J s'.served s'.server := by
  cases act with
  | call c => obtain ⟨request, todo, -, -, rfl⟩ := System.call_cases hstep; exact hs
  | serve c =>
      obtain ⟨request, requests, server, reply, -, hdone, rfl⟩ := System.serve_cases hstep
      exact hhandle _ _ _ _ _ _ hs hdone
  | take c => obtain ⟨-, reply, replies, -, rfl⟩ := System.take_cases hstep; exact hs
  | own a =>
      obtain ⟨server, hdone, heq⟩ := Option.bind_eq_some_iff.mp hstep
      cases heq
      exact hown _ _ _ _ hs hdone

end Server

end Calls
