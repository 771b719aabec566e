import DistributedAvl.Requests.RootDutiesManager
import DistributedAvl.Worker.Conservation

namespace DistributedAvl

open AVLTree (Kind MessageToRoot)

namespace AVLTree

theorem submitted_message {s s' : State} {client : Nat} {msg : Option MessageToRoot}
    (h : step s (.message client msg) = some s') :
    s'.submitted = s.submitted ++ RootDutiesManager.submits msg := by
  obtain ⟨root, -, h⟩ := Option.bind_eq_some_iff.mp h
  cases h
  rcases msg with _ | ⟨type, word⟩
  · simp [parseMessage, RootDutiesManager.submits]
  · cases type <;> simp [parseMessage, insert, remove, submit, RootDutiesManager.submits]

theorem submitted_insert {s s' : State} {word : Word} (h : step s (.insert word) = some s') :
    s'.submitted = s.submitted ++ [(.add, word)] := by
  obtain ⟨root, -, h⟩ := Option.bind_eq_some_iff.mp h
  cases h
  rfl

theorem submitted_invoke {s s' : State} (h : step s .invoke = some s') :
    s'.submitted = s.submitted := by
  obtain ⟨root, -, h⟩ := Option.bind_eq_some_iff.mp h
  cases h
  simp only [invoke]
  split
  · rfl
  · split <;> rfl

end AVLTree

namespace RootDutiesManager

def Root.submittedBy (root : Root) (origin : Option Nat) : List (Kind × Word) :=
  (root.log.filter fun p => decide (p.1 = origin)).map Prod.snd

def added (words : List Word) : List (Kind × Word) := words.map fun word => (.add, word)

-- The tree has had submitted, in the order of the log, what each node has been served and what the
-- root has inserted itself.
structure Logged (tree : NodePtr) (own : List Word)
    (past : List (Calls.Served Nat MessageToRoot MessageFromRoot)) (root : Root) : Prop where
  conserved : AVLTree.Conserved tree root.avl
  submitted : root.avl.submitted = root.log.map Prod.snd
  served : ∀ n, root.submittedBy (some n) =
    (past.filter fun p => decide (p.caller = n)).flatMap fun p => submits p.request
  own : root.submittedBy none ++ added root.words = added own
  replied : ∀ p ∈ past, p.reply = some ⟨false⟩

variable {tree : NodePtr} {own : List Word}
  {past : List (Calls.Served Nat MessageToRoot MessageFromRoot)} {root root' : Root}

theorem start_logged (tree : NodePtr) (own : List Word) :
    Logged tree own [] ⟨AVLTree.start tree, own, []⟩ where
  conserved := AVLTree.start_conserved tree
  submitted := rfl
  served := fun _ => rfl
  own := rfl
  replied := by simp

theorem handle_logged {client : Nat} {msg : Option MessageToRoot} {reply : Option MessageFromRoot}
    (h : Logged tree own past root) (hhandle : handleRequests root client msg = some (root', reply)) :
    Logged tree own (past ++ [⟨client, msg, reply⟩]) root' := by
  obtain ⟨avl, havl, heq⟩ := Option.bind_eq_some_iff.mp hhandle
  cases heq
  refine ⟨AVLTree.step_conserved tree _ _ _ h.conserved havl, ?_, fun n => ?_, ?_, ?_⟩
  · simp [AVLTree.submitted_message havl, h.submitted, Function.comp_def]
  · have hserved := h.served n
    by_cases hn : client = n
    · simp only [Root.submittedBy] at hserved ⊢
      simp [List.filter_append, List.filter_map, hserved, hn, Function.comp_def]
    · simp only [Root.submittedBy] at hserved ⊢
      simp [List.filter_append, List.filter_map, hserved, hn, Function.comp_def]
  · have hown := h.own
    simp only [Root.submittedBy] at hown ⊢
    simpa [List.filter_append, List.filter_map, Function.comp_def] using hown
  · intro p hp
    rcases List.mem_append.mp hp with hp | hp
    · exact h.replied p hp
    · rw [List.mem_singleton.mp hp]

theorem work_logged {act : Local} (h : Logged tree own past root)
    (hwork : work root act = some root') : Logged tree own past root' := by
  cases act with
  | insert =>
      rw [work] at hwork
      cases hwords : root.words with
      | nil => simp [hwords] at hwork
      | cons word words =>
          rw [hwords] at hwork
          obtain ⟨avl, havl, heq⟩ := Option.bind_eq_some_iff.mp hwork
          cases heq
          refine ⟨AVLTree.step_conserved tree _ _ _ h.conserved havl, ?_, fun n => ?_, ?_, h.replied⟩
          · simp [AVLTree.submitted_insert havl, h.submitted]
          · have hserved := h.served n
            simp only [Root.submittedBy] at hserved ⊢
            simpa [List.filter_append] using hserved
          · have hown := h.own
            simp only [Root.submittedBy, hwords] at hown ⊢
            simpa [List.filter_append, added] using hown
  | invoke =>
      obtain ⟨-, hwork⟩ := Option.ite_none_left_eq_some.mp hwork
      obtain ⟨avl, havl, heq⟩ := Option.bind_eq_some_iff.mp hwork
      cases heq
      exact ⟨AVLTree.step_conserved tree _ _ _ h.conserved havl,
        (AVLTree.submitted_invoke havl).trans h.submitted, h.served, h.own, h.replied⟩

section Runs

variable {toRoot : Protobuf MessageToRoot} {fromRoot : Protobuf MessageFromRoot}
  {joiners : List Nat} {files : Nat → FileManager} {acts : List Act} {s : State}

-- What the nodes have to say and what the root answers goes through the generated code unharmed.
structure Sendable (toRoot : Protobuf MessageToRoot) (fromRoot : Protobuf MessageFromRoot)
    (joiners : List Nat) (files : Nat → FileManager) : Prop where
  words : ∀ n ∈ joiners, ∀ word ∈ (files n).start, toRoot.Faithful (Sender.message .add word)
  reply : fromRoot.Faithful ⟨false⟩

theorem script_carried (hsend : Sendable toRoot fromRoot joiners files) (n : Nat) :
    ∀ q ∈ script joiners files n, (system toRoot fromRoot).requestLine.Carries q := by
  intro q hq
  rw [script] at hq
  split at hq
  · rename_i hn
    obtain ⟨word, hword, rfl⟩ := List.mem_map.mp hq
    exact Connection.line_carries (hsend.words n hn word hword)
  · cases hq

theorem reply_carried (hsend : Sendable toRoot fromRoot joiners files) (s : State) (act : Act) :
    (system toRoot fromRoot).ReplyCarried s act := by
  cases act with
  | serve n =>
      intro request requests server reply _ hhandle
      obtain ⟨avl, -, heq⟩ := Option.bind_eq_some_iff.mp hhandle
      cases heq
      exact Connection.line_carries hsend.reply
  | _ => trivial

theorem run_progress (hsend : Sendable toRoot fromRoot joiners files)
    (hrun : Runs.run (step toRoot fromRoot) (start toRoot fromRoot tree joiners files) acts = some s)
    (n : Nat) : ∃ pending,
      Calls.Progress (system toRoot fromRoot) n (script joiners files n) acts s pending :=
  Calls.run_progress (script_carried hsend)
    (Runs.along_of_forall (reply_carried hsend) acts _) hrun n

theorem step_logged (s : State) (act : Act) (s' : State)
    (hs : Logged tree own s.served s.server) (hstep : step toRoot fromRoot s act = some s') :
    Logged tree own s'.served s'.server := by
  replace hstep : (system toRoot fromRoot).step s act = some s' := hstep
  exact Calls.step_served (J := Logged tree own)
    (fun _ _ _ _ _ _ h hhandle => handle_logged h hhandle)
    (fun _ _ _ _ h hwork => work_logged h hwork) s act s' hs hstep

theorem run_logged
    (hrun : Runs.run (step toRoot fromRoot) (start toRoot fromRoot tree joiners files) acts = some s) :
    Logged tree (files 1).start s.served s.server := by
  refine Runs.run_invariant (I := fun s => Logged tree (files 1).start s.served s.server) ?_ acts _
    s (start_logged tree (files 1).start) hrun
  exact step_logged

def frame (toRoot : Protobuf MessageToRoot) (word : Word) : Buffer :=
  MessageParser.parseMsg (toRoot.serializeToArray (Sender.message .add word))

-- A node's words are, in this order, those submitted, at most one on its connection and those that
-- it has still to send.
def Delivered (toRoot : Protobuf MessageToRoot) (s : State) (n : Nat) (words : List Word) : Prop :=
  ∃ done sent left : List Word, words = done ++ sent ++ left ∧ sent.length ≤ 1 ∧
    s.server.submittedBy (some n) = added done ∧ s.requests n = sent.flatMap (frame toRoot) ∧
    s.todo n = left.map (Sender.message .add)

theorem submits_messages (words : List Word) :
    ((words.map (Sender.message .add)).map some).flatMap submits = added words := by
  induction words with
  | nil => rfl
  | cons word words ih =>
      simp only [List.map_cons, List.flatMap_cons, ih]
      rfl

theorem flow_submitted {n : Nat} (words : List Word)
    {pending : Calls.Pending MessageToRoot MessageFromRoot}
    (hlog : Logged tree own s.served s.server)
    (hflow : Calls.Flow (system toRoot fromRoot) s n (words.map (Sender.message .add)) pending) :
    Delivered toRoot s n words := by
  obtain ⟨past, hpast, hscript⟩ := hflow.script
  obtain ⟨front, left, rfl, hfront, hleft⟩ := List.map_eq_append_iff.mp hscript
  obtain ⟨done, sent, rfl, hdone, hsent⟩ := List.map_eq_append_iff.mp hfront
  have hsubmitted : s.server.submittedBy (some n) = added done := by
    rw [hlog.served n, ← submits_messages, hdone, ← hpast, List.flatMap_map]
    rfl
  have hline : s.requests n = pending.requestOn (Connection.line toRoot) := hflow.requestLine
  refine ⟨done, sent, left, rfl, ?_, hsubmitted, ?_, hleft.symm⟩
  · have hlength := congrArg List.length hsent
    rw [List.length_map] at hlength
    rw [hlength]
    cases pending <;> simp [Calls.Pending.asked]
  · rw [hline]
    cases pending with
    | request q =>
        obtain ⟨word, rfl, hword⟩ := List.map_eq_singleton_iff.mp hsent
        simp [Calls.Pending.requestOn, Connection.line, frame, hword]
    | _ =>
        obtain rfl := List.map_eq_nil_iff.mp hsent
        rfl

theorem run_delivered (hsend : Sendable toRoot fromRoot joiners files)
    (hrun : Runs.run (step toRoot fromRoot) (start toRoot fromRoot tree joiners files) acts =
      some s) (n : Nat) (hn : n ∈ joiners) : Delivered toRoot s n (files n).start := by
  obtain ⟨pending, hflow, -⟩ := run_progress hsend hrun n
  rw [script, if_pos hn] at hflow
  exact flow_submitted (files n).start (run_logged hrun) hflow

theorem run_others (hsend : Sendable toRoot fromRoot joiners files)
    (hrun : Runs.run (step toRoot fromRoot) (start toRoot fromRoot tree joiners files) acts =
      some s) (n : Nat) (hn : n ∉ joiners) : s.server.submittedBy (some n) = [] := by
  obtain ⟨pending, hflow, -⟩ := run_progress hsend hrun n
  rw [script, if_neg hn] at hflow
  obtain ⟨done, sent, left, hwords, -, hsubmitted, -⟩ :=
    flow_submitted [] (run_logged hrun) hflow
  obtain ⟨rfl, -, -⟩ : done = [] ∧ sent = [] ∧ left = [] := by simpa using hwords.symm
  exact hsubmitted

theorem words_delivered (hsend : Sendable toRoot fromRoot joiners files)
    (hrun : Runs.run (step toRoot fromRoot) (start toRoot fromRoot tree joiners files) acts =
      some s) :
    s.server.avl.submitted = s.server.log.map Prod.snd ∧
      (∀ n ∈ joiners, Delivered toRoot s n (files n).start) ∧
      (∀ n, n ∉ joiners → s.server.submittedBy (some n) = []) ∧
      s.server.submittedBy none ++ added s.server.words = added (files 1).start :=
  ⟨(run_logged hrun).submitted, run_delivered hsend hrun, run_others hsend hrun,
    (run_logged hrun).own⟩

end Runs

-- The bytes of a word shorter than 128: the type in field 1, the word in field 2.
def shortToRoot : Protobuf MessageToRoot where
  serializeToArray := fun msg =>
    let type : Buffer := match msg.type with
      | .heartbeat => [8, 0]
      | .addWord => [8, 1]
      | .removeWord => [8, 2]
    type ++ match msg.word with
      | some word => [18, BitVec.ofNat 8 word.length] ++ word.map BitVec.ofFin
      | none => []
  parseFromArray := fun bytes =>
    let type : BitVec 8 → Option AVLTree.RootMessageType := fun c =>
      if c = 0 then some .heartbeat else if c = 1 then some .addWord
      else if c = 2 then some .removeWord else none
    match bytes with
    | [8, c] => (type c).map fun type => ⟨type, none⟩
    | 8 :: c :: 18 :: n :: word =>
        if n.toNat = word.length then (type c).map fun type => ⟨type, some (word.map BitVec.toFin)⟩
        else none
    | _ => none

def shortFromRoot : Protobuf MessageFromRoot where
  serializeToArray := fun msg => [8, if msg.reset then 1 else 0]
  parseFromArray := fun bytes =>
    match bytes with
    | [8, c] => some ⟨decide (c ≠ 0)⟩
    | _ => none

def testFiles (n : Nat) : FileManager := FileManager.create (decide (n = 1))

theorem testFiles_sendable : Sendable shortToRoot shortFromRoot [2] testFiles where
  words := by
    have hwords : ∀ word ∈ FileManager.testWords,
        shortToRoot.Faithful (Sender.message .add word) := by
      simp only [Protobuf.Faithful]
      decide
    intro n _ word hword
    exact hwords word hword
  reply := ⟨rfl, by decide⟩

theorem words_delivered_two : ∃ s, Runs.run (step shortToRoot shortFromRoot)
    (start shortToRoot shortFromRoot .fresh [2] testFiles) [.call 2, .own .insert, .serve 2] =
      some s ∧
    s.server.avl.submitted = s.server.log.map Prod.snd ∧
      (∀ n ∈ [2], Delivered shortToRoot s n (testFiles n).start) ∧
      (∀ n, n ∉ [2] → s.server.submittedBy (some n) = []) ∧
      s.server.submittedBy none ++ added s.server.words = added (testFiles 1).start := by
  obtain ⟨s, hrun⟩ : ∃ s, Runs.run (step shortToRoot shortFromRoot)
      (start shortToRoot shortFromRoot .fresh [2] testFiles)
        [.call 2, .own .insert, .serve 2] = some s := ⟨_, rfl⟩
  exact ⟨s, hrun, words_delivered testFiles_sendable hrun⟩

end RootDutiesManager

end DistributedAvl
