import DistributedAvl.Requests.Delivery
import Mathlib.Data.List.Nodup
import Mathlib.Algebra.BigOperators.Ring.List
import Mathlib.Algebra.Order.BigOperators.Group.List
import Mathlib.Algebra.Order.Ring.Nat

namespace DistributedAvl

open AVLTree (Kind MessageToRoot)

theorem AVLTree.apply_added (tree : NodePtr) (words : List Word) :
    Runs.run AVLTree.apply tree (RootDutiesManager.added words) = tree.insertAll words := by
  induction words generalizing tree with
  | nil => rfl
  | cons word words ih =>
      change (tree.insert word).bind _ = (tree.insert word).bind _
      cases tree.insert word with
      | none => rfl
      | some root => exact ih root

namespace RootDutiesManager

variable {toRoot : Protobuf MessageToRoot} {fromRoot : Protobuf MessageFromRoot}
  {tree : NodePtr} {joiners : List Nat} {files : Nat → FileManager} {acts : List Act} {s : State}

-- All the words there are: the root's own and those of the nodes that have joined.
def allWords (joiners : List Nat) (files : Nat → FileManager) : List Word :=
  (files 1).start ++ joiners.flatMap fun n => (files n).start

def origins (joiners : List Nat) : List (Option Nat) := none :: joiners.map some

theorem origins_nodup (hjoiners : joiners.Nodup) : (origins joiners).Nodup := by
  refine List.nodup_cons.mpr ⟨by simp, ?_⟩
  exact List.Nodup.map (Option.some_injective Nat) hjoiners

theorem submitted_perm (hjoiners : joiners.Nodup) {root : Root}
    (hlog : root.avl.submitted = root.log.map Prod.snd)
    (hothers : ∀ n, n ∉ joiners → root.submittedBy (some n) = []) :
    root.avl.submitted.Perm
      (root.submittedBy none ++ joiners.flatMap fun n => root.submittedBy (some n)) := by
  have hkeys : ∀ p ∈ root.log, p.1 ∈ origins joiners := by
    rintro ⟨origin, call⟩ hp
    cases origin with
    | none => simp [origins]
    | some n =>
        by_contra hn
        have hnone := hothers n (by simpa [origins] using hn)
        have hmem : call ∈ root.submittedBy (some n) :=
          List.mem_map.mpr ⟨(some n, call), List.mem_filter.mpr ⟨hp, by simp⟩, rfl⟩
        rw [hnone] at hmem
        cases hmem
  have hperm := (Calls.perm_by_key Prod.fst (origins_nodup hjoiners) hkeys).map Prod.snd
  rw [hlog]
  refine hperm.trans (List.Perm.of_eq ?_)
  rw [origins, List.flatMap_cons, List.map_append, List.flatMap_map, List.map_flatMap]
  rfl

-- How often the worker and the root's FileManager have had their turn.
structure Turns (past : List Act) (root : Root) : Prop where
  inserts : past.countP (fun act => decide (act = .own .insert)) = (root.submittedBy none).length
  invokes : past.countP (fun act => decide (act = .own .invoke)) = root.avl.applied.length

theorem message_applied {avl avl' : AVLTree.State} {client : Nat} {msg : Option MessageToRoot}
    (h : AVLTree.step avl (.message client msg) = some avl') : avl'.applied = avl.applied := by
  obtain ⟨root, -, h⟩ := Option.bind_eq_some_iff.mp h
  cases h
  rcases AVLTree.parseMessage_submit avl msg with heq | ⟨kind, word, heq⟩ <;> rw [heq]
  rfl

theorem invoke_applied {avl avl' : AVLTree.State} (hmatched : AVLTree.Matched avl)
    (hqueue : avl.queue ≠ []) (h : AVLTree.step avl .invoke = some avl') :
    avl'.applied.length = avl.applied.length + 1 := by
  obtain ⟨root, -, h⟩ := Option.bind_eq_some_iff.mp h
  cases h
  rcases AVLTree.invoke_cases hmatched root with ⟨hq, -⟩ | ⟨kind, queue, word, word', -, -, -, heq⟩
  · exact absurd hq hqueue
  · rw [heq]
    simp

theorem step_turns {own : List Word} {past : List Act} {s' : State} {act : Act}
    (hlog : Logged tree own s.served s.server) (hs : Turns past s.server)
    (hstep : step toRoot fromRoot s act = some s') : Turns (past ++ [act]) s'.server := by
  cases act with
  | call n =>
      obtain ⟨request, todo, -, -, rfl⟩ := Calls.System.call_cases hstep
      exact ⟨by simpa using hs.inserts, by simpa using hs.invokes⟩
  | serve n =>
      obtain ⟨request, requests, server, reply, -, hhandle, rfl⟩ := Calls.System.serve_cases hstep
      obtain ⟨avl, havl, heq⟩ := Option.bind_eq_some_iff.mp hhandle
      cases heq
      refine ⟨?_, ?_⟩
      · simpa [Root.submittedBy, List.filter_append, List.filter_map, Function.comp_def] using
          hs.inserts
      · simpa [message_applied havl] using hs.invokes
  | take n =>
      obtain ⟨-, reply, replies, -, rfl⟩ := Calls.System.take_cases hstep
      exact ⟨by simpa using hs.inserts, by simpa using hs.invokes⟩
  | own act =>
      obtain ⟨root, hwork, heq⟩ := Option.bind_eq_some_iff.mp hstep
      cases heq
      cases act with
      | insert =>
          change work s.server .insert = some root at hwork
          rw [work] at hwork
          cases hwords : s.server.words with
          | nil => simp [hwords] at hwork
          | cons word words =>
              rw [hwords] at hwork
              obtain ⟨avl, havl, heq⟩ := Option.bind_eq_some_iff.mp hwork
              cases heq
              obtain ⟨tree, -, heq⟩ := Option.bind_eq_some_iff.mp havl
              cases heq
              refine ⟨?_, by simpa [AVLTree.insert, AVLTree.submit] using hs.invokes⟩
              simpa [Root.submittedBy, List.filter_append] using hs.inserts
      | invoke =>
          obtain ⟨hqueue, hwork⟩ := Option.ite_none_left_eq_some.mp hwork
          obtain ⟨avl, havl, heq⟩ := Option.bind_eq_some_iff.mp hwork
          cases heq
          refine ⟨by simpa [Root.submittedBy] using hs.inserts, ?_⟩
          have hlength := invoke_applied hlog.conserved.matched hqueue havl
          simp [List.countP_append, hs.invokes, hlength]

theorem run_turns
    (hrun : Runs.run (step toRoot fromRoot) (start toRoot fromRoot tree joiners files) acts =
      some s) : Turns acts s.server := by
  have hhistory := Runs.along_history (C := fun _ _ => True)
    (I := fun past s => Logged tree (files 1).start s.served s.server ∧ Turns past s.server)
    (fun past s act s' hs _ hstep => ⟨step_logged s act s' hs.1 hstep, step_turns hs.1 hs.2 hstep⟩)
    acts [] _ s ⟨start_logged tree _, ⟨rfl, rfl⟩⟩ (Runs.along_of_forall (fun _ _ => trivial) acts _)
    hrun
  simpa using hhistory.2

def turn : Act → Nat ⊕ Local
  | .call n => .inl n
  | .serve n => .inl n
  | .take n => .inl n
  | .own act => .inr act

theorem isOf_turn (n : Nat) :
    (Calls.Act.isOf n : Act → Bool) = fun act => decide (turn act = .inl n) := by
  funext act
  cases act <;> simp [Calls.Act.isOf, turn]

theorem own_turn (act : Act) (a : Local) : decide (act = .own a) = decide (turn act = .inr a) := by
  cases act <;> simp [turn]

def turns (joiners : List Nat) : List (Nat ⊕ Local) :=
  [.inr .insert, .inr .invoke] ++ joiners.map .inl

theorem turns_nodup (hjoiners : joiners.Nodup) : (turns joiners).Nodup := by
  have hmap : (joiners.map (Sum.inl : Nat → Nat ⊕ Local)).Nodup :=
    List.Nodup.map Sum.inl_injective hjoiners
  simp [turns, hmap]

theorem acts_length (hjoiners : joiners.Nodup)
    (hothers : ∀ n, n ∉ joiners → acts.countP (Calls.Act.isOf n) = 0) :
    acts.length = acts.countP (fun act => decide (act = .own .insert)) +
      acts.countP (fun act => decide (act = .own .invoke)) +
      (joiners.map fun n => acts.countP (Calls.Act.isOf n)).sum := by
  have hkeys : ∀ act ∈ acts, turn act ∈ turns joiners := by
    intro act hact
    cases hturn : turn act with
    | inr a => cases a <;> simp [turns]
    | inl n =>
        by_contra hn
        have hzero := List.countP_eq_zero.mp (hothers n (by simpa [turns] using hn)) act hact
        simp [isOf_turn, hturn] at hzero
  have hlength := (Calls.perm_by_key turn (turns_nodup hjoiners) hkeys).length_eq
  rw [hlength, List.length_flatMap]
  simp only [turns, List.map_append, List.map_cons, List.map_nil, List.sum_append, List.sum_cons,
    List.sum_nil, List.map_map, Function.comp_def, ← List.countP_eq_length_filter, isOf_turn,
    own_turn]
  omega

theorem delivered_le {n : Nat} {words : List Word} (h : Delivered toRoot s n words) :
    (s.server.submittedBy (some n)).length ≤ words.length := by
  obtain ⟨done, sent, left, rfl, -, hsubmitted, -⟩ := h
  rw [hsubmitted]
  simp only [added, List.length_map, List.length_append]
  omega

theorem allWords_length (joiners : List Nat) (files : Nat → FileManager) :
    (allWords joiners files).length =
      (files 1).start.length + (joiners.map fun n => (files n).start.length).sum := by
  simp [allWords, List.length_flatMap]

theorem acts_bound (hjoiners : joiners.Nodup) (hsend : Sendable toRoot fromRoot joiners files)
    (hrun : Runs.run (step toRoot fromRoot) (start toRoot fromRoot tree joiners files) acts =
      some s) : acts.length ≤ 4 * (allWords joiners files).length := by
  obtain ⟨hinserts, hinvokes⟩ := run_turns hrun
  have hlog := run_logged hrun
  have hsteps : ∀ n, acts.countP (Calls.Act.isOf n) ≤ 3 * (script joiners files n).length := by
    intro n
    obtain ⟨pending, -, hcount⟩ := run_progress hsend hrun n
    omega
  have hothers : ∀ n, n ∉ joiners → acts.countP (Calls.Act.isOf n) = 0 := by
    intro n hn
    have := hsteps n
    rw [script, if_neg hn] at this
    simpa using this
  have hcallers : (joiners.map fun n => acts.countP (Calls.Act.isOf n)).sum ≤
      3 * (joiners.map fun n => (files n).start.length).sum := by
    rw [← List.sum_map_mul_left]
    refine List.sum_le_sum fun n hn => ?_
    have := hsteps n
    rwa [script, if_pos hn, List.length_map] at this
  have hsubmitted := (submitted_perm hjoiners hlog.submitted (run_others hsend hrun)).length_eq
  rw [List.length_append, List.length_flatMap] at hsubmitted
  have hdone : (joiners.map fun n => (s.server.submittedBy (some n)).length).sum ≤
      (joiners.map fun n => (files n).start.length).sum :=
    List.sum_le_sum fun n hn => delivered_le (run_delivered hsend hrun n hn)
  have hown := congrArg List.length hlog.own
  have hkinds := congrArg List.length hlog.conserved.kinds
  simp only [added, List.length_append, List.length_map] at hown hkinds
  have hlength := acts_length hjoiners hothers
  have htotal := allWords_length joiners files
  omega

theorem added_fst {calls : List (Kind × Word)} (h : ∀ call ∈ calls, call.1 = .add) :
    calls = added (calls.map Prod.snd) := by
  rw [added, List.map_map]
  refine ((List.map_congr_left fun call hcall => ?_).trans (List.map_id _)).symm
  exact Prod.ext (h call hcall).symm rfl

theorem flow_done {own words : List Word} {n : Nat} (hlog : Logged tree own s.served s.server)
    (hflow : Calls.Flow (system toRoot fromRoot) s n (words.map (Sender.message .add)) .idle)
    (htodo : s.todo n = []) : s.server.submittedBy (some n) = added words := by
  obtain ⟨past, hpast, hscript⟩ := hflow.script
  obtain rfl : words.map (Sender.message .add) = past := by
    simpa [Calls.Pending.asked, htodo] using hscript
  rw [hlog.served n, ← submits_messages, ← hpast, List.flatMap_map]
  rfl

theorem never_silent {own : List Word} {n : Nat} {q : List MessageToRoot}
    (hlog : Logged tree own s.served s.server) :
    ¬ Calls.Flow (system toRoot fromRoot) s n q .silence := by
  intro hflow
  have hmem : none ∈ (s.servedTo n).map Calls.Served.reply := by
    rw [hflow.replies]
    simp [Calls.Pending.answered]
  obtain ⟨p, hp, hnone⟩ := List.mem_map.mp hmem
  have hreply := hlog.replied p (List.mem_filter.mp hp).1
  rw [hnone] at hreply
  cases hreply

theorem joiner_done (hsend : Sendable toRoot fromRoot joiners files)
    (hrun : Runs.run (step toRoot fromRoot) (start toRoot fromRoot tree joiners files) acts =
      some s) (hstuck : ∀ act, step toRoot fromRoot s act = none)
    (hroot : s.server.avl.root ≠ none) {n : Nat} (hn : n ∈ joiners) :
    s.server.submittedBy (some n) = added (files n).start := by
  have hlog := run_logged hrun
  obtain ⟨pending, hflow, -⟩ := run_progress hsend hrun n
  obtain ⟨root, hroot⟩ := Option.ne_none_iff_exists'.mp hroot
  obtain ⟨rfl, htodo⟩ | ⟨q, -, hhandle⟩ | rfl :=
    hflow.blocked (script_carried hsend n) (hstuck (.call n)) (hstuck (.serve n))
      (hstuck (.take n))
  · rw [script, if_pos hn] at hflow
    exact flow_done hlog hflow htodo
  · simp [system, handleRequests, AVLTree.step, hroot] at hhandle
  · exact absurd hflow (never_silent hlog)

theorem added_append (xs ys : List Word) : added (xs ++ ys) = added xs ++ added ys :=
  List.map_append

theorem stuck_applied (hjoiners : joiners.Nodup) (hsend : Sendable toRoot fromRoot joiners files)
    (hrun : Runs.run (step toRoot fromRoot) (start toRoot fromRoot tree joiners files) acts =
      some s) (hstuck : ∀ act, step toRoot fromRoot s act = none)
    (hroot : s.server.avl.root ≠ none) : ∃ words, words.Perm (allWords joiners files) ∧
      s.server.avl.applied = added words ∧ s.server.avl.root = tree.insertAll words := by
  have hlog := run_logged hrun
  obtain ⟨root, hsome⟩ := Option.ne_none_iff_exists'.mp hroot
  have hwords : s.server.words = [] := by
    have hnone := hstuck (.own .insert)
    cases hwords : s.server.words with
    | nil => rfl
    | cons word words =>
        simp [step, Calls.System.step, system, work, hwords, AVLTree.step, hsome] at hnone
  have hqueue : s.server.avl.queue = [] := by
    have hnone := hstuck (.own .invoke)
    by_contra hne
    simp [step, Calls.System.step, system, work, hne, AVLTree.step, hsome] at hnone
  have hwaiting : s.server.avl.words = [] := by
    have := hlog.conserved.matched.words
    rw [hqueue] at this
    exact List.length_eq_zero_iff.mp this
  have hown := hlog.own
  simp only [hwords, added, List.map_nil, List.append_nil] at hown
  have hsubmitted : s.server.avl.submitted.Perm (added (allWords joiners files)) := by
    refine (submitted_perm hjoiners hlog.submitted (run_others hsend hrun)).trans ?_
    rw [hown, allWords, added_append]
    refine List.Perm.append_left _ (List.Perm.of_eq ?_)
    rw [added, List.map_flatMap]
    exact List.flatMap_congr fun n hn => joiner_done hsend hrun hstuck hroot hn
  have hkinds := hlog.conserved.kinds
  rw [hqueue, List.append_nil] at hkinds
  have hadd : ∀ call ∈ s.server.avl.applied, call.1 = .add := by
    intro call hcall
    have hmem : call.1 ∈ s.server.avl.submitted.map Prod.fst := hkinds ▸ List.mem_map_of_mem hcall
    have hall := (hsubmitted.map Prod.fst).mem_iff.mp hmem
    exact (by simpa [added] using hall : _ ∧ call.1 = .add).2
  have happlied := added_fst hadd
  have hperm := hlog.conserved.words
  rw [hwaiting, List.append_nil] at hperm
  refine ⟨s.server.avl.applied.map Prod.snd, ?_, happlied, ?_⟩
  · have hall := hperm.trans (hsubmitted.map Prod.snd)
    simpa [added, Function.comp_def] using hall
  · rw [hlog.conserved.root, ← AVLTree.apply_added, ← happlied]

theorem deliveries_end (hjoiners : joiners.Nodup) (hsend : Sendable toRoot fromRoot joiners files)
    (hrun : Runs.run (step toRoot fromRoot) (start toRoot fromRoot tree joiners files) acts =
      some s) :
    acts.length ≤ 4 * (allWords joiners files).length ∧
      ((∀ act, step toRoot fromRoot s act = none) → s.server.avl.root ≠ none →
        ∃ words, words.Perm (allWords joiners files) ∧ s.server.avl.applied = added words ∧
          s.server.avl.root = tree.insertAll words) :=
  ⟨acts_bound hjoiners hsend hrun, stuck_applied hjoiners hsend hrun⟩

theorem deliveries_end_two : ∃ s, Runs.run (step shortToRoot shortFromRoot)
    (start shortToRoot shortFromRoot .fresh [2] testFiles)
      [.call 2, .own .insert, .serve 2, .own .invoke, .take 2] = some s ∧
    [Calls.Act.call 2, .own Local.insert, .serve 2, .own .invoke, .take 2].length ≤
      4 * (allWords [2] testFiles).length ∧
    ((∀ act, step shortToRoot shortFromRoot s act = none) → s.server.avl.root ≠ none →
      ∃ words, words.Perm (allWords [2] testFiles) ∧ s.server.avl.applied = added words ∧
        s.server.avl.root = NodePtr.fresh.insertAll words) := by
  obtain ⟨s, hrun⟩ : ∃ s, Runs.run (step shortToRoot shortFromRoot)
      (start shortToRoot shortFromRoot .fresh [2] testFiles)
        [.call 2, .own .insert, .serve 2, .own .invoke, .take 2] = some s := ⟨_, rfl⟩
  exact ⟨s, hrun, deliveries_end (by decide) testFiles_sendable hrun⟩

end RootDutiesManager

end DistributedAvl
