import DistributedAvl.Worker.Pairing

namespace DistributedAvl

namespace AVLTree

def apply (root : NodePtr) (operation : Kind × Word) : Option NodePtr :=
  work root operation.1 operation.2

-- Between the calls and the tree nothing is lost and nothing made up: what has been applied and what
-- waits are together what was submitted, kinds in order and words in some order.
structure Conserved (tree : NodePtr) (s : State) : Prop where
  matched : Matched s
  kinds : s.applied.map Prod.fst ++ s.queue = s.submitted.map Prod.fst
  words : (s.applied.map Prod.snd ++ s.words).Perm (s.submitted.map Prod.snd)
  root : s.root = Runs.run apply tree s.applied

theorem start_conserved (tree : NodePtr) : Conserved tree (start tree) where
  matched := ⟨le_refl _, rfl, rfl⟩
  kinds := rfl
  words := List.Perm.refl _
  root := rfl

theorem submit_conserved {tree : NodePtr} {s : State} (hs : Conserved tree s) (kind : Kind)
    (word : Word) : Conserved tree (submit s kind word) where
  matched := submit_matched hs.matched kind word
  kinds := by simp [submit, ← hs.kinds]
  words := by
    have hwords := hs.words.append_right [word]
    simpa [submit] using hwords
  root := hs.root

theorem run_snoc {tree : NodePtr} {root : NodePtr} {applied : List (Kind × Word)}
    (hrun : Runs.run apply tree applied = some root) (kind : Kind) (word : Word) :
    Runs.run apply tree (applied ++ [(kind, word)]) = work root kind word := by
  rw [Runs.run_append, hrun, Option.bind_some]
  simp [Runs.run, apply]

theorem invoke_conserved {tree root : NodePtr} {s : State} (hs : Conserved tree s)
    (hroot : s.root = some root) : Conserved tree (invoke s root) := by
  have hmatched := invoke_matched hs.matched root
  rcases invoke_cases hs.matched root with ⟨-, heq⟩ | ⟨kind, queue, word, word', hq, hlast, -, heq⟩
  · rw [heq]; exact hs
  · rw [heq] at hmatched ⊢
    have hkinds := hs.kinds
    have hwords := hs.words
    have hsplit : s.words.dropLast ++ [word] = s.words :=
      List.dropLast_append_getLast? word hlast
    rw [hq] at hkinds
    refine ⟨hmatched, by simpa using hkinds, ?_, ?_⟩
    · rw [← hsplit] at hwords
      refine List.Perm.trans ?_ hwords
      simp only [List.map_append, List.map_cons, List.map_nil, List.append_assoc]
      exact (List.perm_append_comm).append_left _
    · exact (run_snoc (hs.root.symm.trans hroot) kind word).symm

theorem step_conserved (tree : NodePtr) (s : State) (action : Action) (s' : State)
    (hs : Conserved tree s) (h : step s action = some s') : Conserved tree s' := by
  obtain ⟨root, hroot, h⟩ := Option.bind_eq_some_iff.mp h
  cases action with
  | insert word => cases h; exact submit_conserved hs .add word
  | remove word => cases h; exact submit_conserved hs .remove word
  | message client msg =>
      cases h
      rcases parseMessage_submit s msg with heq | ⟨kind, word, heq⟩ <;> rw [heq]
      · exact hs
      · exact submit_conserved hs kind word
  | invoke => cases h; exact invoke_conserved hs hroot

-- The worker pairs words with the wrong operations, but it loses and doubles none of them.
theorem worker_conserves (tree : NodePtr) {actions : List Action} {s : State}
    (hrun : Runs.run step (start tree) actions = some s) :
    s.applied.map Prod.fst ++ s.queue = s.submitted.map Prod.fst ∧
      (s.applied.map Prod.snd ++ s.words).Perm (s.submitted.map Prod.snd) ∧
      s.words.length = s.queue.length ∧ s.root = Runs.run apply tree s.applied := by
  have hs := Runs.run_invariant (step_conserved tree) actions _ s (start_conserved tree) hrun
  exact ⟨hs.kinds, hs.words, hs.matched.words, hs.root⟩

theorem worker_conserves_crossed : ∃ s,
    Runs.run step (start .fresh) [.insert [97], .message 2 (some ⟨.removeWord, some [98]⟩),
      .invoke] = some s ∧
      s.applied.map Prod.fst ++ s.queue = s.submitted.map Prod.fst ∧
      (s.applied.map Prod.snd ++ s.words).Perm (s.submitted.map Prod.snd) ∧
      s.words.length = s.queue.length ∧ s.root = Runs.run apply .fresh s.applied := by
  obtain ⟨s, hrun⟩ : ∃ s, Runs.run step (start .fresh) [.insert [97],
      .message 2 (some ⟨.removeWord, some [98]⟩), .invoke] = some s := ⟨_, rfl⟩
  exact ⟨s, hrun, worker_conserves .fresh hrun⟩

end AVLTree

end DistributedAvl
