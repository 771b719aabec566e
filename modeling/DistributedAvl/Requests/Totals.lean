import DistributedAvl.Requests.Completion
import DistributedAvl.Worker.Totals
import Mathlib.Data.List.Flatten

namespace DistributedAvl

open AVLTree (Kind MessageToRoot)

namespace RootDutiesManager

variable {toRoot : Protobuf MessageToRoot} {fromRoot : Protobuf MessageFromRoot}
  {tree root : NodePtr} {joiners : List Nat} {files : Nat → FileManager} {acts : List Act}
  {s : State}

theorem added_snd (words : List Word) : (added words).map Prod.snd = words := by
  simp [added, Function.comp_def]

theorem submitted_subperm (hjoiners : joiners.Nodup)
    (hsend : Sendable toRoot fromRoot joiners files)
    (hrun : Runs.run (step toRoot fromRoot) (start toRoot fromRoot tree joiners files) acts =
      some s) :
    (s.server.avl.submitted.map Prod.snd).Subperm (allWords joiners files) := by
  have hlog := run_logged hrun
  have hperm := (submitted_perm hjoiners hlog.submitted (run_others hsend hrun)).map Prod.snd
  rw [List.map_append, List.map_flatMap] at hperm
  have hown : ((s.server.submittedBy none).map Prod.snd).Sublist (files 1).start := by
    have hsplit := congrArg (List.map Prod.snd) hlog.own
    rw [List.map_append, added_snd, added_snd] at hsplit
    rw [← hsplit]
    exact List.sublist_append_left _ _
  have hjoined : ∀ n ∈ joiners,
      ((s.server.submittedBy (some n)).map Prod.snd).Sublist (files n).start := by
    intro n hn
    obtain ⟨done, sent, left, hwords, -, hsubmitted, -⟩ := run_delivered hsend hrun n hn
    rw [hsubmitted, added_snd, hwords, List.append_assoc]
    exact List.sublist_append_left _ _
  exact ⟨_, hperm.symm, hown.append (List.Sublist.flatMap_right joiners hjoined)⟩

theorem words_total (hjoiners : joiners.Nodup) (hsend : Sendable toRoot fromRoot joiners files)
    (htree : tree.Reckoned fun w => w ∈ allWords joiners files)
    (hrun : Runs.run (step toRoot fromRoot) (start toRoot fromRoot tree joiners files) acts =
      some s) (hroot : s.server.avl.root = some root) :
    (root.Reckoned fun w => w ∈ allWords joiners files) ∧
      ∀ v, root.total v + root.total [] ≤ tree.total v + (allWords joiners files).count v +
        (tree.total [] + (allWords joiners files).count []) := by
  have hsubperm := submitted_subperm hjoiners hsend hrun
  have hbooked := (run_logged hrun).conserved.booked htree (fun w hw => hsubperm.subset hw) hroot
  refine ⟨hbooked.reckoned, fun v => (hbooked.total v).trans ?_⟩
  have := hsubperm.count_le v
  have := hsubperm.count_le []
  omega

theorem words_total_two : ∃ s root,
    Runs.run (step shortToRoot shortFromRoot)
      (start shortToRoot shortFromRoot (.node (.remote .fresh) (-1) [] 0 .null) [2] testFiles)
        [.call 2, .own .insert, .serve 2, .own .invoke] = some s ∧
    s.server.avl.root = some root ∧
    (root.Reckoned fun w => w ∈ allWords [2] testFiles) ∧
      ∀ v, root.total v + root.total [] ≤
        (NodePtr.node (.remote .fresh) (-1) [] 0 .null).total v +
          (allWords [2] testFiles).count v +
          ((NodePtr.node (.remote .fresh) (-1) [] 0 .null).total [] +
            (allWords [2] testFiles).count []) := by
  obtain ⟨s, root, hrun, hroot⟩ : ∃ s root, Runs.run (step shortToRoot shortFromRoot)
      (start shortToRoot shortFromRoot (.node (.remote .fresh) (-1) [] 0 .null) [2] testFiles)
        [.call 2, .own .insert, .serve 2, .own .invoke] = some s ∧
      s.server.avl.root = some root := ⟨_, _, rfl, rfl⟩
  have hstart : (NodePtr.node (.remote .fresh) (-1) [] 0 .null).Reckoned
      fun w => w ∈ allWords [2] testFiles :=
    ⟨le_refl _, le_refl _, fun hne => absurd rfl hne, NodePtr.fresh_reckoned, trivial⟩
  exact ⟨s, root, hrun, hroot,
    words_total (by decide) testFiles_sendable hstart hrun hroot⟩

end RootDutiesManager

end DistributedAvl
