import DistributedAvl.Remote.Distributed
import DistributedAvl.Worker.Conservation

namespace DistributedAvl

namespace AVLTree

open NodePtr

variable {P : Word → Prop} {t t' : NodePtr} {f : Word → Int} {operations : List (Kind × Word)}

def adds (operations : List (Kind × Word)) : List Word :=
  (operations.filter fun operation => decide (operation.1 = .add)).map Prod.snd

theorem apply_booked {kind : Kind} {word : Word} (hP : ∀ w ∈ adds [(kind, word)], P w)
    (ht : Booked P t f) (hdo : apply t (kind, word) = some t') :
    Booked P t' fun v => f v + (adds [(kind, word)]).count v := by
  cases kind with
  | add =>
      have hword : P word := hP word (by simp [adds])
      refine (insert_booked hword ht.reckoned hdo).trans fun v => ?_
      have hone : ∀ v, ((adds [(Kind.add, word)]).count v : Int) = share word 1 v := fun v => by
        simpa [adds] using count_share word v []
      have := ht.total v
      rw [hone, hone]
      omega
  | remove =>
      refine (remove_upTo ht.reckoned hdo).booked.trans fun v => ?_
      simpa [adds] using ht.total v

theorem run_booked (hP : ∀ w ∈ adds operations, P w) (ht : Booked P t f)
    (hrun : Runs.run apply t operations = some t') :
    Booked P t' fun v => f v + (adds operations).count v := by
  induction operations generalizing t f with
  | nil =>
      cases hrun
      simpa [adds] using ht
  | cons operation operations ih =>
      obtain ⟨kind, word⟩ := operation
      obtain ⟨t₁, h₁, h₂⟩ := Option.bind_eq_some_iff.mp hrun
      have hsplit : adds ((kind, word) :: operations) =
          adds [(kind, word)] ++ adds operations := by
        rw [adds, adds, adds, ← List.map_append, ← List.filter_append]
        rfl
      rw [hsplit] at hP ⊢
      have hfirst := apply_booked (fun w hw => hP w (by simp [hw])) ht h₁
      refine (ih (fun w hw => hP w (by simp [hw])) hfirst h₂).trans fun v => ?_
      rw [List.count_append, List.count_append]
      omega

-- Over any number of machines, whatever is rotated, pushed, fetched or dropped on the way.
theorem operations_total (ht : t.Reckoned P) (hP : ∀ w ∈ adds operations, P w)
    (hrun : Runs.run apply t operations = some t') :
    t'.Reckoned P ∧ ∀ v, t'.total v + t'.total [] ≤
      t.total v + (adds operations).count v + (t.total [] + (adds operations).count []) := by
  have hbooked := run_booked hP ht.upTo.booked hrun
  exact ⟨hbooked.reckoned, hbooked.total⟩

-- b goes to the right machine, c below it; looking for the absent d empties that machine.
theorem operations_total_machines : ∃ t',
    Runs.run apply (node (remote fresh) (-1) [] 0 (remote fresh))
      [(.add, [97]), (.add, [98]), (.add, [99]), (.remove, [100])] = some t' ∧
      (t'.Reckoned fun w => w ∈ [[97], [98], [99]]) ∧ ∀ v, t'.total v + t'.total [] ≤
        (node (remote fresh) (-1) [] 0 (remote fresh)).total v +
          (adds [(.add, [97]), (.add, [98]), (.add, [99]), (.remove, [100])]).count v +
          ((node (remote fresh) (-1) [] 0 (remote fresh)).total [] +
            (adds [(.add, [97]), (.add, [98]), (.add, [99]), (.remove, [100])]).count []) := by
  obtain ⟨t', hrun⟩ : ∃ t', Runs.run apply (node (remote fresh) (-1) [] 0 (remote fresh))
      [(.add, [97]), (.add, [98]), (.add, [99]), (.remove, [100])] = some t' := ⟨_, rfl⟩
  have hstart : (node (remote fresh) (-1) [] 0 (remote fresh)).Reckoned
      fun w => w ∈ [[97], [98], [99]] :=
    ⟨le_refl _, le_refl _, fun hne => absurd rfl hne, fresh_reckoned, fresh_reckoned⟩
  exact ⟨t', hrun, operations_total hstart (by decide) hrun⟩

theorem adds_count (operations : List (Kind × Word)) (v : Word) :
    (adds operations).count v ≤ (operations.map Prod.snd).count v :=
  (List.filter_sublist.map Prod.snd).count_le v

-- The worker may pair a word with the wrong call, so what counts is how often it was submitted.
theorem Conserved.booked {tree root : NodePtr} {s : State} (hs : Conserved tree s)
    (htree : tree.Reckoned P) (hP : ∀ w ∈ s.submitted.map Prod.snd, P w)
    (hroot : s.root = some root) :
    Booked P root fun v => tree.total v + (s.submitted.map Prod.snd).count v := by
  have happlied : ∀ v, (s.applied.map Prod.snd).count v ≤ (s.submitted.map Prod.snd).count v := by
    intro v
    rw [← hs.words.count_eq, List.count_append]
    exact Nat.le_add_right _ _
  have hadds : ∀ w ∈ adds s.applied, P w := by
    intro w hw
    have := List.count_pos_iff.mpr hw
    have := adds_count s.applied w
    have := happlied w
    exact hP w (List.count_pos_iff.mp (by omega))
  refine (run_booked hadds htree.upTo.booked (hs.root.symm.trans hroot)).trans fun v => ?_
  have hle : ∀ v, (adds s.applied).count v ≤ (s.submitted.map Prod.snd).count v :=
    fun v => (adds_count s.applied v).trans (happlied v)
  have := hle v
  have := hle []
  omega

theorem worker_total {tree root : NodePtr} {actions : List Action} {s : State}
    (htree : tree.Reckoned P) (hrun : Runs.run step (start tree) actions = some s)
    (hP : ∀ w ∈ s.submitted.map Prod.snd, P w) (hroot : s.root = some root) :
    root.Reckoned P ∧ ∀ v, root.total v + root.total [] ≤
      tree.total v + (s.submitted.map Prod.snd).count v +
        (tree.total [] + (s.submitted.map Prod.snd).count []) := by
  have hs := Runs.run_invariant (step_conserved tree) actions _ s (start_conserved tree) hrun
  have hbooked := hs.booked htree hP hroot
  exact ⟨hbooked.reckoned, hbooked.total⟩

-- The first turn adds b, which client 2 wanted removed.
theorem worker_total_crossed : ∃ s root,
    Runs.run step (start (node (remote fresh) (-1) [] 0 (remote fresh)))
      [.insert [97], .message 2 (some ⟨.removeWord, some [98]⟩), .invoke] = some s ∧
    s.root = some root ∧ (root.Reckoned fun w => w ∈ [[97], [98]]) ∧
      ∀ v, root.total v + root.total [] ≤
        (node (remote fresh) (-1) [] 0 (remote fresh)).total v +
            (s.submitted.map Prod.snd).count v +
          ((node (remote fresh) (-1) [] 0 (remote fresh)).total [] +
            (s.submitted.map Prod.snd).count []) := by
  obtain ⟨s, root, hrun, hroot, hwords⟩ : ∃ s root,
      Runs.run step (start (node (remote fresh) (-1) [] 0 (remote fresh)))
        [.insert [97], .message 2 (some ⟨.removeWord, some [98]⟩), .invoke] = some s ∧
      s.root = some root ∧ s.submitted.map Prod.snd = [[97], [98]] := ⟨_, _, rfl, rfl, rfl⟩
  have hstart : (node (remote fresh) (-1) [] 0 (remote fresh)).Reckoned
      fun w => w ∈ [[97], [98]] :=
    ⟨le_refl _, le_refl _, fun hne => absurd rfl hne, fresh_reckoned, fresh_reckoned⟩
  exact ⟨s, root, hrun, hroot,
    worker_total hstart hrun (fun w hw => by rwa [hwords] at hw) hroot⟩

end AVLTree

end DistributedAvl
