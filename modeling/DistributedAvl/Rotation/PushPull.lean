import DistributedAvl.Rotation.Textbook

namespace DistributedAvl

open SearchTree

namespace NodePtr

variable {l r t : NodePtr} {h : Int} {x : Word} {n : Int}

-- The node's old content, one level down, is all there is below the new root.
def PushesLeft (t : NodePtr) (x : Word) (n : Int) : Prop :=
  ∃ l h, t.pushLeftSubtree x n = some (node l h x n null) ∧ inorder l.shape = inorder t.shape

def PushesRight (t : NodePtr) (x : Word) (n : Int) : Prop :=
  ∃ h r, t.pushRightSubtree x n = some (node null h x n r) ∧ inorder r.shape = inorder t.shape

theorem pushesLeft_iff (ht : t.Stocked) (hp : t.present = true) (x : Word) (n : Int) :
    t.PushesLeft x n ↔ t.LeftChain := by
  obtain ⟨h, l, hpushed, -, -, hkept, hback⟩ := pushedLeft_chain ht x n
  have hpush := pushLeftSubtree_local ht.isLocal x n
  rw [if_pos hp, hpushed] at hpush
  constructor
  · rintro ⟨l', h', hpush', hinorder⟩
    rw [hpush] at hpush'
    cases hpush'
    exact hback hinorder
  · exact fun hchain => ⟨l, h, hpush, congrArg inorder (hkept hchain)⟩

theorem pushesRight_iff (ht : t.Stocked) (hp : t.present = true) (x : Word) (n : Int) :
    t.PushesRight x n ↔ t.RightChain := by
  obtain ⟨h, r, hpushed, -, -, hkept, hback⟩ := pushedRight_chain ht x n
  have hpush := pushRightSubtree_local ht.isLocal x n
  rw [if_pos hp, hpushed] at hpush
  constructor
  · rintro ⟨h', r', hpush', hinorder⟩
    rw [hpush] at hpush'
    cases hpush'
    exact hback hinorder
  · exact fun hchain => ⟨h, r, hpush, congrArg inorder (hkept hchain)⟩

theorem push_inorder_iff (ht : t.Stocked) (hp : t.present = true) (x : Word) (n : Int) :
    (t.PushesLeft x n ↔ t.LeftChain) ∧ (t.PushesRight x n ↔ t.RightChain) :=
  ⟨pushesLeft_iff ht hp x n, pushesRight_iff ht hp x n⟩

theorem push_inorder_iff_pair :
    ((node (node null 0 [97] 1 null) 1 [98] 1 null).PushesLeft [99] 1 ↔
        (node (node null 0 [97] 1 null) 1 [98] 1 null).LeftChain) ∧
      ((node (node null 0 [97] 1 null) 1 [98] 1 null).PushesRight [99] 1 ↔
        (node (node null 0 [97] 1 null) 1 [98] 1 null).RightChain) :=
  push_inorder_iff (by decide) rfl [99] 1

-- c on top of (-, a, b) leaves (b, c, -): b is copied over a.
theorem push_overwrites : ¬ ∀ (t : NodePtr) (x : Word) (n : Int), t.Stocked → t.present = true →
    t.PushesLeft x n ∧ t.PushesRight x n := by
  intro hall
  have ht : (node null 1 [97] 1 (node null 0 [98] 1 null)).Stocked := by decide
  obtain ⟨l, h, hpush, hinorder⟩ := (hall _ [99] 1 ht rfl).1
  have hpushed : (node null 1 [97] 1 (node null 0 [98] 1 null)).pushLeftSubtree [99] 1 =
      some (node (node null 0 [98] 1 null) 1 [99] 1 null) := rfl
  rw [hpushed] at hpush
  cases hpush
  exact absurd hinorder (by decide)

def PullsLeft (t : NodePtr) : Prop :=
  ∃ l t', t.getLeft = some l ∧ t.pullLeftSubtree = some t' ∧ t'.shape = l.shape

def PullsRight (t : NodePtr) : Prop :=
  ∃ r t', t.getRight = some r ∧ t.pullRightSubtree = some t' ∧ t'.shape = r.shape

-- The left part of what is pulled up goes to the right, over the right part if there is one.
theorem pulled_exact_iff (ht : t.AllLocal) (hp : t.present = true) :
    t.pulled.shape = t.shape ↔ t.Leftless := by
  rcases ht.cases with rfl | ⟨a, k, y, m, b, rfl, ha, hb⟩
  · exact absurd hp (by decide)
  · rcases ha.cases with rfl | ⟨_, _, _, _, _, rfl, -, -⟩
    · refine iff_of_true ?_ rfl
      rcases hb.cases with rfl | ⟨_, _, _, _, _, rfl, -, -⟩
      · rfl
      · simp [pulled, shape, ground_shape]
    · refine iff_of_false ?_ ?_
      · simp [pulled, shape]
      · simp [Leftless]

theorem pull_exact_iff (hl : l.AllLocal) (hr : r.AllLocal) (h : Int) (x : Word) (n : Int) :
    (l.present = true → ((node l h x n r).PullsLeft ↔ l.Leftless)) ∧
      (r.present = true → ((node l h x n r).PullsRight ↔ r.Leftless)) := by
  refine ⟨fun hp => ?_, fun hp => ?_⟩
  · rw [← pulled_exact_iff hl hp]
    simp [PullsLeft, getLeft, pullLeftSubtree_local hl hr]
  · rw [← pulled_exact_iff hr hp]
    simp [PullsRight, getRight, pullRightSubtree_local hl hr]

theorem pull_exact_iff_leaves :
    (node (node null 0 [97] 1 null) 1 [98] 1 (node null 0 [99] 1 null)).PullsLeft ↔
      (node null 0 [97] 1 null).Leftless :=
  (pull_exact_iff (l := node null 0 [97] 1 null) (r := node null 0 [99] 1 null) (by decide)
    (by decide) 1 [98] 1).1 rfl

-- Of ((a, b, c), d, -) only b and a are left, a on the right.
theorem pull_misplaces : ¬ ∀ (l r : NodePtr) (h : Int) (x : Word) (n : Int), l.AllLocal →
    r.AllLocal → l.present = true → (node l h x n r).PullsLeft := by
  intro hall
  obtain ⟨l, t', hleft, hpull, hshape⟩ := hall (node (node null 0 [97] 1 null) 1 [98] 1
    (node null 0 [99] 1 null)) null 2 [100] 1 (by decide) trivial rfl
  cases hleft
  have hpulled : (node (node (node null 0 [97] 1 null) 1 [98] 1 (node null 0 [99] 1 null)) 2 [100] 1
      null).pullLeftSubtree = some (node null 1 [98] 1 (node null 0 [97] 1 null)) := rfl
  rw [hpulled] at hpull
  cases hpull
  exact absurd hshape (by decide)

end NodePtr

end DistributedAvl
