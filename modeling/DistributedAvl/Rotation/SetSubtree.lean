import DistributedAvl.Tree.View

namespace DistributedAvl

open SearchTree

namespace NodePtr

variable {l r t : NodePtr} {h : Int} {x : Word} {n : Int}

-- The tree is this node's left child, with the heights it had, and this node's height is above it.
def SetsLeft (t tree : NodePtr) : Prop :=
  ∃ r t', t.getRight = some r ∧ t.setLeftSubtree tree = some t' ∧ t'.getLeft = some tree ∧
    t'.getRight = some r ∧ (r.HeightsExact → t'.getHeight = some t'.realHeight)

def SetsRight (t tree : NodePtr) : Prop :=
  ∃ l t', t.getLeft = some l ∧ t.setRightSubtree tree = some t' ∧ t'.getRight = some tree ∧
    t'.getLeft = some l ∧ (l.HeightsExact → t'.getHeight = some t'.realHeight)

theorem setLeftSubtree_ground (hl : l.AllLocal) (hr : r.AllLocal) (ht : t.AllLocal)
    (hp : t.present = true) (h : Int) (x : Word) (n : Int) :
    (node l h x n r).setLeftSubtree t = some (node t.ground (max 0 r.heightOf + 1) x n r) := by
  rw [setLeftSubtree_local hl hr ht, hungLeft, if_pos hp]

theorem setRightSubtree_ground (hl : l.AllLocal) (hr : r.AllLocal) (ht : t.AllLocal)
    (hp : t.present = true) (h : Int) (x : Word) (n : Int) :
    (node l h x n r).setRightSubtree t = some (node l (max l.heightOf 0 + 1) x n t.ground) := by
  rw [setRightSubtree_local hl hr ht, hungRight, if_pos hp]

-- set_subtree, called on the tree with itself, puts its height back to 0 and changes nothing else.
theorem ground_exact_iff (ht : t.AllLocal) (hp : t.present = true) (hexact : t.HeightsExact) :
    t.ground = t ↔ t.leaf = true := by
  rw [leaf_iff ht]
  rcases ht.cases with rfl | ⟨a, k, y, m, b, rfl, -, -⟩
  · exact absurd hp (by decide)
  · have hk : k = levels (node a k y m b).shape := hexact.1
    rw [← hk, ground, node.injEq]
    exact ⟨fun heq => heq.2.1.symm, fun hzero => ⟨rfl, hzero.symm, rfl, rfl, rfl⟩⟩

theorem above_ground_iff (ht : t.AllLocal) (hp : t.present = true) (hr : r.AllLocal)
    (hexact : r.HeightsExact) :
    max 0 r.heightOf + 1 = max t.ground.realHeight r.realHeight + 1 ↔
      t.leaf = true ∨ t.realHeight ≤ r.realHeight := by
  have hge := (present_levels ht).mp hp
  rw [heightOf_exact hr hexact, leaf_iff ht]
  simp only [realHeight, ground_shape]
  omega

theorem setsLeft_iff (hl : l.AllLocal) (hr : r.AllLocal) (ht : t.AllLocal)
    (hp : t.present = true) (hexact : t.HeightsExact) :
    (node l h x n r).SetsLeft t ↔ t.leaf = true := by
  have hset := setLeftSubtree_ground hl hr ht hp h x n
  rw [← ground_exact_iff ht hp hexact]
  constructor
  · rintro ⟨r', t', -, ht', hleft, -⟩
    rw [hset] at ht'
    cases ht'
    exact Option.some.inj hleft
  · intro hground
    refine ⟨r, _, rfl, hset, congrArg some hground, rfl, fun hr' => congrArg some ?_⟩
    have hleaf := (ground_exact_iff ht hp hexact).mp hground
    exact (above_ground_iff ht hp hr hr').mpr (Or.inl hleaf)

theorem setsRight_iff (hl : l.AllLocal) (hr : r.AllLocal) (ht : t.AllLocal)
    (hp : t.present = true) (hexact : t.HeightsExact) :
    (node l h x n r).SetsRight t ↔ t.leaf = true := by
  have hset := setRightSubtree_ground hl hr ht hp h x n
  rw [← ground_exact_iff ht hp hexact]
  constructor
  · rintro ⟨l', t', -, ht', hright, -⟩
    rw [hset] at ht'
    cases ht'
    exact Option.some.inj hright
  · intro hground
    refine ⟨l, _, rfl, hset, congrArg some hground, rfl, fun hl' => congrArg some ?_⟩
    have hleaf := (ground_exact_iff ht hp hexact).mp hground
    have habove := (above_ground_iff ht hp hl hl').mpr (Or.inl hleaf)
    rw [max_comm, max_comm (realHeight _)] at habove
    exact habove

theorem set_exact_iff (hl : l.AllLocal) (hr : r.AllLocal) (ht : t.AllLocal)
    (hp : t.present = true) (hexact : t.HeightsExact) (h : Int) (x : Word) (n : Int) :
    ((node l h x n r).SetsLeft t ↔ t.leaf = true) ∧
      ((node l h x n r).SetsRight t ↔ t.leaf = true) :=
  ⟨setsLeft_iff hl hr ht hp hexact, setsRight_iff hl hr ht hp hexact⟩

theorem set_exact_iff_between :
    ((node (node null 0 [97] 1 null) 1 [99] 1 (node null 0 [100] 1 null)).SetsLeft
        (node null 0 [98] 1 null) ↔ (node null 0 [98] 1 null).leaf = true) ∧
      ((node (node null 0 [97] 1 null) 1 [99] 1 (node null 0 [100] 1 null)).SetsRight
        (node null 0 [98] 1 null) ↔ (node null 0 [98] 1 null).leaf = true) :=
  set_exact_iff (l := node null 0 [97] 1 null) (r := node null 0 [100] 1 null) (by decide)
    (by decide) (by decide) rfl (by decide) 1 [99] 1

-- Setting (a, b, -) to the left of c leaves 0 as the height of b and 1 as that of c.
theorem set_loses_height : ¬ ∀ (l r t : NodePtr) (h : Int) (x : Word) (n : Int), l.AllLocal →
    r.AllLocal → t.AllLocal → t.present = true → t.HeightsExact →
    (node l h x n r).SetsLeft t ∧ (node l h x n r).SetsRight t := by
  intro hall
  have hexact : (node (node null 0 [97] 1 null) 1 [98] 1 null).HeightsExact := by decide
  obtain ⟨r, t', -, hset, hleft, -⟩ := (hall null null
    (node (node null 0 [97] 1 null) 1 [98] 1 null) 0 [99] 1 trivial trivial (by decide) rfl
    hexact).1
  have hresult : (node null 0 [99] 1 null).setLeftSubtree
      (node (node null 0 [97] 1 null) 1 [98] 1 null) =
        some (node (node (node null 0 [97] 1 null) 0 [98] 1 null) 1 [99] 1 null) := rfl
  rw [hresult] at hset
  cases hset
  exact absurd hleft (by decide)

end NodePtr

end DistributedAvl
