import DistributedAvl.Tree.Valid

namespace DistributedAvl

namespace NodePtr

variable {l r : NodePtr} {h : Int} {x : Word} {n : Int} {w : Word}

theorem pulled_node (t : NodePtr) : ∃ l h x n r, t.pulled = node l h x n r := by
  cases t with
  | null => exact ⟨_, _, _, _, _, rfl⟩
  | remote root => exact ⟨_, _, _, _, _, rfl⟩
  | node a k y m b =>
      simp only [pulled]
      split
      · exact ⟨_, _, _, _, _, rfl⟩
      · split <;> exact ⟨_, _, _, _, _, rfl⟩

theorem equalWord_node : (node l h x n r).equalWord w = some (decide (w = x)) := by
  simp [equalWord, getWord, Word.compare_eq_zero]

theorem greaterWord_node : (node l h x n r).greaterWord w = some (decide (x < w)) := by
  simp [greaterWord, getWord, Word.compare_pos]

theorem remove_counted (hn : 1 < n) :
    (node l h x n r).remove x = some (node l h x (n - 1) r) := by
  have hle : ¬ n - 1 ≤ 0 := by omega
  simp [remove, equalWord_node, decreaseCounter, getCounter, hle]

-- The last occurrence of a word above a right child: whether hasWord is called through the missing
-- left child or find_successor through the missing last left one, a null pointer is followed.
theorem remove_stuck (ht : ValidAvl (node l h x 1 r)) (hr : r.present = true) :
    (node l h x 1 r).remove x = none := by
  have hloc := ht.isLocal
  rcases hloc.2.cases with rfl | ⟨b, k, y, m, c, rfl, hb, hc⟩
  · exact absurd hr (by decide)
  · rcases hloc.1.cases with rfl | ⟨a, j, z, q, d, rfl, ha, hd⟩
    · simp [remove, equalWord_node, decreaseCounter, getCounter, hasWord, getHeight]
    · have hleft := ht.left.holds
      have hright := ht.right.holds
      have hsucc := findSuccessor_local hloc.2
      simp [remove, equalWord_node, decreaseCounter, getCounter, hasWord_node, hleft, hright,
        removeLocalWord, hsucc]

theorem remove_last (ht : ValidAvl (node l h x 1 null)) :
    (node l h x 1 null).remove x =
      some (if l.present then l.pulled else node null (-1) [] 0 null) := by
  have hloc := ht.isLocal
  rcases hloc.1.cases with rfl | ⟨a, j, z, q, d, rfl, ha, hd⟩
  · simp [remove, equalWord_node, decreaseCounter, getCounter, clearData_local]
  · have hleft := ht.left.holds
    simp [remove, equalWord_node, decreaseCounter, getCounter, hasWord_node, hleft,
      removeLocalWord, pullLeftSubtree_local hloc.1 hloc.2]

end NodePtr

end DistributedAvl
