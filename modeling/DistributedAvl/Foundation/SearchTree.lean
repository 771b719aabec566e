import DistributedAvl.Foundation.Tally
import Mathlib.Data.Tree.Basic

namespace SearchTree

open Tally

variable {α κ : Type}

def inorder : BinaryTree α → List α
  | .nil => []
  | .node a l r => inorder l ++ a :: inorder r

def levels : BinaryTree α → Int
  | .nil => -1
  | .node _ l r => max (levels l) (levels r) + 1

def LevelBalanced : BinaryTree α → Prop
  | .nil => True
  | .node _ l r =>
      levels l ≤ levels r + 1 ∧ levels r ≤ levels l + 1 ∧ LevelBalanced l ∧ LevelBalanced r

instance decidableLevelBalanced : ∀ t : BinaryTree α, Decidable (LevelBalanced t)
  | .nil => isTrue trivial
  | .node _ l r =>
      have := decidableLevelBalanced l
      have := decidableLevelBalanced r
      inferInstanceAs (Decidable (levels l ≤ levels r + 1 ∧ levels r ≤ levels l + 1 ∧
        LevelBalanced l ∧ LevelBalanced r))

def rotateRight : BinaryTree α → BinaryTree α
  | .node x (.node y a b) c => .node y a (.node x b c)
  | t => t

def rotateLeft : BinaryTree α → BinaryTree α
  | .node x c (.node y a b) => .node y (.node x c a) b
  | t => t

theorem inorder_rotateRight (t : BinaryTree α) : inorder (rotateRight t) = inorder t := by
  rcases t with _ | ⟨x, _ | ⟨y, a, b⟩, c⟩ <;> simp [rotateRight, inorder]

theorem inorder_rotateLeft (t : BinaryTree α) : inorder (rotateLeft t) = inorder t := by
  rcases t with _ | ⟨x, c, _ | ⟨y, a, b⟩⟩ <;> simp [rotateLeft, inorder]

theorem length_inorder (t : BinaryTree α) : (inorder t).length = t.numNodes := by
  induction t with
  | nil => rfl
  | node a l r ihl ihr =>
      simp only [inorder, List.length_append, List.length_cons, ihl, ihr, BinaryTree.numNodes]
      omega

theorem left_inorder_ne (a : α) (l r : BinaryTree α) : inorder l ≠ inorder (.node a l r) := by
  intro h
  have := congrArg List.length h
  simp only [length_inorder, BinaryTree.numNodes] at this
  omega

theorem right_inorder_ne (a : α) (l r : BinaryTree α) : inorder r ≠ inorder (.node a l r) := by
  intro h
  have := congrArg List.length h
  simp only [length_inorder, BinaryTree.numNodes] at this
  omega

theorem levels_ge (t : BinaryTree α) : -1 ≤ levels t := by
  induction t with
  | nil => exact le_refl _
  | node a l r ihl ihr => simp only [levels]; omega

theorem levels_eq_neg_one {t : BinaryTree α} : levels t = -1 ↔ t = .nil := by
  cases t with
  | nil => simp [levels]
  | node a l r =>
      have hl := levels_ge l
      simp only [levels, reduceCtorEq, iff_false]
      omega

variable [LinearOrder κ]

def descend (k : κ) : BinaryTree (κ × Int) → Option Int
  | .nil => none
  | .node a l r => if k = a.1 then some a.2 else if a.1 < k then descend k r else descend k l

theorem look_append_right {k : κ} : ∀ {xs ys : List (κ × Int)}, (∀ p ∈ xs, p.1 ≠ k) →
    look k (xs ++ ys) = look k ys := by
  intro xs
  induction xs with
  | nil => intro ys _; rfl
  | cons p xs ih =>
      intro ys h
      have hp : k ≠ p.1 := (h p (by simp)).symm
      simp [look, hp, ih (fun q hq => h q (by simp [hq]))]

theorem look_append_left {k : κ} : ∀ {xs ys : List (κ × Int)}, (∀ p ∈ ys, p.1 ≠ k) →
    look k (xs ++ ys) = look k xs := by
  intro xs
  induction xs with
  | nil => intro ys h; simpa [look] using @look_append_right _ _ k ys [] h
  | cons p xs ih => intro ys h; simp [look, ih h]

theorem descend_eq_look (k : κ) : ∀ t : BinaryTree (κ × Int), Increasing (inorder t) →
    descend k t = look k (inorder t) := by
  intro t
  induction t with
  | nil => intro _; rfl
  | node a l r ihl ihr =>
      intro h
      obtain ⟨hl, har, hlr⟩ := increasing_append.mp h
      obtain ⟨ha, hr⟩ := increasing_cons.mp har
      by_cases hk : k = a.1
      · have hleft : ∀ p ∈ inorder l, p.1 ≠ k := by
          intro p hp
          rw [hk]; exact (hlr p hp a (by simp)).ne
        rw [inorder, look_append_right hleft]
        simp [descend, look, hk]
      · by_cases hlt : a.1 < k
        · have hleft : ∀ p ∈ inorder l, p.1 ≠ k := fun p hp =>
            ((hlr p hp a (by simp)).trans hlt).ne
          simp [descend, inorder, look_append_right hleft, look, hk, hlt, ihr hr]
        · have hka : k < a.1 := lt_of_le_of_ne (not_lt.mp hlt) hk
          have hright : ∀ p ∈ a :: inorder r, p.1 ≠ k := by
            intro p hp
            rcases List.mem_cons.mp hp with rfl | hp
            · exact hka.ne'
            · exact (hka.trans (ha p hp)).ne'
          simp [descend, inorder, look_append_left hright, hk, hlt, ihl hl]

end SearchTree
