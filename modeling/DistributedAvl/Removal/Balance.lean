import DistributedAvl.Removal.NullSafety
import DistributedAvl.Insertion.Heights

namespace DistributedAvl

open SearchTree

namespace NodePtr

variable {l r t : NodePtr} {h : Int} {x : Word} {n : Int} {w : Word}

-- remove never updates a height: what it drops must not have been the higher side, nor may the
-- side that stays be higher than one node.
def removesLevel : NodePtr → Word → Bool
  | node l h x n r, w =>
      decide (w = x) || !((node l h x n r).sideOf w).present || l.leaf && r.leaf ||
        (node l h x n r).stuck w
  | _, _ => true

theorem ValidAvl.exactlyBalanced (ht : ValidAvl t) : t.ExactlyBalanced :=
  Or.inr ⟨ht.exact, ht.balanced⟩

theorem kept_iff (hx : x ≠ []) : (node l h x n r).ExactlyBalanced ↔
    (node l h x n r).HeightsExact ∧ LevelBalanced (node l h x n r).shape := by
  refine or_iff_right fun heq => ?_
  injection heq with _ _ hnil
  exact hx hnil

theorem drop_right_iff (ht : ValidAvl (node l h x n r)) (hr : r.present = true) :
    (node l h x n null).ExactlyBalanced ↔ (l.leaf && r.leaf) = true := by
  have hpos := (present_levels ht.right.isLocal).mp hr
  have hexact : h = max (levels l.shape) (levels r.shape) + 1 := ht.exact.1
  have hge := levels_ge l.shape
  rw [kept_iff ht.full.1, Bool.and_eq_true, leaf_iff ht.left.isLocal, leaf_iff ht.right.isLocal]
  constructor
  · rintro ⟨⟨hh, -, -⟩, hlow, -⟩
    simp only [realHeight, shape, levels] at hh hlow
    omega
  · rintro ⟨hl, hr'⟩
    have hh : h = levels (node l h x n null).shape := by simp only [shape, levels]; omega
    exact ⟨⟨hh, ht.left.exact, trivial⟩, by simp only [shape, levels]; omega,
      by simp only [shape, levels]; omega, ht.left.balanced, trivial⟩

theorem drop_left_iff (ht : ValidAvl (node l h x n r)) (hl : l.present = true) :
    (node null h x n r).ExactlyBalanced ↔ (l.leaf && r.leaf) = true := by
  have hpos := (present_levels ht.left.isLocal).mp hl
  have hexact : h = max (levels l.shape) (levels r.shape) + 1 := ht.exact.1
  have hge := levels_ge r.shape
  rw [kept_iff ht.full.1, Bool.and_eq_true, leaf_iff ht.left.isLocal, leaf_iff ht.right.isLocal]
  constructor
  · rintro ⟨⟨hh, -, -⟩, -, hlow, -⟩
    simp only [realHeight, shape, levels] at hh hlow
    omega
  · rintro ⟨hl', hr⟩
    have hh : h = levels (node null h x n r).shape := by simp only [shape, levels]; omega
    exact ⟨⟨hh, trivial, ht.right.exact⟩, by simp only [shape, levels]; omega,
      by simp only [shape, levels]; omega, trivial, ht.right.balanced⟩

def StaysLevel (t : NodePtr) (w : Word) : Prop := ∀ t', t.remove w = some t' → t'.ExactlyBalanced

theorem staysLevel_root (ht : ValidAvl (node l h x n r)) : (node l h x n r).StaysLevel x := by
  intro t' hrem
  have hpos := ht.full.2.1
  by_cases hone : n = 1
  · subst hone
    cases hp : r.present with
    | true =>
        rw [remove_stuck ht hp] at hrem
        cases hrem
    | false =>
        obtain rfl := present_eq_false.mp hp
        rw [remove_last ht] at hrem
        cases hrem
        rcases ht.left_leaf with rfl | ⟨k, y, m, rfl⟩
        · exact Or.inl rfl
        · exact Or.inr ⟨⟨rfl, trivial, trivial⟩, by decide, by decide, trivial, trivial⟩
  · rw [remove_counted (by omega)] at hrem
    cases hrem
    exact Or.inr ⟨ht.exact, ht.balanced⟩

theorem staysLevel_right (ht : ValidAvl (node l h x n r)) (hlt : x < w) :
    (node l h x n r).StaysLevel w ↔
      r.present = false ∨ (l.leaf && r.leaf) = true ∨ r.stuck w = true := by
  cases hp : r.present with
  | false =>
      obtain rfl := present_eq_false.mp hp
      refine iff_of_true (fun t' hrem => ?_) (Or.inl rfl)
      rw [remove_right_missing hlt] at hrem
      cases hrem
      exact ht.exactlyBalanced
  | true =>
      cases hs : r.stuck w with
      | true =>
          refine iff_of_true (fun t' hrem => ?_) (Or.inr (Or.inr rfl))
          rw [remove_right hlt hp, remove_none ht.right hs] at hrem
          cases hrem
      | false =>
          obtain ⟨a, k, y, m, b, hrem⟩ := remove_some ht.right hp hs
          simp only [StaysLevel, remove_drops_right hlt hp hrem, Option.some.injEq, forall_eq',
            drop_right_iff ht hp]
          simp

theorem staysLevel_left (ht : ValidAvl (node l h x n r)) (hlt : w < x) :
    (node l h x n r).StaysLevel w ↔
      l.present = false ∨ (l.leaf && r.leaf) = true ∨ l.stuck w = true := by
  cases hp : l.present with
  | false =>
      obtain rfl := present_eq_false.mp hp
      refine iff_of_true (fun t' hrem => ?_) (Or.inl rfl)
      rw [remove_left_missing hlt] at hrem
      cases hrem
      exact ht.exactlyBalanced
  | true =>
      cases hs : l.stuck w with
      | true =>
          refine iff_of_true (fun t' hrem => ?_) (Or.inr (Or.inr rfl))
          rw [remove_left hlt hp, remove_none ht.left hs] at hrem
          cases hrem
      | false =>
          obtain ⟨a, k, y, m, b, hrem⟩ := remove_some ht.left hp hs
          simp only [StaysLevel, remove_drops_left hlt hp hrem, Option.some.injEq, forall_eq',
            drop_left_iff ht hp]
          simp

theorem remove_level_iff (ht : node l h x n r = fresh ∨ ValidAvl (node l h x n r)) (w : Word) :
    (node l h x n r).StaysLevel w ↔ (node l h x n r).removesLevel w = true := by
  rcases ht with heq | ht
  · rw [heq]
    refine iff_of_true (fun t' hrem => ?_) ?_
    · rw [remove_fresh] at hrem
      cases hrem
      exact Or.inl rfl
    · simp only [fresh, removesLevel, sideOf]
      split <;> simp
  · rcases lt_trichotomy x w with hlt | rfl | hlt
    · rw [staysLevel_right ht hlt]
      simp [removesLevel, sideOf, stuck, hlt.ne', hlt, or_assoc]
    · exact iff_of_true (staysLevel_root ht) (by simp [removesLevel])
    · rw [staysLevel_left ht hlt]
      simp [removesLevel, sideOf, stuck, hlt.ne, hlt.not_gt, or_assoc]

theorem remove_level_iff_leaves :
    (node (node null 0 [97] 1 null) 1 [98] 1 (node null 0 [99] 1 null)).StaysLevel [99] ↔
      (node (node null 0 [97] 1 null) 1 [98] 1 (node null 0 [99] 1 null)).removesLevel [99] =
        true :=
  remove_level_iff (Or.inr (by decide)) [99]

-- (a, b, -) without a: b keeps the height of its dropped child.
theorem remove_leaves_height : ¬ ∀ t w, ValidAvl t → t.present = true → t.StaysLevel w := by
  intro hall
  have hvalid : ValidAvl (node (node null 0 [97] 1 null) 1 [98] 1 null) := by decide
  have hexact := (kept_iff (by decide)).mp (hall _ [97] hvalid rfl _ rfl)
  exact absurd hexact.1 (by decide)

end NodePtr

end DistributedAvl
