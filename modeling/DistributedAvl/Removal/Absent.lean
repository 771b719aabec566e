import DistributedAvl.Removal.Remove

namespace DistributedAvl

namespace NodePtr

variable {l r : NodePtr} {h : Int} {x : Word} {n : Int} {w : Word}

def sideOf : NodePtr → Word → NodePtr
  | node l _ x _ r, w => if x < w then r else l
  | t, _ => t

theorem remove_right_missing (hlt : x < w) :
    (node l h x n null).remove w = some (node l h x n null) := by
  simp [remove, equalWord_node, greaterWord_node, hlt.ne', hlt]

theorem remove_left_missing (hlt : w < x) :
    (node null h x n r).remove w = some (node null h x n r) := by
  simp [remove, equalWord_node, greaterWord_node, hlt.ne, hlt.not_gt]

-- The visited child is dropped whether or not the word was found below it.
theorem remove_absent {t : NodePtr} (ht : ValidAvl t) (hp : t.present = true) (hw : ¬ t.Holds w) :
    ∃ l h x n r, t = node l h x n r ∧
      t.remove w = some (if x < w then node l h x n null else node null h x n r) := by
  induction t with
  | null => exact absurd hp (by decide)
  | remote root => exact ht.isLocal.elim
  | node l h x n r ihl ihr =>
      obtain ⟨hne, hl, hr⟩ := ht.absent_sides hw
      refine ⟨l, h, x, n, r, rfl, ?_⟩
      rcases lt_or_gt_of_ne hne with hlt | hlt
      · rw [if_neg hlt.not_gt]
        cases hpl : l.present with
        | false =>
            obtain rfl := present_eq_false.mp hpl
            exact remove_left_missing hlt
        | true =>
            obtain ⟨a, k, y, m, b, -, hrem⟩ := ihl ht.left hpl hl
            rw [remove_left hlt hpl, hrem]
            split <;> rfl
      · rw [if_pos hlt]
        cases hpr : r.present with
        | false =>
            obtain rfl := present_eq_false.mp hpr
            exact remove_right_missing hlt
        | true =>
            obtain ⟨a, k, y, m, b, -, hrem⟩ := ihr ht.right hpr hr
            rw [remove_right hlt hpr, hrem]
            split <;> rfl

theorem remove_fresh (w : Word) : fresh.remove w = some fresh := by
  by_cases hw : w = []
  · subst hw
    rfl
  · exact remove_right_missing (Word.nil_lt hw)

theorem remove_absent_iff (ht : node l h x n r = fresh ∨ ValidAvl (node l h x n r))
    (hw : ¬ (node l h x n r).Holds w) :
    (node l h x n r).remove w = some (node l h x n r) ↔
      ((node l h x n r).sideOf w).present = false := by
  rcases ht with heq | ht
  · rw [heq]
    refine iff_of_true (remove_fresh w) ?_
    rw [fresh, sideOf]
    split <;> rfl
  · obtain ⟨l', h', x', n', r', heq, hrem⟩ := remove_absent ht rfl hw
    cases heq
    rw [hrem, sideOf, present_eq_false]
    split <;> simp [eq_comm]

theorem remove_absent_iff_below :
    (node (node (node null 0 [97] 1 null) 1 [98] 1 null) 2 [99] 1
        (node null 0 [101] 2 null)).remove [100] =
      some (node (node (node null 0 [97] 1 null) 1 [98] 1 null) 2 [99] 1 (node null 0 [101] 2 null)) ↔
    ((node (node (node null 0 [97] 1 null) 1 [98] 1 null) 2 [99] 1
      (node null 0 [101] 2 null)).sideOf [100]).present = false :=
  remove_absent_iff (Or.inr (by decide)) (by rintro ⟨m, hm⟩; simp [entries, holds] at hm)

-- (a, b, c) without d: the child c, where the search for d ends, is gone.
theorem remove_absent_drops : ¬ ∀ t w, ValidAvl t → t.present = true → ¬ t.Holds w →
    t.remove w = some t := by
  intro hall
  have hvalid : ValidAvl (node (node null 0 [97] 1 null) 1 [98] 1 (node null 0 [99] 1 null)) := by
    decide
  have habsent : ¬ (node (node null 0 [97] 1 null) 1 [98] 1 (node null 0 [99] 1 null)).Holds
      [100] := by
    rintro ⟨m, hm⟩
    simp [entries, holds] at hm
  exact absurd (hall _ [100] hvalid rfl habsent) (by decide)

end NodePtr

end DistributedAvl
