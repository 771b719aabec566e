import DistributedAvl.Removal.Found

namespace DistributedAvl

open Tally

namespace NodePtr

variable {l r : NodePtr} {h : Int} {x : Word} {n : Int} {w : Word}

-- The word's last occurrence has a right child: remove follows a null pointer.
def stuck : NodePtr → Word → Bool
  | null, _ => false
  | node l _ x n r, w =>
      if w = x then decide (n = 1) && r.present else if x < w then r.stuck w else l.stuck w
  | remote root, w => root.stuck w

def lastWord : NodePtr → Word → Bool
  | node a _ y m b, w => !a.present && !b.present && decide (y = w) && decide (m = 1)
  | _, _ => false

-- remove_remote_word drops the child it has visited with all it holds.
def removesCleanly : NodePtr → Word → Bool
  | node l h x n r, w =>
      decide (w = x) || (if x < w then r.lastWord w else l.lastWord w) || (node l h x n r).stuck w
  | _, _ => true

theorem remove_right (hlt : x < w) (hr : r.present = true) :
    (node l h x n r).remove w = (r.remove w).bind fun r₁ =>
      r₁.dropVisited.bind fun r₂ => some (node l h x n r₂) := by
  simp [remove, equalWord_node, greaterWord_node, hlt.ne', hlt, hr]

theorem remove_left (hlt : w < x) (hl : l.present = true) :
    (node l h x n r).remove w = (l.remove w).bind fun l₁ =>
      l₁.dropVisited.bind fun l₂ => some (node l₂ h x n r) := by
  simp [remove, equalWord_node, greaterWord_node, hlt.ne, hlt.not_gt, hl]

theorem remove_drops_right {a b : NodePtr} {k m : Int} {y : Word} (hlt : x < w)
    (hr : r.present = true) (hrem : r.remove w = some (node a k y m b)) :
    (node l h x n r).remove w = some (node l h x n null) := by
  rw [remove_right hlt hr, hrem]
  rfl

theorem remove_drops_left {a b : NodePtr} {k m : Int} {y : Word} (hlt : w < x)
    (hl : l.present = true) (hrem : l.remove w = some (node a k y m b)) :
    (node l h x n r).remove w = some (node null h x n r) := by
  rw [remove_left hlt hl, hrem]
  rfl

theorem stuck_or_removed {t : NodePtr} (ht : ValidAvl t) (hw : t.Holds w) :
    t.stuck w = true ∧ t.remove w = none ∨
      t.stuck w = false ∧ ∃ l h x n r, t.remove w = some (node l h x n r) := by
  induction t with
  | null => exact absurd (hw.present ht.isLocal) (by decide)
  | remote root => exact ht.isLocal.elim
  | node l h x n r ihl ihr =>
      rcases ht.holds_side hw with rfl | ⟨hlt, hw'⟩ | ⟨hlt, hw'⟩
      · have hpos := ht.full.2.1
        by_cases hone : n = 1
        · subst hone
          cases hp : r.present with
          | true => exact Or.inl ⟨by simp [stuck, hp], remove_stuck ht hp⟩
          | false =>
              obtain rfl := present_eq_false.mp hp
              refine Or.inr ⟨by simp [stuck], ?_⟩
              rw [remove_last ht]
              split
              · obtain ⟨a, k, y, m, b, hpull⟩ := pulled_node l
                exact ⟨a, k, y, m, b, by rw [hpull]⟩
              · exact ⟨_, _, _, _, _, rfl⟩
        · exact Or.inr ⟨by simp [stuck, hone], _, _, _, _, _, remove_counted (by omega)⟩
      · have hp := hw'.present ht.right.isLocal
        simp only [stuck, hlt.ne', if_false, hlt, if_true]
        rcases ihr ht.right hw' with ⟨hs, hnone⟩ | ⟨hs, a, k, y, m, b, hsome⟩
        · exact Or.inl ⟨hs, by rw [remove_right hlt hp, hnone]; rfl⟩
        · exact Or.inr ⟨hs, l, h, x, n, null, remove_drops_right hlt hp hsome⟩
      · have hp := hw'.present ht.left.isLocal
        simp only [stuck, hlt.ne, if_false, hlt.not_gt]
        rcases ihl ht.left hw' with ⟨hs, hnone⟩ | ⟨hs, a, k, y, m, b, hsome⟩
        · exact Or.inl ⟨hs, by rw [remove_left hlt hp, hnone]; rfl⟩
        · exact Or.inr ⟨hs, null, h, x, n, r, remove_drops_left hlt hp hsome⟩

theorem lastWord_iff {t : NodePtr} (ht : ValidAvl t) (hw : t.Holds w) :
    t.lastWord w = true ↔ untally w t.entries = [] := by
  rw [untally_eq_nil ht.ordered hw]
  rcases ht.isLocal.cases with rfl | ⟨a, k, y, m, b, rfl, -, -⟩
  · exact absurd (hw.present ht.isLocal) (by decide)
  · rw [ht.entries_eq]
    simp only [lastWord, Bool.and_eq_true, Bool.not_eq_true', present_eq_false, decide_eq_true_eq]
    constructor
    · rintro ⟨⟨⟨rfl, rfl⟩, rfl⟩, rfl⟩
      exact ⟨1, le_refl 1, rfl⟩
    · rintro ⟨q, hq, heq⟩
      have hpos := ht.full.2.1
      have hlen := congrArg List.length heq
      simp only [List.length_append, List.length_cons, List.length_nil] at hlen
      obtain rfl := full_entries ht.left (List.length_eq_zero_iff.mp (by omega))
      obtain rfl := full_entries ht.right (List.length_eq_zero_iff.mp (by omega))
      simp only [entries, List.nil_append, List.cons.injEq, Prod.mk.injEq, and_true] at heq
      exact ⟨⟨⟨rfl, rfl⟩, heq.1⟩, by omega⟩

def RemovesExactly (t : NodePtr) (w : Word) : Prop :=
  ∀ t', t.remove w = some t' →
    t'.entries.Perm (untally w t.entries) ∧ Increasing t'.entries

theorem removesExactly_of_entries {t : NodePtr} (ht : ValidAvl t)
    (hent : ∀ t', t.remove w = some t' → t'.entries = untally w t.entries) :
    t.RemovesExactly w := by
  intro t' ht'
  rw [hent t' ht']
  exact ⟨List.Perm.refl _, untally_increasing ht.ordered⟩

theorem removesExactly_root (ht : ValidAvl (node l h w n r)) :
    (node l h w n r).RemovesExactly w := by
  refine removesExactly_of_entries ht fun t' hrem => ?_
  have hord := ht.ordered
  have hpos := ht.full.2.1
  rw [ht.entries_eq] at hord ⊢
  rw [untally_here hord]
  by_cases hone : n = 1
  · subst hone
    cases hp : r.present with
    | true =>
        rw [remove_stuck ht hp] at hrem
        cases hrem
    | false =>
        obtain rfl := present_eq_false.mp hp
        rw [remove_last ht] at hrem
        cases hrem
        rcases ht.left_leaf with rfl | ⟨k, y, m, rfl⟩
        · rfl
        · have hfull := ht.left.full
          have hm : m ≠ 0 := by have := hfull.2.1; omega
          have hk : k = 0 := ht.left.exact.1
          simp [pulled, entries, NodePtr.holds, hfull.1, hm, hk]
  · rw [remove_counted (by omega)] at hrem
    cases hrem
    have hle : ¬ n ≤ 1 := by omega
    have hholds : (node l h w (n - 1) r).holds = true := by
      have := ht.holds
      simp only [NodePtr.holds, Bool.and_eq_true, decide_eq_true_eq] at this ⊢
      exact ⟨⟨this.1.1, by omega⟩, this.2⟩
    simp [entries_node hholds, hle]

theorem removesExactly_right (ht : ValidAvl (node l h x n r)) (hlt : x < w) (hw : r.Holds w) :
    (node l h x n r).RemovesExactly w ↔
      r.lastWord w = true ∨ (node l h x n r).stuck w = true := by
  have hp := hw.present ht.right.isLocal
  have huntally : untally w (node l h x n r).entries =
      l.entries ++ (x, n) :: untally w r.entries := by
    have habs : untally w (l.entries ++ [(x, n)]) = l.entries ++ [(x, n)] := by
      refine untally_absent fun p hp => ?_
      rcases List.mem_append.mp hp with hp | hp
      · exact ((ht.sides.1 p hp).trans hlt).ne
      · rw [List.mem_singleton.mp hp]; exact hlt.ne
    rw [ht.entries_eq, show l.entries ++ (x, n) :: r.entries = (l.entries ++ [(x, n)]) ++ r.entries
      by simp, untally_append, habs]
    simp
  have hstuck : (node l h x n r).stuck w = r.stuck w := by simp [stuck, hlt.ne', hlt]
  have hdrop : (node l h x n null).entries = l.entries ++ (x, n) :: [] := entries_node ht.holds
  rcases stuck_or_removed ht.right hw with ⟨hs, hnone⟩ | ⟨hs, a, k, y, m, b, hsome⟩
  · refine iff_of_true (fun t' ht' => ?_) (Or.inr (hstuck.trans hs))
    rw [remove_right hlt hp, hnone] at ht'
    cases ht'
  · have hrem := remove_drops_right (l := l) (h := h) (n := n) hlt hp hsome
    rw [hstuck, hs, lastWord_iff ht.right hw]
    simp only [Bool.false_eq_true, or_false]
    constructor
    · intro hexact
      have hperm := (hexact _ hrem).1
      rw [hdrop, huntally, List.perm_append_left_iff, List.perm_cons] at hperm
      exact List.nil_perm.mp hperm
    · intro hnil
      refine removesExactly_of_entries ht fun t' ht' => ?_
      rw [hrem] at ht'
      cases ht'
      rw [hdrop, huntally, hnil]

theorem removesExactly_left (ht : ValidAvl (node l h x n r)) (hlt : w < x) (hw : l.Holds w) :
    (node l h x n r).RemovesExactly w ↔
      l.lastWord w = true ∨ (node l h x n r).stuck w = true := by
  have hp := hw.present ht.left.isLocal
  have huntally : untally w (node l h x n r).entries =
      untally w l.entries ++ (x, n) :: r.entries := by
    rw [ht.entries_eq, untally_append]
    congr 1
    refine untally_absent fun p hp => ?_
    rcases List.mem_cons.mp hp with rfl | hp
    · exact hlt.ne'
    · exact (hlt.trans (ht.sides.2 p hp)).ne'
  have hstuck : (node l h x n r).stuck w = l.stuck w := by simp [stuck, hlt.ne, hlt.not_gt]
  have hdrop : (node null h x n r).entries = [] ++ (x, n) :: r.entries := entries_node ht.holds
  rcases stuck_or_removed ht.left hw with ⟨hs, hnone⟩ | ⟨hs, a, k, y, m, b, hsome⟩
  · refine iff_of_true (fun t' ht' => ?_) (Or.inr (hstuck.trans hs))
    rw [remove_left hlt hp, hnone] at ht'
    cases ht'
  · have hrem := remove_drops_left (r := r) (h := h) (n := n) hlt hp hsome
    rw [hstuck, hs, lastWord_iff ht.left hw]
    simp only [Bool.false_eq_true, or_false]
    constructor
    · intro hexact
      have hperm := (hexact _ hrem).1
      rw [hdrop, huntally, List.perm_append_right_iff] at hperm
      exact List.nil_perm.mp hperm
    · intro hnil
      refine removesExactly_of_entries ht fun t' ht' => ?_
      rw [hrem] at ht'
      cases ht'
      rw [hdrop, huntally, hnil]

theorem remove_exact_iff {t : NodePtr} (ht : ValidAvl t) (hw : t.Holds w) :
    t.RemovesExactly w ↔ t.removesCleanly w = true := by
  rcases ht.isLocal.cases with rfl | ⟨l, h, x, n, r, rfl, -, -⟩
  · exact absurd (hw.present ht.isLocal) (by decide)
  · rcases ht.holds_side hw with rfl | ⟨hlt, hw'⟩ | ⟨hlt, hw'⟩
    · exact iff_of_true (removesExactly_root ht) (by simp [removesCleanly])
    · rw [removesExactly_right ht hlt hw']
      simp [removesCleanly, hlt.ne', hlt]
    · rw [removesExactly_left ht hlt hw']
      simp [removesCleanly, hlt.ne, hlt.not_gt]

theorem remove_exact_iff_twice :
    (node (node null 0 [97] 2 null) 1 [98] 1 (node null 0 [99] 1 null)).RemovesExactly [97] ↔
      (node (node null 0 [97] 2 null) 1 [98] 1 (node null 0 [99] 1 null)).removesCleanly [97] =
        true :=
  remove_exact_iff (by decide) ⟨2, by decide⟩

-- Removing c from ((a, b, c), d, e) leaves d and e.
theorem remove_drops : ¬ ∀ t w, ValidAvl t → t.Holds w → t.RemovesExactly w := by
  intro hall
  have hvalid : ValidAvl (node (node (node null 0 [97] 1 null) 1 [98] 1 (node null 0 [99] 1 null))
      2 [100] 1 (node null 0 [101] 1 null)) := by decide
  have hperm := (hall _ [99] hvalid ⟨1, by decide⟩ _ rfl).1
  exact absurd hperm.length_eq (by decide)

end NodePtr

end DistributedAvl
