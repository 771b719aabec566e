import DistributedAvl.Tree.View

namespace DistributedAvl

open Tally SearchTree

namespace NodePtr

variable {l r : NodePtr} {h : Int} {x : Word} {n : Int} {w : Word}

def Full : NodePtr → Prop
  | null => True
  | node l _ x n r => x ≠ [] ∧ 1 ≤ n ∧ l.Full ∧ r.Full
  | remote root => root.Full

instance decidableFull : ∀ t : NodePtr, Decidable t.Full
  | null => isTrue trivial
  | node l _ x n r =>
      have := decidableFull l
      have := decidableFull r
      inferInstanceAs (Decidable (x ≠ [] ∧ 1 ≤ n ∧ l.Full ∧ r.Full))
  | remote root => decidableFull root

structure ValidAvl (t : NodePtr) : Prop where
  isLocal : t.AllLocal
  full : t.Full
  ordered : Increasing t.entries
  exact : t.HeightsExact
  balanced : LevelBalanced t.shape

instance decidableValidAvl (t : NodePtr) : Decidable (ValidAvl t) :=
  decidable_of_iff
    (t.AllLocal ∧ t.Full ∧ Increasing t.entries ∧ t.HeightsExact ∧ LevelBalanced t.shape)
    ⟨fun h => ⟨h.1, h.2.1, h.2.2.1, h.2.2.2.1, h.2.2.2.2⟩,
      fun h => ⟨h.isLocal, h.full, h.ordered, h.exact, h.balanced⟩⟩

theorem ValidAvl.holds (ht : ValidAvl (node l h x n r)) : (node l h x n r).holds = true := by
  have hh : h = (node l h x n r).realHeight := ht.exact.1
  have hl := levels_ge l.shape
  have hpos : -1 < h := by simp only [realHeight, shape, levels] at hh; omega
  have hn : n ≠ 0 := by have := ht.full.2.1; omega
  simp [NodePtr.holds, hpos, hn, ht.full.1]

theorem ValidAvl.entries_eq (ht : ValidAvl (node l h x n r)) :
    (node l h x n r).entries = l.entries ++ (x, n) :: r.entries := entries_node ht.holds

theorem ValidAvl.left (ht : ValidAvl (node l h x n r)) : ValidAvl l where
  isLocal := ht.isLocal.1
  full := ht.full.2.2.1
  ordered := (increasing_append.mp (by rw [← ht.entries_eq]; exact ht.ordered)).1
  exact := ht.exact.2.1
  balanced := ht.balanced.2.2.1

theorem ValidAvl.right (ht : ValidAvl (node l h x n r)) : ValidAvl r where
  isLocal := ht.isLocal.2
  full := ht.full.2.2.2
  ordered := by
    have hord := ht.ordered
    rw [ht.entries_eq] at hord
    exact (increasing_cons.mp (increasing_append.mp hord).2.1).2
  exact := ht.exact.2.2
  balanced := ht.balanced.2.2.2

theorem ValidAvl.sides (ht : ValidAvl (node l h x n r)) :
    (∀ p ∈ l.entries, p.1 < x) ∧ ∀ p ∈ r.entries, x < p.1 := by
  have hord := ht.ordered
  rw [ht.entries_eq] at hord
  obtain ⟨-, hright, hleft⟩ := increasing_append.mp hord
  exact ⟨fun p hp => hleft p hp (x, n) (by simp), (increasing_cons.mp hright).1⟩

theorem ValidAvl.left_leaf (ht : ValidAvl (node l h x n null)) :
    l = null ∨ ∃ k y m, l = node null k y m null := by
  rcases ht.isLocal.1.cases with rfl | ⟨a, k, y, m, b, rfl, ha, hb⟩
  · exact Or.inl rfl
  · have hbal : levels (node a k y m b).shape ≤ levels null.shape + 1 := ht.balanced.1
    have hla := levels_ge a.shape
    have hlb := levels_ge b.shape
    simp only [shape, levels] at hbal
    obtain rfl : a = null := ha.eq_null (by omega)
    obtain rfl : b = null := hb.eq_null (by omega)
    exact Or.inr ⟨k, y, m, rfl⟩

theorem full_entries {t : NodePtr} (ht : ValidAvl t) (hnil : t.entries = []) : t = null := by
  rcases ht.isLocal.cases with rfl | ⟨l, h, x, n, r, rfl, -, -⟩
  · rfl
  · rw [ht.entries_eq] at hnil
    simp at hnil

def Holds (t : NodePtr) (w : Word) : Prop := ∃ n, (w, n) ∈ t.entries

theorem ValidAvl.holds_side (ht : ValidAvl (node l h x n r)) (hw : (node l h x n r).Holds w) :
    w = x ∨ x < w ∧ r.Holds w ∨ w < x ∧ l.Holds w := by
  obtain ⟨m, hm⟩ := hw
  rw [ht.entries_eq] at hm
  rcases List.mem_append.mp hm with hm | hm
  · exact Or.inr (Or.inr ⟨ht.sides.1 _ hm, m, hm⟩)
  · rcases List.mem_cons.mp hm with heq | hm
    · cases heq; exact Or.inl rfl
    · exact Or.inr (Or.inl ⟨ht.sides.2 _ hm, m, hm⟩)

theorem Holds.present {t : NodePtr} (ht : t.AllLocal) (hw : t.Holds w) : t.present = true := by
  rcases ht.cases with rfl | ⟨l, h, x, n, r, rfl, -, -⟩
  · obtain ⟨n, hn⟩ := hw
    simp [entries] at hn
  · rfl

theorem ValidAvl.absent_sides (ht : ValidAvl (node l h x n r))
    (hw : ¬ (node l h x n r).Holds w) : w ≠ x ∧ ¬ l.Holds w ∧ ¬ r.Holds w := by
  refine ⟨?_, ?_, ?_⟩
  · rintro rfl
    exact hw ⟨n, by rw [ht.entries_eq]; simp⟩
  · rintro ⟨m, hm⟩
    exact hw ⟨m, by rw [ht.entries_eq]; simp [hm]⟩
  · rintro ⟨m, hm⟩
    exact hw ⟨m, by rw [ht.entries_eq]; simp [hm]⟩

theorem ValidAvl.left_free (ht : ValidAvl (node l h x n r)) (hxw : x ≤ w) : ¬ l.Holds w := by
  rintro ⟨m, hm⟩
  exact (ht.sides.1 _ hm).not_ge hxw

theorem ValidAvl.right_free (ht : ValidAvl (node l h x n r)) (hwx : w ≤ x) : ¬ r.Holds w := by
  rintro ⟨m, hm⟩
  exact (ht.sides.2 _ hm).not_ge hwx

end NodePtr

end DistributedAvl
