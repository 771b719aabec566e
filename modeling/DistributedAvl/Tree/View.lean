import DistributedAvl.Tree.Local
import DistributedAvl.Foundation.SearchTree

namespace DistributedAvl

open SearchTree Tally

namespace NodePtr

def shape : NodePtr → BinaryTree (Word × Int)
  | null => .nil
  | node l _ x n r => .node (x, n) l.shape r.shape
  | remote root => root.shape

def leaf : NodePtr → Bool
  | node l _ _ _ r => !l.present && !r.present
  | _ => false

-- The same without word-less placeholders at the bottom of the tree.
def visible : NodePtr → BinaryTree (Word × Int)
  | null => .nil
  | node l h x n r =>
      if !(node l h x n r).holds && decide (l.visible = .nil) && decide (r.visible = .nil) then .nil
      else .node (x, n) l.visible r.visible
  | remote root => root.visible

-- The (word, counter) pairs of the nodes that hold a word, in order.
def entries : NodePtr → List (Word × Int)
  | null => []
  | node l h x n r =>
      l.entries ++ (if (node l h x n r).holds then [(x, n)] else []) ++ r.entries
  | remote root => root.entries

-- insert's own descent: the counter of the node it stops at, when that node holds the word.
def search : NodePtr → Word → Option Int
  | null, _ => none
  | node l h x n r, word =>
      if Word.compare word x = 0 then if (node l h x n r).holds then some n else none
      else if Word.compare word x > 0 then r.search word
      else l.search word
  | remote root, word => root.search word

def realHeight (t : NodePtr) : Int := levels t.shape

def HeightsExact : NodePtr → Prop
  | null => True
  | node l h x n r => h = (node l h x n r).realHeight ∧ l.HeightsExact ∧ r.HeightsExact
  | remote root => root.HeightsExact

instance decidableHeightsExact : ∀ t : NodePtr, Decidable t.HeightsExact
  | null => isTrue trivial
  | node l h x n r =>
      have := decidableHeightsExact l
      have := decidableHeightsExact r
      inferInstanceAs
        (Decidable (h = (node l h x n r).realHeight ∧ l.HeightsExact ∧ r.HeightsExact))
  | remote root => decidableHeightsExact root

theorem ground_shape (t : NodePtr) : t.ground.shape = t.shape := by cases t <;> rfl

theorem AllLocal.eq_null {t : NodePtr} (ht : t.AllLocal) (hlow : levels t.shape ≤ -1) :
    t = null := by
  have heq : levels t.shape = -1 := le_antisymm hlow (levels_ge t.shape)
  rcases ht.cases with rfl | ⟨_, _, _, _, _, rfl, -, -⟩
  · rfl
  · exact absurd (levels_eq_neg_one.mp heq) (by simp [shape])

theorem leaf_iff {t : NodePtr} (ht : t.AllLocal) : t.leaf = true ↔ levels t.shape = 0 := by
  rcases ht.cases with rfl | ⟨l, h, x, n, r, rfl, hl, hr⟩
  · simp [leaf, shape, levels]
  · have hgl := levels_ge l.shape
    have hgr := levels_ge r.shape
    simp only [leaf, Bool.and_eq_true, Bool.not_eq_true', present_eq_false, shape, levels]
    constructor
    · rintro ⟨rfl, rfl⟩
      rfl
    · intro hzero
      exact ⟨hl.eq_null (by omega), hr.eq_null (by omega)⟩

theorem present_levels {t : NodePtr} (ht : t.AllLocal) : t.present = true ↔ 0 ≤ levels t.shape := by
  rcases ht.cases with rfl | ⟨l, h, x, n, r, rfl, -, -⟩
  · simp [shape, levels]
  · have := levels_ge l.shape
    simp only [present_node, shape, levels, true_iff]
    omega

theorem heightOf_exact {t : NodePtr} (ht : t.AllLocal) (hexact : t.HeightsExact) :
    t.heightOf = t.realHeight := by
  rcases ht.cases with rfl | ⟨l, h, x, n, r, rfl, -, -⟩
  · rfl
  · exact hexact.1

theorem entries_node {l r : NodePtr} {h : Int} {x : Word} {n : Int}
    (hh : (node l h x n r).holds = true) :
    (node l h x n r).entries = l.entries ++ (x, n) :: r.entries := by
  simp [entries, hh]

theorem entries_ground_leaf (x : Word) (n : Int) (hx : x ≠ []) (hn : 0 < n) :
    (node null 0 x n null).entries = [(x, n)] := by
  simp [entries, holds, hx, hn.ne']

end NodePtr

end DistributedAvl
