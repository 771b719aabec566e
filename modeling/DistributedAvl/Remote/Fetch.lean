import DistributedAvl.Remote.Agreement
import DistributedAvl.Tree.Valid

namespace DistributedAvl

open NodePtr SubtreeMessageParser SearchTree

namespace Branch

def part : Branch → NodePtr → NodePtr
  | .left, node l _ _ _ _ => l
  | .right, node _ _ _ _ r => r
  | _, t => t

def fetch : Branch → Operation
  | .left => .getLeftSubtree
  | .right => .getRightSubtree
  | .both => .getSubtree

end Branch

namespace NodePtr

variable {l r : NodePtr} {h : Int} {x : Word} {n : Int}

def heights : NodePtr → BinaryTree Int
  | null => .nil
  | node l h _ _ r => .node h l.heights r.heights
  | remote root => root.heights

theorem copied_exact {t : NodePtr} (ht : t.AllLocal) (hexact : t.HeightsExact) : t.copied = t := by
  rcases ht.cases with rfl | ⟨l, h, x, n, r, rfl, hl, hr⟩
  · rfl
  · obtain ⟨hh, hel, her⟩ := hexact
    rw [copied, leveled, heightOf_exact hl hel, heightOf_exact hr her, hh]
    rfl

theorem ValidAvl.counted {t : NodePtr} (ht : ValidAvl t) : t.Counted := by
  induction t with
  | null => trivial
  | remote root => exact ht.isLocal.elim
  | node l h x n r ihl ihr =>
      have hpos := ht.full.2.1
      exact ⟨by omega, ihl ht.left, ihr ht.right⟩

-- A decoded tree has height 0 everywhere, which is right for a leaf only.
theorem flat_heights_iff {t : NodePtr} (ht : t.AllLocal) (hexact : t.HeightsExact) :
    t.flat.heights = t.heights ↔ t.realHeight ≤ 0 := by
  rcases ht.cases with rfl | ⟨l, h, x, n, r, rfl, hl, hr⟩
  · exact iff_of_true rfl (by decide)
  · have hh : h = (node l h x n r).realHeight := hexact.1
    constructor
    · intro heq
      injection heq with htop
      omega
    · intro hle
      have hlevels : (node l h x n r).realHeight =
          max (levels l.shape) (levels r.shape) + 1 := rfl
      obtain rfl : l = null := hl.eq_null (by omega)
      obtain rfl : r = null := hr.eq_null (by omega)
      rw [hh]
      rfl

end NodePtr

namespace Operation

open RemoteAVLTreeClient

variable {l r : NodePtr} {h : Int} {x : Word} {n : Int}

theorem fetch_encoded (l : NodePtr) (h : Int) (x : Word) (n : Int) (r : NodePtr)
    (branch : Branch) : branch.fetch.overClient (node l h x n r) =
      (parseProtoTree (branch.part (node l h x n r))).map fun m =>
        (node l h x n r, .tree (parseTree m)) := by
  cases branch with
  | left =>
      simp only [Branch.fetch, Branch.part, overClient, getSubtree_eq, branchTree, getLeft]
      cases hm : parseProtoTree l <;> simp [hm]
  | right =>
      simp only [Branch.fetch, Branch.part, overClient, getSubtree_eq, branchTree, getRight]
      cases hm : parseProtoTree r <;> simp [hm]
  | both =>
      simp only [Branch.fetch, Branch.part, overClient, getSubtree_eq, branchTree]
      cases hm : parseProtoTree (node l h x n r) <;> simp

theorem fetch_copied (hl : l.AllLocal) (hr : r.AllLocal) (h : Int) (x : Word) (n : Int)
    (branch : Branch) : branch.fetch.direct (node l h x n r) =
      some (node l h x n r, .tree (branch.part (node l h x n r)).copied) := by
  cases branch with
  | left =>
      simp [Branch.fetch, Branch.part, direct, NodePtr.getLeftSubtree, childSubtree_local hl]
  | right =>
      simp [Branch.fetch, Branch.part, direct, NodePtr.getRightSubtree, childSubtree_local hr]
  | both => simp [Branch.fetch, Branch.part, direct, getSubtree_local hl hr, copied]

theorem part_valid (ht : ValidAvl (node l h x n r)) (branch : Branch) :
    ValidAvl (branch.part (node l h x n r)) := by
  cases branch with
  | left => exact ht.left
  | right => exact ht.right
  | both => exact ht

theorem fetch_heights_iff (ht : ValidAvl (node l h x n r)) (branch : Branch) :
    ∃ u v, branch.fetch.overClient (node l h x n r) = some (node l h x n r, .tree u) ∧
      branch.fetch.direct (node l h x n r) = some (node l h x n r, .tree v) ∧
      (u.heights = v.heights ↔ (branch.part (node l h x n r)).realHeight ≤ 0) := by
  have hpart := part_valid ht branch
  obtain ⟨m, hm, hflat⟩ := encoded_flat hpart.counted
  refine ⟨_, _, by rw [fetch_encoded, hm]; rfl,
    fetch_copied ht.isLocal.1 ht.isLocal.2 h x n branch, ?_⟩
  rw [hflat, copied_exact hpart.isLocal hpart.exact]
  exact flat_heights_iff hpart.isLocal hpart.exact

theorem fetch_heights_iff_pair :
    ∃ u v, Branch.left.fetch.overClient (node (node null 0 [97] 1 null) 1 [98] 2 null) =
        some (node (node null 0 [97] 1 null) 1 [98] 2 null, .tree u) ∧
      Branch.left.fetch.direct (node (node null 0 [97] 1 null) 1 [98] 2 null) =
        some (node (node null 0 [97] 1 null) 1 [98] 2 null, .tree v) ∧
      (u.heights = v.heights ↔
        (Branch.left.part (node (node null 0 [97] 1 null) 1 [98] 2 null)).realHeight ≤ 0) :=
  fetch_heights_iff (by decide) .left

-- (a, b, -) arrives with height 0 at b.
theorem fetch_flattens : ¬ ∀ (t t' : NodePtr) (branch : Branch) (u v : NodePtr), ValidAvl t →
    branch.fetch.overClient t = some (t', .tree u) →
    branch.fetch.direct t = some (t', .tree v) → u.heights = v.heights := by
  intro hall
  have hvalid : ValidAvl (node (node null 0 [97] 1 null) 1 [98] 2 null) := by decide
  exact absurd (hall _ _ .both _ _ hvalid rfl rfl) (by decide)

end Operation

namespace NodePtr

-- The words with a counter, in shape; a node with counter 0 and nothing stored below is left out.
def stored : NodePtr → BinaryTree (Word × Int)
  | null => .nil
  | node l _ x n r =>
      if n = 0 ∧ l.stored = .nil ∧ r.stored = .nil then .nil else .node (x, n) l.stored r.stored
  | remote root => root.stored

-- Every machine has a root object, its AVLTree's, which is no proxy itself.
def Rooted : NodePtr → Prop
  | null => True
  | node l _ _ _ r => l.Rooted ∧ r.Rooted
  | remote root => (∃ l h x n r, root = node l h x n r) ∧ root.Rooted

-- What arrives of a tree: the encoder asks a proxy for its own children, and it has none.
def skimmed : NodePtr → NodePtr
  | null => null
  | node l _ x n r => if n = 0 then null else node l.skimmed 0 x n r.skimmed
  | remote (node _ _ x n _) => if n = 0 then null else node null 0 x n null
  | remote _ => null

-- No word is below the root of a further machine, nor below a node with counter 0.
def Reached : NodePtr → Prop
  | null => True
  | node l _ _ n r => if n = 0 then l.stored = .nil ∧ r.stored = .nil else l.Reached ∧ r.Reached
  | remote (node l _ _ _ r) => l.stored = .nil ∧ r.stored = .nil
  | remote _ => True

theorem encoded_skimmed {t : NodePtr} (ht : t.Rooted) :
    ∃ m, parseProtoTree t = some m ∧ parseTree m = t.skimmed := by
  induction t with
  | null => exact ⟨_, rfl, rfl⟩
  | remote root =>
      obtain ⟨⟨l, h, x, n, r, rfl⟩, -⟩ := ht
      refine ⟨_, rfl, ?_⟩
      by_cases hn : n = 0 <;> simp [parseTree, parseNodeTree, skimmed, hn]
  | node l h x n r ihl ihr =>
      obtain ⟨ml, hml, hl⟩ := encoded_field rfl (ihl ht.1)
      obtain ⟨mr, hmr, hr⟩ := encoded_field rfl (ihr ht.2)
      refine ⟨.set (some ⟨n, x⟩) ml mr, by simp [parseProtoTree, hml, hmr], ?_⟩
      by_cases hn : n = 0 <;> simp [parseTree, parseNodeTree, skimmed, hn, hl, hr]

theorem stored_node (hn : n ≠ 0) :
    (node l h x n r).stored = .node (x, n) l.stored r.stored := by
  simp [stored, hn]

theorem skimmed_stored_iff {t : NodePtr} (ht : t.Rooted) :
    t.skimmed.stored = t.stored ↔ t.Reached := by
  induction t with
  | null => exact iff_of_true rfl trivial
  | remote root =>
      obtain ⟨⟨l, h, x, n, r, rfl⟩, -⟩ := ht
      by_cases hn : n = 0
      · simp [skimmed, stored, Reached, hn]
      · simp [skimmed, stored, Reached, hn, eq_comm]
  | node l h x n r ihl ihr =>
      by_cases hn : n = 0
      · simp [skimmed, stored, Reached, hn]
      · rw [skimmed, if_neg hn, stored_node hn, stored_node hn, Reached, if_neg hn, ← ihl ht.1,
          ← ihr ht.2]
        simp

end NodePtr

namespace Operation

variable {l r : NodePtr} {h : Int} {x : Word} {n : Int}

theorem part_rooted {t : NodePtr} (ht : t.Rooted) (branch : Branch) : (branch.part t).Rooted := by
  cases t with
  | null => cases branch <;> trivial
  | remote root => cases branch <;> exact ht
  | node l h x n r =>
      cases branch with
      | left => exact ht.1
      | right => exact ht.2
      | both => exact ht

theorem fetch_complete_iff (ht : (node l h x n r).Rooted) (branch : Branch) :
    ∃ u, branch.fetch.overClient (node l h x n r) = some (node l h x n r, .tree u) ∧
      (u.stored = (branch.part (node l h x n r)).stored ↔
        (branch.part (node l h x n r)).Reached) := by
  have hpart := part_rooted ht branch
  obtain ⟨m, hm, hskimmed⟩ := encoded_skimmed hpart
  refine ⟨_, by rw [fetch_encoded, hm]; rfl, ?_⟩
  rw [hskimmed]
  exact skimmed_stored_iff hpart

theorem fetch_complete_iff_pair :
    ∃ u, Branch.both.fetch.overClient
        (node (remote (node null 0 [97] 1 null)) 1 [98] 2 (remote fresh)) =
          some (node (remote (node null 0 [97] 1 null)) 1 [98] 2 (remote fresh), .tree u) ∧
      (u.stored = (Branch.both.part
          (node (remote (node null 0 [97] 1 null)) 1 [98] 2 (remote fresh))).stored ↔
        (Branch.both.part
          (node (remote (node null 0 [97] 1 null)) 1 [98] 2 (remote fresh))).Reached) :=
  fetch_complete_iff (l := remote (node null 0 [97] 1 null)) (r := remote fresh)
    ⟨⟨⟨_, _, _, _, _, rfl⟩, trivial, trivial⟩, ⟨_, _, _, _, _, rfl⟩, trivial, trivial⟩ .both

-- c asks a second machine that holds (a, b, -): only b comes back.
theorem fetch_loses : ¬ ∀ (t t' : NodePtr) (branch : Branch) (u : NodePtr), t.Rooted →
    branch.fetch.overClient t = some (t', .tree u) → u.stored = (branch.part t).stored := by
  intro hall
  have hrooted : (node (remote (node (node null 0 [97] 1 null) 1 [98] 1 null)) 2 [99] 1
      null).Rooted :=
    ⟨⟨⟨_, _, _, _, _, rfl⟩, ⟨trivial, trivial⟩, trivial⟩, trivial⟩
  exact absurd (hall _ _ .both _ hrooted rfl) (by decide)

end Operation

end DistributedAvl
