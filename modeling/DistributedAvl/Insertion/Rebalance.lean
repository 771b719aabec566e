import DistributedAvl.Insertion.Path

namespace DistributedAvl

namespace NodePtr

variable {w : Word}

theorem tip_right {l r : NodePtr} {h : Int} {x : Word} {n : Int} (hf : Filled l h x n r)
    (hg : r.grows w = true) (hlean : r.heightOf = l.heightOf + 1) :
    ∃ b k y m c, r = node b k y m c ∧ Filled b k y m c ∧ b.heightOf = l.heightOf ∧
      c.heightOf = l.heightOf ∧ (y < w ∧ c.grows w = true ∨ w < y ∧ b.grows w = true) := by
  have hge := hf.left.height_ge
  cases hf.right with
  | nil => simp only [heightOf] at hlean; omega
  | blank => simp [grows, holds] at hg
  | @bin b c k y m hb hc hk hbc hcb hm hy =>
      obtain ⟨heq, hside⟩ := grows_node hg
      simp only [heightOf] at hlean
      exact ⟨b, k, y, m, c, rfl, ⟨hb, hc, hk, hbc, hcb, hm, hy⟩, by omega, by omega, hside⟩

theorem tip_left {l r : NodePtr} {h : Int} {x : Word} {n : Int} (hf : Filled l h x n r)
    (hg : l.grows w = true) (hlean : l.heightOf = r.heightOf + 1) :
    ∃ a k y m b, l = node a k y m b ∧ Filled a k y m b ∧ a.heightOf = r.heightOf ∧
      b.heightOf = r.heightOf ∧ (y < w ∧ b.grows w = true ∨ w < y ∧ a.grows w = true) := by
  have hge := hf.right.height_ge
  cases hf.left with
  | nil => simp only [heightOf] at hlean; omega
  | blank => simp [grows, holds] at hg
  | @bin a b k y m ha hb hk hab hba hm hy =>
      obtain ⟨heq, hside⟩ := grows_node hg
      simp only [heightOf] at hlean
      exact ⟨a, k, y, m, b, rfl, ⟨ha, hb, hk, hab, hba, hm, hy⟩, by omega, by omega, hside⟩

theorem graft_right {l r : NodePtr} {h : Int} {x : Word} {n : Int} (hf : Filled l h x n r)
    (hlt : x < w) : (node l h x n r).graft w = leveled l x n (r.graft w) := by
  simp [graft, hf.holds, hlt.ne', hlt]

theorem graft_left {l r : NodePtr} {h : Int} {x : Word} {n : Int} (hf : Filled l h x n r)
    (hlt : w < x) : (node l h x n r).graft w = leveled (l.graft w) x n r := by
  simp [graft, hf.holds, hlt.ne, hlt.not_gt]

theorem grows_right {l r : NodePtr} {h : Int} {x : Word} {n : Int} (hf : Filled l h x n r)
    (hlt : x < w) (heq : l.heightOf = r.heightOf) (hg : r.grows w = true) :
    (node l h x n r).grows w = true := by
  simp [grows, hf.holds, hlt.ne', hlt, heq, hg]

theorem grows_left {l r : NodePtr} {h : Int} {x : Word} {n : Int} (hf : Filled l h x n r)
    (hlt : w < x) (heq : l.heightOf = r.heightOf) (hg : l.grows w = true) :
    (node l h x n r).grows w = true := by
  simp [grows, hf.holds, hlt.ne, hlt.not_gt, heq, hg]

theorem graft_shape {t : NodePtr} (ht : t.AllLocal) :
    ∃ a k y m b, t.graft w = node a k y m b := by
  rcases ht.cases with rfl | ⟨l, h, x, n, r, rfl, -, -⟩
  · exact ⟨_, _, _, _, _, rfl⟩
  · simp only [graft]
    split
    · split
      · exact ⟨_, _, _, _, _, rfl⟩
      · split <;> exact ⟨_, _, _, _, _, rfl⟩
    · exact ⟨_, _, _, _, _, rfl⟩

section Pivot

variable {a b c l r : NodePtr} {h k : Int} {x y : Word} {n m : Int}

theorem grown_right (hw : w ≠ []) (hr : Filled b k y m c) (hbc : b.heightOf = c.heightOf)
    (hyw : y < w) (hg : c.grows w = true) :
    (node b k y m c).insertInto w = some (leveled b y m (c.graft w)) ∧
      (leveled b y m (c.graft w)).AllLocal ∧ (leveled b y m (c.graft w)).heightOf = k + 1 ∧
      (leveled b y m (c.graft w)).holds = true := by
  obtain ⟨hins, hshape, hheight⟩ := graft_spec hw hr.shaped (grows_right hr hyw hbc hg)
  rw [graft_right hr hyw] at hins hshape hheight
  have hge := hr.left.height_ge
  have hk := hr.height
  exact ⟨hins, hshape.allLocal, hheight,
    holds_node (by simp only [leveled, heightOf] at hheight; omega) hr.counted hr.worded⟩

theorem grown_left (hw : w ≠ []) (hr : Filled b k y m c) (hbc : b.heightOf = c.heightOf)
    (hwy : w < y) (hg : b.grows w = true) :
    (node b k y m c).insertInto w = some (leveled (b.graft w) y m c) ∧
      (leveled (b.graft w) y m c).AllLocal ∧ (leveled (b.graft w) y m c).heightOf = k + 1 ∧
      (leveled (b.graft w) y m c).holds = true := by
  obtain ⟨hins, hshape, hheight⟩ := graft_spec hw hr.shaped (grows_left hr hwy hbc hg)
  rw [graft_left hr hwy] at hins hshape hheight
  have hge := hr.left.height_ge
  have hk := hr.height
  exact ⟨hins, hshape.allLocal, hheight,
    holds_node (by simp only [leveled, heightOf] at hheight; omega) hr.counted hr.worded⟩

theorem insert_right_right (hw : w ≠ []) (hf : Filled l h x n (node b k y m c))
    (hr : Filled b k y m c) (hb : b.heightOf = l.heightOf) (hc : c.heightOf = l.heightOf)
    (hxw : x < w) (hyw : y < w) (hg : c.grows w = true) :
    (node l h x n (node b k y m c)).insert w =
      some (leveled l x n (leveled b y m (c.graft w))).rotatedLeft := by
  obtain ⟨hins, hloc, hheight, hholds⟩ := grown_right hw hr (hb.trans hc.symm) hyw hg
  have htwo : (leveled b y m (c.graft w)).heightOf - l.heightOf = 2 := by
    have := hr.height; omega
  have hsmall : (leveled b y m (c.graft w)).smaller w = some false := by
    rw [leveled, smaller_node hholds]; simp [hyw.not_gt]
  rw [insert_right hf.holds hf.left.allLocal hxw hloc hins, htwo]
  simp only [leveled, balance] at hsmall ⊢
  simp [hsmall, rotateLeft_local hf.left.allLocal hr.left.allLocal hloc.2]

theorem insert_right_left (hw : w ≠ []) (hf : Filled l h x n (node b k y m c))
    (hr : Filled b k y m c) (hb : b.heightOf = l.heightOf) (hc : c.heightOf = l.heightOf)
    (hxw : x < w) (hwy : w < y) (hg : b.grows w = true) :
    (node l h x n (node b k y m c)).insert w =
      some (leveled l x n (leveled (b.graft w) y m c).rotatedRight).rotatedLeft := by
  obtain ⟨hins, hloc, hheight, hholds⟩ := grown_left hw hr (hb.trans hc.symm) hwy hg
  have htwo : (leveled (b.graft w) y m c).heightOf - l.heightOf = 2 := by
    have := hr.height; omega
  have hsmall : (leveled (b.graft w) y m c).smaller w = some true := by
    rw [leveled, smaller_node hholds]; simp [hwy]
  rw [insert_right hf.holds hf.left.allLocal hxw hloc hins, htwo]
  obtain ⟨a', k', z, q, d, hgraft⟩ := graft_shape (w := w) hr.left.allLocal
  rw [hgraft] at hsmall hloc ⊢
  obtain ⟨e, j, f, hrot, he, hf'⟩ :=
    rotatedRight_shape hloc.1.1 hloc.1.2 hloc.2 (max k' c.heightOf + 1) k' y z m q
  simp only [leveled, heightOf, balance] at hsmall hrot ⊢
  simp [hsmall, rotateRight_local hloc.1.1 hloc.1.2 hloc.2, hrot,
    rotateLeft_local hf.left.allLocal he hf']
  rfl

theorem insert_left_left (hw : w ≠ []) (hf : Filled (node a k y m b) h x n r)
    (hl : Filled a k y m b) (ha : a.heightOf = r.heightOf) (hb : b.heightOf = r.heightOf)
    (hwx : w < x) (hwy : w < y) (hg : a.grows w = true) :
    (node (node a k y m b) h x n r).insert w =
      some (leveled (leveled (a.graft w) y m b) x n r).rotatedRight := by
  obtain ⟨hins, hloc, hheight, hholds⟩ := grown_left hw hl (ha.trans hb.symm) hwy hg
  have htwo : r.heightOf - (leveled (a.graft w) y m b).heightOf = -2 := by
    have := hl.height; omega
  have hsmall : (leveled (a.graft w) y m b).smaller w = some true := by
    rw [leveled, smaller_node hholds]; simp [hwy]
  rw [insert_left hf.holds hf.right.allLocal hwx hloc hins, htwo]
  simp only [leveled, balance] at hsmall ⊢
  simp [hsmall, rotateRight_local hloc.1 hl.right.allLocal hf.right.allLocal]

theorem insert_left_right (hw : w ≠ []) (hf : Filled (node a k y m b) h x n r)
    (hl : Filled a k y m b) (ha : a.heightOf = r.heightOf) (hb : b.heightOf = r.heightOf)
    (hwx : w < x) (hyw : y < w) (hg : b.grows w = true) :
    (node (node a k y m b) h x n r).insert w =
      some (leveled (leveled a y m (b.graft w)).rotatedLeft x n r).rotatedRight := by
  obtain ⟨hins, hloc, hheight, hholds⟩ := grown_right hw hl (ha.trans hb.symm) hyw hg
  have htwo : r.heightOf - (leveled a y m (b.graft w)).heightOf = -2 := by
    have := hl.height; omega
  have hsmall : (leveled a y m (b.graft w)).smaller w = some false := by
    rw [leveled, smaller_node hholds]; simp [hyw.not_gt]
  rw [insert_left hf.holds hf.right.allLocal hwx hloc hins, htwo]
  obtain ⟨a', k', z, q, d, hgraft⟩ := graft_shape (w := w) hl.right.allLocal
  rw [hgraft] at hsmall hloc ⊢
  obtain ⟨e, j, f, hrot, he, hf'⟩ :=
    rotatedLeft_shape hloc.1 hloc.2.1 hloc.2.2 (max a.heightOf k' + 1) k' y z m q
  simp only [leveled, heightOf, balance] at hsmall hrot ⊢
  simp [hsmall, rotateLeft_local hloc.1 hloc.2.1 hloc.2.2, hrot,
    rotateRight_local he hf' hf.right.allLocal]
  rfl

end Pivot

end NodePtr

end DistributedAvl
