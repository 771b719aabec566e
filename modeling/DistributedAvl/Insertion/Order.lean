import DistributedAvl.Insertion.Low
import DistributedAvl.Tree.View

namespace DistributedAvl

open Tally SearchTree

namespace NodePtr

variable {w : Word}

def leftStaysEmpty : NodePtr → Word → Bool
  | node a _ z _ _, w => !a.present && decide (z < w)
  | _, _ => true

def rightStaysEmpty : NodePtr → Word → Bool
  | node _ _ z _ b, w => !b.present && decide (w < z)
  | _, _ => true

-- What a rotation at this pivot moves up with pull_*_subtree has nothing on its left, the part
-- that both pull_left_subtree and pull_right_subtree set on the right.
def pullsInOrder : NodePtr → Word → Bool
  | node l _ x _ r, w =>
      if x < w then
        match r with
        | node b _ y _ c => if y < w then c.leftStaysEmpty w else b.rightStaysEmpty w
        | _ => true
      else
        match l with
        | node a _ y _ _ => if y < w then !a.present else a.leftStaysEmpty w
        | _ => true
  | _, _ => true

theorem entries_leveled {l r : NodePtr} {x : Word} {n : Int} (hx : x ≠ []) (hn : 0 < n)
    (hge : -1 ≤ max l.heightOf r.heightOf) :
    (leveled l x n r).entries = l.entries ++ (x, n) :: r.entries :=
  entries_node (holds_node (by omega) hn hx)

theorem graft_entries {t : NodePtr} (ht : Shaped t) (hw : w ≠ []) (hinc : Increasing t.entries) :
    (t.graft w).entries = tally w t.entries := by
  induction ht with
  | nil => exact entries_ground_leaf w 1 hw (by decide)
  | blank => simp [graft, holds, entries, hw, tally]
  | @bin l r h x n hl hr hh hlr hrl hn hx ihl ihr =>
      have hf : Filled l h x n r := ⟨hl, hr, hh, hlr, hrl, hn, hx⟩
      have hgl := hl.height_ge
      have hgr := hr.height_ge
      rw [entries_node hf.holds] at hinc ⊢
      obtain ⟨hincl, hincr, -⟩ := increasing_append.mp hinc
      rcases lt_trichotomy x w with hlt | rfl | hlt
      · rw [graft_right hf hlt, entries_leveled hx hn (by omega),
          ihr (increasing_cons.mp hincr).2, tally_right hinc hlt]
      · rw [tally_here hinc]
        simp only [graft, hf.holds, if_true]
        exact entries_node (holds_node (by omega) (by omega) hx)
      · rw [graft_left hf hlt, entries_leveled hx hn (by omega), ihl hincl,
          tally_before hlt]

theorem leftEmpty_graft {t : NodePtr} (ht : Shaped t) (hg : t.grows w = true)
    (hempty : t.leftStaysEmpty w = true) :
    t = null ∧ t.graft w = create w ∨ ∃ z q, t = node null 0 z q null ∧ z ≠ [] ∧ 0 < q ∧
      t.graft w = node null 1 z q (create w) := by
  cases ht with
  | nil => exact Or.inl ⟨rfl, rfl⟩
  | blank => simp [grows, holds] at hg
  | @bin a b k z q ha hb hk hab hba hq hz =>
      have hf : Filled a k z q b := ⟨ha, hb, hk, hab, hba, hq, hz⟩
      simp only [leftStaysEmpty, Bool.and_eq_true, Bool.not_eq_true', decide_eq_true_eq,
        present_eq_false] at hempty
      obtain ⟨rfl, hzw⟩ := hempty
      obtain rfl : b = null := hb.height_neg (grows_node hg).1.symm
      exact Or.inr ⟨z, q, by rw [hk]; rfl, hz, hq, graft_right hf hzw⟩

theorem rightEmpty_graft {t : NodePtr} (ht : Shaped t) (hg : t.grows w = true)
    (hempty : t.rightStaysEmpty w = true) :
    t = null ∧ t.graft w = create w ∨ ∃ z q, t = node null 0 z q null ∧ z ≠ [] ∧ 0 < q ∧
      t.graft w = node (create w) 1 z q null := by
  cases ht with
  | nil => exact Or.inl ⟨rfl, rfl⟩
  | blank => simp [grows, holds] at hg
  | @bin a b k z q ha hb hk hab hba hq hz =>
      have hf : Filled a k z q b := ⟨ha, hb, hk, hab, hba, hq, hz⟩
      simp only [rightStaysEmpty, Bool.and_eq_true, Bool.not_eq_true', decide_eq_true_eq,
        present_eq_false] at hempty
      obtain ⟨rfl, hwz⟩ := hempty
      obtain rfl : a = null := ha.height_neg (grows_node hg).1
      exact Or.inr ⟨z, q, by rw [hk]; rfl, hz, hq, graft_left hf hwz⟩

section Pivot

variable {a b c l r : NodePtr} {x y : Word} {n m : Int}

theorem pulled_entries {c : NodePtr} (hc : Shaped c) (hg : c.grows w = true)
    (hempty : c.leftStaysEmpty w = true) : (c.graft w).pulled.entries = (c.graft w).entries := by
  rcases leftEmpty_graft hc hg hempty with ⟨-, hgr⟩ | ⟨z, q, -, hz, hq, hgr⟩
  · simp [hgr, create, pulled, entries, holds]
  · simp [hgr, create, pulled, ground, entries, holds]

theorem order_right_right (hx : x ≠ []) (hn : 0 < n) (hy : y ≠ []) (hm : 0 < m)
    (hl : Shaped l) (hb : Shaped b) (hc : Shaped c) (hbl : b.heightOf = l.heightOf)
    (hcl : c.heightOf = l.heightOf) (hg : c.grows w = true) (hempty : c.leftStaysEmpty w = true) :
    l.heightOf ≤ 0 ∧ (leveled l x n (leveled b y m (c.graft w))).rotatedLeft.entries =
      l.entries ++ (x, n) :: (b.entries ++ (y, m) :: (c.graft w).entries) := by
  have hlow : l.heightOf ≤ 0 := by
    rcases leftEmpty_graft hc hg hempty with ⟨rfl, -⟩ | ⟨z, q, rfl, -⟩ <;> simp [← hcl, heightOf]
  obtain ⟨-, hdownh, hdown⟩ := lowered_left hx hn hl hb hbl hlow
  have hge := hl.height_ge
  refine ⟨hlow, ?_⟩
  rw [rotatedLeft_graft hc (by omega) hg, entries_leveled hy hm (by omega), hdown,
    pulled_entries hc hg hempty]
  simp

theorem order_left_left (hx : x ≠ []) (hn : 0 < n) (hy : y ≠ []) (hm : 0 < m)
    (ha : Shaped a) (hb : Shaped b) (hr : Shaped r) (har : a.heightOf = r.heightOf)
    (hbr : b.heightOf = r.heightOf) (hg : a.grows w = true) (hempty : a.leftStaysEmpty w = true) :
    r.heightOf ≤ 0 ∧ (leveled (leveled (a.graft w) y m b) x n r).rotatedRight.entries =
      ((a.graft w).entries ++ (y, m) :: b.entries) ++ (x, n) :: r.entries := by
  have hlow : r.heightOf ≤ 0 := by
    rcases leftEmpty_graft ha hg hempty with ⟨rfl, -⟩ | ⟨z, q, rfl, -⟩ <;> simp [← har, heightOf]
  obtain ⟨-, hdownh, hdown⟩ := lowered_right hx hn hr hb hbr hlow
  have hge := hr.height_ge
  refine ⟨hlow, ?_⟩
  rw [rotatedRight_graft ha (by omega) hg, entries_leveled hy hm (by omega), hdown,
    pulled_entries ha hg hempty]
  simp

theorem order_right_left (hw : w ≠ []) (hx : x ≠ []) (hn : 0 < n) (hy : y ≠ []) (hm : 0 < m)
    (hl : Shaped l) (hb : Shaped b) (hc : Shaped c) (hbl : b.heightOf = l.heightOf)
    (hcl : c.heightOf = l.heightOf) (hg : b.grows w = true) (hempty : b.rightStaysEmpty w = true) :
    l.heightOf ≤ 0 ∧
      (leveled l x n (leveled (b.graft w) y m c).rotatedRight).rotatedLeft.entries =
        l.entries ++ (x, n) :: ((b.graft w).entries ++ (y, m) :: c.entries) := by
  rcases rightEmpty_graft hb hg hempty with ⟨rfl, hgr⟩ | ⟨z, q, rfl, hz, hq, hgr⟩
  · obtain rfl := hl.height_neg hbl.symm
    obtain rfl := hc.height_neg hcl
    refine ⟨by decide, ?_⟩
    simp [hgr, entries, create, leveled, rotatedLeft, rotatedRight, pushedLeft, pushedRight,
      hungRight, hungLeft, pulled, heightOf, holds, hw, hx, hn.ne', hy, hm.ne']
  · obtain ⟨u, p, rfl, hu⟩ := hl.height_zero hbl.symm
    obtain ⟨v, j, rfl, hv⟩ := hc.height_zero hcl
    refine ⟨le_refl _, ?_⟩
    rcases hu with ⟨rfl, rfl⟩ | ⟨hu, hp⟩ <;> rcases hv with ⟨rfl, rfl⟩ | ⟨hv, hj⟩ <;>
      simp_all [entries, create, leveled, rotatedLeft, rotatedRight, pushedLeft, pushedRight,
        hungRight, hungLeft, pulled, ground, heightOf, holds, ne_of_gt]

theorem order_left_right (hw : w ≠ []) (hx : x ≠ []) (hn : 0 < n) (hy : y ≠ []) (hm : 0 < m)
    (hb : Shaped b) (hr : Shaped r) (har : null.heightOf = r.heightOf)
    (hbr : b.heightOf = r.heightOf) (hg : b.grows w = true) :
    r.heightOf ≤ 0 ∧
      (leveled (leveled null y m (b.graft w)).rotatedLeft x n r).rotatedRight.entries =
        (null.entries ++ (y, m) :: (b.graft w).entries) ++ (x, n) :: r.entries := by
  obtain rfl : r = null := hr.height_neg har.symm
  obtain rfl : b = null := hb.height_neg hbr
  refine ⟨by decide, ?_⟩
  simp [entries, holds, graft, create, leveled, rotatedLeft, rotatedRight, pushedLeft, pushedRight,
    hungRight, hungLeft, pulled, heightOf, hw, hx, hn.ne', hy, hm.ne']

end Pivot

def Tallied (w : Word) (t t' : NodePtr) : Prop :=
  Increasing t.entries → t'.entries = tally w t.entries

theorem order_pivot_right (hw : w ≠ []) {l r : NodePtr} {h : Int} {x : Word} {n : Int}
    (hf : Filled l h x n r) (hxw : x < w) (hg : r.grows w = true)
    (hlean : r.heightOf = l.heightOf + 1) (hC : (node l h x n r).pullsInOrder w = true) :
    Settles (Tallied w) (node l h x n r) w := by
  obtain ⟨b, k, y, m, c, rfl, hr, hb, hc, hside⟩ := tip_right hf hg hlean
  have hl := hf.left.height_ge
  have hh := hf.height
  rcases hside with ⟨hyw, hgc⟩ | ⟨hwy, hgb⟩
  · obtain ⟨hlow, hent⟩ := order_right_right hf.worded hf.counted hr.worded hr.counted hf.left
      hr.left hr.right hb hc hgc (by simpa [pullsInOrder, hxw, hyw] using hC)
    obtain ⟨hshape, hheight⟩ := low_right_right hw hf.worded hf.counted hr.worded hr.counted
      hf.left hr.left hr.right hb hc hlow hgc
    refine ⟨_, insert_right_right hw hf hr hb hc hxw hyw hgc, hshape, ?_, ?_⟩
    · rw [hheight]; simp only [heightOf] at hlean hh ⊢; omega
    · intro hinc
      rw [hent, ← graft_entries hf.shaped hw hinc, graft_right hf hxw, graft_right hr hyw,
        entries_leveled hf.worded hf.counted (by omega),
        entries_leveled hr.worded hr.counted (by omega)]
  · obtain ⟨hlow, hent⟩ := order_right_left hw hf.worded hf.counted hr.worded hr.counted hf.left
      hr.left hr.right hb hc hgb (by simpa [pullsInOrder, hxw, hwy.not_gt] using hC)
    obtain ⟨hshape, hheight⟩ := low_right_left hw hf.worded hf.counted hr.worded hr.counted
      hf.left hr.left hr.right hb hc hlow hgb
    refine ⟨_, insert_right_left hw hf hr hb hc hxw hwy hgb, hshape, ?_, ?_⟩
    · rw [hheight]; simp only [heightOf] at hlean hh ⊢; omega
    · intro hinc
      rw [hent, ← graft_entries hf.shaped hw hinc, graft_right hf hxw, graft_left hr hwy,
        entries_leveled hf.worded hf.counted (by omega),
        entries_leveled hr.worded hr.counted (by omega)]

theorem order_pivot_left (hw : w ≠ []) {l r : NodePtr} {h : Int} {x : Word} {n : Int}
    (hf : Filled l h x n r) (hwx : w < x) (hg : l.grows w = true)
    (hlean : l.heightOf = r.heightOf + 1) (hC : (node l h x n r).pullsInOrder w = true) :
    Settles (Tallied w) (node l h x n r) w := by
  obtain ⟨a, k, y, m, b, rfl, hl, ha, hb, hside⟩ := tip_left hf hg hlean
  have hr := hf.right.height_ge
  have hh := hf.height
  rcases hside with ⟨hyw, hgb⟩ | ⟨hwy, hga⟩
  · obtain rfl : a = null := by
      simpa [pullsInOrder, hwx.not_gt, hyw, present_eq_false] using hC
    obtain ⟨hlow, hent⟩ := order_left_right hw hf.worded hf.counted hl.worded hl.counted
      hl.right hf.right ha hb hgb
    obtain ⟨hshape, hheight⟩ := low_left_right hw hf.worded hf.counted hl.worded hl.counted
      hl.left hl.right hf.right ha hb hlow hgb
    refine ⟨_, insert_left_right hw hf hl ha hb hwx hyw hgb, hshape, ?_, ?_⟩
    · rw [hheight]; simp only [heightOf] at hlean hh ⊢; omega
    · intro hinc
      rw [hent, ← graft_entries hf.shaped hw hinc, graft_left hf hwx, graft_right hl hyw,
        entries_leveled hf.worded hf.counted (by omega),
        entries_leveled hl.worded hl.counted (by simp only [heightOf]; omega)]
  · obtain ⟨hlow, hent⟩ := order_left_left hf.worded hf.counted hl.worded hl.counted hl.left
      hl.right hf.right ha hb hga (by simpa [pullsInOrder, hwx.not_gt, hwy.not_gt] using hC)
    obtain ⟨hshape, hheight⟩ := low_left_left hw hf.worded hf.counted hl.worded hl.counted
      hl.left hl.right hf.right ha hb hlow hga
    refine ⟨_, insert_left_left hw hf hl ha hb hwx hwy hga, hshape, ?_, ?_⟩
    · rw [hheight]; simp only [heightOf] at hlean hh ⊢; omega
    · intro hinc
      rw [hent, ← graft_entries hf.shaped hw hinc, graft_left hf hwx, graft_left hl hwy,
        entries_leveled hf.worded hf.counted (by omega),
        entries_leveled hl.worded hl.counted (by omega)]

def rotatesInOrder (t : NodePtr) (w : Word) : Bool := (t.pivot w).all (fun p => p.pullsInOrder w)

theorem insert_tallied (hw : w ≠ []) {t : NodePtr} (ht : Shaped t)
    (hC : t.rotatesInOrder w = true) :
    ∃ t', t.insertInto w = some t' ∧ Shaped t' ∧ t'.heightOf = t.heightOf + t.lift w ∧
      Tallied w t t' := by
  refine insert_rule hw (C := fun p => p.pullsInOrder w = true) ?_ ?_ ?_ ?_ ?_
    (fun l h x n r hf hxw hg hlean hC => order_pivot_right hw hf hxw hg hlean hC)
    (fun l h x n r hf hwx hg hlean hC => order_pivot_left hw hf hwx hg hlean hC) ht
    (fun p hp => by simpa [rotatesInOrder, hp] using hC)
  · exact fun _ => entries_ground_leaf w 1 hw (by decide)
  · exact fun _ => entries_ground_leaf w 1 hw (by decide)
  · intro l h n r hf hinc
    have hheld := hf.holds
    rw [entries_node hf.holds] at hinc ⊢
    have hheld' : (node l h w (n + 1) r).holds = true := by
      have := hf.left.height_ge
      have := hf.height
      exact holds_node (by omega) (by have := hf.counted; omega) hf.worded
    rw [tally_here hinc, entries_node hheld']
  · intro l h x n r r' hf hlt hP hinc
    have := hf.left.height_ge
    rw [entries_node hf.holds] at hinc ⊢
    rw [entries_leveled hf.worded hf.counted (by omega), tally_right hinc hlt,
      hP (increasing_cons.mp (increasing_append.mp hinc).2.1).2]
  · intro l h x n r l' hf hlt hP hinc
    have := hf.right.height_ge
    rw [entries_node hf.holds] at hinc ⊢
    rw [entries_leveled hf.worded hf.counted (by omega), tally_before hlt,
      hP (increasing_append.mp hinc).1]

theorem visible_inorder {t : NodePtr} (ht : Shaped t) : inorder t.visible = t.entries := by
  induction ht with
  | nil => rfl
  | blank => rfl
  | @bin l r h x n hl hr hh hlr hrl hn hx ihl ihr =>
      have hheld := Filled.holds ⟨hl, hr, hh, hlr, hrl, hn, hx⟩
      simp [visible, hheld, inorder, entries_node hheld, ihl, ihr]

theorem search_visible {t : NodePtr} (ht : Shaped t) (w : Word) :
    t.search w = descend w t.visible := by
  induction ht with
  | nil => rfl
  | blank => cases w <;> simp [search, visible, holds, descend]
  | @bin l r h x n hl hr hh hlr hrl hn hx ihl ihr =>
      have hheld := Filled.holds ⟨hl, hr, hh, hlr, hrl, hn, hx⟩
      simp only [search, Word.compare_eq_zero, gt_iff_lt, Word.compare_pos, visible, hheld,
        Bool.not_true, Bool.false_and, Bool.false_eq_true, if_false, if_true, descend, ihl, ihr]
      split_ifs <;> rfl

theorem search_entries {t : NodePtr} (ht : Shaped t) (hinc : Increasing t.entries) (w : Word) :
    t.search w = look w t.entries := by
  rw [search_visible ht, ← visible_inorder ht]
  exact descend_eq_look w t.visible (by rwa [visible_inorder ht])

end NodePtr

end DistributedAvl
