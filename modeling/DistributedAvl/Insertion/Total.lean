import DistributedAvl.Insertion.Heights

namespace DistributedAvl

namespace NodePtr

variable {w : Word} {ws : List Word}

-- A tree that push_*_subtree can be called on, or the missing child a rotation creates first.
def Pushable (t : NodePtr) : Prop := t.holds = true ∨ t = null ∨ t = node null 0 [] 0 null

theorem Shaped.pushable {t : NodePtr} (ht : Shaped t) : t.Pushable := by
  cases ht with
  | nil => exact Or.inr (Or.inl rfl)
  | blank => exact Or.inr (Or.inr rfl)
  | bin hl hr hh hlr hrl hn hx => exact Or.inl (Filled.holds ⟨hl, hr, hh, hlr, hrl, hn, hx⟩)

theorem ground_height {t : NodePtr} (ht : t.AllLocal) (hp : t.present = true) :
    t.ground.heightOf = 0 := by
  rcases ht.cases with rfl | ⟨l, h, x, n, r, rfl, -, -⟩
  · exact absurd hp (by decide)
  · rfl

theorem hungRight_height {l r tree : NodePtr} {h : Int} {x : Word} {n : Int}
    (hl : l.heightOf ≤ 1) (hlow : 0 ≤ h) (hhigh : h ≤ 1) :
    0 ≤ ((node l h x n r).hungRight tree).heightOf ∧
      ((node l h x n r).hungRight tree).heightOf ≤ 2 := by
  simp only [hungRight]
  split <;> simp only [heightOf] <;> omega

theorem hungLeft_height {l r tree : NodePtr} {h : Int} {x : Word} {n : Int}
    (hr : r.heightOf ≤ 1) (hlow : 0 ≤ h) (hhigh : h ≤ 1) :
    0 ≤ ((node l h x n r).hungLeft tree).heightOf ∧
      ((node l h x n r).hungLeft tree).heightOf ≤ 2 := by
  simp only [hungLeft]
  split <;> simp only [heightOf] <;> omega

theorem pulled_height (t : NodePtr) : t.pulled.heightOf ≤ 1 := by
  cases t with
  | null => simp [pulled, heightOf]
  | remote root => simp [pulled, heightOf]
  | node l h y m r =>
      simp only [pulled]
      split
      · simp [heightOf]
      · split <;> simp [heightOf]

theorem pushedLeft_hung {t : NodePtr} (ht : t.AllLocal) (hp : t.Pushable) (x : Word)
    (n : Int) (tree : NodePtr) : 0 ≤ ((t.pushedLeft x n).hungRight tree).heightOf ∧
      ((t.pushedLeft x n).hungRight tree).heightOf ≤ 2 := by
  rcases hp with hh | rfl | rfl
  · rcases ht.cases with rfl | ⟨l, h, y, m, r, rfl, hl, hr⟩
    · simp [holds] at hh
    · simp only [pushedLeft, hh, if_true]
      refine hungRight_height ?_ (by decide) (by decide)
      split
      · rename_i hpres
        rw [ground_height hr hpres]; decide
      · exact (pushedLeft_height l y m).2
  · exact hungRight_height (by decide) (by decide) (by decide)
  · exact hungRight_height (by decide) (by decide) (by decide)

theorem pushedRight_hung {t : NodePtr} (ht : t.AllLocal) (hp : t.Pushable) (x : Word)
    (n : Int) (tree : NodePtr) : 0 ≤ ((t.pushedRight x n).hungLeft tree).heightOf ∧
      ((t.pushedRight x n).hungLeft tree).heightOf ≤ 2 := by
  rcases hp with hh | rfl | rfl
  · rcases ht.cases with rfl | ⟨l, h, y, m, r, rfl, hl, hr⟩
    · simp [holds] at hh
    · simp only [pushedRight, hh, if_true]
      refine hungLeft_height ?_ (by decide) (by decide)
      split
      · rename_i hpres
        rw [ground_height hl hpres]; decide
      · exact (pushedRight_height r y m).2
  · exact hungLeft_height (by decide) (by decide) (by decide)
  · exact hungLeft_height (by decide) (by decide) (by decide)

structure Stands (t : NodePtr) (bound : Int) : Prop where
  isLocal : t.AllLocal
  held : t.holds = true
  low : 1 ≤ t.heightOf
  high : t.heightOf ≤ bound

theorem Stands.mono {t : NodePtr} {i j : Int} (ht : Stands t i) (hij : i ≤ j) : Stands t j :=
  ⟨ht.isLocal, ht.held, ht.low, ht.high.trans hij⟩

theorem rotateLeft_stands {l a b : NodePtr} (hl : l.AllLocal) (hpush : l.Pushable)
    (ha : a.AllLocal) (hb : b.AllLocal) {y : Word} {m : Int} (hy : y ≠ []) (hm : 0 < m)
    (h k : Int) (x : Word) (n : Int) :
    ∃ t', (node l h x n (node a k y m b)).rotateLeft = some t' ∧ Stands t' 3 := by
  refine ⟨_, rotateLeft_local hl ha hb h k x y n m, ?_⟩
  obtain ⟨a', k', b', hrot, ha', hb'⟩ := rotatedLeft_shape hl ha hb h k x y n m
  have hheight : 1 ≤ k' ∧ k' ≤ 3 := by
    have hk : (node l h x n (node a k y m b)).rotatedLeft.heightOf = k' := by rw [hrot]; rfl
    obtain ⟨hlow, hhigh⟩ := pushedLeft_hung hl hpush x n a
    have hpull : (if !a.present && !b.present then null else b.pulled).heightOf ≤ 1 := by
      split
      · decide
      · exact pulled_height b
    simp only [rotatedLeft, leveled, heightOf] at hk
    omega
  rw [hrot]
  exact ⟨⟨ha', hb'⟩, holds_node (by omega) hm hy, hheight.1, hheight.2⟩

theorem rotateRight_stands {a b r : NodePtr} (ha : a.AllLocal) (hb : b.AllLocal)
    (hr : r.AllLocal) (hpush : r.Pushable) {y : Word} {m : Int} (hy : y ≠ []) (hm : 0 < m)
    (h k : Int) (x : Word) (n : Int) :
    ∃ t', (node (node a k y m b) h x n r).rotateRight = some t' ∧ Stands t' 3 := by
  refine ⟨_, rotateRight_local ha hb hr h k x y n m, ?_⟩
  obtain ⟨a', k', b', hrot, ha', hb'⟩ := rotatedRight_shape ha hb hr h k x y n m
  have hheight : 1 ≤ k' ∧ k' ≤ 3 := by
    have hk : (node (node a k y m b) h x n r).rotatedRight.heightOf = k' := by rw [hrot]; rfl
    obtain ⟨hlow, hhigh⟩ := pushedRight_hung hr hpush x n b
    have hpull : (if !a.present && !b.present then null else a.pulled).heightOf ≤ 1 := by
      split
      · decide
      · exact pulled_height a
    simp only [rotatedRight, leveled, heightOf] at hk
    omega
  rw [hrot]
  exact ⟨⟨ha', hb'⟩, holds_node (by omega) hm hy, hheight.1, hheight.2⟩

def Worded (t : NodePtr) : Prop :=
  ∃ a k z q b, t = node a k z q b ∧ a.AllLocal ∧ b.AllLocal ∧ z ≠ [] ∧ 0 < q

theorem balance_right {l b c : NodePtr} (hl : l.AllLocal) (hpush : l.Pushable)
    (hb : b.AllLocal) (hc : c.AllLocal) {y : Word} {m k : Int} (hy : y ≠ []) (hm : 0 < m)
    (hk : -1 < k) (hinner : w < y → b.Worded) (h : Int) (x : Word) (n : Int) :
    ∃ t', (node l h x n (node b k y m c)).balance 2 w = some t' ∧ Stands t' 3 := by
  have hsmall := smaller_node (holds_node (l := b) (r := c) hk hm hy) w
  by_cases hlt : w < y
  · obtain ⟨a', j, z, q, d, rfl, ha', hd, hz, hq⟩ := hinner hlt
    obtain ⟨e, i, f, hrot, he, hf⟩ := rotatedRight_shape ha' hd hc k j y z m q
    obtain ⟨t', hleft, hstands⟩ := rotateLeft_stands hl hpush he hf hz hq h i x n
    refine ⟨t', ?_, hstands⟩
    simp [balance, hsmall, hlt, rotateRight_local ha' hd hc, hrot, hleft]
  · obtain ⟨t', hleft, hstands⟩ := rotateLeft_stands hl hpush hb hc hy hm h k x n
    exact ⟨t', by simp [balance, hsmall, hlt, hleft], hstands⟩

theorem balance_left {a b r : NodePtr} (hr : r.AllLocal) (hpush : r.Pushable)
    (ha : a.AllLocal) (hb : b.AllLocal) {y : Word} {m k : Int} (hy : y ≠ []) (hm : 0 < m)
    (hk : -1 < k) (hinner : ¬ w < y → b.Worded) (h : Int) (x : Word) (n : Int) :
    ∃ t', (node (node a k y m b) h x n r).balance (-2) w = some t' ∧ Stands t' 3 := by
  have hsmall := smaller_node (holds_node (l := a) (r := b) hk hm hy) w
  by_cases hlt : w < y
  · obtain ⟨t', hright, hstands⟩ := rotateRight_stands ha hb hr hpush hy hm h k x n
    exact ⟨t', by simp [balance, hsmall, hlt, hright], hstands⟩
  · obtain ⟨a', j, z, q, d, rfl, ha', hd, hz, hq⟩ := hinner hlt
    obtain ⟨e, i, f, hrot, he, hf⟩ := rotatedLeft_shape ha ha' hd k j y z m q
    obtain ⟨t', hright, hstands⟩ := rotateRight_stands he hf hr hpush hz hq h i x n
    refine ⟨t', ?_, hstands⟩
    simp [balance, hsmall, hlt, rotateLeft_local ha ha' hd, hrot, hright]

theorem Shaped.worded {t : NodePtr} (ht : Shaped t) (h : 1 ≤ t.heightOf) : t.Worded := by
  cases ht with
  | nil => simp [heightOf] at h
  | blank => simp [heightOf] at h
  | bin hl hr _ _ _ hn hx => exact ⟨_, _, _, _, _, rfl, hl.allLocal, hr.allLocal, hx, hn⟩

theorem graft_worded (hw : w ≠ []) {t : NodePtr} (ht : Shaped t) (hg : t.grows w = true) :
    (t.graft w).Worded := by
  have hloc := (graft_spec hw ht hg).2.1.allLocal
  cases ht with
  | nil => exact ⟨_, _, _, _, _, rfl, trivial, trivial, hw, by decide⟩
  | blank => simp [grows, holds] at hg
  | @bin l r h x n hl hr hh hlr hrl hn hx =>
      have hf : Filled l h x n r := ⟨hl, hr, hh, hlr, hrl, hn, hx⟩
      rcases (grows_node hg).2 with ⟨hlt, -⟩ | ⟨hlt, -⟩
      · rw [graft_right hf hlt] at hloc ⊢
        exact ⟨_, _, _, _, _, rfl, hloc.1, hloc.2, hx, hn⟩
      · rw [graft_left hf hlt] at hloc ⊢
        exact ⟨_, _, _, _, _, rfl, hloc.1, hloc.2, hx, hn⟩

theorem pivot_right_stands (hw : w ≠ []) {l r : NodePtr} {h : Int} {x : Word} {n : Int}
    (hf : Filled l h x n r) (hxw : x < w) (hg : r.grows w = true)
    (hlean : r.heightOf = l.heightOf + 1) :
    ∃ t', (node l h x n r).insert w = some t' ∧ Stands t' 3 := by
  obtain ⟨b, k, y, m, c, rfl, hr, hb, hc, hside⟩ := tip_right hf hg hlean
  have hk := hr.height
  have hge := hr.left.height_ge
  rcases hside with ⟨hyw, hgc⟩ | ⟨hwy, hgb⟩
  · obtain ⟨hins, hloc, hheight, -⟩ := grown_right hw hr (hb.trans hc.symm) hyw hgc
    rw [insert_right hf.holds hf.left.allLocal hxw hloc hins,
      show (leveled b y m (c.graft w)).heightOf - l.heightOf = 2 by omega]
    exact balance_right hf.left.allLocal hf.left.pushable hloc.1 hloc.2 hr.worded hr.counted
      (by simp only [leveled, heightOf] at hheight; omega) (fun hlt => absurd hyw hlt.not_gt) _ x n
  · obtain ⟨hins, hloc, hheight, -⟩ := grown_left hw hr (hb.trans hc.symm) hwy hgb
    rw [insert_right hf.holds hf.left.allLocal hxw hloc hins,
      show (leveled (b.graft w) y m c).heightOf - l.heightOf = 2 by omega]
    exact balance_right hf.left.allLocal hf.left.pushable hloc.1 hloc.2 hr.worded hr.counted
      (by simp only [leveled, heightOf] at hheight; omega)
      (fun _ => graft_worded hw hr.left hgb) _ x n

theorem pivot_left_stands (hw : w ≠ []) {l r : NodePtr} {h : Int} {x : Word} {n : Int}
    (hf : Filled l h x n r) (hwx : w < x) (hg : l.grows w = true)
    (hlean : l.heightOf = r.heightOf + 1) :
    ∃ t', (node l h x n r).insert w = some t' ∧ Stands t' 3 := by
  obtain ⟨a, k, y, m, b, rfl, hl, ha, hb, hside⟩ := tip_left hf hg hlean
  have hk := hl.height
  have hge := hl.left.height_ge
  rcases hside with ⟨hyw, hgb⟩ | ⟨hwy, hga⟩
  · obtain ⟨hins, hloc, hheight, -⟩ := grown_right hw hl (ha.trans hb.symm) hyw hgb
    rw [insert_left hf.holds hf.right.allLocal hwx hloc hins,
      show r.heightOf - (leveled a y m (b.graft w)).heightOf = -2 by omega]
    exact balance_left hf.right.allLocal hf.right.pushable hloc.1 hloc.2 hl.worded hl.counted
      (by simp only [leveled, heightOf] at hheight; omega)
      (fun _ => graft_worded hw hl.right hgb) _ x n
  · obtain ⟨hins, hloc, hheight, -⟩ := grown_left hw hl (ha.trans hb.symm) hwy hga
    rw [insert_left hf.holds hf.right.allLocal hwx hloc hins,
      show r.heightOf - (leveled (a.graft w) y m b).heightOf = -2 by omega]
    exact balance_left hf.right.allLocal hf.right.pushable hloc.1 hloc.2 hl.worded hl.counted
      (by simp only [leveled, heightOf] at hheight; omega) (fun hlt => absurd hwy hlt) _ x n

-- Above a rotation the changed child may be two lower than its sibling, which is then whole.
theorem above_right {l r r' : NodePtr} {h : Int} {x : Word} {n : Int} (hf : Filled l h x n r)
    (hxw : x < w) (hins : r.insertInto w = some r') (hr' : Stands r' r.heightOf) :
    ∃ t', (node l h x n r).insert w = some t' ∧ Stands t' h := by
  have hh := hf.height
  have hle := hf.right_le
  have hlow := hr'.low
  have hhigh := hr'.high
  rw [insert_right hf.holds hf.left.allLocal hxw hr'.isLocal hins]
  by_cases hbal : r'.heightOf - l.heightOf = -2
  · cases hf.left with
    | nil => simp only [heightOf] at hbal; omega
    | blank => simp only [heightOf] at hbal; omega
    | @bin a b k y m ha hb hk hab hba hm hy =>
        simp only [heightOf] at hbal
        have hpos : -1 < k := by omega
        obtain ⟨t', hbalance, hstands⟩ := balance_left hr'.isLocal (Or.inl hr'.held) ha.allLocal
          hb.allLocal hy hm hpos (fun _ => hb.worded (by omega))
          (max (node a k y m b).heightOf r'.heightOf + 1) x n
        refine ⟨t', ?_, hstands.mono ?_⟩
        · rw [show r'.heightOf - (node a k y m b).heightOf = -2 from hbal]
          exact hbalance
        · simp only [heightOf] at hh; omega
  · refine ⟨_, balance_still w (by omega) hbal, ⟨hf.left.allLocal, hr'.isLocal⟩, ?_, ?_, ?_⟩
    · exact holds_node (by omega) hf.counted hf.worded
    · simp only [heightOf]; omega
    · simp only [heightOf]; omega

theorem above_left {l r l' : NodePtr} {h : Int} {x : Word} {n : Int} (hf : Filled l h x n r)
    (hwx : w < x) (hins : l.insertInto w = some l') (hl' : Stands l' l.heightOf) :
    ∃ t', (node l h x n r).insert w = some t' ∧ Stands t' h := by
  have hh := hf.height
  have hle := hf.left_le
  have hlow := hl'.low
  have hhigh := hl'.high
  rw [insert_left hf.holds hf.right.allLocal hwx hl'.isLocal hins]
  by_cases hbal : r.heightOf - l'.heightOf = 2
  · cases hf.right with
    | nil => simp only [heightOf] at hbal; omega
    | blank => simp only [heightOf] at hbal; omega
    | @bin b c k y m hb hc hk hbc hcb hm hy =>
        simp only [heightOf] at hbal
        have hpos : -1 < k := by omega
        obtain ⟨t', hbalance, hstands⟩ := balance_right hl'.isLocal (Or.inl hl'.held) hb.allLocal
          hc.allLocal hy hm hpos (fun _ => hb.worded (by omega))
          (max l'.heightOf (node b k y m c).heightOf + 1) x n
        refine ⟨t', ?_, hstands.mono ?_⟩
        · rw [show (node b k y m c).heightOf - l'.heightOf = 2 from hbal]
          exact hbalance
        · simp only [heightOf] at hh; omega
  · refine ⟨_, balance_still w hbal (by omega), ⟨hl'.isLocal, hf.right.allLocal⟩, ?_, ?_, ?_⟩
    · exact holds_node (by omega) hf.counted hf.worded
    · simp only [heightOf]; omega
    · simp only [heightOf]; omega

theorem insert_stands (hw : w ≠ []) {t p : NodePtr} (ht : Shaped t) (hpivot : t.pivot w = some p)
    (hhigh : 3 ≤ p.heightOf) : ∃ t', t.insertInto w = some t' ∧ Stands t' t.heightOf := by
  induction ht with
  | nil => cases hpivot
  | blank => simp [pivot, holds] at hpivot
  | @bin l r h x n hl hr hh hlr hrl hn hx ihl ihr =>
      have hf : Filled l h x n r := ⟨hl, hr, hh, hlr, hrl, hn, hx⟩
      rcases lt_trichotomy x w with hlt | rfl | hlt
      · rw [pivot_right hf.holds hlt] at hpivot
        by_cases htip : r.grows w = true ∧ l.heightOf < r.heightOf
        · rw [if_pos htip] at hpivot
          obtain ⟨t', hins, hstands⟩ := pivot_right_stands hw hf hlt htip.1 (by omega)
          cases hpivot
          exact ⟨t', hins, hstands.mono hhigh⟩
        · obtain ⟨r', hins, hr'⟩ := ihr (by simpa [htip] using hpivot)
          exact above_right hf hlt hins hr'
      · simp [pivot] at hpivot
      · rw [pivot_left hf.holds hlt] at hpivot
        by_cases htip : l.grows w = true ∧ r.heightOf < l.heightOf
        · rw [if_pos htip] at hpivot
          obtain ⟨t', hins, hstands⟩ := pivot_left_stands hw hf hlt htip.1 (by omega)
          cases hpivot
          exact ⟨t', hins, hstands.mono hhigh⟩
        · obtain ⟨l', hins, hl'⟩ := ihl (by simpa [htip] using hpivot)
          exact above_left hf hlt hins hl'

theorem insert_completes (hw : w ≠ []) {t : NodePtr} (ht : Shaped t) (hp : t.present = true) :
    ∃ t', t.insert w = some t' := by
  have hinto : ∃ t', t.insertInto w = some t' := by
    by_cases hlow : t.rotatesLow w = true
    · obtain ⟨t', hins, -⟩ := insert_low hw ht hlow
      exact ⟨t', hins⟩
    · cases hpivot : t.pivot w with
      | none => simp [rotatesLow, hpivot] at hlow
      | some p =>
          simp only [rotatesLow, hpivot, Option.all_some, decide_eq_true_eq] at hlow
          obtain ⟨t', hins, -⟩ := insert_stands hw ht hpivot (by omega)
          exact ⟨t', hins⟩
  simpa [insertInto, hp] using hinto

theorem insertAll_completes (hws : ∀ w ∈ ws, w ≠ [])
    (hrun : Runs.Along insert (fun t w => t.rotatesLow w = true) fresh ws) :
    ∃ t, insertAll fresh ws = some t ∧ ∀ w, w ≠ [] → ∃ t', t.insert w = some t' := by
  obtain ⟨t, ht, ⟨-, rfl⟩ | ⟨hshape, hp⟩⟩ := insertAll_shaped hws hrun
  · exact ⟨fresh, ht, fun w _ => ⟨create w, rfl⟩⟩
  · exact ⟨t, ht, fun w hw => insert_completes hw hshape hp⟩

theorem insertAll_completes_nine :
    ∃ t, insertAll fresh [[109], [100], [101], [108], [104], [99], [103], [105], [110]] = some t ∧
      ∀ w, w ≠ [] → ∃ t', t.insert w = some t' :=
  insertAll_completes (by decide) (by decide)

-- Stale heights make a node lean to a child that is not there.
theorem insertAll_crashes : ¬ ∀ ws, (∀ w ∈ ws, w ≠ []) → ∃ t, insertAll fresh ws = some t := by
  intro h
  obtain ⟨t, ht⟩ := h [[109], [100], [101], [108], [104], [99], [103], [105], [110], [106], [98],
    [102], [97], [107], [103]] (by decide)
  rw [show insertAll fresh [[109], [100], [101], [108], [104], [99], [103], [105], [110], [106],
    [98], [102], [97], [107], [103]] = none by decide] at ht
  cases ht

end NodePtr

end DistributedAvl
