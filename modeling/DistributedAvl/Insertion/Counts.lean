import DistributedAvl.Insertion.Pivot
import DistributedAvl.Tree.View

namespace DistributedAvl

namespace NodePtr

variable {l r : NodePtr} {h k : Int} {x y w v : Word} {n m : Int} {ws : List Word}
  {f g : Word → Int}

def share (x : Word) (n : Int) (v : Word) : Int := if x = v then n else 0

def total : NodePtr → Word → Int
  | null, _ => 0
  | node l _ x n r, v => l.total v + share x n v + r.total v
  | remote root, v => root.total v

-- Kept by everything insert does, in whatever order and however unbalanced: a node that counts
-- something holds a word, and no height is below that of a missing child.
def Accounted : NodePtr → Prop
  | null => True
  | node l h x n r =>
      -1 ≤ h ∧ 0 ≤ n ∧ (n ≠ 0 → (node l h x n r).holds = true) ∧ l.Accounted ∧ r.Accounted
  | remote _ => False

structure Within (t : NodePtr) (f : Word → Int) : Prop where
  accounted : t.Accounted
  total : ∀ v, t.total v ≤ f v

theorem share_nonneg (hn : 0 ≤ n) (x v : Word) : 0 ≤ share x n v := by
  rw [share]
  split <;> omega

theorem share_add (x v : Word) : share x (n + m) v = share x n v + share x m v := by
  simp only [share]
  split <;> omega

theorem Accounted.isLocal {t : NodePtr} (ht : t.Accounted) : t.AllLocal := by
  induction t with
  | null => trivial
  | remote root => exact ht.elim
  | node l h x n r ihl ihr => exact ⟨ihl ht.2.2.2.1, ihr ht.2.2.2.2⟩

theorem Accounted.height_ge {t : NodePtr} (ht : t.Accounted) : -1 ≤ t.heightOf := by
  cases t with
  | null => exact le_refl _
  | remote root => exact ht.elim
  | node l h x n r => exact ht.1

theorem Accounted.total_nonneg {t : NodePtr} (ht : t.Accounted) (v : Word) : 0 ≤ t.total v := by
  induction t with
  | null => exact le_refl _
  | remote root => exact ht.elim
  | node l h x n r ihl ihr =>
      have hl := ihl ht.2.2.2.1
      have hr := ihr ht.2.2.2.2
      have hx := share_nonneg ht.2.1 x v
      simp only [NodePtr.total]
      omega

theorem Accounted.worded (ht : (node l h x n r).Accounted) (hn : n ≠ 0) : x ≠ [] :=
  (by simpa [holds] using ht.2.2.1 hn : (-1 < h ∧ n ≠ 0) ∧ x ≠ []).2

theorem accounted_node (hl : l.Accounted) (hr : r.Accounted) (hh : 0 ≤ h) (hn : 0 ≤ n)
    (hx : n ≠ 0 → x ≠ []) : (node l h x n r).Accounted :=
  ⟨by omega, hn, fun hne => holds_node (by omega) (by omega) (hx hne), hl, hr⟩

theorem Accounted.ground {t : NodePtr} (ht : t.Accounted) : t.ground.Accounted := by
  cases t with
  | null => trivial
  | remote root => exact ht.elim
  | node l h x n r => exact accounted_node ht.2.2.2.1 ht.2.2.2.2 (le_refl _) ht.2.1 ht.worded

theorem ground_total (t : NodePtr) : t.ground.total = t.total := by cases t <;> rfl

theorem Accounted.within {t : NodePtr} (ht : t.Accounted) : Within t t.total :=
  ⟨ht, fun _ => le_refl _⟩

theorem Within.mono {t : NodePtr} (ht : Within t f) (hfg : ∀ v, f v ≤ g v) : Within t g :=
  ⟨ht.accounted, fun v => (ht.total v).trans (hfg v)⟩

theorem within_null : Within null fun _ => 0 := ⟨trivial, fun _ => le_refl _⟩

theorem within_node (hl : Within l f) (hr : Within r g) (hh : 0 ≤ h) (hn : 0 ≤ n)
    (hx : n ≠ 0 → x ≠ []) : Within (node l h x n r) fun v => f v + share x n v + g v where
  accounted := accounted_node hl.accounted hr.accounted hh hn hx
  total v := by
    have := hl.total v
    have := hr.total v
    simp only [NodePtr.total]
    omega

theorem within_leveled (hl : Within l f) (hr : Within r g) (hn : 0 ≤ n) (hx : n ≠ 0 → x ≠ []) :
    Within (leveled l x n r) fun v => f v + share x n v + g v :=
  within_node hl hr (by have := hl.accounted.height_ge; omega) hn hx

theorem Accounted.within_ground {t : NodePtr} (ht : t.Accounted) : Within t.ground t.total :=
  ⟨ht.ground, fun v => by rw [ground_total]⟩

theorem unheld_counter (ht : (node l h x n r).Accounted) (hh : (node l h x n r).holds ≠ true) :
    n = 0 := by
  by_contra hn
  exact hh (ht.2.2.1 hn)

theorem pushedRight_within {t : NodePtr} (ht : t.Accounted) (hn : 0 ≤ n) (hx : n ≠ 0 → x ≠ []) :
    Within (t.pushedRight x n) fun v => t.total v + share x n v := by
  induction t generalizing x n with
  | null =>
      refine (within_node within_null within_null (le_refl _) hn hx).mono fun v => ?_
      simp [total]
  | remote root => exact ht.elim
  | node l h y m r _ ihr =>
      have hl := ht.2.2.2.1
      have hr := ht.2.2.2.2
      rw [pushedRight]
      split
      · split
        · refine (within_node within_null hl.within_ground zero_le_one hn hx).mono fun v => ?_
          have := hr.total_nonneg v
          have := share_nonneg ht.2.1 y v
          simp only [total]
          omega
        · have hpushed := ihr hr ht.2.1 ht.worded
          refine (within_node within_null hpushed zero_le_one hn hx).mono fun v => ?_
          have := hl.total_nonneg v
          simp only [total]
          omega
      · rename_i hh
        refine (within_node hl.within hr.within (le_refl _) hn hx).mono fun v => ?_
        have := share_nonneg ht.2.1 y v
        simp only [total]
        omega

theorem pushedLeft_within {t : NodePtr} (ht : t.Accounted) (hn : 0 ≤ n) (hx : n ≠ 0 → x ≠ []) :
    Within (t.pushedLeft x n) fun v => t.total v + share x n v := by
  induction t generalizing x n with
  | null =>
      refine (within_node within_null within_null (le_refl _) hn hx).mono fun v => ?_
      simp [total]
  | remote root => exact ht.elim
  | node l h y m r ihl _ =>
      have hl := ht.2.2.2.1
      have hr := ht.2.2.2.2
      rw [pushedLeft]
      split
      · split
        · refine (within_node hr.within_ground within_null zero_le_one hn hx).mono fun v => ?_
          have := hl.total_nonneg v
          have := share_nonneg ht.2.1 y v
          simp only [total]
          omega
        · have hpushed := ihl hl ht.2.1 ht.worded
          refine (within_node hpushed within_null zero_le_one hn hx).mono fun v => ?_
          have := hr.total_nonneg v
          simp only [total]
          omega
      · refine (within_node hl.within hr.within (le_refl _) hn hx).mono fun v => ?_
        have := share_nonneg ht.2.1 y v
        simp only [total]
        omega

theorem pulled_within {t : NodePtr} (ht : t.Accounted) : Within t.pulled t.total := by
  cases t with
  | null => exact ⟨⟨le_refl _, le_refl _, fun hn => absurd rfl hn, trivial, trivial⟩,
      fun v => by simp [pulled, total, share]⟩
  | remote root => exact ht.elim
  | node a k y m b =>
      have ha := ht.2.2.2.1
      have hb := ht.2.2.2.2
      have hnonneg : ∀ v, 0 ≤ a.total v ∧ 0 ≤ b.total v := fun v =>
        ⟨ha.total_nonneg v, hb.total_nonneg v⟩
      rw [pulled]
      split
      · have hup := within_node within_null ha.within_ground zero_le_one ht.2.1 ht.worded
        refine hup.mono fun v => ?_
        have := hnonneg v
        simp only [total]
        omega
      · split
        · have hup := within_node within_null hb.within_ground zero_le_one ht.2.1 ht.worded
          refine hup.mono fun v => ?_
          have := hnonneg v
          simp only [total]
          omega
        · have hup := within_node within_null within_null (le_refl _) ht.2.1 ht.worded
          refine hup.mono fun v => ?_
          have := hnonneg v
          simp only [total]
          omega

theorem hungLeft_within {t tree : NodePtr} (ht : Within t f) (htree : tree.Accounted) :
    Within (t.hungLeft tree) fun v => f v + tree.total v := by
  have hkeep : Within t fun v => f v + tree.total v :=
    ht.mono fun v => by have := htree.total_nonneg v; omega
  cases t with
  | null => exact hkeep
  | remote root => exact hkeep
  | node l h x n r =>
      rw [hungLeft]
      split
      · obtain ⟨haccounted, hsum⟩ := ht
        have hl := haccounted.2.2.2.1
        have hr := haccounted.2.2.2.2
        refine (within_node htree.within_ground hr.within (by omega) haccounted.2.1
          haccounted.worded).mono fun v => ?_
        have := hl.total_nonneg v
        have := hsum v
        simp only [total] at this
        omega
      · exact hkeep

theorem hungRight_within {t tree : NodePtr} (ht : Within t f) (htree : tree.Accounted) :
    Within (t.hungRight tree) fun v => f v + tree.total v := by
  have hkeep : Within t fun v => f v + tree.total v :=
    ht.mono fun v => by have := htree.total_nonneg v; omega
  cases t with
  | null => exact hkeep
  | remote root => exact hkeep
  | node l h x n r =>
      rw [hungRight]
      split
      · obtain ⟨haccounted, hsum⟩ := ht
        have hl := haccounted.2.2.2.1
        have hr := haccounted.2.2.2.2
        refine (within_node hl.within htree.within_ground (by omega) haccounted.2.1
          haccounted.worded).mono fun v => ?_
        have := hr.total_nonneg v
        have := hsum v
        simp only [total] at this
        omega
      · exact hkeep

theorem uncovered_within {t : NodePtr} (ht : t.Accounted) (b : Bool) :
    Within (if b then null else t.pulled) t.total := by
  cases b with
  | false => exact pulled_within ht
  | true => exact within_null.mono ht.total_nonneg

theorem rotateRight_within {t t' : NodePtr} (ht : t.Accounted) (hrot : t.rotateRight = some t') :
    Within t' t.total := by
  cases t with
  | null => cases hrot
  | remote root => exact ht.elim
  | node l h x n c =>
      obtain ⟨-, hn, -, hl, hc⟩ := id ht
      cases l with
      | null => cases hrot
      | remote root => exact hl.elim
      | node a k y m b =>
          obtain ⟨-, hm, -, ha, hb⟩ := id hl
          rw [rotateRight_local ha.isLocal hb.isLocal hc.isLocal] at hrot
          cases hrot
          have hright := hungLeft_within (pushedRight_within hc hn ht.worded) hb
          refine (within_leveled (uncovered_within ha _) hright hm hl.worded).mono fun v => ?_
          simp only [total]
          omega

theorem rotateLeft_within {t t' : NodePtr} (ht : t.Accounted) (hrot : t.rotateLeft = some t') :
    Within t' t.total := by
  cases t with
  | null => cases hrot
  | remote root => exact ht.elim
  | node c h x n r =>
      obtain ⟨-, hn, -, hc, hr⟩ := id ht
      cases r with
      | null => cases hrot
      | remote root => exact hr.elim
      | node a k y m b =>
          obtain ⟨-, hm, -, ha, hb⟩ := id hr
          rw [rotateLeft_local hc.isLocal ha.isLocal hb.isLocal] at hrot
          cases hrot
          have hleft := hungRight_within (pushedLeft_within hc hn ht.worded) ha
          refine (within_leveled hleft (uncovered_within hb _) hm hr.worded).mono fun v => ?_
          simp only [total]
          omega

theorem balance_within {t t' : NodePtr} {b : Int} (ht : t.Accounted)
    (hbal : t.balance b w = some t') : Within t' t.total := by
  cases t with
  | null => cases hbal
  | remote root => exact ht.elim
  | node l h x n r =>
      obtain ⟨hh, hn, hheld, hl, hr⟩ := id ht
      obtain rfl | ⟨r₁, hr₁, hrot⟩ | ⟨l₁, hl₁, hrot⟩ := balance_cases hbal
      · exact ht.within
      · have hr₁ : Within r₁ r.total := by
          rcases hr₁ with rfl | hside
          · exact hr.within
          · exact rotateRight_within hr hside
        have hnode : (node l h x n r₁).Accounted := ⟨hh, hn, hheld, hl, hr₁.accounted⟩
        refine (rotateLeft_within hnode hrot).mono fun v => ?_
        have := hr₁.total v
        simp only [total]
        omega
      · have hl₁ : Within l₁ l.total := by
          rcases hl₁ with rfl | hside
          · exact hl.within
          · exact rotateLeft_within hl hside
        have hnode : (node l₁ h x n r).Accounted := ⟨hh, hn, hheld, hl₁.accounted, hr⟩
        refine (rotateRight_within hnode hrot).mono fun v => ?_
        have := hl₁.total v
        simp only [total]
        omega

theorem insertInto_within {t t' : NodePtr} (hw : w ≠ []) (ht : t.Accounted)
    (hins : t.insertInto w = some t') : Within t' fun v => t.total v + share w 1 v := by
  induction t generalizing t' with
  | null =>
      cases hins
      have hleaf := within_node within_null within_null (le_refl 0) zero_le_one fun _ => hw
      exact hleaf.mono fun v => by simp [total]
  | remote root => exact ht.elim
  | node l h x n r ihl ihr =>
      rw [insertInto_node] at hins
      obtain ⟨hge, hn, hheld, hl, hr⟩ := id ht
      by_cases hh : (node l h x n r).holds = true
      · rcases lt_trichotomy w x with hlt | rfl | hlt
        · rw [insert_left_eq hh hlt] at hins
          obtain ⟨l', hl', hbal⟩ := Option.bind_eq_some_iff.mp hins
          have hwithin := ihl hl hl'
          rw [updateHeight_local hwithin.accounted.isLocal hr.isLocal, Option.bind_some] at hbal
          have hnode := within_leveled hwithin hr.within hn ht.worded
          refine (balance_within hnode.accounted hbal).mono fun v => (hnode.total v).trans ?_
          simp only [total]
          omega
        · rw [insert_here hh] at hins
          cases hins
          obtain ⟨⟨hpos, -⟩, hx⟩ : (-1 < h ∧ n ≠ 0) ∧ w ≠ [] := by simpa [holds] using hh
          have hnode := within_node hl.within hr.within (show 0 ≤ h by omega)
            (show 0 ≤ n + 1 by omega) fun _ => hx
          refine hnode.mono fun v => ?_
          rw [share_add]
          simp only [total]
          omega
        · rw [insert_right_eq hh hlt] at hins
          obtain ⟨r', hr', hbal⟩ := Option.bind_eq_some_iff.mp hins
          have hwithin := ihr hr hr'
          rw [updateHeight_local hl.isLocal hwithin.accounted.isLocal, Option.bind_some] at hbal
          have hnode := within_leveled hl.within hwithin hn ht.worded
          refine (balance_within hnode.accounted hbal).mono fun v => (hnode.total v).trans ?_
          simp only [total]
          omega
      · have hzero := unheld_counter ht hh
        subst hzero
        rw [insert_blank hh] at hins
        cases hins
        have hnode := within_node hl.within hr.within (le_refl 0) zero_le_one fun _ => hw
        refine hnode.mono fun v => ?_
        have := share_nonneg (le_refl 0) x v
        simp only [total]
        omega

theorem insert_within {t t' : NodePtr} (hw : w ≠ []) (ht : t.Accounted)
    (hins : t.insert w = some t') : Within t' fun v => t.total v + share w 1 v := by
  cases t with
  | null => cases hins
  | remote root => exact ht.elim
  | node l h x n r => exact insertInto_within hw ht hins

theorem count_share (w v : Word) (ws : List Word) :
    ((w :: ws).count v : Int) = share w 1 v + ws.count v := by
  by_cases hwv : w = v
  · subst hwv
    simp only [List.count_cons_self, share, if_true]
    omega
  · simp [share, hwv]

theorem insertAll_within (hws : ∀ w ∈ ws, w ≠ []) {t t' : NodePtr} (ht : t.Accounted)
    (hins : insertAll t ws = some t') : Within t' fun v => t.total v + ws.count v := by
  induction ws generalizing t with
  | nil =>
      cases hins
      exact ht.within.mono fun v => by simp
  | cons w ws ih =>
      obtain ⟨t₁, h₁, h₂⟩ := Option.bind_eq_some_iff.mp hins
      have hfirst := insert_within (hws w (by simp)) ht h₁
      refine (ih (fun u hu => hws u (by simp [hu])) hfirst.accounted h₂).mono fun v => ?_
      have := hfirst.total v
      rw [count_share]
      omega

theorem Accounted.entry {t : NodePtr} (ht : t.Accounted) {p : Word × Int} (hmem : p ∈ t.entries) :
    0 < p.2 ∧ p.2 ≤ t.total p.1 := by
  induction t with
  | null => cases hmem
  | remote root => exact ht.elim
  | node l h x n r ihl ihr =>
      obtain ⟨-, hn, -, hl, hr⟩ := id ht
      have := hl.total_nonneg p.1
      have := hr.total_nonneg p.1
      have := share_nonneg hn x p.1
      simp only [entries, List.mem_append] at hmem
      simp only [NodePtr.total]
      rcases hmem with (hmem | hmem) | hmem
      · have := ihl hl hmem
        omega
      · cases hh : (node l h x n r).holds with
        | false => simp [hh] at hmem
        | true =>
            simp only [hh, if_true, List.mem_singleton] at hmem
            subst hmem
            obtain ⟨⟨-, hne⟩, -⟩ : (-1 < h ∧ n ≠ 0) ∧ x ≠ [] := by simpa [holds] using hh
            simp only [share, if_true] at *
            omega
      · have := ihr hr hmem
        omega

theorem insertAll_total (hws : ∀ w ∈ ws, w ≠ []) {t : NodePtr}
    (hins : insertAll fresh ws = some t) :
    (∀ w, t.total w ≤ ws.count w) ∧ ∀ p ∈ t.entries, p.1 ∈ ws := by
  have hfresh : fresh.Accounted := ⟨le_refl _, le_refl _, fun hn => absurd rfl hn, trivial, trivial⟩
  obtain ⟨haccounted, hsum⟩ := insertAll_within hws hfresh hins
  have hcount : ∀ w, t.total w ≤ ws.count w := fun w => by
    simpa [fresh, total, share] using hsum w
  refine ⟨hcount, fun p hp => ?_⟩
  obtain ⟨hpos, hle⟩ := haccounted.entry hp
  have := hcount p.1
  exact List.count_pos_iff.mp (by omega)

-- e is twice in, and rotated away from where it is looked for.
theorem insertAll_total_hidden : ∃ t,
    insertAll fresh [[98], [97], [100], [99], [102], [101], [101]] = some t ∧
      (∀ w, t.total w ≤ [[98], [97], [100], [99], [102], [101], [101]].count w) ∧
      ∀ p ∈ t.entries, p.1 ∈ [[98], [97], [100], [99], [102], [101], [101]] := by
  obtain ⟨t, ht⟩ : ∃ t, insertAll fresh [[98], [97], [100], [99], [102], [101], [101]] = some t :=
    ⟨_, rfl⟩
  exact ⟨t, ht, insertAll_total (by decide) ht⟩

end NodePtr

end DistributedAvl
