import DistributedAvl.Remote.Carried

namespace DistributedAvl

namespace NodePtr

inductive Site where
  | here
  | away
  deriving DecidableEq, Repr

-- The child itself, or a proxy for the machine that holds it; a machine without words still has
-- its root.
def placed : Site → NodePtr → NodePtr
  | .here, t => t
  | .away, t => remote (if t.present then t else fresh)

variable {a b l r : NodePtr} {h k : Int} {x y : Word} {n m : Int}

theorem hungLeft_visible {t : NodePtr} (ht : t.Stocked) : ((node l h x n r).hungLeft t).visible =
    if t.present then .node (x, n) t.shape r.visible else (node l h x n r).visible := by
  cases hp : t.present with
  | false => simp [hungLeft, hp]
  | true =>
      have hne : t.shape ≠ .nil := fun hnil => by rw [ht.shape_nil.mp hnil] at hp; cases hp
      simp [hungLeft, hp, visible, ht.ground.visible, ground_shape, hne]

theorem hungRight_visible {t : NodePtr} (ht : t.Stocked) : ((node l h x n r).hungRight t).visible =
    if t.present then .node (x, n) l.visible t.shape else (node l h x n r).visible := by
  cases hp : t.present with
  | false => simp [hungRight, hp]
  | true =>
      have hne : t.shape ≠ .nil := fun hnil => by rw [ht.shape_nil.mp hnil] at hp; cases hp
      simp [hungRight, hp, visible, ht.ground.visible, ground_shape, hne]

theorem setLeft_if {t : NodePtr} (hl : l.AllLocal) (hr : r.AllLocal) (ht : t.AllLocal) :
    (if t.present then (node l h x n r).setLeftSubtree t else some (node l h x n r)) =
      some ((node l h x n r).hungLeft t) := by
  rw [setLeftSubtree_local hl hr ht]
  cases hp : t.present <;> simp [hungLeft, hp]

theorem setRight_if {t : NodePtr} (hl : l.AllLocal) (hr : r.AllLocal) (ht : t.AllLocal) :
    (if t.present then (node l h x n r).setRightSubtree t else some (node l h x n r)) =
      some ((node l h x n r).hungRight t) := by
  rw [setRightSubtree_local hl hr ht]
  cases hp : t.present <;> simp [hungRight, hp]

theorem hungLeft_nonneg {t : NodePtr} (hh : 0 ≤ h) :
    0 ≤ ((node l h x n r).hungLeft t).heightOf := by
  simp only [hungLeft]
  split <;> simp only [heightOf] <;> omega

theorem hungRight_nonneg {t : NodePtr} (hh : 0 ≤ h) :
    0 ≤ ((node l h x n r).hungRight t).heightOf := by
  simp only [hungRight]
  split <;> simp only [heightOf] <;> omega

theorem hungLeft_far {t : NodePtr} :
    (remote ((node l h x n r).hungLeft t)).childHeight =
      some ((node l h x n r).hungLeft t).heightOf := by
  simp only [hungLeft]
  split <;> rfl

theorem hungRight_far {t : NodePtr} :
    (remote ((node l h x n r).hungRight t)).childHeight =
      some ((node l h x n r).hungRight t).heightOf := by
  simp only [hungRight]
  split <;> rfl

theorem push_right_far (hr : r.AllLocal) (x : Word) (n : Int) :
    (if r.present then r else fresh).pushRightSubtree x n = some (r.pushedRight x n) := by
  have hpush := pushRightSubtree_local hr x n
  rcases hr.cases with rfl | ⟨_, _, _, _, _, rfl, -, -⟩
  · rfl
  · simpa using hpush

theorem push_left_far (hl : l.AllLocal) (x : Word) (n : Int) :
    (if l.present then l else fresh).pushLeftSubtree x n = some (l.pushedLeft x n) := by
  have hpush := pushLeftSubtree_local hl x n
  rcases hl.cases with rfl | ⟨_, _, _, _, _, rfl, -, -⟩
  · rfl
  · simpa using hpush

theorem setLeftSubtree_far (root tree : NodePtr) : (remote root).setLeftSubtree tree =
    tree.carried.bind fun far => (root.setLeftSubtree far).bind fun r => some (remote r) := rfl

theorem setRightSubtree_far (root tree : NodePtr) : (remote root).setRightSubtree tree =
    tree.carried.bind fun far => (root.setRightSubtree far).bind fun r => some (remote r) := rfl

theorem push_right_placed (hr : r.Stocked) (q : Site) (x : Word) (n : Int) :
    ∃ r₁, (if (placed q r).present then (placed q r).pushRightSubtree x n
        else fresh.setData x n) = some r₁ ∧
      ∀ t : NodePtr, t.Stocked →
        ∃ r₂, (if t.present then r₁.setLeftSubtree t else some r₁) = some r₂ ∧
          r₂.visible = ((r.pushedRight x n).hungLeft t).visible ∧
          r₂.childHeight = some r₂.heightOf ∧ 0 ≤ r₂.heightOf := by
  obtain ⟨l', h', r', hpush, hl', hr'⟩ := pushedRight_shape r hr.isLocal x n
  have hh' : 0 ≤ h' := by have := (pushedRight_height r x n).1; rwa [hpush] at this
  have hlow : ∀ {t : NodePtr}, 0 ≤ ((node l' h' x n r').hungLeft t).heightOf := hungLeft_nonneg hh'
  cases q with
  | here =>
      refine ⟨_, pushRightSubtree_local hr.isLocal x n, fun t ht => ?_⟩
      rw [hpush]
      refine ⟨_, setLeft_if hl' hr' ht.isLocal, rfl, ?_, hlow⟩
      exact childHeight_local (hungLeft_local ⟨hl', hr'⟩ ht.isLocal)
  | away =>
      refine ⟨remote (node l' h' x n r'), ?_, fun t ht => ?_⟩
      · have hfar := push_right_far hr.isLocal x n
        simp [placed, pushRightSubtree, hfar, hpush]
      · have hflat := ht.flat
        refine ⟨remote ((node l' h' x n r').hungLeft t.flat), ?_, ?_, hungLeft_far, hlow⟩
        · have hset := setLeft_if hl' hr' hflat.isLocal (h := h') (x := x) (n := n)
          rw [flat_present] at hset
          cases hp : t.present with
          | true =>
              rw [hp, if_pos rfl] at hset
              rw [if_pos rfl, setLeftSubtree_far, carried_flat ht.counted, Option.bind_some, hset,
                Option.bind_some]
          | false => simp [hungLeft, flat_present, hp]
        · rw [hpush, visible, hungLeft_visible hflat, hungLeft_visible ht, flat_present, flat_shape]

theorem push_left_placed (hl : l.Stocked) (q : Site) (x : Word) (n : Int) :
    ∃ l₁, (if (placed q l).present then (placed q l).pushLeftSubtree x n
        else fresh.setData x n) = some l₁ ∧
      ∀ t : NodePtr, t.Stocked →
        ∃ l₂, (if t.present then l₁.setRightSubtree t else some l₁) = some l₂ ∧
          l₂.visible = ((l.pushedLeft x n).hungRight t).visible ∧
          l₂.childHeight = some l₂.heightOf ∧ 0 ≤ l₂.heightOf := by
  obtain ⟨l', h', r', hpush, hl', hr'⟩ := pushedLeft_shape l hl.isLocal x n
  have hh' : 0 ≤ h' := by have := (pushedLeft_height l x n).1; rwa [hpush] at this
  have hlow : ∀ {t : NodePtr}, 0 ≤ ((node l' h' x n r').hungRight t).heightOf :=
    hungRight_nonneg hh'
  cases q with
  | here =>
      refine ⟨_, pushLeftSubtree_local hl.isLocal x n, fun t ht => ?_⟩
      rw [hpush]
      refine ⟨_, setRight_if hl' hr' ht.isLocal, rfl, ?_, hlow⟩
      exact childHeight_local (hungRight_local ⟨hl', hr'⟩ ht.isLocal)
  | away =>
      refine ⟨remote (node l' h' x n r'), ?_, fun t ht => ?_⟩
      · have hfar := push_left_far hl.isLocal x n
        simp [placed, pushLeftSubtree, hfar, hpush]
      · have hflat := ht.flat
        refine ⟨remote ((node l' h' x n r').hungRight t.flat), ?_, ?_, hungRight_far, hlow⟩
        · have hset := setRight_if hl' hr' hflat.isLocal (h := h') (x := x) (n := n)
          rw [flat_present] at hset
          cases hp : t.present with
          | true =>
              rw [hp, if_pos rfl] at hset
              rw [if_pos rfl, setRightSubtree_far, carried_flat ht.counted, Option.bind_some, hset,
                Option.bind_some]
          | false => simp [hungRight, flat_present, hp]
        · rw [hpush, visible, hungRight_visible hflat, hungRight_visible ht, flat_present,
            flat_shape]

theorem hungLeft_alike {t t' : NodePtr} (ht : t.Stocked) (ht' : t'.Stocked)
    (hshape : t'.shape = t.shape) (hr : r.AllLocal) :
    ((r.pushedRight x n).hungLeft t').visible = ((r.pushedRight x n).hungLeft t).visible := by
  obtain ⟨l', h', r', hpush, -, -⟩ := pushedRight_shape r hr x n
  have hp : t'.present = t.present := by
    rw [Bool.eq_iff_iff, ← not_iff_not, Bool.not_eq_true, Bool.not_eq_true, ← ht.shape_nil,
      ← ht'.shape_nil, hshape]
  rw [hpush, hungLeft_visible ht, hungLeft_visible ht', hp, hshape]

theorem hungRight_alike {t t' : NodePtr} (ht : t.Stocked) (ht' : t'.Stocked)
    (hshape : t'.shape = t.shape) (hl : l.AllLocal) :
    ((l.pushedLeft x n).hungRight t').visible = ((l.pushedLeft x n).hungRight t).visible := by
  obtain ⟨l', h', r', hpush, -, -⟩ := pushedLeft_shape l hl x n
  have hp : t'.present = t.present := by
    rw [Bool.eq_iff_iff, ← not_iff_not, Bool.not_eq_true, Bool.not_eq_true, ← ht.shape_nil,
      ← ht'.shape_nil, hshape]
  rw [hpush, hungRight_visible ht, hungRight_visible ht', hp, hshape]

theorem rotateRight_parts {l r r₁ r₂ t l₁ c d : NodePtr} (hw : l.getWord = some y)
    (hc : l.getCounter = some m)
    (hpush : (if r.present then r.pushRightSubtree x n else fresh.setData x n) = some r₁)
    (ht : l.getRightSubtree = some t)
    (hset : (if t.present then r₁.setLeftSubtree t else some r₁) = some r₂)
    (hleft : l.getLeft = some c) (hright : l.getRight = some d)
    (hpull : (if !c.present && !d.present then l.clear else l.pullLeftSubtree) = some l₁)
    (hl₁ : l₁.childHeight = some l₁.heightOf) (hr₂ : r₂.childHeight = some r₂.heightOf) :
    (node l h x n r).rotateRight = some (leveled l₁ y m r₂) := by
  simp only [rotateRight, hw, hc, hpush, ht, hset, hleft, hright, hpull, setData, updateHeight,
    hl₁, hr₂, leveled, Option.bind_eq_bind, Option.bind_some]
  rfl

theorem rotateLeft_parts {l r l₁ l₂ t r₁ c d : NodePtr} (hw : r.getWord = some y)
    (hc : r.getCounter = some m)
    (hpush : (if l.present then l.pushLeftSubtree x n else fresh.setData x n) = some l₁)
    (ht : r.getLeftSubtree = some t)
    (hset : (if t.present then l₁.setRightSubtree t else some l₁) = some l₂)
    (hleft : r.getLeft = some c) (hright : r.getRight = some d)
    (hpull : (if !c.present && !d.present then r.clear else r.pullRightSubtree) = some r₁)
    (hl₂ : l₂.childHeight = some l₂.heightOf) (hr₁ : r₁.childHeight = some r₁.heightOf) :
    (node l h x n r).rotateLeft = some (leveled l₂ y m r₁) := by
  simp only [rotateLeft, hw, hc, hpush, ht, hset, hleft, hright, hpull, setData, updateHeight,
    hl₂, hr₁, leveled, Option.bind_eq_bind, Option.bind_some]
  rfl

theorem leveled_visible (hn : m ≠ 0) (hy : y ≠ []) (hge : -1 ≤ max l.heightOf r.heightOf) :
    (leveled l y m r).visible = .node (y, m) l.visible r.visible := by
  have hh := holds_leveled hge hn hy
  simp only [leveled] at hh ⊢
  simp [visible, hh]

-- What is pulled up keeps its outer part when it is local, and loses it behind a proxy: there
-- getLeft and getRight are the proxy's own.
theorem pulled_visible (ha : a.Stocked) :
    (if !a.present && !b.present then null else a.pulled).visible = .nil ↔ a = null := by
  cases a with
  | null => cases hb : b.present <;> simp [present, visible, pulled, holds]
  | remote root => exact ha.elim
  | node l h x n r =>
      obtain ⟨-, hn, hx⟩ := holds_iff.mp ha.1
      simp only [present_node, Bool.not_true, Bool.false_and, Bool.false_eq_true, if_false, pulled,
        reduceCtorEq, iff_false]
      split
      · simp [visible, holds, hn, hx]
      · split <;> simp [visible, holds, hn, hx]

theorem reset_local (ha : a.AllLocal) (hb : b.AllLocal) :
    (node a k y m b).reset = some (node null (-1) [] 0 null) := by
  rcases ha.cases with rfl | ⟨_, _, _, _, _, rfl, -, -⟩ <;>
    rcases hb.cases with rfl | ⟨_, _, _, _, _, rfl, -, -⟩ <;> rfl

theorem pull_left_placed (ha : a.Stocked) (hb : b.Stocked) (p : Site) :
    ∃ t l₁ c d, (placed p (node a k y m b)).getWord = some y ∧
      (placed p (node a k y m b)).getCounter = some m ∧
      (placed p (node a k y m b)).getRightSubtree = some t ∧ t.Stocked ∧ t.shape = b.shape ∧
      (placed p (node a k y m b)).getLeft = some c ∧
      (placed p (node a k y m b)).getRight = some d ∧
      (if !c.present && !d.present then (placed p (node a k y m b)).clear
        else (placed p (node a k y m b)).pullLeftSubtree) = some l₁ ∧
      l₁.childHeight = some l₁.heightOf ∧
      (l₁.visible = (if !a.present && !b.present then null else a.pulled).visible ↔
        p = .here ∨ a = null) := by
  cases p with
  | here =>
      refine ⟨b.copied, if !a.present && !b.present then null else a.pulled, a, b, rfl, rfl,
        childSubtree_local hb.isLocal, hb.copied, copied_shape b, rfl, rfl, ?_, ?_, by simp⟩
      · rw [placed, pullLeftSubtree_local ha.isLocal hb.isLocal]
        split <;> rfl
      · refine childHeight_local ?_
        split
        · trivial
        · exact pulled_local ha.isLocal
  | away =>
      refine ⟨b.flat, remote (node null (-1) [] 0 null), null, null, rfl, rfl, ?_, hb.flat,
        flat_shape b, rfl, rfl, ?_, rfl, ?_⟩
      · simp [placed, getRightSubtree, getRight, carried_flat hb.counted]
      · simp [placed, clear, reset_local ha.isLocal hb.isLocal]
      · rw [eq_comm]
        simpa [visible, holds] using pulled_visible (b := b) ha

theorem pull_right_placed (ha : a.Stocked) (hb : b.Stocked) (p : Site) :
    ∃ t r₁ c d, (placed p (node a k y m b)).getWord = some y ∧
      (placed p (node a k y m b)).getCounter = some m ∧
      (placed p (node a k y m b)).getLeftSubtree = some t ∧ t.Stocked ∧ t.shape = a.shape ∧
      (placed p (node a k y m b)).getLeft = some c ∧
      (placed p (node a k y m b)).getRight = some d ∧
      (if !c.present && !d.present then (placed p (node a k y m b)).clear
        else (placed p (node a k y m b)).pullRightSubtree) = some r₁ ∧
      r₁.childHeight = some r₁.heightOf ∧
      (r₁.visible = (if !a.present && !b.present then null else b.pulled).visible ↔
        p = .here ∨ b = null) := by
  cases p with
  | here =>
      refine ⟨a.copied, if !a.present && !b.present then null else b.pulled, a, b, rfl, rfl,
        childSubtree_local ha.isLocal, ha.copied, copied_shape a, rfl, rfl, ?_, ?_, by simp⟩
      · rw [placed, pullRightSubtree_local ha.isLocal hb.isLocal]
        split <;> rfl
      · refine childHeight_local ?_
        split
        · trivial
        · exact pulled_local hb.isLocal
  | away =>
      refine ⟨a.flat, remote (node null (-1) [] 0 null), null, null, rfl, rfl, ?_, ha.flat,
        flat_shape a, rfl, rfl, ?_, rfl, ?_⟩
      · simp [placed, getLeftSubtree, getLeft, carried_flat ha.counted]
      · simp [placed, clear, reset_local ha.isLocal hb.isLocal]
      · rw [eq_comm, Bool.and_comm]
        simpa [visible, holds] using pulled_visible (a := b) (b := a) hb

theorem rotateRight_placed {l r : NodePtr} (hl : l.Stocked) (hr : r.Stocked)
    (hp : l.present = true) (h : Int) (x : Word) (n : Int) (p q : Site) :
    ∃ t t', (node (placed p l) h x n (placed q r)).rotateRight = some t ∧
      (node l h x n r).rotateRight = some t' ∧
      (t.visible = t'.visible ↔ p = .here ∨ l.getLeft = some null) := by
  rcases hl.isLocal.cases with rfl | ⟨a, k, y, m, b, rfl, ha', hb'⟩
  · exact absurd hp (by decide)
  · obtain ⟨hheld, ha, hb⟩ := hl
    obtain ⟨-, hm, hy⟩ := holds_iff.mp hheld
    obtain ⟨t, l₁, c, d, hw, hc, hsub, ht, hshape, hleft, hright, hpull, hread, hvis⟩ :=
      pull_left_placed (k := k) (y := y) (m := m) ha hb p
    obtain ⟨r₁, hpush, hset⟩ := push_right_placed hr q x n
    obtain ⟨r₂, hset, hvis₂, hread₂, hlow₂⟩ := hset t ht
    have hhung : 0 ≤ ((r.pushedRight x n).hungLeft b).heightOf := by
      obtain ⟨l', h', r', heq, -, -⟩ := pushedRight_shape r hr.isLocal x n
      have := (pushedRight_height r x n).1
      rw [heq] at this ⊢
      exact hungLeft_nonneg this
    refine ⟨_, _, rotateRight_parts hw hc hpush hsub hset hleft hright hpull hread hread₂,
      rotateRight_local ha' hb' hr.isLocal h k x y n m, ?_⟩
    rw [rotatedRight, leveled_visible hm hy (by omega), leveled_visible hm hy (by omega), hvis₂,
      hungLeft_alike hb ht hshape hr.isLocal]
    simpa [getLeft] using hvis

theorem rotateLeft_placed {l r : NodePtr} (hl : l.Stocked) (hr : r.Stocked)
    (hp : r.present = true) (h : Int) (x : Word) (n : Int) (p q : Site) :
    ∃ t t', (node (placed p l) h x n (placed q r)).rotateLeft = some t ∧
      (node l h x n r).rotateLeft = some t' ∧
      (t.visible = t'.visible ↔ q = .here ∨ r.getRight = some null) := by
  rcases hr.isLocal.cases with rfl | ⟨a, k, y, m, b, rfl, ha', hb'⟩
  · exact absurd hp (by decide)
  · obtain ⟨hheld, ha, hb⟩ := hr
    obtain ⟨-, hm, hy⟩ := holds_iff.mp hheld
    obtain ⟨t, r₁, c, d, hw, hc, hsub, ht, hshape, hleft, hright, hpull, hread, hvis⟩ :=
      pull_right_placed (k := k) (y := y) (m := m) ha hb q
    obtain ⟨l₁, hpush, hset⟩ := push_left_placed hl p x n
    obtain ⟨l₂, hset, hvis₂, hread₂, hlow₂⟩ := hset t ht
    have hhung : 0 ≤ ((l.pushedLeft x n).hungRight a).heightOf := by
      obtain ⟨l', h', r', heq, -, -⟩ := pushedLeft_shape l hl.isLocal x n
      have := (pushedLeft_height l x n).1
      rw [heq] at this ⊢
      exact hungRight_nonneg this
    refine ⟨_, _, rotateLeft_parts hw hc hpush hsub hset hleft hright hpull hread₂ hread,
      rotateLeft_local hl.isLocal ha' hb' h k x y n m, ?_⟩
    rw [rotatedLeft, leveled_visible hm hy (by omega), leveled_visible hm hy (by omega), hvis₂,
      hungRight_alike ha ht hshape hl.isLocal]
    simpa [getRight] using hvis

theorem rotations_transparent_iff {l r : NodePtr} (hl : l.Stocked) (hr : r.Stocked) (h : Int)
    (x : Word) (n : Int) (p q : Site) :
    (l.present = true → ∃ t t', (node (placed p l) h x n (placed q r)).rotateRight = some t ∧
      (node l h x n r).rotateRight = some t' ∧
      (t.visible = t'.visible ↔ p = .here ∨ l.getLeft = some null)) ∧
    (r.present = true → ∃ t t', (node (placed p l) h x n (placed q r)).rotateLeft = some t ∧
      (node l h x n r).rotateLeft = some t' ∧
      (t.visible = t'.visible ↔ q = .here ∨ r.getRight = some null)) :=
  ⟨fun hp => rotateRight_placed hl hr hp h x n p q, fun hp => rotateLeft_placed hl hr hp h x n p q⟩

theorem rotations_transparent_both :
    ∃ t t', (node (remote (node null 1 [97] 1 (node null 0 [98] 1 null))) 2 [99] 1
        (remote (node null 0 [100] 1 null))).rotateRight = some t ∧
      (node (node null 1 [97] 1 (node null 0 [98] 1 null)) 2 [99] 1
        (node null 0 [100] 1 null)).rotateRight = some t' ∧
      (t.visible = t'.visible ↔ Site.away = .here ∨
        (node null 1 [97] 1 (node null 0 [98] 1 null)).getLeft = some null) :=
  (rotations_transparent_iff (l := node null 1 [97] 1 (node null 0 [98] 1 null))
    (r := node null 0 [100] 1 null) (by decide) (by decide) 2 [99] 1 .away .away).1 rfl

-- ((a, b, -), c, -) with b and a on another machine: a is cleared away with the old place of b.
theorem rotation_clears_far_part : ¬ ∀ (l r : NodePtr) (h : Int) (x : Word) (n : Int) (p q : Site)
    (t t' : NodePtr), l.Stocked → r.Stocked → l.present = true →
    (node (placed p l) h x n (placed q r)).rotateRight = some t →
    (node l h x n r).rotateRight = some t' → t.visible = t'.visible := by
  intro hall
  have hl : (node (node null 0 [97] 1 null) 1 [98] 1 null).Stocked := by decide
  have heq := hall _ null 2 [99] 1 .away .here _ _ hl trivial rfl rfl rfl
  exact absurd heq (by decide)

end NodePtr

end DistributedAvl
