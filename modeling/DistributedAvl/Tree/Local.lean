import DistributedAvl.Tree.Operations

namespace DistributedAvl

namespace NodePtr

def AllLocal : NodePtr → Prop
  | null => True
  | node l _ _ _ r => l.AllLocal ∧ r.AllLocal
  | remote _ => False

instance decidableAllLocal : ∀ t : NodePtr, Decidable t.AllLocal
  | null => isTrue trivial
  | node l _ _ _ r =>
      have := decidableAllLocal l
      have := decidableAllLocal r
      inferInstanceAs (Decidable (l.AllLocal ∧ r.AllLocal))
  | remote _ => isFalse id

def heightOf : NodePtr → Int
  | null => -1
  | node _ h _ _ _ => h
  | remote root => root.heightOf

def holds : NodePtr → Bool
  | null => false
  | node _ h w c _ => decide (h > -1) && decide (c ≠ 0) && decide (w ≠ [])
  | remote root => root.holds

def ground : NodePtr → NodePtr
  | node l _ w c r => node l 0 w c r
  | t => t

def pushedLeft : NodePtr → Word → Int → NodePtr
  | node l h w c r, word, counter =>
      if (node l h w c r).holds then
        node (if r.present then r.ground else l.pushedLeft w c) 1 word counter null
      else node l 0 word counter r
  | _, word, counter => node null 0 word counter null

def pushedRight : NodePtr → Word → Int → NodePtr
  | node l h w c r, word, counter =>
      if (node l h w c r).holds then
        node null 1 word counter (if l.present then l.ground else r.pushedRight w c)
      else node l 0 word counter r
  | _, word, counter => node null 0 word counter null

def pulled : NodePtr → NodePtr
  | node a _ w c b =>
      if a.present then node null 1 w c a.ground
      else if b.present then node null 1 w c b.ground
      else node null 0 w c null
  | _ => node null (-1) [] 0 null

def hungLeft : NodePtr → NodePtr → NodePtr
  | node l h w c r, tree =>
      if tree.present then node tree.ground (max 0 r.heightOf + 1) w c r
      else node l h w c r
  | t, _ => t

def hungRight : NodePtr → NodePtr → NodePtr
  | node l h w c r, tree =>
      if tree.present then node l (max l.heightOf 0 + 1) w c tree.ground
      else node l h w c r
  | t, _ => t

def leveled (l : NodePtr) (w : Word) (c : Int) (r : NodePtr) : NodePtr :=
  node l (max l.heightOf r.heightOf + 1) w c r

def rotatedRight : NodePtr → NodePtr
  | node (node a _ y m b) _ w c r =>
      leveled (if !a.present && !b.present then null else a.pulled) y m
        ((r.pushedRight w c).hungLeft b)
  | t => t

def rotatedLeft : NodePtr → NodePtr
  | node l _ w c (node a _ y m b) =>
      leveled ((l.pushedLeft w c).hungRight a) y m
        (if !a.present && !b.present then null else b.pulled)
  | t => t

@[simp] theorem allLocal_null : null.AllLocal := trivial

@[simp] theorem allLocal_node {l r : NodePtr} {h : Int} {w : Word} {c : Int} :
    (node l h w c r).AllLocal ↔ l.AllLocal ∧ r.AllLocal := Iff.rfl

@[simp] theorem present_node (l r : NodePtr) (h : Int) (w : Word) (c : Int) :
    (node l h w c r).present = true := rfl

@[simp] theorem present_remote (root : NodePtr) : (remote root).present = true := rfl

@[simp] theorem present_null : null.present = false := rfl

theorem present_eq_false {t : NodePtr} : t.present = false ↔ t = null := by
  cases t <;> simp [present]

theorem AllLocal.cases {t : NodePtr} (ht : t.AllLocal) :
    t = null ∨ ∃ l h w c r, t = node l h w c r ∧ l.AllLocal ∧ r.AllLocal := by
  cases t with
  | null => exact Or.inl rfl
  | node l h w c r => exact Or.inr ⟨l, h, w, c, r, rfl, ht.1, ht.2⟩
  | remote root => exact ht.elim

theorem ground_local {t : NodePtr} (ht : t.AllLocal) : t.ground.AllLocal := by
  cases t <;> exact ht

theorem childHeight_local {t : NodePtr} (ht : t.AllLocal) : t.childHeight = some t.heightOf := by
  rcases ht.cases with rfl | ⟨l, h, w, c, r, rfl, -, -⟩ <;> rfl

theorem clearChild_local {t : NodePtr} (ht : t.AllLocal) : t.clearChild = some null := by
  rcases ht.cases with rfl | ⟨l, h, w, c, r, rfl, -, -⟩ <;> rfl

theorem clearData_local {l r : NodePtr} (hl : l.AllLocal) (hr : r.AllLocal)
    (h : Int) (w : Word) (c : Int) :
    (node l h w c r).clearData = some (node null (-1) [] 0 null) := by
  simp [clearData, clearChild_local hl, clearChild_local hr]

theorem updateHeight_local {l r : NodePtr} (hl : l.AllLocal) (hr : r.AllLocal)
    (h : Int) (w : Word) (c : Int) :
    (node l h w c r).updateHeight = some (leveled l w c r, r.heightOf - l.heightOf) := by
  simp [updateHeight, childHeight_local hl, childHeight_local hr, leveled]

theorem hasWord_node (l r : NodePtr) (h : Int) (w : Word) (c : Int) :
    (node l h w c r).hasWord = some (node l h w c r).holds := rfl

theorem smaller_node {l r : NodePtr} {h : Int} {w : Word} {c : Int}
    (hh : (node l h w c r).holds = true) (word : Word) :
    (node l h w c r).smaller word = some (decide (word < w)) := by
  simp [smaller, hasWord_node, hh, getWord, Word.compare_neg]

theorem getSubtree_local {l r : NodePtr} (hl : l.AllLocal) (hr : r.AllLocal)
    (h : Int) (w : Word) (c : Int) :
    (node l h w c r).getSubtree = some (leveled l w c r) := by
  simp [getSubtree, updateHeight_local hl hr]

def copied : NodePtr → NodePtr
  | node l _ w c r => leveled l w c r
  | t => t

@[simp] theorem copied_present (t : NodePtr) : t.copied.present = t.present := by cases t <;> rfl

@[simp] theorem copied_ground (t : NodePtr) : t.copied.ground = t.ground := by cases t <;> rfl

theorem copied_local {t : NodePtr} (ht : t.AllLocal) : t.copied.AllLocal := by
  cases t <;> exact ht

theorem childSubtree_local {t : NodePtr} (ht : t.AllLocal) :
    (if t.present then t.getSubtree else some null) = some t.copied := by
  rcases ht.cases with rfl | ⟨l, h, w, c, r, rfl, hl, hr⟩
  · rfl
  · simp [getSubtree_local hl hr, copied]

theorem setSubtree_local {l r tree : NodePtr} {h : Int} {w : Word} {c : Int}
    (ht : tree.AllLocal) :
    (node l h w c r).setSubtree tree =
      some (if tree.present then tree.ground else node l h w c r) := by
  rcases ht.cases with rfl | ⟨a, k, y, m, b, rfl, -, -⟩ <;> rfl

theorem setLeftSubtree_local {l r tree : NodePtr} (hl : l.AllLocal) (hr : r.AllLocal)
    (ht : tree.AllLocal) (h : Int) (w : Word) (c : Int) :
    (node l h w c r).setLeftSubtree tree = some ((node l h w c r).hungLeft tree) := by
  rcases ht.cases with rfl | ⟨a, k, y, m, b, rfl, ha, hb⟩
  · rfl
  · have hg : (node a 0 y m b).AllLocal := ⟨ha, hb⟩
    simp [setLeftSubtree, clearChild_local hl, setSubtree, getWord, getCounter, getLeft,
      getRight, updateHeight_local hg hr, hungLeft, ground, leveled, heightOf]

theorem setRightSubtree_local {l r tree : NodePtr} (hl : l.AllLocal) (hr : r.AllLocal)
    (ht : tree.AllLocal) (h : Int) (w : Word) (c : Int) :
    (node l h w c r).setRightSubtree tree = some ((node l h w c r).hungRight tree) := by
  rcases ht.cases with rfl | ⟨a, k, y, m, b, rfl, ha, hb⟩
  · rfl
  · have hg : (node a 0 y m b).AllLocal := ⟨ha, hb⟩
    simp [setRightSubtree, clearChild_local hr, setSubtree, getWord, getCounter, getLeft,
      getRight, updateHeight_local hl hg, hungRight, ground, leveled, heightOf]

theorem hungLeft_copied (t tree : NodePtr) : t.hungLeft tree.copied = t.hungLeft tree := by
  cases t <;> simp [hungLeft]

theorem hungRight_copied (t tree : NodePtr) : t.hungRight tree.copied = t.hungRight tree := by
  cases t <;> simp [hungRight]

theorem hungLeft_local {t tree : NodePtr} (ht : t.AllLocal) (htree : tree.AllLocal) :
    (t.hungLeft tree).AllLocal := by
  rcases ht.cases with rfl | ⟨l, h, w, c, r, rfl, hl, hr⟩
  · trivial
  · simp only [hungLeft]
    split
    · exact ⟨ground_local htree, hr⟩
    · exact ⟨hl, hr⟩

theorem hungRight_local {t tree : NodePtr} (ht : t.AllLocal) (htree : tree.AllLocal) :
    (t.hungRight tree).AllLocal := by
  rcases ht.cases with rfl | ⟨l, h, w, c, r, rfl, hl, hr⟩
  · trivial
  · simp only [hungRight]
    split
    · exact ⟨hl, ground_local htree⟩
    · exact ⟨hl, hr⟩

theorem pushedLeft_shape (t : NodePtr) (ht : t.AllLocal) (word : Word) (counter : Int) :
    ∃ l h r, t.pushedLeft word counter = node l h word counter r ∧ l.AllLocal ∧ r.AllLocal := by
  induction t generalizing word counter with
  | null => exact ⟨null, 0, null, rfl, trivial, trivial⟩
  | remote root => exact ht.elim
  | node l h w c r ihl _ =>
      simp only [pushedLeft]
      split
      · refine ⟨_, _, _, rfl, ?_, trivial⟩
        split
        · exact ground_local ht.2
        · obtain ⟨l', h', r', heq, hl', hr'⟩ := ihl ht.1 w c
          rw [heq]; exact ⟨hl', hr'⟩
      · exact ⟨l, 0, r, rfl, ht.1, ht.2⟩

theorem pushedRight_shape (t : NodePtr) (ht : t.AllLocal) (word : Word) (counter : Int) :
    ∃ l h r, t.pushedRight word counter = node l h word counter r ∧ l.AllLocal ∧ r.AllLocal := by
  induction t generalizing word counter with
  | null => exact ⟨null, 0, null, rfl, trivial, trivial⟩
  | remote root => exact ht.elim
  | node l h w c r _ ihr =>
      simp only [pushedRight]
      split
      · refine ⟨_, _, _, rfl, trivial, ?_⟩
        split
        · exact ground_local ht.1
        · obtain ⟨l', h', r', heq, hl', hr'⟩ := ihr ht.2 w c
          rw [heq]; exact ⟨hl', hr'⟩
      · exact ⟨l, 0, r, rfl, ht.1, ht.2⟩

theorem pushedRight_local {t : NodePtr} (ht : t.AllLocal) (x : Word) (n : Int) :
    (t.pushedRight x n).AllLocal := by
  obtain ⟨l, h, r, heq, hl, hr⟩ := pushedRight_shape t ht x n
  rw [heq]
  exact ⟨hl, hr⟩

theorem pushedLeft_local {t : NodePtr} (ht : t.AllLocal) (x : Word) (n : Int) :
    (t.pushedLeft x n).AllLocal := by
  obtain ⟨l, h, r, heq, hl, hr⟩ := pushedLeft_shape t ht x n
  rw [heq]
  exact ⟨hl, hr⟩

theorem pushedLeft_height (t : NodePtr) (x : Word) (n : Int) :
    0 ≤ (t.pushedLeft x n).heightOf ∧ (t.pushedLeft x n).heightOf ≤ 1 := by
  cases t with
  | null => simp [pushedLeft, heightOf]
  | remote root => simp [pushedLeft, heightOf]
  | node l h y m r => simp only [pushedLeft]; split <;> simp [heightOf]

theorem pushedRight_height (t : NodePtr) (x : Word) (n : Int) :
    0 ≤ (t.pushedRight x n).heightOf ∧ (t.pushedRight x n).heightOf ≤ 1 := by
  cases t with
  | null => simp [pushedRight, heightOf]
  | remote root => simp [pushedRight, heightOf]
  | node l h y m r => simp only [pushedRight]; split <;> simp [heightOf]

theorem pushLeftSubtree_local {t : NodePtr} (ht : t.AllLocal) (word : Word) (counter : Int) :
    (if t.present then t.pushLeftSubtree word counter else fresh.setData word counter) =
      some (t.pushedLeft word counter) := by
  induction t generalizing word counter with
  | null => rfl
  | remote root => exact ht.elim
  | node l h w c r ihl _ =>
      obtain ⟨a, k, b, hpush, -, -⟩ := pushedLeft_shape l ht.1 w c
      have hl := ihl ht.1 w c
      simp only [present_node, if_true, pushLeftSubtree, hasWord_node, pushedLeft]
      by_cases hh : (node l h w c r).holds = true
      · rw [hl]
        rcases ht.2.cases with rfl | ⟨a', k', y', m', b', rfl, ha', hb'⟩
        · simp [hh]
        · simp [hh, getSubtree_local ha' hb', clear, hpush, leveled, setSubtree, getWord,
            getCounter, getLeft, getRight, present, ground]
      · simp [hh, setData]

theorem pushRightSubtree_local {t : NodePtr} (ht : t.AllLocal) (word : Word) (counter : Int) :
    (if t.present then t.pushRightSubtree word counter else fresh.setData word counter) =
      some (t.pushedRight word counter) := by
  induction t generalizing word counter with
  | null => rfl
  | remote root => exact ht.elim
  | node l h w c r _ ihr =>
      obtain ⟨a, k, b, hpush, -, -⟩ := pushedRight_shape r ht.2 w c
      have hr := ihr ht.2 w c
      simp only [present_node, if_true, pushRightSubtree, hasWord_node, pushedRight]
      by_cases hh : (node l h w c r).holds = true
      · rw [hr]
        rcases ht.1.cases with rfl | ⟨a', k', y', m', b', rfl, ha', hb'⟩
        · simp [hh]
        · simp [hh, getSubtree_local ha' hb', clear, hpush, leveled, setSubtree, getWord,
            getCounter, getLeft, getRight, present, ground]
      · simp [hh, setData]

theorem findSuccessor_local {t : NodePtr} (ht : t.AllLocal) : t.findSuccessor = none := by
  induction t with
  | null => rfl
  | remote root => exact ht.elim
  | node l h x n r ihl _ =>
      rcases ht.1.cases with rfl | ⟨a, k, y, m, b, rfl, -, -⟩
      · rfl
      · have hnone := ihl ht.1
        rw [findSuccessor]
        simp [hnone]

theorem pulled_local {t : NodePtr} (ht : t.AllLocal) : t.pulled.AllLocal := by
  rcases ht.cases with rfl | ⟨a, k, y, m, b, rfl, ha, hb⟩
  · exact ⟨trivial, trivial⟩
  · simp only [pulled]
    split
    · exact ⟨trivial, ground_local ha⟩
    · split
      · exact ⟨trivial, ground_local hb⟩
      · exact ⟨trivial, trivial⟩

theorem hangLeft_local {l r tree : NodePtr} (hl : l.AllLocal) (hr : r.AllLocal)
    (ht : tree.AllLocal) (h : Int) (w : Word) (c : Int) :
    (if tree.copied.present then (node l h w c r).setLeftSubtree tree.copied
      else some (node l h w c r)) = some ((node l h w c r).hungLeft tree) := by
  rw [setLeftSubtree_local hl hr (copied_local ht), hungLeft_copied]
  cases hp : tree.present <;> simp [hungLeft, hp]

theorem hangRight_local {l r tree : NodePtr} (hl : l.AllLocal) (hr : r.AllLocal)
    (ht : tree.AllLocal) (h : Int) (w : Word) (c : Int) :
    (if tree.copied.present then (node l h w c r).setRightSubtree tree.copied
      else some (node l h w c r)) = some ((node l h w c r).hungRight tree) := by
  rw [setRightSubtree_local hl hr (copied_local ht), hungRight_copied]
  cases hp : tree.present <;> simp [hungRight, hp]

-- The tail of pull_*_subtree: the right part is set on the right, then the left part over it.
theorem hangTwice_local {a b : NodePtr} (ha : a.AllLocal) (hb : b.AllLocal)
    (h : Int) (w y : Word) (c m : Int) :
    (do
      let this ← (if b.copied.present then (node null h w c null).setRightSubtree b.copied
        else some (node null h w c null))
      let this ← (if a.copied.present then this.setRightSubtree a.copied else some this)
      let this ← this.setData y m
      let (this, _) ← this.updateHeight
      return this) = some (node a h y m b).pulled := by
  rw [hangRight_local allLocal_null allLocal_null hb]
  rcases hb.cases with rfl | ⟨l₁, k₁, w₁, c₁, r₁, rfl, hl₁, hr₁⟩
  · simp only [hungRight, present_null, Bool.false_eq_true, if_false, Option.bind_eq_bind,
      Option.bind_some, hangRight_local allLocal_null allLocal_null ha]
    rcases ha.cases with rfl | ⟨_, _, _, _, _, rfl, -, -⟩ <;> rfl
  · have hg : (node l₁ 0 w₁ c₁ r₁).AllLocal := ⟨hl₁, hr₁⟩
    simp only [hungRight, present_node, if_true, ground, Option.bind_eq_bind, Option.bind_some,
      hangRight_local allLocal_null hg ha]
    rcases ha.cases with rfl | ⟨_, _, _, _, _, rfl, -, -⟩ <;> rfl

theorem pullLeftSubtree_local {l r : NodePtr} (hl : l.AllLocal) (hr : r.AllLocal)
    (h : Int) (w : Word) (c : Int) :
    (node l h w c r).pullLeftSubtree = some l.pulled := by
  rcases hl.cases with rfl | ⟨a, k, y, m, b, rfl, ha, hb⟩
  · simp [pullLeftSubtree, clearChild_local hr, clearData_local, pulled]
  · simp only [pullLeftSubtree, clearChild_local hr, present_node, if_true, getWord, getCounter,
      getRightSubtree, getLeftSubtree, childSubtree_local ha, childSubtree_local hb, clear]
    simpa [pulled] using hangTwice_local ha hb h w y c m

theorem pullRightSubtree_local {l r : NodePtr} (hl : l.AllLocal) (hr : r.AllLocal)
    (h : Int) (w : Word) (c : Int) :
    (node l h w c r).pullRightSubtree = some r.pulled := by
  rcases hr.cases with rfl | ⟨a, k, y, m, b, rfl, ha, hb⟩
  · simp [pullRightSubtree, clearChild_local hl, clearData_local, pulled]
  · simp only [pullRightSubtree, clearChild_local hl, present_node, if_true, getWord, getCounter,
      getRightSubtree, getLeftSubtree, childSubtree_local ha, childSubtree_local hb, clear]
    simpa [pulled] using hangTwice_local ha hb h w y c m

theorem rotateRight_local {a b r : NodePtr} (ha : a.AllLocal) (hb : b.AllLocal) (hr : r.AllLocal)
    (h k : Int) (w y : Word) (c m : Int) :
    (node (node a k y m b) h w c r).rotateRight =
      some (node (node a k y m b) h w c r).rotatedRight := by
  obtain ⟨l', k', r', hpush, hl', hr'⟩ := pushedRight_shape r hr w c
  have hhung : ((node l' k' w c r').hungLeft b).AllLocal := hungLeft_local ⟨hl', hr'⟩ hb
  have hpull : (if (!a.present && !b.present) = true then (node a k y m b).clear
      else (node a k y m b).pullLeftSubtree) =
        some (if !a.present && !b.present then null else a.pulled) := by
    rw [pullLeftSubtree_local ha hb]
    split <;> rfl
  simp only [rotateRight, getWord, getCounter, pushRightSubtree_local hr, hpush, getRightSubtree,
    childSubtree_local hb, getLeft, getRight, hangLeft_local hl' hr' hb, hpull,
    Option.bind_eq_bind, Option.bind_some, setData, rotatedRight]
  rw [updateHeight_local _ hhung]
  · rfl
  · split
    · trivial
    · exact pulled_local ha

theorem rotateLeft_local {l a b : NodePtr} (hl : l.AllLocal) (ha : a.AllLocal) (hb : b.AllLocal)
    (h k : Int) (w y : Word) (c m : Int) :
    (node l h w c (node a k y m b)).rotateLeft =
      some (node l h w c (node a k y m b)).rotatedLeft := by
  obtain ⟨l', k', r', hpush, hl', hr'⟩ := pushedLeft_shape l hl w c
  have hhung : ((node l' k' w c r').hungRight a).AllLocal := hungRight_local ⟨hl', hr'⟩ ha
  have hpull : (if (!a.present && !b.present) = true then (node a k y m b).clear
      else (node a k y m b).pullRightSubtree) =
        some (if !a.present && !b.present then null else b.pulled) := by
    rw [pullRightSubtree_local ha hb]
    split <;> rfl
  simp only [rotateLeft, getWord, getCounter, pushLeftSubtree_local hl, hpush, getLeftSubtree,
    childSubtree_local ha, getLeft, getRight, hangRight_local hl' hr' ha, hpull,
    Option.bind_eq_bind, Option.bind_some, setData, rotatedLeft]
  rw [updateHeight_local hhung]
  · rfl
  · split
    · trivial
    · exact pulled_local hb

theorem rotatedRight_shape {a b r : NodePtr} (ha : a.AllLocal) (hb : b.AllLocal) (hr : r.AllLocal)
    (h k : Int) (w y : Word) (c m : Int) :
    ∃ a' k' b', (node (node a k y m b) h w c r).rotatedRight = node a' k' y m b' ∧
      a'.AllLocal ∧ b'.AllLocal := by
  obtain ⟨l', k', r', hpush, hl', hr'⟩ := pushedRight_shape r hr w c
  refine ⟨_, _, _, rfl, ?_, ?_⟩
  · split
    · trivial
    · exact pulled_local ha
  · rw [hpush]; exact hungLeft_local ⟨hl', hr'⟩ hb

theorem rotatedLeft_shape {l a b : NodePtr} (hl : l.AllLocal) (ha : a.AllLocal) (hb : b.AllLocal)
    (h k : Int) (w y : Word) (c m : Int) :
    ∃ a' k' b', (node l h w c (node a k y m b)).rotatedLeft = node a' k' y m b' ∧
      a'.AllLocal ∧ b'.AllLocal := by
  obtain ⟨l', k', r', hpush, hl', hr'⟩ := pushedLeft_shape l hl w c
  refine ⟨_, _, _, rfl, ?_, ?_⟩
  · rw [hpush]; exact hungRight_local ⟨hl', hr'⟩ ha
  · split
    · trivial
    · exact pulled_local hb

theorem rotateRight_keeps {t t' : NodePtr} (ht : t.AllLocal) (hrot : t.rotateRight = some t') :
    t'.AllLocal := by
  rcases ht.cases with rfl | ⟨l, h, x, n, c, rfl, hl, hc⟩
  · cases hrot
  · rcases hl.cases with rfl | ⟨a, k, y, m, b, rfl, ha, hb⟩
    · cases hrot
    · obtain ⟨a', k', b', heq, ha', hb'⟩ := rotatedRight_shape ha hb hc h k x y n m
      rw [rotateRight_local ha hb hc, heq] at hrot
      cases hrot
      exact ⟨ha', hb'⟩

theorem rotateLeft_keeps {t t' : NodePtr} (ht : t.AllLocal) (hrot : t.rotateLeft = some t') :
    t'.AllLocal := by
  rcases ht.cases with rfl | ⟨c, h, x, n, r, rfl, hc, hr⟩
  · cases hrot
  · rcases hr.cases with rfl | ⟨a, k, y, m, b, rfl, ha, hb⟩
    · cases hrot
    · obtain ⟨a', k', b', heq, ha', hb'⟩ := rotatedLeft_shape hc ha hb h k x y n m
      rw [rotateLeft_local hc ha hb, heq] at hrot
      cases hrot
      exact ⟨ha', hb'⟩

-- What balance can do: nothing, or one or two rotations.
theorem balance_cases {l r t' : NodePtr} {h : Int} {x w : Word} {n b : Int}
    (hbal : (node l h x n r).balance b w = some t') :
    t' = node l h x n r ∨
      (∃ r₁, (r₁ = r ∨ r.rotateRight = some r₁) ∧ (node l h x n r₁).rotateLeft = some t') ∨
      ∃ l₁, (l₁ = l ∨ l.rotateLeft = some l₁) ∧ (node l₁ h x n r).rotateRight = some t' := by
  rw [balance] at hbal
  split at hbal
  · obtain ⟨r₁, hr₁, hrot⟩ := Option.bind_eq_some_iff.mp hbal
    obtain ⟨s, -, hside⟩ := Option.bind_eq_some_iff.mp hr₁
    refine Or.inr (Or.inl ⟨r₁, ?_, hrot⟩)
    cases s with
    | true => exact Or.inr hside
    | false => cases hside; exact Or.inl rfl
  · split at hbal
    · obtain ⟨l₁, hl₁, hrot⟩ := Option.bind_eq_some_iff.mp hbal
      obtain ⟨s, -, hside⟩ := Option.bind_eq_some_iff.mp hl₁
      refine Or.inr (Or.inr ⟨l₁, ?_, hrot⟩)
      cases s with
      | true => cases hside; exact Or.inl rfl
      | false => exact Or.inr hside
    · cases hbal
      exact Or.inl rfl

theorem balance_keeps {t t' : NodePtr} {b : Int} {w : Word} (ht : t.AllLocal)
    (hbal : t.balance b w = some t') : t'.AllLocal := by
  rcases ht.cases with rfl | ⟨l, h, x, n, r, rfl, hl, hr⟩
  · cases hbal
  · obtain rfl | ⟨r₁, hr₁, hrot⟩ | ⟨l₁, hl₁, hrot⟩ := balance_cases hbal
    · exact ht
    · have hr₁ : r₁.AllLocal := by
        rcases hr₁ with rfl | hside
        · exact hr
        · exact rotateRight_keeps hr hside
      have hnode : (node l h x n r₁).AllLocal := ⟨hl, hr₁⟩
      exact rotateLeft_keeps hnode hrot
    · have hl₁ : l₁.AllLocal := by
        rcases hl₁ with rfl | hside
        · exact hl
        · exact rotateLeft_keeps hl hside
      have hnode : (node l₁ h x n r).AllLocal := ⟨hl₁, hr⟩
      exact rotateRight_keeps hnode hrot

end NodePtr

end DistributedAvl
