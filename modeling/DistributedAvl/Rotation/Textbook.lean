import DistributedAvl.Remote.Rotation

namespace DistributedAvl

open SearchTree

namespace NodePtr

variable {a b c : NodePtr} {h k : Int} {x y : Word} {n m : Int}

def Leftless : NodePtr → Prop
  | node l _ _ _ _ => l = null
  | _ => True

-- Nodes without a left child all the way down on the right.
def RightChain : NodePtr → Prop
  | node l _ _ _ r => l = null ∧ r.RightChain
  | _ => True

def LeftChain : NodePtr → Prop
  | node l _ _ _ r => r = null ∧ l.LeftChain
  | _ => True

theorem Stocked.inorder {t : NodePtr} (ht : t.Stocked) : t.entries = inorder t.shape := by
  induction t with
  | null => rfl
  | remote root => exact ht.elim
  | node l h x n r ihl ihr =>
      rw [entries_node ht.1, ihl ht.2.1, ihr ht.2.2]
      rfl

theorem stocked_node {l r : NodePtr} (hl : l.Stocked) (hr : r.Stocked) (hh : 0 ≤ h) (hn : n ≠ 0)
    (hx : x ≠ []) : (node l h x n r).Stocked := ⟨holds_iff.mpr ⟨by omega, hn, hx⟩, hl, hr⟩

-- push_right_subtree keeps the tree below on the right only along a chain: elsewhere the left part
-- is copied over what was pushed down.
theorem pushedRight_chain (hc : c.Stocked) (x : Word) (n : Int) :
    ∃ k c', c.pushedRight x n = node null k x n c' ∧ 0 ≤ k ∧ c'.Stocked ∧
      (c.RightChain → c'.shape = c.shape) ∧
      (inorder c'.shape = inorder c.shape → c.RightChain) := by
  induction c generalizing x n with
  | null => exact ⟨0, null, rfl, le_refl _, trivial, fun _ => rfl, fun _ => trivial⟩
  | remote root => exact hc.elim
  | node l h w q r _ ihr =>
      obtain ⟨hheld, hl, hr⟩ := hc
      obtain ⟨-, hq, hw⟩ := holds_iff.mp hheld
      simp only [pushedRight, hheld, if_true, RightChain]
      cases hp : l.present with
      | true =>
          refine ⟨1, l.ground, rfl, zero_le_one, hl.ground, ?_, ?_⟩
          · rintro ⟨rfl, -⟩
            exact absurd hp (by decide)
          · rw [ground_shape]
            exact fun heq => absurd heq (left_inorder_ne _ _ _)
      | false =>
          obtain rfl := present_eq_false.mp hp
          obtain ⟨k, r', hpush, hk, hr', hkept, hback⟩ := ihr hr w q
          refine ⟨1, node null k w q r', by rw [hpush]; rfl, zero_le_one,
            stocked_node trivial hr' hk hq hw, ?_, ?_⟩
          · rintro ⟨-, hchain⟩
            simp [shape, hkept hchain]
          · intro heq
            exact ⟨rfl, hback (by simpa [shape, SearchTree.inorder] using heq)⟩

theorem pushedLeft_chain (hc : c.Stocked) (x : Word) (n : Int) :
    ∃ k c', c.pushedLeft x n = node c' k x n null ∧ 0 ≤ k ∧ c'.Stocked ∧
      (c.LeftChain → c'.shape = c.shape) ∧
      (inorder c'.shape = inorder c.shape → c.LeftChain) := by
  induction c generalizing x n with
  | null => exact ⟨0, null, rfl, le_refl _, trivial, fun _ => rfl, fun _ => trivial⟩
  | remote root => exact hc.elim
  | node l h w q r ihl _ =>
      obtain ⟨hheld, hl, hr⟩ := hc
      obtain ⟨-, hq, hw⟩ := holds_iff.mp hheld
      simp only [pushedLeft, hheld, if_true, LeftChain]
      cases hp : r.present with
      | true =>
          refine ⟨1, r.ground, rfl, zero_le_one, hr.ground, ?_, ?_⟩
          · rintro ⟨rfl, -⟩
            exact absurd hp (by decide)
          · rw [ground_shape]
            exact fun heq => absurd heq (right_inorder_ne _ _ _)
      | false =>
          obtain rfl := present_eq_false.mp hp
          obtain ⟨k, l', hpush, hk, hl', hkept, hback⟩ := ihl hl w q
          refine ⟨1, node l' k w q null, by rw [hpush]; rfl, zero_le_one,
            stocked_node hl' trivial hk hq hw, ?_, ?_⟩
          · rintro ⟨-, hchain⟩
            simp [shape, hkept hchain]
          · intro heq
            exact ⟨rfl, hback (by simpa [shape, SearchTree.inorder] using heq)⟩

theorem hungLeft_beside (hb : b.Stocked) (hc : c.Stocked) (hk : 0 ≤ k) (hn : n ≠ 0)
    (hx : x ≠ []) : ((node null k x n c).hungLeft b).Stocked ∧
      ((node null k x n c).hungLeft b).shape = .node (x, n) b.shape c.shape := by
  cases hp : b.present with
  | true =>
      simp only [hungLeft, hp, if_true, shape, ground_shape, and_true]
      exact stocked_node hb.ground hc (by omega) hn hx
  | false =>
      obtain rfl := present_eq_false.mp hp
      exact ⟨stocked_node trivial hc hk hn hx, rfl⟩

theorem hungRight_beside (hb : b.Stocked) (hc : c.Stocked) (hk : 0 ≤ k) (hn : n ≠ 0)
    (hx : x ≠ []) : ((node c k x n null).hungRight b).Stocked ∧
      ((node c k x n null).hungRight b).shape = .node (x, n) c.shape b.shape := by
  cases hp : b.present with
  | true =>
      simp only [hungRight, hp, if_true, shape, ground_shape, and_true]
      exact stocked_node hc hb.ground (by omega) hn hx
  | false =>
      obtain rfl := present_eq_false.mp hp
      exact ⟨stocked_node hc trivial hk hn hx, rfl⟩

-- What is pulled up sets its left part on the right; pulling up nothing leaves a word-less node.
structure PulledUp (a : NodePtr) (covered : Bool) (t : NodePtr) : Prop where
  low : -1 ≤ t.heightOf
  shape : t.shape = a.shape ↔ a.Leftless ∧ (covered = true → a.present = true)
  visible : t.visible = a.shape ↔ a.Leftless
  entries : a.Leftless → t.entries = a.entries

theorem Stocked.pulledUp {t : NodePtr} {covered : Bool} (ht : t.Stocked)
    (hp : a.present = true) (hshape : t.shape = a.shape ↔ a.Leftless)
    (hentries : a.Leftless → t.entries = a.entries) : PulledUp a covered t where
  low := ht.height_ge
  shape := by simp [hshape, hp]
  visible := by rw [ht.visible, hshape]
  entries := hentries

theorem pulledUp (ha : a.Stocked) (covered : Bool) :
    PulledUp a covered (if !a.present && !covered then null else a.pulled) := by
  cases a with
  | null =>
      cases covered with
      | false => exact ⟨le_refl _, by simp [Leftless, shape], iff_of_true rfl trivial, fun _ => rfl⟩
      | true => exact ⟨le_refl _, by simp [pulled, shape], iff_of_true rfl trivial, fun _ => rfl⟩
  | remote root => exact ha.elim
  | node l h w q r =>
      obtain ⟨hheld, hl, hr⟩ := id ha
      obtain ⟨-, hq, hw⟩ := holds_iff.mp hheld
      simp only [present_node, Bool.not_true, Bool.false_and, Bool.false_eq_true, if_false, pulled]
      cases hp : l.present with
      | true =>
          have hup : (node null 1 w q l.ground).Stocked :=
            stocked_node trivial hl.ground zero_le_one hq hw
          have hleft : l ≠ null := by
            rintro rfl
            exact absurd hp (by decide)
          refine hup.pulledUp rfl (iff_of_false ?_ hleft) fun h => absurd h hleft
          intro heq
          injection heq with _ hnil
          exact hleft (present_eq_false.mp (hl.shape_nil.mp hnil.symm))
      | false =>
          obtain rfl := present_eq_false.mp hp
          simp only [Bool.false_eq_true, if_false]
          cases hr' : r.present with
          | true =>
              have hup : (node null 1 w q r.ground).Stocked :=
                stocked_node trivial hr.ground zero_le_one hq hw
              have hshape : (node null 1 w q r.ground).shape = (node null h w q r).shape := by
                simp [shape, ground_shape]
              refine hup.pulledUp rfl (iff_of_true hshape rfl) fun _ => ?_
              rw [hup.inorder, ha.inorder, hshape]
          | false =>
              obtain rfl := present_eq_false.mp hr'
              have hup : (node null 0 w q null).Stocked :=
                stocked_node trivial trivial (le_refl _) hq hw
              refine hup.pulledUp rfl (iff_of_true rfl rfl) fun _ => ?_
              rw [hup.inorder, ha.inorder]
              rfl

theorem rotateRight_shape : SearchTree.rotateRight (node (node a k y m b) h x n c).shape =
    .node (y, m) a.shape (.node (x, n) b.shape c.shape) := rfl

theorem rotateLeft_shape : SearchTree.rotateLeft (node c h x n (node a k y m b)).shape =
    .node (y, m) (.node (x, n) c.shape a.shape) b.shape := rfl

section Assembled

variable {l r t : NodePtr} {covered : Bool} {chain : Prop}

theorem PulledUp.right_textbook (hup : PulledUp a covered l) (ha : a.Stocked) (hr : r.Stocked)
    (hm : m ≠ 0) (hy : y ≠ []) {c' : NodePtr} (hshape : r.shape = .node (x, n) b.shape c'.shape)
    (hchain : c'.shape = c.shape ↔ chain) (hX : (node (node a k y m b) h x n c).Stocked) :
    ((leveled l y m r).shape = SearchTree.rotateRight (node (node a k y m b) h x n c).shape ∧
        (leveled l y m r).entries = (node (node a k y m b) h x n c).entries ↔
      a.Leftless ∧ (covered = true → a.present = true) ∧ chain) ∧
    ((leveled l y m r).visible = SearchTree.rotateRight (node (node a k y m b) h x n c).shape ∧
        (leveled l y m r).entries = (node (node a k y m b) h x n c).entries ↔
      a.Leftless ∧ chain) := by
  have hge : -1 ≤ max l.heightOf r.heightOf := le_trans hup.low (le_max_left _ _)
  have hlist : a.Leftless → chain →
      (leveled l y m r).entries = (node (node a k y m b) h x n c).entries := by
    intro hleft hright
    have hent : (leveled l y m r).entries = l.entries ++ (y, m) :: r.entries :=
      entries_node (holds_leveled hge hm hy)
    rw [hent, hX.inorder, ← SearchTree.inorder_rotateRight, rotateRight_shape, hup.entries hleft,
      ha.inorder, hr.inorder, hshape, hchain.mpr hright]
    rfl
  constructor
  · have hstrict : (leveled l y m r).shape =
        SearchTree.rotateRight (node (node a k y m b) h x n c).shape ↔
          l.shape = a.shape ∧ c'.shape = c.shape := by
      rw [rotateRight_shape]
      simp [leveled, NodePtr.shape, hshape]
    rw [hstrict, hup.shape, hchain]
    constructor
    · rintro ⟨⟨⟨hleft, hover⟩, hright⟩, -⟩
      exact ⟨hleft, hover, hright⟩
    · rintro ⟨hleft, hover, hright⟩
      exact ⟨⟨⟨hleft, hover⟩, hright⟩, hlist hleft hright⟩
  · have hseen : (leveled l y m r).visible =
        SearchTree.rotateRight (node (node a k y m b) h x n c).shape ↔
          l.visible = a.shape ∧ c'.shape = c.shape := by
      rw [rotateRight_shape, leveled_visible hm hy hge, hr.visible, hshape]
      simp
    rw [hseen, hup.visible, hchain]
    constructor
    · rintro ⟨hsides, -⟩
      exact hsides
    · rintro ⟨hleft, hright⟩
      exact ⟨⟨hleft, hright⟩, hlist hleft hright⟩

theorem PulledUp.left_textbook (hup : PulledUp b covered r) (hb : b.Stocked) (hl : l.Stocked)
    (hm : m ≠ 0) (hy : y ≠ []) {c' : NodePtr} (hshape : l.shape = .node (x, n) c'.shape a.shape)
    (hchain : c'.shape = c.shape ↔ chain) (hX : (node c h x n (node a k y m b)).Stocked) :
    ((leveled l y m r).shape = SearchTree.rotateLeft (node c h x n (node a k y m b)).shape ∧
        (leveled l y m r).entries = (node c h x n (node a k y m b)).entries ↔
      b.Leftless ∧ (covered = true → b.present = true) ∧ chain) ∧
    ((leveled l y m r).visible = SearchTree.rotateLeft (node c h x n (node a k y m b)).shape ∧
        (leveled l y m r).entries = (node c h x n (node a k y m b)).entries ↔
      b.Leftless ∧ chain) := by
  have hge : -1 ≤ max l.heightOf r.heightOf := le_trans hup.low (le_max_right _ _)
  have hlist : b.Leftless → chain →
      (leveled l y m r).entries = (node c h x n (node a k y m b)).entries := by
    intro hright hleft
    have hent : (leveled l y m r).entries = l.entries ++ (y, m) :: r.entries :=
      entries_node (holds_leveled hge hm hy)
    rw [hent, hX.inorder, ← SearchTree.inorder_rotateLeft, rotateLeft_shape, hup.entries hright,
      hb.inorder, hl.inorder, hshape, hchain.mpr hleft]
    rfl
  constructor
  · have hstrict : (leveled l y m r).shape =
        SearchTree.rotateLeft (node c h x n (node a k y m b)).shape ↔
          c'.shape = c.shape ∧ r.shape = b.shape := by
      rw [rotateLeft_shape]
      simp [leveled, NodePtr.shape, hshape]
    rw [hstrict, hup.shape, hchain]
    constructor
    · rintro ⟨⟨hleft, hright, hover⟩, -⟩
      exact ⟨hright, hover, hleft⟩
    · rintro ⟨hright, hover, hleft⟩
      exact ⟨⟨hleft, hright, hover⟩, hlist hright hleft⟩
  · have hseen : (leveled l y m r).visible =
        SearchTree.rotateLeft (node c h x n (node a k y m b)).shape ↔
          c'.shape = c.shape ∧ r.visible = b.shape := by
      rw [rotateLeft_shape, leveled_visible hm hy hge, hl.visible, hshape]
      simp
    rw [hseen, hup.visible, hchain]
    constructor
    · rintro ⟨⟨hleft, hright⟩, -⟩
      exact ⟨hright, hleft⟩
    · rintro ⟨hright, hleft⟩
      exact ⟨⟨hleft, hright⟩, hlist hright hleft⟩

end Assembled

theorem rotateRight_textbook (hX : (node (node a k y m b) h x n c).Stocked) :
    ∃ t, (node (node a k y m b) h x n c).rotateRight = some t ∧
      (t.shape = SearchTree.rotateRight (node (node a k y m b) h x n c).shape ∧
        t.entries = (node (node a k y m b) h x n c).entries ↔
          a.Leftless ∧ (b.present = true → a.present = true) ∧ c.RightChain) ∧
      (t.visible = SearchTree.rotateRight (node (node a k y m b) h x n c).shape ∧
        t.entries = (node (node a k y m b) h x n c).entries ↔ a.Leftless ∧ c.RightChain) := by
  obtain ⟨hheld, hl, hc⟩ := id hX
  obtain ⟨-, hn, hx⟩ := holds_iff.mp hheld
  obtain ⟨hheld', ha, hb⟩ := id hl
  obtain ⟨-, hm, hy⟩ := holds_iff.mp hheld'
  obtain ⟨i, c', hpush, hi, hc', hkept, hback⟩ := pushedRight_chain hc x n
  have hchain : c'.shape = c.shape ↔ c.RightChain :=
    ⟨fun heq => hback (congrArg SearchTree.inorder heq), hkept⟩
  obtain ⟨hright, hshape⟩ := hungLeft_beside hb hc' hi hn hx
  refine ⟨_, rotateRight_local ha.isLocal hb.isLocal hc.isLocal h k x y n m, ?_⟩
  rw [rotatedRight, hpush]
  exact (pulledUp ha b.present).right_textbook ha hright hm hy hshape hchain hX

theorem rotateLeft_textbook (hX : (node c h x n (node a k y m b)).Stocked) :
    ∃ t, (node c h x n (node a k y m b)).rotateLeft = some t ∧
      (t.shape = SearchTree.rotateLeft (node c h x n (node a k y m b)).shape ∧
        t.entries = (node c h x n (node a k y m b)).entries ↔
          b.Leftless ∧ (a.present = true → b.present = true) ∧ c.LeftChain) ∧
      (t.visible = SearchTree.rotateLeft (node c h x n (node a k y m b)).shape ∧
        t.entries = (node c h x n (node a k y m b)).entries ↔ b.Leftless ∧ c.LeftChain) := by
  obtain ⟨hheld, hc, hr⟩ := id hX
  obtain ⟨-, hn, hx⟩ := holds_iff.mp hheld
  obtain ⟨hheld', ha, hb⟩ := id hr
  obtain ⟨-, hm, hy⟩ := holds_iff.mp hheld'
  obtain ⟨i, c', hpush, hi, hc', hkept, hback⟩ := pushedLeft_chain hc x n
  have hchain : c'.shape = c.shape ↔ c.LeftChain :=
    ⟨fun heq => hback (congrArg SearchTree.inorder heq), hkept⟩
  obtain ⟨hleft, hshape⟩ := hungRight_beside ha hc' hi hn hx
  refine ⟨_, rotateLeft_local hc.isLocal ha.isLocal hb.isLocal h k x y n m, ?_⟩
  rw [rotatedLeft, hpush, Bool.and_comm]
  exact (pulledUp hb a.present).left_textbook hb hleft hm hy hshape hchain hX

theorem rotations_textbook_iff (a b c : NodePtr) (h k : Int) (x y : Word) (n m : Int) :
    ((node (node a k y m b) h x n c).Stocked →
      ∃ t, (node (node a k y m b) h x n c).rotateRight = some t ∧
        (t.shape = SearchTree.rotateRight (node (node a k y m b) h x n c).shape ∧
          t.entries = (node (node a k y m b) h x n c).entries ↔
            a.Leftless ∧ (b.present = true → a.present = true) ∧ c.RightChain) ∧
        (t.visible = SearchTree.rotateRight (node (node a k y m b) h x n c).shape ∧
          t.entries = (node (node a k y m b) h x n c).entries ↔ a.Leftless ∧ c.RightChain)) ∧
    ((node c h x n (node a k y m b)).Stocked →
      ∃ t, (node c h x n (node a k y m b)).rotateLeft = some t ∧
        (t.shape = SearchTree.rotateLeft (node c h x n (node a k y m b)).shape ∧
          t.entries = (node c h x n (node a k y m b)).entries ↔
            b.Leftless ∧ (a.present = true → b.present = true) ∧ c.LeftChain) ∧
        (t.visible = SearchTree.rotateLeft (node c h x n (node a k y m b)).shape ∧
          t.entries = (node c h x n (node a k y m b)).entries ↔ b.Leftless ∧ c.LeftChain)) :=
  ⟨rotateRight_textbook, rotateLeft_textbook⟩

theorem rotations_textbook_iff_three :
    ∃ t, (node (node (node null 0 [97] 1 null) 1 [98] 1 null) 2 [99] 1 null).rotateRight =
        some t ∧
      (t.shape = SearchTree.rotateRight
          (node (node (node null 0 [97] 1 null) 1 [98] 1 null) 2 [99] 1 null).shape ∧
        t.entries = (node (node (node null 0 [97] 1 null) 1 [98] 1 null) 2 [99] 1 null).entries ↔
          (node null 0 [97] 1 null).Leftless ∧
            (null.present = true → (node null 0 [97] 1 null).present = true) ∧ null.RightChain) ∧
      (t.visible = SearchTree.rotateRight
          (node (node (node null 0 [97] 1 null) 1 [98] 1 null) 2 [99] 1 null).shape ∧
        t.entries = (node (node (node null 0 [97] 1 null) 1 [98] 1 null) 2 [99] 1 null).entries ↔
          (node null 0 [97] 1 null).Leftless ∧ null.RightChain) :=
  (rotations_textbook_iff (node null 0 [97] 1 null) null null 2 1 [99] [98] 1 1).1 (by decide)

-- (a, b, (c, d, e)): the left part c is copied over what was pushed down to the right, and d and e
-- are gone.
theorem rotation_loses : ¬ ∀ (a b c : NodePtr) (h k : Int) (x y : Word) (n m : Int) (t : NodePtr),
    (node (node a k y m b) h x n c).Stocked →
    (node (node a k y m b) h x n c).rotateRight = some t →
    t.visible = SearchTree.rotateRight (node (node a k y m b) h x n c).shape ∧
      t.entries = (node (node a k y m b) h x n c).entries := by
  intro hall
  have hX : (node (node null 0 [97] 1 null) 2 [98] 1
      (node (node null 0 [99] 1 null) 1 [100] 1 (node null 0 [101] 1 null))).Stocked := by decide
  exact absurd (hall _ _ _ _ _ _ _ _ _ _ hX rfl).2 (by decide)

end NodePtr

end DistributedAvl
