import DistributedAvl.Insertion.Counts

namespace DistributedAvl

open SubtreeMessageParser

namespace NodePtr

variable {P : Word → Prop} {l r t t' tree : NodePtr} {h : Int} {x y w v : Word} {n m : Int}
  {f g : Word → Int}

-- A tree over any number of machines in which no counter is negative, and what a node counts is a
-- word of the given kind.
def Reckoned (P : Word → Prop) : NodePtr → Prop
  | null => True
  | node l h x n r => -1 ≤ h ∧ 0 ≤ n ∧ (n ≠ 0 → -1 < h ∧ P x) ∧ l.Reckoned P ∧ r.Reckoned P
  | remote root => root.Reckoned P

structure UpTo (P : Word → Prop) (t : NodePtr) (f : Word → Int) : Prop where
  reckoned : t.Reckoned P
  total : ∀ v, t.total v ≤ f v

theorem UpTo.mono (ht : UpTo P t f) (hfg : ∀ v, f v ≤ g v) : UpTo P t g :=
  ⟨ht.reckoned, fun v => (ht.total v).trans (hfg v)⟩

theorem Reckoned.upTo (ht : t.Reckoned P) : UpTo P t t.total := ⟨ht, fun _ => le_refl _⟩

theorem UpTo.remote (ht : UpTo P t f) : UpTo P (remote t) f := ⟨ht.reckoned, ht.total⟩

theorem upTo_null : UpTo P null fun _ => 0 := ⟨trivial, fun _ => le_refl _⟩

theorem upTo_node (hl : UpTo P l f) (hr : UpTo P r g) (hh : 0 ≤ h) (hn : 0 ≤ n)
    (hx : n ≠ 0 → P x) : UpTo P (node l h x n r) fun v => f v + share x n v + g v where
  reckoned := ⟨by omega, hn, fun hne => ⟨by omega, hx hne⟩, hl.reckoned, hr.reckoned⟩
  total v := by
    have := hl.total v
    have := hr.total v
    simp only [NodePtr.total]
    omega

theorem upTo_emptied (hl : UpTo P l fun _ => 0) (hr : UpTo P r fun _ => 0) :
    UpTo P (node l (-1) [] 0 r) fun _ => 0 where
  reckoned := ⟨le_refl _, le_refl _, fun hne => absurd rfl hne, hl.reckoned, hr.reckoned⟩
  total v := by
    have := hl.total v
    have := hr.total v
    simp only [NodePtr.total, share, ite_self]
    omega

theorem Reckoned.total_nonneg (ht : t.Reckoned P) (v : Word) : 0 ≤ t.total v := by
  induction t with
  | null => exact le_refl _
  | remote root ih => exact ih ht
  | node l h x n r ihl ihr =>
      have := ihl ht.2.2.2.1
      have := ihr ht.2.2.2.2
      have := share_nonneg ht.2.1 x v
      simp only [NodePtr.total]
      omega

theorem Reckoned.height_ge (ht : t.Reckoned P) (hh : t.getHeight = some h) : -1 ≤ h := by
  induction t with
  | null => cases hh
  | remote root ih => exact ih ht hh
  | node l k x n r => cases hh; exact ht.1

theorem Reckoned.child_height (ht : t.Reckoned P) (hh : t.childHeight = some h) : -1 ≤ h := by
  rw [childHeight] at hh
  split at hh
  · exact ht.height_ge hh
  · cases hh
    exact le_refl _

theorem updateHeight_node {b : Int} (hl : l.Reckoned P) (hr : r.Reckoned P)
    (hup : (node l h x n r).updateHeight = some (t, b)) :
    ∃ k, 0 ≤ k ∧ t = node l k x n r := by
  obtain ⟨i, hi, hup⟩ := Option.bind_eq_some_iff.mp hup
  obtain ⟨j, hj, hup⟩ := Option.bind_eq_some_iff.mp hup
  cases hup
  have := hl.child_height hi
  have := hr.child_height hj
  exact ⟨max i j + 1, by omega, rfl⟩

structure Parts (P : Word → Prop) (t : NodePtr) (x : Word) (n : Int) (l r : NodePtr) : Prop where
  counter : 0 ≤ n
  word : n ≠ 0 → P x
  left : l.Reckoned P
  right : r.Reckoned P
  total : ∀ v, share x n v + l.total v + r.total v ≤ t.total v

theorem Reckoned.parts (ht : t.Reckoned P) (hx : t.getWord = some x) (hn : t.getCounter = some n)
    (hl : t.getLeft = some l) (hr : t.getRight = some r) : Parts P t x n l r := by
  induction t generalizing l r with
  | null => cases hx
  | remote root ih =>
      cases hl
      cases hr
      have hroot : ∃ a b, root.getLeft = some a ∧ root.getRight = some b := by
        cases root with
        | null => cases hx
        | _ => exact ⟨_, _, rfl, rfl⟩
      obtain ⟨a, b, ha, hb⟩ := hroot
      have hparts := ih ht hx hn ha hb
      refine ⟨hparts.counter, hparts.word, trivial, trivial, fun v => ?_⟩
      have := hparts.total v
      have := hparts.left.total_nonneg v
      have := hparts.right.total_nonneg v
      simp only [NodePtr.total]
      omega
  | node a k y m b =>
      cases hx
      cases hn
      cases hl
      cases hr
      obtain ⟨-, hm, hy, ha, hb⟩ := ht
      refine ⟨hm, fun hne => (hy hne).2, ha, hb, fun v => ?_⟩
      simp only [NodePtr.total]
      omega

-- What reset leaves of a child: another machine's root, emptied, or nothing.
def resetSide : NodePtr → Option NodePtr
  | remote root => (remote root).reset
  | _ => some null

theorem reset_node (l : NodePtr) (h : Int) (x : Word) (n : Int) (r : NodePtr) :
    (node l h x n r).reset = (do return node (← l.resetSide) (-1) [] 0 (← r.resetSide)) := by
  cases l <;> cases r <;> simp [reset, resetSide]

theorem reset_upTo (hreset : t.reset = some t') : UpTo P t' fun _ => 0 := by
  induction t generalizing t' with
  | null => cases hreset
  | remote root ih =>
      rw [reset] at hreset
      obtain ⟨root', hroot, heq⟩ := Option.bind_eq_some_iff.mp hreset
      cases heq
      exact (ih hroot).remote
  | node l h x n r ihl ihr =>
      rw [reset_node] at hreset
      obtain ⟨l₁, hl₁, hreset⟩ := Option.bind_eq_some_iff.mp hreset
      obtain ⟨r₁, hr₁, heq⟩ := Option.bind_eq_some_iff.mp hreset
      cases heq
      have hl : UpTo P l₁ fun _ => 0 := by
        cases l with
        | remote root => exact ihl hl₁
        | _ => cases hl₁; exact upTo_null
      have hr : UpTo P r₁ fun _ => 0 := by
        cases r with
        | remote root => exact ihr hr₁
        | _ => cases hr₁; exact upTo_null
      exact upTo_emptied hl hr

theorem clear_upTo (hclear : t.clear = some t') : UpTo P t' fun _ => 0 := by
  cases t with
  | null => cases hclear
  | node _ _ _ _ _ => cases hclear; exact upTo_null
  | remote root =>
      obtain ⟨root', hroot, heq⟩ := Option.bind_eq_some_iff.mp hclear
      cases heq
      exact (reset_upTo hroot).remote

theorem clearChild_upTo (hclear : t.clearChild = some t') : UpTo P t' fun _ => 0 := by
  rw [clearChild] at hclear
  split at hclear
  · exact clear_upTo hclear
  · cases hclear
    exact upTo_null

theorem clearData_upTo (hclear : (node l h x n r).clearData = some t') : UpTo P t' fun _ => 0 := by
  obtain ⟨l₁, hl₁, hclear⟩ := Option.bind_eq_some_iff.mp hclear
  obtain ⟨r₁, hr₁, heq⟩ := Option.bind_eq_some_iff.mp hclear
  cases heq
  exact upTo_emptied (clearChild_upTo hl₁) (clearChild_upTo hr₁)

theorem setData_upTo (ht : t.Reckoned P) (hn : 0 ≤ n) (hx : n ≠ 0 → P x)
    (hset : t.setData x n = some t') : UpTo P t' fun v => t.total v + share x n v := by
  induction t generalizing t' with
  | null => cases hset
  | remote root ih =>
      obtain ⟨root', hroot, heq⟩ := Option.bind_eq_some_iff.mp hset
      cases heq
      exact (ih ht hroot).remote
  | node l h y m r =>
      cases hset
      refine (upTo_node ht.2.2.2.1.upTo ht.2.2.2.2.upTo (le_refl 0) hn hx).mono fun v => ?_
      have := share_nonneg ht.2.1 y v
      simp only [NodePtr.total]
      omega

theorem parseTree_upTo {m : PabloSubtree} (ht : t.Reckoned P) (hm : parseProtoTree t = some m) :
    UpTo P (parseTree m) t.total := by
  induction t generalizing m with
  | null => cases hm; exact upTo_null
  | remote root =>
      obtain ⟨y, hy, hm⟩ := Option.bind_eq_some_iff.mp hm
      obtain ⟨k, hk, heq⟩ := Option.bind_eq_some_iff.mp hm
      cases heq
      have hparts := ht.parts (t := remote root) hy hk rfl rfl
      by_cases hzero : k = 0
      · simp only [parseTree, parseNodeTree, hzero, if_true]
        exact upTo_null.mono ht.total_nonneg
      · simp only [parseTree, parseNodeTree, hzero, if_false]
        refine (upTo_node upTo_null upTo_null (le_refl 0) hparts.counter hparts.word).mono
          fun v => ?_
        simpa [NodePtr.total] using hparts.total v
  | node l h y k r ihl ihr =>
      obtain ⟨left, hleft, hm⟩ := Option.bind_eq_some_iff.mp hm
      obtain ⟨right, hright, heq⟩ := Option.bind_eq_some_iff.mp hm
      cases heq
      obtain ⟨-, hk, hy, hl, hr⟩ := id ht
      have hsides : UpTo P (parseTree left) l.total ∧ UpTo P (parseTree right) r.total := by
        constructor
        · cases l with
          | null => cases hleft; exact upTo_null
          | _ => exact ihl hl hleft
        · cases r with
          | null => cases hright; exact upTo_null
          | _ => exact ihr hr hright
      by_cases hzero : k = 0
      · simp only [parseTree, parseNodeTree, hzero, if_true]
        rw [hzero] at ht
        exact upTo_null.mono ht.total_nonneg
      · simp only [parseTree, parseNodeTree, hzero, if_false]
        exact upTo_node hsides.1 hsides.2 (le_refl 0) hk fun hne => (hy hne).2

theorem carried_upTo (ht : t.Reckoned P) (hcarry : t.carried = some t') : UpTo P t' t.total := by
  obtain ⟨m, hm, heq⟩ := Option.bind_eq_some_iff.mp hcarry
  cases heq
  exact parseTree_upTo ht hm

theorem getSubtree_upTo (ht : t.Reckoned P) (hget : t.getSubtree = some t') :
    UpTo P t' t.total := by
  cases t with
  | null => cases hget
  | remote root => exact carried_upTo (t := root) ht hget
  | node l h x n r =>
      obtain ⟨⟨copy, b⟩, hup, heq⟩ := Option.bind_eq_some_iff.mp hget
      cases heq
      obtain ⟨-, hn, hx, hl, hr⟩ := ht
      obtain ⟨k, hk, rfl⟩ := updateHeight_node hl hr hup
      exact upTo_node hl.upTo hr.upTo hk hn fun hne => (hx hne).2

theorem childSubtree_upTo (ht : t.Reckoned P)
    (hget : (if t.present then t.getSubtree else some null) = some t') : UpTo P t' t.total := by
  split at hget
  · exact getSubtree_upTo ht hget
  · cases hget
    exact upTo_null.mono ht.total_nonneg

theorem Reckoned.taken {a b : NodePtr} (ht : t.Reckoned P) (hx : t.getWord = some x)
    (hn : t.getCounter = some n) (ha : t.getLeftSubtree = some a)
    (hb : t.getRightSubtree = some b) : Parts P t x n a b := by
  cases t with
  | null => cases hx
  | node l h y m r =>
      have hparts := ht.parts (t := node l h y m r) hx hn rfl rfl
      have hleft := childSubtree_upTo hparts.left ha
      have hright := childSubtree_upTo hparts.right hb
      refine ⟨hparts.counter, hparts.word, hleft.reckoned, hright.reckoned, fun v => ?_⟩
      have := hparts.total v
      have := hleft.total v
      have := hright.total v
      omega
  | remote root =>
      obtain ⟨l, hl, ha⟩ := Option.bind_eq_some_iff.mp ha
      obtain ⟨r, hr, hb⟩ := Option.bind_eq_some_iff.mp hb
      have hparts := Reckoned.parts (t := root) ht hx hn hl hr
      have hleft := carried_upTo hparts.left ha
      have hright := carried_upTo hparts.right hb
      refine ⟨hparts.counter, hparts.word, hleft.reckoned, hright.reckoned, fun v => ?_⟩
      have := hparts.total v
      have := hleft.total v
      have := hright.total v
      simp only [NodePtr.total]
      omega

theorem setSubtree_upTo (ht : UpTo P t f) (htree : UpTo P tree f)
    (hset : t.setSubtree tree = some t') : UpTo P t' f := by
  induction t generalizing tree t' with
  | null => cases hset
  | remote root ih =>
      obtain ⟨c, hc, hset⟩ := Option.bind_eq_some_iff.mp hset
      obtain ⟨root', hroot, heq⟩ := Option.bind_eq_some_iff.mp hset
      cases heq
      have hcarried := (carried_upTo htree.reckoned hc).mono htree.total
      exact (ih ⟨ht.reckoned, ht.total⟩ hcarried hroot).remote
  | node l h x n r =>
      simp only [setSubtree] at hset
      split at hset
      · obtain ⟨y, hy, hset⟩ := Option.bind_eq_some_iff.mp hset
        obtain ⟨m, hm, hset⟩ := Option.bind_eq_some_iff.mp hset
        obtain ⟨a, ha, hset⟩ := Option.bind_eq_some_iff.mp hset
        obtain ⟨b, hb, heq⟩ := Option.bind_eq_some_iff.mp hset
        cases heq
        have hparts := htree.reckoned.parts hy hm ha hb
        refine (upTo_node hparts.left.upTo hparts.right.upTo (le_refl 0) hparts.counter
          hparts.word).mono fun v => ?_
        have := hparts.total v
        have := htree.total v
        omega
      · cases hset
        exact ht

theorem hung_upTo {a b c : NodePtr} (htree : tree.Reckoned P) (hclear : t.clearChild = some a)
    (hfill : (if a.present then do a.setData (← tree.getWord) (← tree.getCounter) else some tree) =
      some b) (hset : b.setSubtree tree = some c) : UpTo P c tree.total := by
  refine setSubtree_upTo ?_ htree.upTo hset
  split at hfill
  · obtain ⟨y, hy, hfill⟩ := Option.bind_eq_some_iff.mp hfill
    obtain ⟨m, hm, hfill⟩ := Option.bind_eq_some_iff.mp hfill
    have hcleared : UpTo P a fun _ => 0 := clearChild_upTo hclear
    have hroot : ∃ l r, tree.getLeft = some l ∧ tree.getRight = some r := by
      cases tree with
      | null => cases hy
      | _ => exact ⟨_, _, rfl, rfl⟩
    obtain ⟨l, r, hl, hr⟩ := hroot
    have hparts := htree.parts hy hm hl hr
    refine (setData_upTo hcleared.reckoned hparts.counter hparts.word hfill).mono fun v => ?_
    have := hcleared.total v
    have := hparts.total v
    have := hparts.left.total_nonneg v
    have := hparts.right.total_nonneg v
    omega
  · cases hfill
    exact htree.upTo

theorem setLeftSubtree_node (hl : l.Reckoned P) (hr : r.Reckoned P) (htree : tree.Reckoned P)
    (hset : (node l h x n r).setLeftSubtree tree = some t') :
    ∃ l' k, t' = node l' k x n r ∧ (k = h ∨ 0 ≤ k) ∧
      UpTo P l' fun v => l.total v + tree.total v := by
  simp only [setLeftSubtree] at hset
  split at hset
  · obtain ⟨l₁, hl₁, hset⟩ := Option.bind_eq_some_iff.mp hset
    obtain ⟨l₂, hl₂, hset⟩ := Option.bind_eq_some_iff.mp hset
    obtain ⟨l₃, hl₃, hset⟩ := Option.bind_eq_some_iff.mp hset
    obtain ⟨⟨this, b⟩, hup, heq⟩ := Option.bind_eq_some_iff.mp hset
    cases heq
    have hhung := hung_upTo htree hl₁ hl₂ hl₃
    obtain ⟨k, hk, rfl⟩ := updateHeight_node hhung.reckoned hr hup
    refine ⟨l₃, k, rfl, Or.inr hk, hhung.mono fun v => ?_⟩
    have := hl.total_nonneg v
    omega
  · cases hset
    refine ⟨l, h, rfl, Or.inl rfl, hl.upTo.mono fun v => ?_⟩
    have := htree.total_nonneg v
    omega

theorem setRightSubtree_node (hl : l.Reckoned P) (hr : r.Reckoned P) (htree : tree.Reckoned P)
    (hset : (node l h x n r).setRightSubtree tree = some t') :
    ∃ r' k, t' = node l k x n r' ∧ (k = h ∨ 0 ≤ k) ∧
      UpTo P r' fun v => r.total v + tree.total v := by
  simp only [setRightSubtree] at hset
  split at hset
  · obtain ⟨r₁, hr₁, hset⟩ := Option.bind_eq_some_iff.mp hset
    obtain ⟨r₂, hr₂, hset⟩ := Option.bind_eq_some_iff.mp hset
    obtain ⟨r₃, hr₃, hset⟩ := Option.bind_eq_some_iff.mp hset
    obtain ⟨⟨this, b⟩, hup, heq⟩ := Option.bind_eq_some_iff.mp hset
    cases heq
    have hhung := hung_upTo htree hr₁ hr₂ hr₃
    obtain ⟨k, hk, rfl⟩ := updateHeight_node hl hhung.reckoned hup
    refine ⟨r₃, k, rfl, Or.inr hk, hhung.mono fun v => ?_⟩
    have := hr.total_nonneg v
    omega
  · cases hset
    refine ⟨r, h, rfl, Or.inl rfl, hr.upTo.mono fun v => ?_⟩
    have := htree.total_nonneg v
    omega

theorem setLeftSubtree_upTo (ht : t.Reckoned P) (htree : tree.Reckoned P)
    (hset : t.setLeftSubtree tree = some t') :
    UpTo P t' fun v => t.total v + tree.total v := by
  induction t generalizing tree t' with
  | null => cases hset
  | remote root ih =>
      obtain ⟨c, hc, hset⟩ := Option.bind_eq_some_iff.mp hset
      obtain ⟨root', hroot, heq⟩ := Option.bind_eq_some_iff.mp hset
      cases heq
      have hcarried := carried_upTo htree hc
      refine (ih ht hcarried.reckoned hroot).remote.mono fun v => ?_
      have := hcarried.total v
      simp only [NodePtr.total]
      omega
  | node l h x n r =>
      obtain ⟨hh, hn, hx, hl, hr⟩ := ht
      obtain ⟨l', k, rfl, hk, hl'⟩ := setLeftSubtree_node hl hr htree hset
      refine ⟨⟨by omega, hn, fun hne => ⟨by have := (hx hne).1; omega, (hx hne).2⟩,
        hl'.reckoned, hr⟩, fun v => ?_⟩
      have := hl'.total v
      simp only [NodePtr.total]
      omega

theorem setRightSubtree_upTo (ht : t.Reckoned P) (htree : tree.Reckoned P)
    (hset : t.setRightSubtree tree = some t') :
    UpTo P t' fun v => t.total v + tree.total v := by
  induction t generalizing tree t' with
  | null => cases hset
  | remote root ih =>
      obtain ⟨c, hc, hset⟩ := Option.bind_eq_some_iff.mp hset
      obtain ⟨root', hroot, heq⟩ := Option.bind_eq_some_iff.mp hset
      cases heq
      have hcarried := carried_upTo htree hc
      refine (ih ht hcarried.reckoned hroot).remote.mono fun v => ?_
      have := hcarried.total v
      simp only [NodePtr.total]
      omega
  | node l h x n r =>
      obtain ⟨hh, hn, hx, hl, hr⟩ := ht
      obtain ⟨r', k, rfl, hk, hr'⟩ := setRightSubtree_node hl hr htree hset
      refine ⟨⟨by omega, hn, fun hne => ⟨by have := (hx hne).1; omega, (hx hne).2⟩,
        hl, hr'.reckoned⟩, fun v => ?_⟩
      have := hr'.total v
      simp only [NodePtr.total]
      omega

theorem fresh_reckoned : fresh.Reckoned P :=
  ⟨le_refl _, le_refl _, fun hne => absurd rfl hne, trivial, trivial⟩

theorem filled_upTo {pushed : Option NodePtr}
    (hpush : pushed = some t' → UpTo P t' fun v => t.total v + share x n v)
    (ht : t.Reckoned P) (hn : 0 ≤ n) (hx : n ≠ 0 → P x)
    (h : (if t.present then pushed else fresh.setData x n) = some t') :
    UpTo P t' fun v => t.total v + share x n v := by
  split at h
  · exact hpush h
  · refine (setData_upTo fresh_reckoned hn hx h).mono fun v => ?_
    have := ht.total_nonneg v
    simp only [fresh, NodePtr.total, share, ite_self]
    omega

theorem moved_upTo {a b c d : NodePtr} (ha : UpTo P a f) (hb : b.Reckoned P)
    (hmove : (if b.present then do
        let tree ← b.getSubtree
        let b₁ ← b.clear
        let a₁ ← (if tree.present then a.setSubtree tree else some a)
        pure (a₁, b₁)
      else some (a, b)) = some (c, d)) (hf : ∀ v, 0 ≤ f v) :
    UpTo P c (fun v => f v + b.total v) ∧ UpTo P d fun _ => 0 := by
  have hwide : UpTo P a fun v => f v + b.total v :=
    ha.mono fun v => by have := hb.total_nonneg v; omega
  split at hmove
  · obtain ⟨tree, htree, hmove⟩ := Option.bind_eq_some_iff.mp hmove
    obtain ⟨b₁, hb₁, hmove⟩ := Option.bind_eq_some_iff.mp hmove
    obtain ⟨a₁, ha₁, heq⟩ := Option.bind_eq_some_iff.mp hmove
    cases heq
    refine ⟨?_, clear_upTo hb₁⟩
    have hsub := (getSubtree_upTo hb htree).mono (g := fun v => f v + b.total v) fun v => by
      have := hf v
      omega
    split at ha₁
    · exact setSubtree_upTo hwide hsub ha₁
    · cases ha₁
      exact hwide
  · rename_i hp
    obtain rfl : b = null := by
      cases b <;> simp [present] at hp
      rfl
    cases hmove
    exact ⟨hwide, upTo_null⟩

theorem pushLeftSubtree_upTo (ht : t.Reckoned P) (hn : 0 ≤ n) (hx : n ≠ 0 → P x)
    (hpush : t.pushLeftSubtree x n = some t') : UpTo P t' fun v => t.total v + share x n v := by
  induction t generalizing x n t' with
  | null => cases hpush
  | remote root ih =>
      obtain ⟨root', hroot, heq⟩ := Option.bind_eq_some_iff.mp hpush
      cases heq
      exact (ih ht hn hx hroot).remote
  | node l h y m r ihl ihr =>
      obtain ⟨hh, hm, hy, hl, hr⟩ := id ht
      rw [pushLeftSubtree] at hpush
      obtain ⟨held, -, hpush⟩ := Option.bind_eq_some_iff.mp hpush
      split at hpush
      · obtain ⟨l₁, hl₁, hpush⟩ := Option.bind_eq_some_iff.mp hpush
        obtain ⟨⟨l₂, r₁⟩, hmove, heq⟩ := Option.bind_eq_some_iff.mp hpush
        cases heq
        have hfilled := filled_upTo (t := l) (ihl hl hm fun hne => (hy hne).2) hl hm
          (fun hne => (hy hne).2) hl₁
        have hmoved := moved_upTo hfilled hr hmove fun v => by
          have := hl.total_nonneg v
          have := share_nonneg hm y v
          omega
        refine (upTo_node hmoved.1 hmoved.2 zero_le_one hn hx).mono fun v => ?_
        simp only [NodePtr.total]
        omega
      · exact setData_upTo ht hn hx hpush

theorem pushRightSubtree_upTo (ht : t.Reckoned P) (hn : 0 ≤ n) (hx : n ≠ 0 → P x)
    (hpush : t.pushRightSubtree x n = some t') : UpTo P t' fun v => t.total v + share x n v := by
  induction t generalizing x n t' with
  | null => cases hpush
  | remote root ih =>
      obtain ⟨root', hroot, heq⟩ := Option.bind_eq_some_iff.mp hpush
      cases heq
      exact (ih ht hn hx hroot).remote
  | node l h y m r ihl ihr =>
      obtain ⟨hh, hm, hy, hl, hr⟩ := id ht
      rw [pushRightSubtree] at hpush
      obtain ⟨held, -, hpush⟩ := Option.bind_eq_some_iff.mp hpush
      split at hpush
      · obtain ⟨r₁, hr₁, hpush⟩ := Option.bind_eq_some_iff.mp hpush
        obtain ⟨⟨r₂, l₁⟩, hmove, heq⟩ := Option.bind_eq_some_iff.mp hpush
        cases heq
        have hfilled := filled_upTo (t := r) (ihr hr hm fun hne => (hy hne).2) hr hm
          (fun hne => (hy hne).2) hr₁
        have hmoved := moved_upTo hfilled hl hmove fun v => by
          have := hr.total_nonneg v
          have := share_nonneg hm y v
          omega
        refine (upTo_node hmoved.2 hmoved.1 zero_le_one hn hx).mono fun v => ?_
        simp only [NodePtr.total]
        omega
      · exact setData_upTo ht hn hx hpush

theorem hungRight_node (hl : l.Reckoned P) (hr : r.Reckoned P) (htree : tree.Reckoned P)
    (hset : (if tree.present then (node l h x n r).setRightSubtree tree
      else some (node l h x n r)) = some t') :
    ∃ r' k, t' = node l k x n r' ∧ UpTo P r' fun v => r.total v + tree.total v := by
  split at hset
  · obtain ⟨r', k, heq, -, hr'⟩ := setRightSubtree_node hl hr htree hset
    exact ⟨r', k, heq, hr'⟩
  · cases hset
    refine ⟨r, h, rfl, hr.upTo.mono fun v => ?_⟩
    have := htree.total_nonneg v
    omega

theorem pulled_upTo {a b c d e : NodePtr} (ha : UpTo P a fun _ => 0) (hb : UpTo P b fun _ => 0)
    {left right : NodePtr} (hparts : Parts P t y m left right)
    (hright : (if right.present then (node a h x n b).setRightSubtree right
      else some (node a h x n b)) = some c)
    (hleft : (if left.present then c.setRightSubtree left else some c) = some d)
    (hdone : (do
      let this ← d.setData y m
      let (this, _) ← this.updateHeight
      return this) = some e) : UpTo P e t.total := by
  obtain ⟨b', k, rfl, hb'⟩ := hungRight_node ha.reckoned hb.reckoned hparts.right hright
  obtain ⟨b'', k', rfl, hb''⟩ := hungRight_node ha.reckoned hb'.reckoned hparts.left hleft
  obtain ⟨this, hset, hdone⟩ := Option.bind_eq_some_iff.mp hdone
  cases hset
  obtain ⟨⟨this, bal⟩, hup, heq⟩ := Option.bind_eq_some_iff.mp hdone
  cases heq
  obtain ⟨i, hi, rfl⟩ := updateHeight_node ha.reckoned hb''.reckoned hup
  refine (upTo_node ha hb'' hi hparts.counter hparts.word).mono fun v => ?_
  have := hb.total v
  have := hb'.total v
  have := hparts.total v
  omega

theorem pullLeftSubtree_node (hl : l.Reckoned P)
    (hpull : (node l h x n r).pullLeftSubtree = some t') : UpTo P t' l.total := by
  rw [pullLeftSubtree] at hpull
  obtain ⟨r₁, hr₁, hpull⟩ := Option.bind_eq_some_iff.mp hpull
  split at hpull
  · obtain ⟨y, hy, hpull⟩ := Option.bind_eq_some_iff.mp hpull
    obtain ⟨m, hm, hpull⟩ := Option.bind_eq_some_iff.mp hpull
    obtain ⟨right, hright, hpull⟩ := Option.bind_eq_some_iff.mp hpull
    obtain ⟨left, hleft, hpull⟩ := Option.bind_eq_some_iff.mp hpull
    obtain ⟨l₁, hl₁, hpull⟩ := Option.bind_eq_some_iff.mp hpull
    obtain ⟨c, hc, hpull⟩ := Option.bind_eq_some_iff.mp hpull
    obtain ⟨d, hd, hpull⟩ := Option.bind_eq_some_iff.mp hpull
    exact pulled_upTo (clear_upTo hl₁) (clearChild_upTo hr₁) (hl.taken hy hm hleft hright) hc hd
      hpull
  · exact (clearData_upTo hpull).mono hl.total_nonneg

theorem pullRightSubtree_node (hr : r.Reckoned P)
    (hpull : (node l h x n r).pullRightSubtree = some t') : UpTo P t' r.total := by
  rw [pullRightSubtree] at hpull
  obtain ⟨l₁, hl₁, hpull⟩ := Option.bind_eq_some_iff.mp hpull
  split at hpull
  · obtain ⟨y, hy, hpull⟩ := Option.bind_eq_some_iff.mp hpull
    obtain ⟨m, hm, hpull⟩ := Option.bind_eq_some_iff.mp hpull
    obtain ⟨right, hright, hpull⟩ := Option.bind_eq_some_iff.mp hpull
    obtain ⟨left, hleft, hpull⟩ := Option.bind_eq_some_iff.mp hpull
    obtain ⟨r₁, hr₁, hpull⟩ := Option.bind_eq_some_iff.mp hpull
    obtain ⟨c, hc, hpull⟩ := Option.bind_eq_some_iff.mp hpull
    obtain ⟨d, hd, hpull⟩ := Option.bind_eq_some_iff.mp hpull
    exact pulled_upTo (clearChild_upTo hl₁) (clear_upTo hr₁) (hr.taken hy hm hleft hright) hc hd
      hpull
  · exact (clearData_upTo hpull).mono hr.total_nonneg

end NodePtr

end DistributedAvl
