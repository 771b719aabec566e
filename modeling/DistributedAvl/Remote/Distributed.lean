import DistributedAvl.Removal.Absent
import DistributedAvl.Remote.Totals

namespace DistributedAvl

namespace NodePtr

variable {P : Word → Prop} {l r t t' : NodePtr} {h : Int} {x y w v : Word} {n m b : Int}

theorem leftOver_upTo {a c left : NodePtr} (hl : l.Reckoned P) (hx : l.getWord = some y)
    (ha : l.getLeft = some a) (hc : l.getRight = some c)
    (hover : (if !a.present && !c.present then l.clear else l.pullLeftSubtree) = some left) :
    UpTo P left a.total := by
  cases l with
  | null => cases hx
  | remote root =>
      cases ha
      cases hc
      exact clear_upTo (t := remote root) hover
  | node _ k z q _ =>
      cases ha
      cases hc
      split at hover
      · exact (clear_upTo hover).mono hl.2.2.2.1.total_nonneg
      · exact pullLeftSubtree_node hl.2.2.2.1 hover

theorem rightOver_upTo {a c right : NodePtr} (hr : r.Reckoned P) (hx : r.getWord = some y)
    (ha : r.getLeft = some a) (hc : r.getRight = some c)
    (hover : (if !a.present && !c.present then r.clear else r.pullRightSubtree) = some right) :
    UpTo P right c.total := by
  cases r with
  | null => cases hx
  | remote root =>
      cases ha
      cases hc
      exact clear_upTo (t := remote root) hover
  | node _ k z q _ =>
      cases ha
      cases hc
      split at hover
      · exact (clear_upTo hover).mono hr.2.2.2.2.total_nonneg
      · exact pullRightSubtree_node hr.2.2.2.2 hover

theorem rotated_parts {a c inner rest : NodePtr} (ht : t.Reckoned P) (hy : t.getWord = some y)
    (hm : t.getCounter = some m) (ha : t.getLeft = some a) (hc : t.getRight = some c)
    (hinner : t.getRightSubtree = some inner)
    (hrest : (if !a.present && !c.present then t.clear else t.pullLeftSubtree) = some rest) :
    Parts P t y m rest inner := by
  have hover := leftOver_upTo ht hy ha hc hrest
  cases t with
  | null => cases hy
  | node l h x n r =>
      have hparts := ht.parts (t := node l h x n r) hy hm rfl rfl
      have hsub := childSubtree_upTo hparts.right hinner
      cases ha
      refine ⟨hparts.counter, hparts.word, hover.reckoned, hsub.reckoned, fun v => ?_⟩
      have := hparts.total v
      have := hsub.total v
      have := hover.total v
      omega
  | remote root =>
      cases ha
      obtain ⟨s, hs, hinner⟩ := Option.bind_eq_some_iff.mp hinner
      obtain ⟨q, hq⟩ : ∃ q, root.getLeft = some q := by
        cases root with
        | null => cases hy
        | _ => exact ⟨_, rfl⟩
      have hparts := Reckoned.parts (t := root) ht hy hm hq hs
      have hsub := carried_upTo hparts.right hinner
      refine ⟨hparts.counter, hparts.word, hover.reckoned, hsub.reckoned, fun v => ?_⟩
      have := hparts.total v
      have := hparts.left.total_nonneg v
      have := hsub.total v
      have hzero := hover.total v
      simp only [NodePtr.total] at hzero ⊢
      omega

theorem rotated_parts_left {a c inner rest : NodePtr} (ht : t.Reckoned P)
    (hy : t.getWord = some y) (hm : t.getCounter = some m) (ha : t.getLeft = some a)
    (hc : t.getRight = some c) (hinner : t.getLeftSubtree = some inner)
    (hrest : (if !a.present && !c.present then t.clear else t.pullRightSubtree) = some rest) :
    Parts P t y m inner rest := by
  have hover := rightOver_upTo ht hy ha hc hrest
  cases t with
  | null => cases hy
  | node l h x n r =>
      have hparts := ht.parts (t := node l h x n r) hy hm rfl rfl
      have hsub := childSubtree_upTo hparts.left hinner
      cases hc
      refine ⟨hparts.counter, hparts.word, hsub.reckoned, hover.reckoned, fun v => ?_⟩
      have := hparts.total v
      have := hsub.total v
      have := hover.total v
      omega
  | remote root =>
      cases hc
      obtain ⟨s, hs, hinner⟩ := Option.bind_eq_some_iff.mp hinner
      obtain ⟨q, hq⟩ : ∃ q, root.getRight = some q := by
        cases root with
        | null => cases hy
        | _ => exact ⟨_, rfl⟩
      have hparts := Reckoned.parts (t := root) ht hy hm hs hq
      have hsub := carried_upTo hparts.left hinner
      refine ⟨hparts.counter, hparts.word, hsub.reckoned, hover.reckoned, fun v => ?_⟩
      have := hparts.total v
      have := hparts.right.total_nonneg v
      have := hsub.total v
      have hzero := hover.total v
      simp only [NodePtr.total] at hzero ⊢
      omega

theorem pushedOver_upTo {pushed : Option NodePtr} {tree a c : NodePtr} (ht : t.Reckoned P)
    (hn : 0 ≤ n) (hx : n ≠ 0 → P x)
    (hpush : (if t.present then pushed else fresh.setData x n) = some a)
    (hside : pushed = some a → UpTo P a fun v => t.total v + share x n v)
    (htree : tree.Reckoned P) {hang : NodePtr → NodePtr → Option NodePtr}
    (hhang : ∀ {c}, a.Reckoned P → hang a tree = some c → UpTo P c fun v => a.total v + tree.total v)
    (hc : (if tree.present then hang a tree else some a) = some c) :
    UpTo P c fun v => t.total v + share x n v + tree.total v := by
  have ha := filled_upTo hside ht hn hx hpush
  split at hc
  · refine (hhang ha.reckoned hc).mono fun v => ?_
    have := ha.total v
    omega
  · cases hc
    refine ha.mono fun v => ?_
    have := htree.total_nonneg v
    omega

theorem leveled_upTo {f g : Word → Int} (hl : UpTo P l f) (hr : UpTo P r g) (hm : 0 ≤ m)
    (hy : m ≠ 0 → P y) (hdone : (do
      let this ← (node l h x n r).setData y m
      let (this, _) ← this.updateHeight
      return this) = some t') : UpTo P t' fun v => f v + share y m v + g v := by
  obtain ⟨this, hset, hdone⟩ := Option.bind_eq_some_iff.mp hdone
  cases hset
  obtain ⟨⟨this, bal⟩, hup, heq⟩ := Option.bind_eq_some_iff.mp hdone
  cases heq
  obtain ⟨k, hk, rfl⟩ := updateHeight_node hl.reckoned hr.reckoned hup
  exact upTo_node hl hr hk hm hy

theorem rotateRight_upTo (ht : t.Reckoned P) (hrot : t.rotateRight = some t') :
    UpTo P t' t.total := by
  induction t generalizing t' with
  | null => cases hrot
  | remote root ih =>
      obtain ⟨root', hroot, heq⟩ := Option.bind_eq_some_iff.mp hrot
      cases heq
      exact (ih ht hroot).remote
  | node l h x n r =>
      obtain ⟨-, hn, hx, hl, hr⟩ := ht
      obtain ⟨y, hy, hrot⟩ := Option.bind_eq_some_iff.mp hrot
      obtain ⟨m, hm, hrot⟩ := Option.bind_eq_some_iff.mp hrot
      obtain ⟨r₁, hr₁, hrot⟩ := Option.bind_eq_some_iff.mp hrot
      obtain ⟨inner, hinner, hrot⟩ := Option.bind_eq_some_iff.mp hrot
      obtain ⟨r₂, hr₂, hrot⟩ := Option.bind_eq_some_iff.mp hrot
      obtain ⟨a, ha, hrot⟩ := Option.bind_eq_some_iff.mp hrot
      obtain ⟨c, hc, hrot⟩ := Option.bind_eq_some_iff.mp hrot
      obtain ⟨l₁, hl₁, hrot⟩ := Option.bind_eq_some_iff.mp hrot
      have hparts := rotated_parts hl hy hm ha hc hinner hl₁
      have hright := pushedOver_upTo hr hn (fun hne => (hx hne).2) hr₁
        (pushRightSubtree_upTo hr hn fun hne => (hx hne).2) hparts.right
        (fun ha hset => setLeftSubtree_upTo ha hparts.right hset) hr₂
      refine (leveled_upTo hparts.left.upTo hright hparts.counter hparts.word hrot).mono
        fun v => ?_
      have := hparts.total v
      simp only [NodePtr.total]
      omega

theorem rotateLeft_upTo (ht : t.Reckoned P) (hrot : t.rotateLeft = some t') :
    UpTo P t' t.total := by
  induction t generalizing t' with
  | null => cases hrot
  | remote root ih =>
      obtain ⟨root', hroot, heq⟩ := Option.bind_eq_some_iff.mp hrot
      cases heq
      exact (ih ht hroot).remote
  | node l h x n r =>
      obtain ⟨-, hn, hx, hl, hr⟩ := ht
      obtain ⟨y, hy, hrot⟩ := Option.bind_eq_some_iff.mp hrot
      obtain ⟨m, hm, hrot⟩ := Option.bind_eq_some_iff.mp hrot
      obtain ⟨l₁, hl₁, hrot⟩ := Option.bind_eq_some_iff.mp hrot
      obtain ⟨inner, hinner, hrot⟩ := Option.bind_eq_some_iff.mp hrot
      obtain ⟨l₂, hl₂, hrot⟩ := Option.bind_eq_some_iff.mp hrot
      obtain ⟨a, ha, hrot⟩ := Option.bind_eq_some_iff.mp hrot
      obtain ⟨c, hc, hrot⟩ := Option.bind_eq_some_iff.mp hrot
      obtain ⟨r₁, hr₁, hrot⟩ := Option.bind_eq_some_iff.mp hrot
      have hparts := rotated_parts_left hr hy hm ha hc hinner hr₁
      have hleft := pushedOver_upTo hl hn (fun hne => (hx hne).2) hl₁
        (pushLeftSubtree_upTo hl hn fun hne => (hx hne).2) hparts.left
        (fun ha hset => setRightSubtree_upTo ha hparts.left hset) hl₂
      refine (leveled_upTo hleft hparts.right.upTo hparts.counter hparts.word hrot).mono
        fun v => ?_
      have := hparts.total v
      simp only [NodePtr.total]
      omega

theorem balance_upTo (ht : t.Reckoned P) (hbal : t.balance b w = some t') :
    UpTo P t' t.total := by
  cases t with
  | null => cases hbal
  | remote root =>
      cases hbal
      exact ht.upTo
  | node l h x n r =>
      obtain ⟨hh, hn, hx, hl, hr⟩ := id ht
      obtain rfl | ⟨r₁, hr₁, hrot⟩ | ⟨l₁, hl₁, hrot⟩ := balance_cases hbal
      · exact ht.upTo
      · have hr₁ : UpTo P r₁ r.total := by
          rcases hr₁ with rfl | hside
          · exact hr.upTo
          · exact rotateRight_upTo hr hside
        have hnode : (node l h x n r₁).Reckoned P := ⟨hh, hn, hx, hl, hr₁.reckoned⟩
        refine (rotateLeft_upTo hnode hrot).mono fun v => ?_
        have := hr₁.total v
        simp only [NodePtr.total]
        omega
      · have hl₁ : UpTo P l₁ l.total := by
          rcases hl₁ with rfl | hside
          · exact hl.upTo
          · exact rotateLeft_upTo hl hside
        have hnode : (node l₁ h x n r).Reckoned P := ⟨hh, hn, hx, hl₁.reckoned, hr⟩
        refine (rotateRight_upTo hnode hrot).mono fun v => ?_
        have := hl₁.total v
        simp only [NodePtr.total]
        omega

-- A word takes over what blank tokens have counted at its node, so the two are counted together.
structure Booked (P : Word → Prop) (t : NodePtr) (f : Word → Int) : Prop where
  reckoned : t.Reckoned P
  total : ∀ v, t.total v + t.total [] ≤ f v + f []

theorem UpTo.booked {f : Word → Int} (ht : UpTo P t f) : Booked P t f where
  reckoned := ht.reckoned
  total v := by
    have := ht.total v
    have := ht.total []
    omega

theorem Booked.trans {f g : Word → Int} (ht : Booked P t f)
    (hfg : ∀ v, f v + f [] ≤ g v + g []) : Booked P t g :=
  ⟨ht.reckoned, fun v => (ht.total v).trans (hfg v)⟩

theorem Booked.remote {f : Word → Int} (ht : Booked P t f) : Booked P (remote t) f :=
  ⟨ht.reckoned, ht.total⟩

theorem unheld_word (ht : (node l h x n r).Reckoned P) (hh : (node l h x n r).holds ≠ true)
    (hn : n ≠ 0) : x = [] := by
  by_contra hx
  have := ht.2.1
  exact hh (holds_node (ht.2.2.1 hn).1 (by omega) hx)

-- setWord counts on from what is there, under the new word.
theorem setWord_booked (hw : P w) (ht : (node l h x n r).Reckoned P)
    (hh : (node l h x n r).holds ≠ true) :
    Booked P (node l 0 w (n + 1) r) fun v => (node l h x n r).total v + share w 1 v := by
  obtain ⟨-, hn, -, hl, hr⟩ := id ht
  have hnode := upTo_node hl.upTo hr.upTo (le_refl 0) (by omega : 0 ≤ n + 1) fun _ => hw
  refine hnode.booked.trans fun v => ?_
  have hmoved : share w n v + share w n [] ≤ share x n v + share x n [] := by
    by_cases hzero : n = 0
    · simp [hzero, share]
    · obtain rfl := unheld_word ht hh hzero
      simp only [share, if_true]
      by_cases hv : w = v
      · subst hv
        simp only [if_true, eq_comm (a := w)]
        split <;> omega
      · rw [if_neg hv]
        split <;> split <;> omega
  simp only [NodePtr.total, share_add]
  omega

theorem rebalanced_upTo (hl : l.Reckoned P) (hr : r.Reckoned P) (hn : 0 ≤ n) (hx : n ≠ 0 → P x)
    (hbal : ((node l h x n r).updateHeight.bind fun p => p.1.balance p.2 w) = some t') :
    UpTo P t' (node l h x n r).total := by
  obtain ⟨⟨this, b⟩, hup, hbal⟩ := Option.bind_eq_some_iff.mp hbal
  obtain ⟨k, hk, rfl⟩ := updateHeight_node hl hr hup
  replace hbal : (node l k x n r).balance b w = some t' := hbal
  have hnode : (node l k x n r).Reckoned P :=
    ⟨by omega, hn, fun hne => ⟨by omega, hx hne⟩, hl, hr⟩
  have hbalanced := balance_upTo hnode hbal
  exact ⟨hbalanced.reckoned, hbalanced.total⟩

theorem insertInto_booked (hw : P w) (ht : t.Reckoned P) (hins : t.insertInto w = some t') :
    Booked P t' fun v => t.total v + share w 1 v := by
  induction t generalizing t' with
  | null =>
      cases hins
      have hleaf := upTo_node (upTo_null (P := P)) upTo_null (le_refl 0) zero_le_one fun _ => hw
      exact hleaf.booked.trans fun v => by simp [NodePtr.total]
  | remote root ih =>
      obtain ⟨root', hroot, heq⟩ := Option.bind_eq_some_iff.mp hins
      cases heq
      refine (ih ht ?_).remote
      cases root with
      | null => cases hroot
      | _ => exact hroot
  | node l h x n r ihl ihr =>
      rw [insertInto_node] at hins
      obtain ⟨hge, hn, hx, hl, hr⟩ := id ht
      by_cases hh : (node l h x n r).holds = true
      · rcases lt_trichotomy w x with hlt | rfl | hlt
        · rw [insert_left_eq hh hlt] at hins
          obtain ⟨l', hl', hbal⟩ := Option.bind_eq_some_iff.mp hins
          have hside := ihl hl hl'
          refine (rebalanced_upTo hside.reckoned hr hn (fun hne => (hx hne).2) hbal).booked.trans
            fun v => ?_
          have := hside.total v
          simp only [NodePtr.total]
          omega
        · rw [insert_here hh] at hins
          cases hins
          obtain ⟨⟨hpos, -⟩, -⟩ : (-1 < h ∧ n ≠ 0) ∧ w ≠ [] := by simpa [holds] using hh
          have hnode := upTo_node hl.upTo hr.upTo (by omega : 0 ≤ h) (by omega : 0 ≤ n + 1)
            fun _ => hw
          refine (hnode.mono fun v => ?_).booked
          simp only [NodePtr.total, share_add]
          omega
        · rw [insert_right_eq hh hlt] at hins
          obtain ⟨r', hr', hbal⟩ := Option.bind_eq_some_iff.mp hins
          have hside := ihr hr hr'
          refine (rebalanced_upTo hl hside.reckoned hn (fun hne => (hx hne).2) hbal).booked.trans
            fun v => ?_
          have := hside.total v
          simp only [NodePtr.total]
          omega
      · rw [insert_blank hh] at hins
        cases hins
        exact setWord_booked hw ht hh

theorem insert_booked (hw : P w) (ht : t.Reckoned P) (hins : t.insert w = some t') :
    Booked P t' fun v => t.total v + share w 1 v := by
  cases t with
  | null => cases hins
  | _ => exact insertInto_booked hw ht hins

theorem findSuccessor_never (t : NodePtr) : t.findSuccessor = none := by
  induction t with
  | null => rfl
  | remote root ih => rw [findSuccessor, ih]; rfl
  | node l h x n r ihl _ =>
      cases l with
      | null => rfl
      | _ => rw [findSuccessor, ihl]; rfl

theorem removeLocalWord_upTo (hl : l.Reckoned P) (hr : r.Reckoned P)
    (hrem : (node l h x n r).removeLocalWord = some t') :
    UpTo P t' fun v => l.total v + r.total v := by
  have hnonneg : ∀ v, 0 ≤ l.total v ∧ 0 ≤ r.total v :=
    fun v => ⟨hl.total_nonneg v, hr.total_nonneg v⟩
  rw [removeLocalWord] at hrem
  obtain ⟨leftWord, -, hrem⟩ := Option.bind_eq_some_iff.mp hrem
  obtain ⟨rightWord, -, hrem⟩ := Option.bind_eq_some_iff.mp hrem
  split at hrem
  · rw [findSuccessor_never r] at hrem
    cases hrem
  · split at hrem
    · refine (pullLeftSubtree_node hl hrem).mono fun v => ?_
      have := hnonneg v
      omega
    · split at hrem
      · refine (pullRightSubtree_node hr hrem).mono fun v => ?_
        have := hnonneg v
        omega
      · refine (clearData_upTo hrem).mono fun v => ?_
        have := hnonneg v
        omega

theorem dropVisited_upTo (hdrop : t.dropVisited = some t') : UpTo P t' fun _ => 0 := by
  cases t with
  | null => cases hdrop
  | node l h x n r => exact clear_upTo (t := node l h x n r) hdrop
  | remote root => exact clear_upTo (t := remote root) hdrop

theorem removeHere_upTo (ht : (node l h x n r).Reckoned P)
    (hrem : (node l h x n r).remove x = some t') : UpTo P t' (node l h x n r).total := by
  obtain ⟨hh, hn, hx, hl, hr⟩ := id ht
  have hkept : ∀ v, l.total v + r.total v ≤ (node l h x n r).total v := fun v => by
    have := share_nonneg hn x v
    simp only [NodePtr.total]
    omega
  simp only [remove, equalWord_node, decreaseCounter, getCounter, Option.bind_eq_bind,
    Option.bind_some, decide_true, if_true] at hrem
  split at hrem
  · obtain ⟨childless, -, hrem⟩ := Option.bind_eq_some_iff.mp hrem
    cases childless with
    | true =>
        rw [if_pos rfl] at hrem
        exact (clearData_upTo hrem).mono ht.total_nonneg
    | false =>
        rw [if_neg (by decide)] at hrem
        exact (removeLocalWord_upTo hl hr hrem).mono hkept
  · cases hrem
    have hne : n ≠ 0 := by omega
    have := (hx hne).1
    have hnode := upTo_node hl.upTo hr.upTo (by omega : 0 ≤ h) (by omega : 0 ≤ n - 1)
      fun _ => (hx hne).2
    refine hnode.mono fun v => ?_
    simp only [NodePtr.total, share]
    split <;> omega

theorem remove_upTo (ht : t.Reckoned P) (hrem : t.remove w = some t') : UpTo P t' t.total := by
  induction t generalizing t' with
  | null => cases hrem
  | remote root ih =>
      obtain ⟨root', hroot, heq⟩ := Option.bind_eq_some_iff.mp hrem
      cases heq
      exact (ih ht hroot).remote
  | node l h x n r ihl ihr =>
      obtain ⟨hh, hn, hx, hl, hr⟩ := id ht
      rcases lt_trichotomy w x with hlt | rfl | hlt
      · cases hp : l.present with
        | false =>
            obtain rfl := present_eq_false.mp hp
            rw [remove_left_missing hlt] at hrem
            cases hrem
            exact ht.upTo
        | true =>
            rw [remove_left hlt hp] at hrem
            obtain ⟨l₁, -, hrem⟩ := Option.bind_eq_some_iff.mp hrem
            obtain ⟨l₂, hdrop, heq⟩ := Option.bind_eq_some_iff.mp hrem
            cases heq
            have hempty : UpTo P l₂ fun _ => 0 := dropVisited_upTo hdrop
            refine ⟨⟨hh, hn, hx, hempty.reckoned, hr⟩, fun v => ?_⟩
            have := hempty.total v
            have := hl.total_nonneg v
            simp only [NodePtr.total]
            omega
      · exact removeHere_upTo ht hrem
      · cases hp : r.present with
        | false =>
            obtain rfl := present_eq_false.mp hp
            rw [remove_right_missing hlt] at hrem
            cases hrem
            exact ht.upTo
        | true =>
            rw [remove_right hlt hp] at hrem
            obtain ⟨r₁, -, hrem⟩ := Option.bind_eq_some_iff.mp hrem
            obtain ⟨r₂, hdrop, heq⟩ := Option.bind_eq_some_iff.mp hrem
            cases heq
            have hempty : UpTo P r₂ fun _ => 0 := dropVisited_upTo hdrop
            refine ⟨⟨hh, hn, hx, hl, hempty.reckoned⟩, fun v => ?_⟩
            have := hempty.total v
            have := hr.total_nonneg v
            simp only [NodePtr.total]
            omega

-- Nothing is counted any more, on this machine or on those below it.
structure Wiped (t : NodePtr) : Prop where
  entries : t.entries = []
  total : ∀ v, t.total v = 0

theorem Reckoned.wiped {t : NodePtr} (ht : t.Reckoned fun _ => False) : t.Wiped := by
  induction t with
  | null => exact ⟨rfl, fun _ => rfl⟩
  | remote root ih => exact ⟨(ih ht).entries, (ih ht).total⟩
  | node l h x n r ihl ihr =>
      obtain ⟨-, -, hx, hl, hr⟩ := ht
      obtain rfl : n = 0 := by
        by_contra hn
        exact (hx hn).2
      refine ⟨?_, fun v => ?_⟩
      · simp [NodePtr.entries, (ihl hl).entries, (ihr hr).entries, holds]
      · simp [NodePtr.total, (ihl hl).total, (ihr hr).total, share]

theorem dropVisited_wiped {t t' : NodePtr} (hdrop : t.dropVisited = some t') : t'.Wiped :=
  (dropVisited_upTo hdrop).reckoned.wiped

theorem remove_wipes (hne : w ≠ x) (hrem : (node l h x n r).remove w = some t') :
    if x < w then ∃ r', t' = node l h x n r' ∧ r'.Wiped
    else ∃ l', t' = node l' h x n r ∧ l'.Wiped := by
  have hnone : Wiped null := ⟨rfl, fun _ => rfl⟩
  rcases lt_or_gt_of_ne hne with hlt | hlt
  · rw [if_neg hlt.not_gt]
    cases hp : l.present with
    | false =>
        obtain rfl := present_eq_false.mp hp
        rw [remove_left_missing hlt] at hrem
        cases hrem
        exact ⟨null, rfl, hnone⟩
    | true =>
        rw [remove_left hlt hp] at hrem
        obtain ⟨l₁, -, hrem⟩ := Option.bind_eq_some_iff.mp hrem
        obtain ⟨l₂, hdrop, heq⟩ := Option.bind_eq_some_iff.mp hrem
        cases heq
        exact ⟨l₂, rfl, dropVisited_wiped hdrop⟩
  · rw [if_pos hlt]
    cases hp : r.present with
    | false =>
        obtain rfl := present_eq_false.mp hp
        rw [remove_right_missing hlt] at hrem
        cases hrem
        exact ⟨null, rfl, hnone⟩
    | true =>
        rw [remove_right hlt hp] at hrem
        obtain ⟨r₁, -, hrem⟩ := Option.bind_eq_some_iff.mp hrem
        obtain ⟨r₂, hdrop, heq⟩ := Option.bind_eq_some_iff.mp hrem
        cases heq
        exact ⟨r₂, rfl, dropVisited_wiped hdrop⟩

-- b here and twice d on the machine to the right: one d is to go.
theorem remove_wipes_far : ∃ t',
    (node null 1 [98] 1 (remote (node null 0 [100] 2 null))).remove [100] = some t' ∧
    if ([98] : Word) < [100] then ∃ r', t' = node null 1 [98] 1 r' ∧ r'.Wiped
    else ∃ l', t' = node l' 1 [98] 1 (remote (node null 0 [100] 2 null)) ∧ l'.Wiped :=
  ⟨_, rfl, remove_wipes (by decide) rfl⟩

end NodePtr

end DistributedAvl
