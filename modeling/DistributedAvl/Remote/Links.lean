import DistributedAvl.Remote.Sides

namespace DistributedAvl

namespace NodePtr

variable {a b l r s s' t t' tree : NodePtr} {h : Int} {x w : Word} {n : Int}
  {calls : List Operation} {op : Operation}

theorem filled_side {pushed : Option NodePtr} (hs : Joined s)
    (hpush : ∀ s', pushed = some s' → Link calls s s')
    (hfill : (if s.present then pushed else fresh.setData x n) = some a) : Link calls s a := by
  split at hfill
  · exact hpush a hfill
  · rename_i hp
    cases hfill
    exact hs.side.filled hp ⟨trivial, trivial⟩

theorem moved_sides {c d e : NodePtr} {pushed : Option NodePtr} {push : Operation} (hs : Joined s)
    (he : Joined e) (hpush : ∀ s', pushed = some s' → Link [push] s s')
    (hfill : (if s.present then pushed else fresh.setData x n) = some a)
    (hmove : (if e.present then do
        let tree ← e.getSubtree
        let e₁ ← e.clear
        let a₁ ← (if tree.present then a.setSubtree tree else some a)
        pure (a₁, e₁)
      else some (a, e)) = some (c, d)) :
    ∃ calls more, moveSent e push = some (calls, more) ∧ Link calls s c ∧ Link more e d := by
  have ha : Link [push] s a := filled_side hs hpush hfill
  rw [moveSent]
  split at hmove
  · rename_i hp
    obtain ⟨tree, hget, hmove⟩ := Option.bind_eq_some_iff.mp hmove
    obtain ⟨e₁, hclear, hmove⟩ := Option.bind_eq_some_iff.mp hmove
    obtain ⟨a₁, hset, heq⟩ := Option.bind_eq_some_iff.mp hmove
    cases heq
    refine ⟨_, _, by rw [if_pos hp, hget]; rfl, ?_, clear_side he hclear⟩
    split at hset
    · rename_i hpt
      rw [if_pos hpt]
      exact ha.trans (setSubtree_side ha.joined (getSubtree_plain he hget) hset)
    · rename_i hpt
      cases hset
      rw [if_neg hpt]
      exact ha
  · rename_i hp
    cases hmove
    exact ⟨_, _, if_neg hp, ha, he.side⟩

theorem pushLeftSubtree_node (hl : Joined l) (hr : Joined r)
    (hpushed : ∀ l', l.pushLeftSubtree x n = some l' → Link [.pushLeftSubtree x n] l l') {y : Word}
    {m : Int} (hpush : (node l h x n r).pushLeftSubtree y m = some t') :
    ∃ sent, (node l h x n r).pushLeftSent = some sent ∧ Linked sent l r t' := by
  rw [pushLeftSubtree] at hpush
  obtain ⟨held, hheld, hpush⟩ := Option.bind_eq_some_iff.mp hpush
  simp only [pushLeftSent, hheld, Option.bind_eq_bind, Option.bind_some]
  split at hpush
  · rename_i hyes
    obtain ⟨l₁, hfill, hpush⟩ := Option.bind_eq_some_iff.mp hpush
    obtain ⟨⟨l₂, r₁⟩, hmove, heq⟩ := Option.bind_eq_some_iff.mp hpush
    cases heq
    obtain ⟨calls, more, hsent, hsl, hsr⟩ := moved_sides hl hr hpushed hfill hmove
    exact ⟨⟨calls, more⟩, by simp [hyes, hsent], .mk hsl hsr⟩
  · rename_i hno
    cases hpush
    exact ⟨.silent, by simp [hno], same_linked hl hr⟩

theorem pushRightSubtree_node (hl : Joined l) (hr : Joined r)
    (hpushed : ∀ r', r.pushRightSubtree x n = some r' → Link [.pushRightSubtree x n] r r')
    {y : Word} {m : Int} (hpush : (node l h x n r).pushRightSubtree y m = some t') :
    ∃ sent, (node l h x n r).pushRightSent = some sent ∧ Linked sent l r t' := by
  rw [pushRightSubtree] at hpush
  obtain ⟨held, hheld, hpush⟩ := Option.bind_eq_some_iff.mp hpush
  simp only [pushRightSent, hheld, Option.bind_eq_bind, Option.bind_some]
  split at hpush
  · rename_i hyes
    obtain ⟨r₁, hfill, hpush⟩ := Option.bind_eq_some_iff.mp hpush
    obtain ⟨⟨r₂, l₁⟩, hmove, heq⟩ := Option.bind_eq_some_iff.mp hpush
    cases heq
    obtain ⟨calls, more, hsent, hsr, hsl⟩ := moved_sides hr hl hpushed hfill hmove
    exact ⟨⟨more, calls⟩, by simp [hyes, hsent], .mk hsl hsr⟩
  · rename_i hno
    cases hpush
    exact ⟨.silent, by simp [hno], same_linked hl hr⟩

theorem pushLeftSubtree_side (hs : Joined s) (hpush : s.pushLeftSubtree w n = some s') :
    Link [.pushLeftSubtree w n] s s' := by
  refine kept (f := fun s (data : Word × Int) => s.pushLeftSubtree data.1 data.2)
    (fun data => .pushLeftSubtree data.1 data.2) (fun s data => told _) (fun _ => rfl)
    (fun root data s' => far_of (root.pushLeftSubtree data.1 data.2))
    (fun l h x n r data t' hl hr ihl _ hpush => ?_) s (w, n) s' hs hpush
  obtain ⟨sent, -, hlinked⟩ := pushLeftSubtree_node hl hr (ihl (x, n)) hpush
  exact ⟨sent, hlinked⟩

theorem pushRightSubtree_side (hs : Joined s) (hpush : s.pushRightSubtree w n = some s') :
    Link [.pushRightSubtree w n] s s' := by
  refine kept (f := fun s (data : Word × Int) => s.pushRightSubtree data.1 data.2)
    (fun data => .pushRightSubtree data.1 data.2) (fun s data => told _) (fun _ => rfl)
    (fun root data s' => far_of (root.pushRightSubtree data.1 data.2))
    (fun l h x n r data t' hl hr _ ihr hpush => ?_) s (w, n) s' hs hpush
  obtain ⟨sent, -, hlinked⟩ := pushRightSubtree_node hl hr (ihr (x, n)) hpush
  exact ⟨sent, hlinked⟩

theorem pushLeftSubtree_linked {y : Word} {m : Int} (hl : Joined l) (hr : Joined r)
    (hpush : (node l h x n r).pushLeftSubtree y m = some t') :
    ∃ sent, (node l h x n r).pushLeftSent = some sent ∧ Linked sent l r t' :=
  pushLeftSubtree_node hl hr (fun _ => pushLeftSubtree_side hl) hpush

theorem pushRightSubtree_linked {y : Word} {m : Int} (hl : Joined l) (hr : Joined r)
    (hpush : (node l h x n r).pushRightSubtree y m = some t') :
    ∃ sent, (node l h x n r).pushRightSent = some sent ∧ Linked sent l r t' :=
  pushRightSubtree_node hl hr (fun _ => pushRightSubtree_side hr) hpush

theorem hangRight_linked (hl : Joined l) (hr : Joined r) (htree : tree.AllLocal)
    (hset : (if tree.present then (node l h x n r).setRightSubtree tree
      else some (node l h x n r)) = some t') :
    ∃ calls, hangSent tree = some calls ∧ Linked ⟨[], calls⟩ l r t' := by
  split at hset
  · exact setRightSubtree_linked hl hr htree hset
  · rename_i hp
    cases hset
    exact ⟨[], if_neg hp, same_linked hl hr⟩

theorem pulled_linked {t₁ t₂ t₃ : NodePtr} {m i : Int} (hl : Joined l) (hr : Joined r)
    (ha : a.AllLocal) (hb : b.AllLocal)
    (h₁ : (if a.present then (node l h x n r).setRightSubtree a
      else some (node l h x n r)) = some t₁)
    (h₂ : (if b.present then t₁.setRightSubtree b else some t₁) = some t₂)
    (h₃ : t₂.setData w m = some t₃) (hup : t₃.updateHeight = some (t', i)) :
    ∃ first second, hangSent a = some first ∧ hangSent b = some second ∧
      Linked ⟨[], first ++ second⟩ l r t' := by
  obtain ⟨first, hfirst, hlinked⟩ := hangRight_linked hl hr ha h₁
  obtain ⟨l₁, k₁, x₁, n₁, r₁, rfl, hl₁, hr₁⟩ := hlinked.node
  obtain ⟨second, hsecond, hlinked'⟩ := hangRight_linked hl₁.joined hr₁.joined hb h₂
  obtain ⟨l₂, k₂, x₂, n₂, r₂, rfl, hl₂, hr₂⟩ := hlinked'.node
  cases h₃
  obtain ⟨k, rfl⟩ := updateHeight_same hup
  exact ⟨first, second, hfirst, hsecond, .mk (hl₁.trans hl₂) (hr₁.trans hr₂)⟩

theorem pullLeftSubtree_linked (hl : Joined l) (hr : Joined r)
    (hpull : (node l h x n r).pullLeftSubtree = some t') :
    ∃ sent, (node l h x n r).pullLeftSent = some sent ∧ Linked sent l r t' := by
  rw [pullLeftSubtree] at hpull
  obtain ⟨r₁, hclear, hpull⟩ := Option.bind_eq_some_iff.mp hpull
  have hr₁ : Link [.clear] r r₁ := clearChild_side hr hclear
  rw [pullLeftSent]
  split at hpull
  · rename_i hp
    obtain ⟨word, -, hpull⟩ := Option.bind_eq_some_iff.mp hpull
    obtain ⟨counter, -, hpull⟩ := Option.bind_eq_some_iff.mp hpull
    obtain ⟨rightTree, hright, hpull⟩ := Option.bind_eq_some_iff.mp hpull
    obtain ⟨leftTree, hleft, hpull⟩ := Option.bind_eq_some_iff.mp hpull
    obtain ⟨l₁, hclear, hpull⟩ := Option.bind_eq_some_iff.mp hpull
    obtain ⟨t₁, h₁, hpull⟩ := Option.bind_eq_some_iff.mp hpull
    obtain ⟨t₂, h₂, hpull⟩ := Option.bind_eq_some_iff.mp hpull
    obtain ⟨t₃, h₃, hpull⟩ := Option.bind_eq_some_iff.mp hpull
    obtain ⟨⟨t₄, i⟩, hup, heq⟩ := Option.bind_eq_some_iff.mp hpull
    cases heq
    have hl₁ : Link [.clear] l l₁ := clear_side hl hclear
    obtain ⟨first, second, hfirst, hsecond, hlinked⟩ := pulled_linked hl₁.joined hr₁.joined
      ((taken_plain hl).2 _ hright) ((taken_plain hl).1 _ hleft) h₁ h₂ h₃ hup
    exact ⟨Sent.cleared.append ⟨[], first ++ second⟩,
      by simp [hp, hright, hleft, hfirst, hsecond, Sent.append, Sent.cleared],
      hlinked.after .cleared hl₁ hr₁⟩
  · rename_i hp
    exact ⟨_, if_neg hp, (clearData_linked hl hr₁.joined hpull).after ⟨[], [.clear]⟩
      hl.side hr₁⟩

theorem pullRightSubtree_linked (hl : Joined l) (hr : Joined r)
    (hpull : (node l h x n r).pullRightSubtree = some t') :
    ∃ sent, (node l h x n r).pullRightSent = some sent ∧ Linked sent l r t' := by
  rw [pullRightSubtree] at hpull
  obtain ⟨l₁, hclear, hpull⟩ := Option.bind_eq_some_iff.mp hpull
  have hl₁ : Link [.clear] l l₁ := clearChild_side hl hclear
  rw [pullRightSent]
  split at hpull
  · rename_i hp
    obtain ⟨word, -, hpull⟩ := Option.bind_eq_some_iff.mp hpull
    obtain ⟨counter, -, hpull⟩ := Option.bind_eq_some_iff.mp hpull
    obtain ⟨rightTree, hright, hpull⟩ := Option.bind_eq_some_iff.mp hpull
    obtain ⟨leftTree, hleft, hpull⟩ := Option.bind_eq_some_iff.mp hpull
    obtain ⟨r₁, hclear, hpull⟩ := Option.bind_eq_some_iff.mp hpull
    obtain ⟨t₁, h₁, hpull⟩ := Option.bind_eq_some_iff.mp hpull
    obtain ⟨t₂, h₂, hpull⟩ := Option.bind_eq_some_iff.mp hpull
    obtain ⟨t₃, h₃, hpull⟩ := Option.bind_eq_some_iff.mp hpull
    obtain ⟨⟨t₄, i⟩, hup, heq⟩ := Option.bind_eq_some_iff.mp hpull
    cases heq
    have hr₁ : Link [.clear] r r₁ := clear_side hr hclear
    obtain ⟨first, second, hfirst, hsecond, hlinked⟩ := pulled_linked hl₁.joined hr₁.joined
      ((taken_plain hr).2 _ hright) ((taken_plain hr).1 _ hleft) h₁ h₂ h₃ hup
    exact ⟨Sent.cleared.append ⟨[], first ++ second⟩,
      by simp [hp, hright, hleft, hfirst, hsecond, Sent.append, Sent.cleared],
      hlinked.after .cleared hl₁ hr₁⟩
  · rename_i hp
    exact ⟨_, if_neg hp, (clearData_linked hl₁.joined hr hpull).after ⟨[.clear], []⟩
      hl₁ hr.side⟩

theorem pullLeftSubtree_side (hs : Joined s) (hpull : s.pullLeftSubtree = some s') :
    Link [.pullLeftSubtree] s s' := by
  refine side_kept .pullLeftSubtree (fun s => told s.pullLeftSubtree) rfl
    (fun root s' => far_of root.pullLeftSubtree) (fun l h x n r t' hl hr hpull => ?_) hs hpull
  obtain ⟨sent, -, hlinked⟩ := pullLeftSubtree_linked hl hr hpull
  exact ⟨sent, hlinked⟩

theorem pullRightSubtree_side (hs : Joined s) (hpull : s.pullRightSubtree = some s') :
    Link [.pullRightSubtree] s s' := by
  refine side_kept .pullRightSubtree (fun s => told s.pullRightSubtree) rfl
    (fun root s' => far_of root.pullLeftSubtree) (fun l h x n r t' hl hr hpull => ?_) hs hpull
  obtain ⟨sent, -, hlinked⟩ := pullRightSubtree_linked hl hr hpull
  exact ⟨sent, hlinked⟩

theorem rotateRight_linked (hl : Joined l) (hr : Joined r)
    (hrot : (node l h x n r).rotateRight = some t') :
    ∃ sent, (node l h x n r).rotateRightSent = some sent ∧ Linked sent l r t' := by
  rw [rotateRight] at hrot
  obtain ⟨word, -, hrot⟩ := Option.bind_eq_some_iff.mp hrot
  obtain ⟨counter, -, hrot⟩ := Option.bind_eq_some_iff.mp hrot
  obtain ⟨r₁, hfill, hrot⟩ := Option.bind_eq_some_iff.mp hrot
  obtain ⟨leftTree, hget, hrot⟩ := Option.bind_eq_some_iff.mp hrot
  obtain ⟨r₂, hset, hrot⟩ := Option.bind_eq_some_iff.mp hrot
  obtain ⟨a, ha, hrot⟩ := Option.bind_eq_some_iff.mp hrot
  obtain ⟨b, hb, hrot⟩ := Option.bind_eq_some_iff.mp hrot
  obtain ⟨l₁, hcut, hrot⟩ := Option.bind_eq_some_iff.mp hrot
  obtain ⟨this, hdata, hrot⟩ := Option.bind_eq_some_iff.mp hrot
  obtain ⟨⟨top, i⟩, hup, heq⟩ := Option.bind_eq_some_iff.mp hrot
  cases heq
  cases hdata
  obtain ⟨k, rfl⟩ := updateHeight_same hup
  have hr₁ : Link [.pushRightSubtree x n] r r₁ :=
    filled_side hr (fun _ => pushRightSubtree_side hr) hfill
  simp only [rotateRightSent, hget, ha, hb, Option.bind_eq_bind, Option.bind_some]
  refine ⟨_, rfl, .mk ?_ (hr₁.trans ?_)⟩
  · split at hcut
    · rename_i hbare
      rw [if_pos hbare]
      exact clear_side hl hcut
    · rename_i hbare
      rw [if_neg hbare]
      exact pullLeftSubtree_side hl hcut
  · split at hset
    · rename_i hp
      rw [if_pos hp]
      exact setLeftSubtree_side hr₁.joined ((taken_plain hl).2 _ hget) hset
    · rename_i hp
      cases hset
      rw [if_neg hp]
      exact hr₁.joined.side

theorem rotateLeft_linked (hl : Joined l) (hr : Joined r)
    (hrot : (node l h x n r).rotateLeft = some t') :
    ∃ sent, (node l h x n r).rotateLeftSent = some sent ∧ Linked sent l r t' := by
  rw [rotateLeft] at hrot
  obtain ⟨word, -, hrot⟩ := Option.bind_eq_some_iff.mp hrot
  obtain ⟨counter, -, hrot⟩ := Option.bind_eq_some_iff.mp hrot
  obtain ⟨l₁, hfill, hrot⟩ := Option.bind_eq_some_iff.mp hrot
  obtain ⟨rightTree, hget, hrot⟩ := Option.bind_eq_some_iff.mp hrot
  obtain ⟨l₂, hset, hrot⟩ := Option.bind_eq_some_iff.mp hrot
  obtain ⟨a, ha, hrot⟩ := Option.bind_eq_some_iff.mp hrot
  obtain ⟨b, hb, hrot⟩ := Option.bind_eq_some_iff.mp hrot
  obtain ⟨r₁, hcut, hrot⟩ := Option.bind_eq_some_iff.mp hrot
  obtain ⟨this, hdata, hrot⟩ := Option.bind_eq_some_iff.mp hrot
  obtain ⟨⟨top, i⟩, hup, heq⟩ := Option.bind_eq_some_iff.mp hrot
  cases heq
  cases hdata
  obtain ⟨k, rfl⟩ := updateHeight_same hup
  have hl₁ : Link [.pushLeftSubtree x n] l l₁ :=
    filled_side hl (fun _ => pushLeftSubtree_side hl) hfill
  simp only [rotateLeftSent, hget, ha, hb, Option.bind_eq_bind, Option.bind_some]
  refine ⟨_, rfl, .mk (hl₁.trans ?_) ?_⟩
  · split at hset
    · rename_i hp
      rw [if_pos hp]
      exact setRightSubtree_side hl₁.joined ((taken_plain hr).1 _ hget) hset
    · rename_i hp
      cases hset
      rw [if_neg hp]
      exact hl₁.joined.side
  · split at hcut
    · rename_i hbare
      rw [if_pos hbare]
      exact clear_side hr hcut
    · rename_i hbare
      rw [if_neg hbare]
      exact pullRightSubtree_side hr hcut

theorem rotateRight_side (hs : Joined s) (hrot : s.rotateRight = some s') :
    Link [.rotateRight] s s' := by
  refine side_kept .rotateRight (fun s => told s.rotateRight) rfl
    (fun root s' => far_of root.rotateRight) (fun l h x n r t' hl hr hrot => ?_) hs hrot
  obtain ⟨sent, -, hlinked⟩ := rotateRight_linked hl hr hrot
  exact ⟨sent, hlinked⟩

theorem rotateLeft_side (hs : Joined s) (hrot : s.rotateLeft = some s') :
    Link [.rotateLeft] s s' := by
  refine side_kept .rotateLeft (fun s => told s.rotateLeft) rfl
    (fun root s' => far_of root.rotateLeft) (fun l h x n r t' hl hr hrot => ?_) hs hrot
  obtain ⟨sent, -, hlinked⟩ := rotateLeft_linked hl hr hrot
  exact ⟨sent, hlinked⟩

theorem balance_linked {i : Int} (hl : Joined l) (hr : Joined r)
    (hbal : (node l h x n r).balance i w = some t') :
    ∃ sent, (node l h x n r).balanceSent i w = some sent ∧ Linked sent l r t' := by
  rw [balance] at hbal
  rw [balanceSent]
  split at hbal
  · rename_i hi
    rw [if_pos hi]
    obtain ⟨r₁, hinner, hrot⟩ := Option.bind_eq_some_iff.mp hbal
    obtain ⟨less, hless, hinner⟩ := Option.bind_eq_some_iff.mp hinner
    cases less with
    | true =>
        replace hinner : r.rotateRight = some r₁ := hinner
        have hr₁ := rotateRight_side hr hinner
        obtain ⟨sent, hsent, hlinked⟩ := rotateLeft_linked hl hr₁.joined hrot
        exact ⟨_, by simp [hless, hinner, hsent], hlinked.after ⟨[], [.rotateRight]⟩ hl.side hr₁⟩
    | false =>
        cases hinner
        obtain ⟨sent, hsent, hlinked⟩ := rotateLeft_linked hl hr hrot
        exact ⟨sent, by simp [hless, hsent], hlinked⟩
  · rename_i hi
    rw [if_neg hi]
    split at hbal
    · rename_i hi'
      rw [if_pos hi']
      obtain ⟨l₁, hinner, hrot⟩ := Option.bind_eq_some_iff.mp hbal
      obtain ⟨less, hless, hinner⟩ := Option.bind_eq_some_iff.mp hinner
      cases less with
      | true =>
          cases hinner
          obtain ⟨sent, hsent, hlinked⟩ := rotateRight_linked hl hr hrot
          exact ⟨sent, by simp [hless, hsent], hlinked⟩
      | false =>
          replace hinner : l.rotateLeft = some l₁ := hinner
          have hl₁ := rotateLeft_side hl hinner
          obtain ⟨sent, hsent, hlinked⟩ := rotateRight_linked hl₁.joined hr hrot
          exact ⟨_, by simp [hless, hinner, hsent], hlinked.after ⟨[.rotateLeft], []⟩ hl₁ hr.side⟩
    · rename_i hi'
      rw [if_neg hi']
      cases hbal
      exact ⟨.silent, rfl, same_linked hl hr⟩

theorem insertInto_side (hs : Joined s) (hins : ∀ s', s.insert w = some s' → Link [.insert w] s s')
    (hinto : s.insertInto w = some s') : Link [.insert w] s s' := by
  rw [insertInto] at hinto
  split at hinto
  · exact hins s' hinto
  · rename_i hp
    cases hinto
    exact hs.side.filled hp ⟨trivial, trivial⟩

theorem rebalanced_linked (hl : Joined l) (hr : Joined r)
    (hbal : ((node l h x n r).updateHeight.bind fun p => p.1.balance p.2 w) = some t') :
    ∃ sent, ((node l h x n r).updateHeight.bind fun p => p.1.balanceSent p.2 w) = some sent ∧
      Linked sent l r t' := by
  obtain ⟨⟨t, i⟩, hup, hbal⟩ := Option.bind_eq_some_iff.mp hbal
  obtain ⟨k, rfl⟩ := updateHeight_same hup
  rw [hup]
  exact balance_linked hl hr hbal

theorem insert_node (hl : Joined l) (hr : Joined r)
    (hinsl : ∀ l', l.insert w = some l' → Link [.insert w] l l')
    (hinsr : ∀ r', r.insert w = some r' → Link [.insert w] r r')
    (hins : (node l h x n r).insert w = some t') :
    ∃ sent, (node l h x n r).insertSent w = some sent ∧ Linked sent l r t' := by
  by_cases hh : (node l h x n r).holds = true
  · rcases lt_trichotomy w x with hlt | rfl | hlt
    · rw [insert_left_eq hh hlt] at hins
      obtain ⟨l', hinto, hbal⟩ := Option.bind_eq_some_iff.mp hins
      have hside := insertInto_side hl hinsl hinto
      obtain ⟨sent, hsent, hlinked⟩ := rebalanced_linked hside.joined hr hbal
      obtain ⟨p, hup, hsent⟩ := Option.bind_eq_some_iff.mp hsent
      refine ⟨_, ?_, hlinked.after ⟨[.insert w], []⟩ hside hr.side⟩
      simp [insertSent, hh, hlt.ne, hlt.not_gt, hinto, hup, hsent]
    · rw [insert_here hh] at hins
      cases hins
      exact ⟨.silent, by simp [insertSent], same_linked hl hr⟩
    · rw [insert_right_eq hh hlt] at hins
      obtain ⟨r', hinto, hbal⟩ := Option.bind_eq_some_iff.mp hins
      have hside := insertInto_side hr hinsr hinto
      obtain ⟨sent, hsent, hlinked⟩ := rebalanced_linked hl hside.joined hbal
      obtain ⟨p, hup, hsent⟩ := Option.bind_eq_some_iff.mp hsent
      refine ⟨_, ?_, hlinked.after ⟨[], [.insert w]⟩ hl.side hside⟩
      simp [insertSent, hh, hlt.ne', hlt, hinto, hup, hsent]
  · rw [insert_blank hh] at hins
    cases hins
    exact ⟨.silent, by simp [insertSent, hh], same_linked hl hr⟩

theorem insert_side (hs : Joined s) (hins : s.insert w = some s') : Link [.insert w] s s' := by
  refine kept (f := insert) .insert (fun s word => told (s.insert word)) (fun _ => rfl)
    (fun root word s' => far_of (root.insert word))
    (fun l h x n r word t' hl hr ihl ihr hins => ?_) s w s' hs hins
  obtain ⟨sent, -, hlinked⟩ := insert_node hl hr (ihl word) (ihr word) hins
  exact ⟨sent, hlinked⟩

theorem removeLocalWord_linked (hl : Joined l) (hr : Joined r)
    (hrem : (node l h x n r).removeLocalWord = some t') :
    ∃ sent, (node l h x n r).removeLocalSent = some sent ∧ Linked sent l r t' := by
  rw [removeLocalWord] at hrem
  obtain ⟨leftWord, hleft, hrem⟩ := Option.bind_eq_some_iff.mp hrem
  obtain ⟨rightWord, hright, hrem⟩ := Option.bind_eq_some_iff.mp hrem
  simp only [removeLocalSent, hleft, hright, Option.bind_eq_bind, Option.bind_some]
  cases leftWord with
  | true =>
      cases rightWord with
      | true =>
          rw [if_pos rfl, findSuccessor_never r] at hrem
          cases hrem
      | false => exact pullLeftSubtree_linked hl hr hrem
  | false =>
      cases rightWord with
      | true => exact pullRightSubtree_linked hl hr hrem
      | false =>
          replace hrem : (node l h x n r).clearData = some t' := hrem
          exact ⟨.cleared, rfl, clearData_linked hl hr hrem⟩

theorem dropVisited_side (hs : Joined s) (hdrop : s.dropVisited = some s') :
    Link [.clear] s s' := by
  cases s with
  | null => cases hdrop
  | node l h x n r => exact clear_side hs hdrop
  | remote root => exact clear_side hs hdrop

theorem removeHere_linked (hl : Joined l) (hr : Joined r)
    (hrem : (node l h x n r).remove x = some t') :
    ∃ sent, (node l h x n r).removeSent x = some sent ∧ Linked sent l r t' := by
  simp only [remove, equalWord_node, decreaseCounter, getCounter, Option.bind_eq_bind,
    Option.bind_some, decide_true, if_true] at hrem
  rw [removeSent, if_pos rfl]
  split at hrem
  · rename_i hlast
    rw [if_pos hlast]
    obtain ⟨bare, hbare, hrem⟩ := Option.bind_eq_some_iff.mp hrem
    replace hbare : wordless l r = some bare := hbare
    rw [hbare]
    cases bare with
    | true =>
        replace hrem : (node l h x (n - 1) r).clearData = some t' := hrem
        exact ⟨.cleared, rfl, clearData_linked hl hr hrem⟩
    | false => exact removeLocalWord_linked hl hr hrem
  · rename_i hmore
    rw [if_neg hmore]
    cases hrem
    exact ⟨.silent, rfl, same_linked hl hr⟩

theorem remove_node (hl : Joined l) (hr : Joined r)
    (hreml : ∀ l', l.remove w = some l' → Link [.remove w] l l')
    (hremr : ∀ r', r.remove w = some r' → Link [.remove w] r r')
    (hrem : (node l h x n r).remove w = some t') :
    ∃ sent, (node l h x n r).removeSent w = some sent ∧ Linked sent l r t' := by
  rcases lt_trichotomy w x with hlt | rfl | hlt
  · rw [removeSent, if_neg hlt.ne, if_pos hlt]
    refine ⟨_, rfl, ?_⟩
    cases hp : l.present with
    | false =>
        obtain rfl := present_eq_false.mp hp
        rw [remove_left_missing hlt] at hrem
        cases hrem
        exact .mk (.here trivial trivial) hr.side
    | true =>
        rw [remove_left hlt hp] at hrem
        obtain ⟨l₁, hl₁, hrem⟩ := Option.bind_eq_some_iff.mp hrem
        obtain ⟨l₂, hdrop, heq⟩ := Option.bind_eq_some_iff.mp hrem
        cases heq
        have hside := hreml l₁ hl₁
        exact .mk (hside.trans (dropVisited_side hside.joined hdrop)) hr.side
  · exact removeHere_linked hl hr hrem
  · rw [removeSent, if_neg hlt.ne', if_neg hlt.not_gt]
    refine ⟨_, rfl, ?_⟩
    cases hp : r.present with
    | false =>
        obtain rfl := present_eq_false.mp hp
        rw [remove_right_missing hlt] at hrem
        cases hrem
        exact .mk hl.side (.here trivial trivial)
    | true =>
        rw [remove_right hlt hp] at hrem
        obtain ⟨r₁, hr₁, hrem⟩ := Option.bind_eq_some_iff.mp hrem
        obtain ⟨r₂, hdrop, heq⟩ := Option.bind_eq_some_iff.mp hrem
        cases heq
        have hside := hremr r₁ hr₁
        exact .mk hl.side (hside.trans (dropVisited_side hside.joined hdrop))

theorem remove_side (hs : Joined s) (hrem : s.remove w = some s') : Link [.remove w] s s' := by
  refine kept (f := remove) .remove (fun s word => told (s.remove word)) (fun _ => rfl)
    (fun root word s' => far_of (root.remove word))
    (fun l h x n r word t' hl hr ihl ihr hrem => ?_) s w s' hs hrem
  obtain ⟨sent, -, hlinked⟩ := remove_node hl hr (ihl word) (ihr word) hrem
  exact ⟨sent, hlinked⟩

theorem asked {A : Type} {ask : Option A} {answer : A → Answer}
    (hop : ((do return (t, answer (← ask))) : Option (NodePtr × Answer)).map Prod.fst = some t') :
    t' = t := by
  cases ask <;> simp_all

theorem perform_linked (hl : Joined l) (hr : Joined r) (hplain : op.Plain)
    (hop : perform (node l h x n r) op = some t') :
    (∃ sent, (node l h x n r).sent op = some sent ∧ Linked sent l r t') ∨
      ∃ tree a k y m b, op = .setSubtree tree ∧ t' = node a k y m b ∧ a.AllLocal ∧
        b.AllLocal := by
  cases op with
  | getWord | getCounter | getHeight | getSubtree | getLeftSubtree | getRightSubtree =>
      rw [asked hop]
      exact .inl ⟨.silent, rfl, same_linked hl hr⟩
  | findSuccessor =>
      simp only [perform, Operation.direct, findSuccessor_never] at hop
      cases hop
  | setData word counter =>
      cases hop
      exact .inl ⟨.silent, rfl, same_linked hl hr⟩
  | insert word =>
      rw [perform, Operation.direct, told] at hop
      exact .inl (insert_node hl hr (fun _ => insert_side hl) (fun _ => insert_side hr) hop)
  | remove word =>
      rw [perform, Operation.direct, told] at hop
      exact .inl (remove_node hl hr (fun _ => remove_side hl) (fun _ => remove_side hr) hop)
  | rotateLeft =>
      rw [perform, Operation.direct, told] at hop
      exact .inl (rotateLeft_linked hl hr hop)
  | rotateRight =>
      rw [perform, Operation.direct, told] at hop
      exact .inl (rotateRight_linked hl hr hop)
  | pushLeftSubtree word counter =>
      rw [perform, Operation.direct, told] at hop
      exact .inl (pushLeftSubtree_linked hl hr hop)
  | pushRightSubtree word counter =>
      rw [perform, Operation.direct, told] at hop
      exact .inl (pushRightSubtree_linked hl hr hop)
  | pullLeftSubtree =>
      rw [perform, Operation.direct, told] at hop
      exact .inl (pullLeftSubtree_linked hl hr hop)
  | pullRightSubtree =>
      rw [perform, Operation.direct, told] at hop
      exact .inl (pullRightSubtree_linked hl hr hop)
  | setSubtree tree =>
      rw [perform, Operation.direct, told] at hop
      rcases setSubtree_node hplain hop with rfl | hcut
      · exact .inl ⟨.silent, rfl, same_linked hl hr⟩
      · obtain ⟨a, k, y, m, b, heq, ha, hb⟩ := hcut
        exact .inr ⟨tree, a, k, y, m, b, rfl, heq, ha, hb⟩
  | setLeftSubtree tree =>
      rw [perform, Operation.direct, told] at hop
      obtain ⟨calls, hcalls, hlinked⟩ := setLeftSubtree_linked hl hr hplain hop
      exact .inl ⟨_, by rw [sent, hcalls]; rfl, hlinked⟩
  | setRightSubtree tree =>
      rw [perform, Operation.direct, told] at hop
      obtain ⟨calls, hcalls, hlinked⟩ := setRightSubtree_linked hl hr hplain hop
      exact .inl ⟨_, by rw [sent, hcalls]; rfl, hlinked⟩
  | clear =>
      rw [perform, Operation.direct, told] at hop
      exact .inl ⟨.cleared, rfl, reset_linked hl hr hop⟩

theorem links_served {ops : List Operation} (hl : Joined l) (hr : Joined r)
    (hops : ∀ op ∈ ops, op.Plain) (hrun : Runs.run perform (node l h x n r) ops = some t') :
    (∃ sent, (node l h x n r).runSent ops = some sent ∧ Linked sent l r t') ∨
      t'.AllLocal ∧ ∃ tree, Operation.setSubtree tree ∈ ops := by
  induction ops generalizing l h x n r with
  | nil =>
      cases hrun
      exact .inl ⟨.silent, rfl, same_linked hl hr⟩
  | cons op ops ih =>
      obtain ⟨t, hop, hrun⟩ := Option.bind_eq_some_iff.mp hrun
      have hrest : ∀ op ∈ ops, op.Plain := fun op hmem => hops op (by simp [hmem])
      rcases perform_linked hl hr (hops op (by simp)) hop with
        ⟨first, hfirst, hlinked⟩ | ⟨tree, a, k, y, m, b, rfl, rfl, ha, hb⟩
      · obtain ⟨a, k, y, m, b, rfl, ha, hb⟩ := hlinked.node
        rcases ih ha.joined hb.joined hrest hrun with
          ⟨rest, hsent, hlinked⟩ | ⟨hlocal, tree, hmem⟩
        · exact .inl ⟨_, by simp [runSent, hfirst, hop, hsent], hlinked.after first ha hb⟩
        · exact .inr ⟨hlocal, tree, by simp [hmem]⟩
      · refine .inr ⟨?_, tree, by simp⟩
        rcases ih (.inl ha) (.inl hb) hrest hrun with ⟨rest, -, hlinked⟩ | ⟨hlocal, -⟩
        · exact hlinked.isLocal ha hb
        · exact hlocal

-- A machine on each side: the word that is inserted goes to the right one, the rotation over both.
theorem links_served_pair : ∃ t',
    Runs.run perform (node (remote (node null 0 [97] 1 null)) 1 [98] 1
      (remote (node null 0 [100] 1 null))) [.insert [101], .rotateLeft] = some t' ∧
    ((∃ sent, (node (remote (node null 0 [97] 1 null)) 1 [98] 1
        (remote (node null 0 [100] 1 null))).runSent [.insert [101], .rotateLeft] = some sent ∧
        Linked sent (remote (node null 0 [97] 1 null)) (remote (node null 0 [100] 1 null)) t') ∨
      t'.AllLocal ∧
        ∃ tree, Operation.setSubtree tree ∈ [Operation.insert [101], Operation.rotateLeft]) :=
  ⟨_, rfl, links_served (h := 1) (x := [98]) (n := 1) (.inr ⟨_, rfl⟩) (.inr ⟨_, rfl⟩)
    (by simp [Operation.Plain]) rfl⟩

end NodePtr

end DistributedAvl
