import DistributedAvl.Remote.Distributed
import DistributedAvl.Remote.Traffic

namespace DistributedAvl

open SubtreeMessageParser

-- What a message carries is decoded into a tree on the machine that receives it.
def Operation.Plain : Operation → Prop
  | setSubtree tree | setLeftSubtree tree | setRightSubtree tree => tree.AllLocal
  | _ => True

namespace NodePtr

-- A child of a machine's root is on this machine, or the root of another one.
def Joined (s : NodePtr) : Prop := s.AllLocal ∨ ∃ root, s = remote root

-- A link leads where it has led, to what the calls over it have made of the far tree, and there is
-- none where there was none.
inductive Link (calls : List Operation) : NodePtr → NodePtr → Prop where
  | here {s s' : NodePtr} (hlocal : s.AllLocal) (hlocal' : s'.AllLocal) : Link calls s s'
  | far {a b : NodePtr} (hcalls : Runs.run perform (remote a) calls = some (remote b)) :
      Link calls (remote a) (remote b)

inductive Linked (sent : Sent) (l r : NodePtr) : NodePtr → Prop where
  | mk {l' r' : NodePtr} {h : Int} {x : Word} {n : Int} (hl : Link sent.left l l')
      (hr : Link sent.right r r') : Linked sent l r (node l' h x n r')

variable {a b l r s s' s'' t t' tree : NodePtr} {h : Int} {x w : Word} {n : Int}
  {calls more : List Operation} {sent next : Sent} {op : Operation}

theorem Joined.side (hs : Joined s) : Link [] s s := by
  rcases hs with hs | ⟨root, rfl⟩
  · exact .here hs hs
  · exact .far rfl

theorem Link.joined (hs : Link calls s s') : Joined s' := by
  cases hs with
  | here _ hlocal => exact .inl hlocal
  | far hcalls => exact .inr ⟨_, rfl⟩

theorem Link.isLocal (hs : Link calls s s') : s'.AllLocal ↔ s.AllLocal := by
  cases hs with
  | here hlocal hlocal' => exact iff_of_true hlocal' hlocal
  | far hcalls => exact iff_of_false id id

theorem Link.filled (hs : Link calls s s') (hp : ¬ s'.present = true) (htree : tree.AllLocal) :
    Link more s tree := by
  obtain rfl : s' = null := present_eq_false.mp (by simpa using hp)
  exact .here (hs.isLocal.mp trivial) htree

theorem Link.trans (hs : Link calls s s') (hs' : Link more s' s'') :
    Link (calls ++ more) s s'' := by
  cases hs with
  | here hlocal hlocal' => exact .here hlocal (hs'.isLocal.mpr hlocal')
  | far hcalls =>
      cases hs' with
      | here hlocal _ => exact hlocal.elim
      | far hcalls' => exact .far (by rw [Runs.run_append, hcalls]; exact hcalls')

theorem Linked.isLocal (ht : Linked sent l r t) (hl : l.AllLocal) (hr : r.AllLocal) :
    t.AllLocal := by
  cases ht with
  | mk hsl hsr => exact ⟨hsl.isLocal.mpr hl, hsr.isLocal.mpr hr⟩

theorem Linked.node (ht : Linked sent l r t) : ∃ a k y m b, t = .node a k y m b ∧
    Link sent.left l a ∧ Link sent.right r b := by
  cases ht with
  | mk hl hr => exact ⟨_, _, _, _, _, rfl, hl, hr⟩

theorem Linked.after (sent : Sent) (ht : Linked next a b t') (hl : Link sent.left l a)
    (hr : Link sent.right r b) : Linked (sent.append next) l r t' := by
  cases ht with
  | mk hl' hr' => exact .mk (hl.trans hl') (hr.trans hr')

theorem same_linked (hl : Joined l) (hr : Joined r) : Linked .silent l r (node l h x n r) :=
  .mk hl.side hr.side

theorem told (act : Option NodePtr) :
    ((do return (← act, Answer.done)) : Option (NodePtr × Answer)).map Prod.fst = act := by
  cases act <;> rfl

theorem far_of (act : Option NodePtr) (h : (do return remote (← act)) = some s') :
    ∃ b, s' = remote b := by
  obtain ⟨b, -, heq⟩ := Option.bind_eq_some_iff.mp h
  exact ⟨b, (Option.some.inj heq).symm⟩

-- A proxy passes the call on; so a method keeps a side if it keeps those of every node, where a
-- method that calls itself may take as kept the sides that it calls itself on.
theorem kept {A : Type} {f : NodePtr → A → Option NodePtr} (call : A → Operation)
    (hcall : ∀ s arg, perform s (call arg) = f s arg) (hnull : ∀ arg, f null arg = none)
    (hfar : ∀ root arg s', f (remote root) arg = some s' → ∃ b, s' = remote b)
    (hnode : ∀ l h x n r arg t', Joined l → Joined r →
      (∀ arg l', f l arg = some l' → Link [call arg] l l') →
      (∀ arg r', f r arg = some r' → Link [call arg] r r') →
        f (node l h x n r) arg = some t' → ∃ sent, Linked sent l r t') :
    ∀ s arg s', Joined s → f s arg = some s' → Link [call arg] s s' := by
  intro s
  induction s with
  | null =>
      intro arg s' _ hf
      rw [hnull] at hf
      cases hf
  | remote root =>
      intro arg s' _ hf
      obtain ⟨b, rfl⟩ := hfar root arg s' hf
      exact .far (by simp [Runs.run, hcall, hf])
  | node l h x n r ihl ihr =>
      intro arg s' hs hf
      obtain ⟨hl, hr⟩ : l.AllLocal ∧ r.AllLocal := hs.resolve_right (by simp)
      obtain ⟨sent, hlinked⟩ := hnode l h x n r arg s' (.inl hl) (.inl hr)
        (fun arg l' => ihl arg l' (.inl hl)) (fun arg r' => ihr arg r' (.inl hr)) hf
      exact .here ⟨hl, hr⟩ (hlinked.isLocal hl hr)

theorem side_kept {f : NodePtr → Option NodePtr} (call : Operation)
    (hcall : ∀ s, perform s call = f s) (hnull : f null = none)
    (hfar : ∀ root s', f (remote root) = some s' → ∃ b, s' = remote b)
    (hnode : ∀ l h x n r t', Joined l → Joined r → f (node l h x n r) = some t' →
      ∃ sent, Linked sent l r t') (hs : Joined s) (hf : f s = some s') : Link [call] s s' :=
  kept (f := fun s (_ : Unit) => f s) (fun _ => call) (fun s _ => hcall s) (fun _ => hnull)
    (fun root _ => hfar root) (fun l h x n r _ t' hl hr _ _ => hnode l h x n r t' hl hr) s () s' hs
    hf

theorem updateHeight_same {i : Int} (hup : (node l h x n r).updateHeight = some (t, i)) :
    ∃ k, t = node l k x n r := by
  obtain ⟨j, -, hup⟩ := Option.bind_eq_some_iff.mp hup
  obtain ⟨k, -, hup⟩ := Option.bind_eq_some_iff.mp hup
  cases hup
  exact ⟨_, rfl⟩

theorem parseTree_plain (m : PabloSubtree) : (parseTree m).AllLocal := by
  induction m with
  | unset => trivial
  | set d left right ihl ihr =>
      cases d with
      | none => trivial
      | some d =>
          rcases eq_or_ne d.counter 0 with hzero | hne
          · simp [parseTree, parseNodeTree, hzero]
          · simp [parseTree, parseNodeTree, hne, ihl, ihr]

theorem carried_plain (ht : t.carried = some t') : t'.AllLocal := by
  obtain ⟨m, -, heq⟩ := Option.bind_eq_some_iff.mp ht
  cases heq
  exact parseTree_plain m

theorem setData_side (hs : Joined s) (hset : s.setData w n = some s') :
    Link [.setData w n] s s' := by
  refine side_kept (f := fun s => s.setData w n) (.setData w n) (fun s => told (s.setData w n)) rfl
    (fun root s' => far_of (root.setData w n)) (fun l h x m r t' hl hr hset => ?_) hs hset
  cases hset
  exact ⟨_, same_linked hl hr⟩

theorem clear_side (hs : Joined s) (hclear : s.clear = some s') : Link [.clear] s s' := by
  rcases hs with hlocal | ⟨root, rfl⟩
  · rcases hlocal.cases with rfl | ⟨l, h, x, n, r, rfl, -, -⟩
    · cases hclear
    · cases hclear
      exact .here hlocal trivial
  · obtain ⟨b, rfl⟩ := far_of root.reset hclear
    refine .far ?_
    rw [Runs.run, show perform (remote root) .clear = (remote root).clear from told _, hclear]
    rfl

theorem clearChild_side (hs : Joined s) (hclear : s.clearChild = some s') :
    Link [.clear] s s' := by
  rw [clearChild] at hclear
  split at hclear
  · exact clear_side hs hclear
  · rename_i hp
    cases hclear
    exact hs.side.filled hp trivial

theorem clearData_linked (hl : Joined l) (hr : Joined r)
    (hclear : (node l h x n r).clearData = some t') : Linked .cleared l r t' := by
  obtain ⟨l₁, hl₁, hclear⟩ := Option.bind_eq_some_iff.mp hclear
  obtain ⟨r₁, hr₁, heq⟩ := Option.bind_eq_some_iff.mp hclear
  cases heq
  exact .mk (clearChild_side hl hl₁) (clearChild_side hr hr₁)

theorem resetSide_side (hs : Joined s) (hreset : s.resetSide = some s') : Link [.clear] s s' := by
  rcases hs with hlocal | ⟨root, rfl⟩
  · rcases hlocal.cases with rfl | ⟨l, h, x, n, r, rfl, -, -⟩ <;>
      (cases hreset; exact .here hlocal trivial)
  · exact clear_side (.inr ⟨root, rfl⟩) hreset

theorem reset_linked (hl : Joined l) (hr : Joined r)
    (hreset : (node l h x n r).reset = some t') : Linked .cleared l r t' := by
  rw [reset_node] at hreset
  obtain ⟨l₁, hl₁, hreset⟩ := Option.bind_eq_some_iff.mp hreset
  obtain ⟨r₁, hr₁, heq⟩ := Option.bind_eq_some_iff.mp hreset
  cases heq
  exact .mk (resetSide_side hl hl₁) (resetSide_side hr hr₁)

theorem getSubtree_plain (hs : Joined s) (hget : s.getSubtree = some tree) : tree.AllLocal := by
  rcases hs with hlocal | ⟨root, rfl⟩
  · rcases hlocal.cases with rfl | ⟨l, h, x, n, r, rfl, hl, hr⟩
    · cases hget
    · rw [getSubtree_local hl hr] at hget
      cases hget
      exact ⟨hl, hr⟩
  · exact carried_plain hget

theorem taken_plain (hs : Joined s) :
    (∀ tree, s.getLeftSubtree = some tree → tree.AllLocal) ∧
      ∀ tree, s.getRightSubtree = some tree → tree.AllLocal := by
  have hchild : ∀ {s tree : NodePtr}, Joined s →
      (if s.present then s.getSubtree else some null) = some tree → tree.AllLocal := by
    intro s tree hs hget
    split at hget
    · exact getSubtree_plain hs hget
    · cases hget
      trivial
  rcases hs with hlocal | ⟨root, rfl⟩
  · rcases hlocal.cases with rfl | ⟨l, h, x, n, r, rfl, hl, hr⟩
    · constructor <;> intro tree hget <;> cases hget
    · exact ⟨fun tree => hchild (.inl hl), fun tree => hchild (.inl hr)⟩
  · refine ⟨fun tree hget => ?_, fun tree hget => ?_⟩
    · obtain ⟨child, -, hcarry⟩ := Option.bind_eq_some_iff.mp hget
      exact carried_plain hcarry
    · obtain ⟨child, -, hcarry⟩ := Option.bind_eq_some_iff.mp hget
      exact carried_plain hcarry

theorem setSubtree_node (htree : tree.AllLocal)
    (hset : (node l h x n r).setSubtree tree = some t') :
    t' = node l h x n r ∨ ∃ a k y m b, t' = node a k y m b ∧ a.AllLocal ∧ b.AllLocal := by
  rcases htree.cases with rfl | ⟨a, k, y, m, b, rfl, ha, hb⟩
  · cases hset
    exact .inl rfl
  · cases hset
    exact .inr ⟨a, 0, y, m, b, rfl, ha, hb⟩

theorem passed {f : NodePtr → NodePtr → Option NodePtr} {root : NodePtr}
    (h : (do return remote (← f root (← tree.carried))) = some s') : ∃ b, s' = remote b := by
  obtain ⟨carried, -, h⟩ := Option.bind_eq_some_iff.mp h
  exact far_of (f root carried) h

theorem setSubtree_side (hs : Joined s) (htree : tree.AllLocal)
    (hset : s.setSubtree tree = some s') : Link [.setSubtree tree] s s' := by
  rcases hs with hlocal | ⟨root, rfl⟩
  · rcases hlocal.cases with rfl | ⟨l, h, x, n, r, rfl, hl, hr⟩
    · cases hset
    · refine .here hlocal ?_
      rcases setSubtree_node htree hset with rfl | ⟨a, k, y, m, b, rfl, ha, hb⟩
      · exact hlocal
      · exact ⟨ha, hb⟩
  · obtain ⟨b, rfl⟩ := passed hset
    refine .far ?_
    rw [Runs.run, show perform (remote root) (.setSubtree tree) = (remote root).setSubtree tree
      from told _, hset]
    rfl

theorem hung_side (hs : Joined s) (htree : tree.AllLocal) (hp : tree.present = true)
    (hclear : s.clearChild = some a)
    (hset : (if a.present then do a.setData (← tree.getWord) (← tree.getCounter)
      else some tree) = some b) (hsub : b.setSubtree tree = some s') :
    ∃ calls, hangSent tree = some calls ∧ Link calls s s' := by
  have ha := clearChild_side hs hclear
  rcases htree.cases with rfl | ⟨c, k, y, m, d, rfl, hc, hd⟩
  · cases hp
  · refine ⟨_, rfl, ?_⟩
    by_cases hpa : a.present = true
    · rw [if_pos hpa] at hset
      have hb := setData_side ha.joined hset
      exact (ha.trans hb).trans (setSubtree_side hb.joined htree hsub)
    · rw [if_neg hpa] at hset
      cases hset
      exact ha.filled hpa ((setSubtree_side (.inl htree) htree hsub).isLocal.mpr htree)

theorem setLeftSubtree_linked (hl : Joined l) (hr : Joined r) (htree : tree.AllLocal)
    (hset : (node l h x n r).setLeftSubtree tree = some t') :
    ∃ calls, hangSent tree = some calls ∧ Linked ⟨calls, []⟩ l r t' := by
  rw [setLeftSubtree] at hset
  split at hset
  · rename_i hp
    obtain ⟨l₁, hclear, hset⟩ := Option.bind_eq_some_iff.mp hset
    obtain ⟨l₂, hdata, hset⟩ := Option.bind_eq_some_iff.mp hset
    obtain ⟨l₃, hsub, hset⟩ := Option.bind_eq_some_iff.mp hset
    obtain ⟨⟨this, i⟩, hup, heq⟩ := Option.bind_eq_some_iff.mp hset
    cases heq
    obtain ⟨k, rfl⟩ := updateHeight_same hup
    obtain ⟨calls, hcalls, hside⟩ := hung_side hl htree hp hclear hdata hsub
    exact ⟨calls, hcalls, .mk hside hr.side⟩
  · rename_i hp
    cases hset
    exact ⟨[], if_neg hp, same_linked hl hr⟩

theorem setRightSubtree_linked (hl : Joined l) (hr : Joined r) (htree : tree.AllLocal)
    (hset : (node l h x n r).setRightSubtree tree = some t') :
    ∃ calls, hangSent tree = some calls ∧ Linked ⟨[], calls⟩ l r t' := by
  rw [setRightSubtree] at hset
  split at hset
  · rename_i hp
    obtain ⟨r₁, hclear, hset⟩ := Option.bind_eq_some_iff.mp hset
    obtain ⟨r₂, hdata, hset⟩ := Option.bind_eq_some_iff.mp hset
    obtain ⟨r₃, hsub, hset⟩ := Option.bind_eq_some_iff.mp hset
    obtain ⟨⟨this, i⟩, hup, heq⟩ := Option.bind_eq_some_iff.mp hset
    cases heq
    obtain ⟨k, rfl⟩ := updateHeight_same hup
    obtain ⟨calls, hcalls, hside⟩ := hung_side hr htree hp hclear hdata hsub
    exact ⟨calls, hcalls, .mk hl.side hside⟩
  · rename_i hp
    cases hset
    exact ⟨[], if_neg hp, same_linked hl hr⟩

theorem setLeftSubtree_side (hs : Joined s) (htree : tree.AllLocal)
    (hset : s.setLeftSubtree tree = some s') : Link [.setLeftSubtree tree] s s' := by
  refine side_kept (f := fun s => s.setLeftSubtree tree) (.setLeftSubtree tree)
    (fun s => told (s.setLeftSubtree tree)) rfl (fun root s' => passed)
    (fun l h x n r t' hl hr hset => ?_) hs hset
  obtain ⟨calls, -, hlinked⟩ := setLeftSubtree_linked hl hr htree hset
  exact ⟨_, hlinked⟩

theorem setRightSubtree_side (hs : Joined s) (htree : tree.AllLocal)
    (hset : s.setRightSubtree tree = some s') : Link [.setRightSubtree tree] s s' := by
  refine side_kept (f := fun s => s.setRightSubtree tree) (.setRightSubtree tree)
    (fun s => told (s.setRightSubtree tree)) rfl (fun root s' => passed)
    (fun l h x n r t' hl hr hset => ?_) hs hset
  obtain ⟨calls, -, hlinked⟩ := setRightSubtree_linked hl hr htree hset
  exact ⟨_, hlinked⟩

end NodePtr

end DistributedAvl
