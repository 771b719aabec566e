import DistributedAvl.Remote.Client
import DistributedAvl.Remote.Carried

namespace DistributedAvl

open NodePtr SubtreeMessageParser

namespace NodePtr

def counts : NodePtr → List (Word × Int)
  | null => []
  | node l _ x n r => l.counts ++ (if n = 0 then [] else [(x, n)]) ++ r.counts
  | remote root => root.counts

def Unhidden : NodePtr → Prop
  | node l _ _ n r => if n = 0 then l.counts = [] ∧ r.counts = [] else l.Unhidden ∧ r.Unhidden
  | _ => True

-- What a pull makes of a child: its word over its left part, or its right part if there is no left.
def promoted : NodePtr → (Word × Int) × BinaryTree (Word × Int)
  | node a _ y m b => ((y, m), if a.present then a.shape else b.shape)
  | _ => (([], 0), .nil)

theorem pruned_sublist (t : NodePtr) : t.pruned.counts.Sublist t.counts := by
  induction t with
  | null => exact List.Sublist.refl _
  | remote root => exact List.nil_sublist _
  | node l h x n r ihl ihr =>
      by_cases hn : n = 0
      · simp [pruned, hn, counts]
      · simp only [pruned, hn, if_false, counts]
        exact (ihl.append (List.Sublist.refl _)).append ihr

theorem pruned_counts_iff {t : NodePtr} (ht : t.AllLocal) :
    t.pruned.counts = t.counts ↔ t.Unhidden := by
  induction t with
  | null => simp [pruned, Unhidden]
  | remote root => exact ht.elim
  | node l h x n r ihl ihr =>
      by_cases hn : n = 0
      · simp [pruned, hn, counts, Unhidden]
      · simp only [pruned, hn, if_false, counts, Unhidden]
        rw [← ihl ht.1, ← ihr ht.2]
        constructor
        · intro heq
          have hlen := congrArg List.length heq
          have hl := (pruned_sublist l).length_le
          have hr := (pruned_sublist r).length_le
          simp only [List.length_append] at hlen
          exact ⟨(pruned_sublist l).eq_of_length (by omega),
            (pruned_sublist r).eq_of_length (by omega)⟩
        · rintro ⟨hl, hr⟩
          rw [hl, hr]

theorem pulled_shape {t : NodePtr} (ht : t.AllLocal) :
    t.pulled.shape = .node t.promoted.1 .nil t.promoted.2 := by
  rcases ht.cases with rfl | ⟨a, k, y, m, b, rfl, ha, hb⟩
  · rfl
  · simp only [pulled, promoted]
    rcases ha.cases with rfl | ⟨_, _, _, _, _, rfl, -, -⟩
    · rcases hb.cases with rfl | ⟨_, _, _, _, _, rfl, -, -⟩ <;> simp [shape, ground_shape]
    · simp [shape, ground_shape]

end NodePtr

namespace RemoteAVLTreeClient

theorem call_handled (far : NodePtr) (msg : Message) {handler : RemoteTreeManager.Handler}
    (h : RemoteTreeManager.registerMessageHandler msg.type = some handler) :
    call far msg = (handler far msg).map fun p => (p.1, handleResponse msg.type p.2) := by
  simp only [call, AVLMessageHandler.parseMessage, h]
  cases handler far msg <;> rfl

-- The stub, the message type, the table and the handler of an operation that returns nothing, all
-- at once: the far root undergoes what the handler registered for the type does.
theorem tell_eq {msg : Message} {handler : RemoteTreeManager.Handler} {far : NodePtr}
    {work : Option NodePtr} {response : Response}
    (h : RemoteTreeManager.registerMessageHandler msg.type = some handler)
    (hwork : handler far msg = work.bind fun root => some (root, response)) :
    tell far msg = work := by
  rw [tell, call_handled far msg h, hwork]
  cases work <;> rfl

def branchTree (far : NodePtr) : Branch → Option PabloSubtree
  | .both => parseProtoTree far
  | .left => far.getLeft.bind parseProtoTree
  | .right => far.getRight.bind parseProtoTree

theorem getSubtree_eq (far : NodePtr) (branch : Branch) :
    getSubtree far branch = (branchTree far branch).map fun tree => (far, tree) := by
  have hwork : RemoteTreeManager.getSubtree far
      { Message.ofType .getSubtree with branch := some branch } =
        (branchTree far branch).map fun tree =>
          (far, { RemoteTreeManager.createResponse .getSubtree with subtree := tree }) := by
    cases branch <;>
      simp [RemoteTreeManager.getSubtree, Message.branchOrDefault, branchTree, Option.map_eq_bind]
  rw [getSubtree, call_handled far _ rfl, hwork]
  cases branchTree far branch <;> rfl

theorem findSuccessor_eq (far : NodePtr) : findSuccessor far = far.findSuccessor.bind fun p =>
    (parseProtoNode p.1).map fun value => (p.2, some value) := by
  have hwork : RemoteTreeManager.findSuccessor far (Message.ofType .findLesserSuccessor) =
      far.findSuccessor.bind fun p => (parseProtoNode p.1).map fun value =>
        (p.2, { RemoteTreeManager.createResponse .findLesserSuccessor with
          dataNode := some value }) := by
    simp [RemoteTreeManager.findSuccessor, Option.map_eq_bind]
  rw [findSuccessor, call_handled far _ rfl, hwork]
  cases far.findSuccessor with
  | none => rfl
  | some p =>
      simp only [Option.bind_some]
      cases parseProtoNode p.1 <;> rfl

end RemoteAVLTreeClient

namespace Operation

open RemoteTreeManager RemoteAVLTreeClient

def ArgumentCounted : Operation → Prop
  | setSubtree tree => tree.Counted
  | setLeftSubtree tree => tree.Counted
  | setRightSubtree tree => tree.Counted
  | _ => True

def sentAs : Operation → Operation
  | pullRightSubtree => pullLeftSubtree
  | setSubtree tree => setSubtree tree.flat
  | setLeftSubtree tree => setLeftSubtree tree.flat
  | setRightSubtree tree => setRightSubtree tree.flat
  | op => op

def Fetches : Operation → Prop
  | getSubtree => True
  | getRightSubtree => True
  | getLeftSubtree => True
  | findSuccessor => True
  | _ => False

theorem done_eq {work work' : Option NodePtr} (h : work = work') :
    (do return (← work, Answer.done)) = (do return (← work', Answer.done)) := by rw [h]

theorem overClient_sentAs {op : Operation} (hop : op.ArgumentCounted) (hfetch : ¬ op.Fetches)
    (l r : NodePtr) (h : Int) (x : Word) (n : Int) :
    op.overClient (node l h x n r) = op.sentAs.direct (node l h x n r) := by
  cases op with
  | setData word counter => exact done_eq (tell_eq rfl rfl)
  | getWord => rfl
  | getCounter => rfl
  | getHeight => rfl
  | insert word => exact done_eq (tell_eq rfl rfl)
  | remove word => exact done_eq (tell_eq rfl rfl)
  | rotateLeft => exact done_eq (tell_eq rfl rfl)
  | rotateRight => exact done_eq (tell_eq rfl rfl)
  | pushLeftSubtree word counter => exact done_eq (tell_eq rfl rfl)
  | pushRightSubtree word counter => exact done_eq (tell_eq rfl rfl)
  | pullLeftSubtree => exact done_eq (tell_eq rfl rfl)
  | pullRightSubtree => exact done_eq (tell_eq rfl rfl)
  | setSubtree tree =>
      obtain ⟨m, hm, hflat⟩ := encoded_flat hop
      simp only [overClient, hm, Option.bind_eq_bind, Option.bind_some, sentAs, direct, ← hflat]
      exact done_eq (tell_eq rfl rfl)
  | setLeftSubtree tree =>
      obtain ⟨m, hm, hflat⟩ := encoded_flat hop
      simp only [overClient, hm, Option.bind_eq_bind, Option.bind_some, sentAs, direct, ← hflat]
      exact done_eq (tell_eq rfl rfl)
  | setRightSubtree tree =>
      obtain ⟨m, hm, hflat⟩ := encoded_flat hop
      simp only [overClient, hm, Option.bind_eq_bind, Option.bind_some, sentAs, direct, ← hflat]
      exact done_eq (tell_eq rfl rfl)
  | getSubtree => exact absurd trivial hfetch
  | getRightSubtree => exact absurd trivial hfetch
  | getLeftSubtree => exact absurd trivial hfetch
  | findSuccessor => exact absurd trivial hfetch
  | clear => exact done_eq (tell_eq rfl rfl)

theorem overClient_getSubtree {l r : NodePtr} (hl : l.AllLocal) (hr : r.AllLocal) (h : Int)
    (x : Word) (n : Int) : getSubtree.overClient (node l h x n r) =
      some (node l h x n r, .tree (node l h x n r).pruned) := by
  obtain ⟨m, hm, hpruned⟩ := encoded_pruned (t := node l h x n r) ⟨hl, hr⟩
  simp [overClient, getSubtree_eq, branchTree, hm, hpruned]

theorem overClient_getRightSubtree {l r : NodePtr} (hr : r.AllLocal) (h : Int) (x : Word)
    (n : Int) : getRightSubtree.overClient (node l h x n r) =
      some (node l h x n r, .tree r.pruned) := by
  obtain ⟨m, hm, hpruned⟩ := encoded_pruned hr
  simp [overClient, getSubtree_eq, branchTree, NodePtr.getRight, hm, hpruned]

theorem overClient_getLeftSubtree {l r : NodePtr} (hl : l.AllLocal) (h : Int) (x : Word)
    (n : Int) : getLeftSubtree.overClient (node l h x n r) =
      some (node l h x n r, .tree l.pruned) := by
  obtain ⟨m, hm, hpruned⟩ := encoded_pruned hl
  simp [overClient, getSubtree_eq, branchTree, NodePtr.getLeft, hm, hpruned]

end Operation

def Answer.Same : Answer → Answer → Prop
  | .tree t, .tree t' => t.counts = t'.counts
  | a, a' => a = a'

-- Both fail, or the serving trees have the same words, counters and shape and the answers the same
-- words and counters.
def Agree : Option (NodePtr × Answer) → Option (NodePtr × Answer) → Prop
  | some p, some q => p.1.shape = q.1.shape ∧ p.2.Same q.2
  | none, none => True
  | _, _ => False

theorem Agree.refl (v : Option (NodePtr × Answer)) : Agree v v := by
  rcases v with _ | ⟨t, a⟩
  · trivial
  · exact ⟨rfl, by cases a <;> rfl⟩

theorem agree_done {t t' : NodePtr} :
    Agree (some (t, .done)) (some (t', .done)) ↔ t.shape = t'.shape :=
  ⟨fun h => h.1, fun h => ⟨h, rfl⟩⟩

theorem agree_tree {t u u' : NodePtr} :
    Agree (some (t, .tree u)) (some (t, .tree u')) ↔ u.counts = u'.counts :=
  ⟨fun h => h.2, fun h => ⟨rfl, h⟩⟩

namespace Operation

open RemoteAVLTreeClient

-- Where the operation, sent to the tree's root, is the operation itself.
def Carried : Operation → NodePtr → Prop
  | pullRightSubtree, node l _ _ _ r => l.promoted = r.promoted
  | getSubtree, t => t.Unhidden
  | getRightSubtree, node _ _ _ _ r => r.Unhidden
  | getLeftSubtree, node l _ _ _ _ => l.Unhidden
  | _, _ => True

theorem agree_fetch {t u : NodePtr} (hu : u.AllLocal) :
    Agree (some (t, .tree u.pruned)) (some (t, .tree u.copied)) ↔ u.Unhidden := by
  have hcopy : u.copied.counts = u.counts := by cases u <;> rfl
  rw [agree_tree, hcopy, pruned_counts_iff hu]

theorem overClient_agree_iff {op : Operation} (hop : op.ArgumentCounted) {l r : NodePtr}
    (hl : l.AllLocal) (hr : r.AllLocal) (h : Int) (x : Word) (n : Int) :
    Agree (op.overClient (node l h x n r)) (op.direct (node l h x n r)) ↔
      op.Carried (node l h x n r) := by
  by_cases hfetch : op.Fetches
  · cases op with
    | getSubtree =>
        rw [overClient_getSubtree hl hr]
        simp only [direct, getSubtree_local hl hr, Carried]
        exact agree_fetch (u := node l h x n r) ⟨hl, hr⟩
    | getRightSubtree =>
        rw [overClient_getRightSubtree hr]
        simp only [direct, NodePtr.getRightSubtree, childSubtree_local hr, Carried]
        exact agree_fetch hr
    | getLeftSubtree =>
        rw [overClient_getLeftSubtree hl]
        simp only [direct, NodePtr.getLeftSubtree, childSubtree_local hl, Carried]
        exact agree_fetch hl
    | findSuccessor =>
        have hnone := findSuccessor_local (t := node l h x n r) ⟨hl, hr⟩
        simp [overClient, findSuccessor_eq, direct, hnone, Agree, Carried]
    | _ => exact hfetch.elim
  · rw [overClient_sentAs hop hfetch]
    cases op with
    | getSubtree => exact absurd trivial hfetch
    | getRightSubtree => exact absurd trivial hfetch
    | getLeftSubtree => exact absurd trivial hfetch
    | findSuccessor => exact absurd trivial hfetch
    | pullRightSubtree =>
        simp only [sentAs, direct, pullLeftSubtree_local hl hr, pullRightSubtree_local hl hr,
          Carried]
        refine agree_done.trans ?_
        simp [pulled_shape hl, pulled_shape hr, Prod.ext_iff]
    | setSubtree tree =>
        simp only [sentAs, direct, setSubtree_local hop.isLocal,
          setSubtree_local (flat_local hop.isLocal), flat_present, Carried, iff_true]
        refine agree_done.mpr ?_
        split <;> simp [ground_shape, flat_shape]
    | setLeftSubtree tree =>
        simp only [sentAs, direct, setLeftSubtree_local hl hr hop.isLocal,
          setLeftSubtree_local hl hr (flat_local hop.isLocal), Carried, iff_true]
        refine agree_done.mpr ?_
        simp only [hungLeft, flat_present]
        split <;> simp [shape, ground_shape, flat_shape]
    | setRightSubtree tree =>
        simp only [sentAs, direct, setRightSubtree_local hl hr hop.isLocal,
          setRightSubtree_local hl hr (flat_local hop.isLocal), Carried, iff_true]
        refine agree_done.mpr ?_
        simp only [hungRight, flat_present]
        split <;> simp [shape, ground_shape, flat_shape]
    | _ => exact iff_of_true (Agree.refl _) trivial

theorem overClient_agree_iff_between :
    Agree ((setLeftSubtree (node null 0 [98] 2 null)).overClient
        (node (node null 0 [97] 1 null) 1 [99] 1 (node null 0 [100] 1 null)))
      ((setLeftSubtree (node null 0 [98] 2 null)).direct
        (node (node null 0 [97] 1 null) 1 [99] 1 (node null 0 [100] 1 null))) ↔
      (setLeftSubtree (node null 0 [98] 2 null)).Carried
        (node (node null 0 [97] 1 null) 1 [99] 1 (node null 0 [100] 1 null)) :=
  overClient_agree_iff (l := node null 0 [97] 1 null) (r := node null 0 [100] 1 null)
    (show ArgumentCounted (setLeftSubtree (node null 0 [98] 2 null)) from
      ⟨by decide, trivial, trivial⟩) ⟨trivial, trivial⟩ ⟨trivial, trivial⟩ 1 [99] 1

-- pull_right_subtree sends PullLeftSubTree: on (a, b, c) it pulls up a instead of c.
theorem overClient_misdirects : ¬ ∀ (op : Operation) (l r : NodePtr) (h : Int) (x : Word) (n : Int),
    op.ArgumentCounted → l.AllLocal → r.AllLocal →
    Agree (op.overClient (node l h x n r)) (op.direct (node l h x n r)) := by
  intro hall
  have hagree := hall .pullRightSubtree (node null 0 [97] 1 null) (node null 0 [99] 1 null) 1 [98] 1
    trivial ⟨trivial, trivial⟩ ⟨trivial, trivial⟩
  exact absurd hagree.1 (by decide)

theorem proxy_eq {work work' : Option NodePtr} (h : work' = work) :
    (do return (← (do return remote (← work)), Answer.done)) =
      Option.map (fun p => (remote p.1, p.2)) (do return (← work', Answer.done)) := by
  subst h
  cases work' <;> rfl

-- The clauses for a proxy in the tree's operations are these calls.
theorem direct_remote (op : Operation) (l r : NodePtr) (h : Int) (x : Word) (n : Int) :
    op.direct (remote (node l h x n r)) =
      (op.overClient (node l h x n r)).map fun p => (remote p.1, p.2) := by
  cases op with
  | setData word counter => exact proxy_eq (tell_eq rfl rfl)
  | getWord => rfl
  | getCounter => rfl
  | getHeight => rfl
  | insert word => exact proxy_eq (tell_eq rfl rfl)
  | remove word => exact proxy_eq (tell_eq rfl rfl)
  | rotateLeft => exact proxy_eq (tell_eq rfl rfl)
  | rotateRight => exact proxy_eq (tell_eq rfl rfl)
  | pushLeftSubtree word counter => exact proxy_eq (tell_eq rfl rfl)
  | pushRightSubtree word counter => exact proxy_eq (tell_eq rfl rfl)
  | pullLeftSubtree => exact proxy_eq (tell_eq rfl rfl)
  | pullRightSubtree => exact proxy_eq (tell_eq rfl rfl)
  | setSubtree tree =>
      cases hm : parseProtoTree tree with
      | none => simp [direct, overClient, NodePtr.setSubtree, carried, hm]
      | some m =>
          simp only [direct, overClient, NodePtr.setSubtree, carried, hm, Option.bind_eq_bind,
            Option.bind_some]
          exact proxy_eq (tell_eq rfl rfl)
  | setLeftSubtree tree =>
      cases hm : parseProtoTree tree with
      | none => simp [direct, overClient, NodePtr.setLeftSubtree, carried, hm]
      | some m =>
          simp only [direct, overClient, NodePtr.setLeftSubtree, carried, hm, Option.bind_eq_bind,
            Option.bind_some]
          exact proxy_eq (tell_eq rfl rfl)
  | setRightSubtree tree =>
      cases hm : parseProtoTree tree with
      | none => simp [direct, overClient, NodePtr.setRightSubtree, carried, hm]
      | some m =>
          simp only [direct, overClient, NodePtr.setRightSubtree, carried, hm, Option.bind_eq_bind,
            Option.bind_some]
          exact proxy_eq (tell_eq rfl rfl)
  | getSubtree =>
      cases hm : parseProtoTree (node l h x n r) <;>
        simp [direct, overClient, NodePtr.getSubtree, carried, getSubtree_eq, branchTree, hm]
  | getRightSubtree =>
      cases hm : parseProtoTree r <;>
        simp [direct, overClient, NodePtr.getRightSubtree, NodePtr.getRight, carried, getSubtree_eq,
          branchTree, hm]
  | getLeftSubtree =>
      cases hm : parseProtoTree l <;>
        simp [direct, overClient, NodePtr.getLeftSubtree, NodePtr.getLeft, carried, getSubtree_eq,
          branchTree, hm]
  | findSuccessor =>
      have hfar : (remote (node l h x n r)).findSuccessor =
          (node l h x n r).findSuccessor.bind fun p =>
            (parseProtoNode p.1).bind fun value => some (parseNodeTree value, remote p.2) := rfl
      simp only [direct, overClient, findSuccessor_eq, hfar]
      cases (node l h x n r).findSuccessor with
      | none => rfl
      | some p =>
          simp only [Option.bind_some]
          cases parseProtoNode p.1 <;> rfl
  | clear => exact proxy_eq (tell_eq rfl rfl)

end Operation

end DistributedAvl
