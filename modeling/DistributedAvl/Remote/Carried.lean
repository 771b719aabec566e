import DistributedAvl.Tree.View

namespace DistributedAvl

open SubtreeMessageParser

namespace NodePtr

variable {l r : NodePtr} {h : Int} {x : Word} {n : Int}

def Stocked : NodePtr → Prop
  | null => True
  | node l h x n r => (node l h x n r).holds = true ∧ l.Stocked ∧ r.Stocked
  | remote _ => False

instance decidableStocked : ∀ t : NodePtr, Decidable t.Stocked
  | null => isTrue trivial
  | node l h x n r =>
      have := decidableStocked l
      have := decidableStocked r
      inferInstanceAs (Decidable ((node l h x n r).holds = true ∧ l.Stocked ∧ r.Stocked))
  | remote _ => isFalse id

def flat : NodePtr → NodePtr
  | null => null
  | node l _ x n r => node l.flat 0 x n r.flat
  | remote root => remote root.flat

theorem flat_local {t : NodePtr} (ht : t.AllLocal) : t.flat.AllLocal := by
  induction t with
  | null => trivial
  | remote root => exact ht.elim
  | node l h x n r ihl ihr => exact ⟨ihl ht.1, ihr ht.2⟩

theorem flat_present (t : NodePtr) : t.flat.present = t.present := by cases t <;> rfl

theorem flat_shape (t : NodePtr) : t.flat.shape = t.shape := by
  induction t with
  | null => rfl
  | remote root ih => exact ih
  | node l h x n r ihl ihr => simp [flat, shape, ihl, ihr]

theorem copied_shape (t : NodePtr) : t.copied.shape = t.shape := by cases t <;> rfl

theorem holds_iff : (node l h x n r).holds = true ↔ -1 < h ∧ n ≠ 0 ∧ x ≠ [] := by
  simp [holds, and_assoc]

theorem holds_leveled (hl : -1 ≤ max l.heightOf r.heightOf) (hn : n ≠ 0) (hx : x ≠ []) :
    (leveled l x n r).holds = true := holds_iff.mpr ⟨by omega, hn, hx⟩

theorem Stocked.isLocal {t : NodePtr} (ht : t.Stocked) : t.AllLocal := by
  induction t with
  | null => trivial
  | remote root => exact ht.elim
  | node l h x n r ihl ihr => exact ⟨ihl ht.2.1, ihr ht.2.2⟩

theorem Stocked.height_ge {t : NodePtr} (ht : t.Stocked) : -1 ≤ t.heightOf := by
  cases t with
  | null => exact le_refl _
  | remote root => exact ht.elim
  | node l h x n r => exact (holds_iff.mp ht.1).1.le

theorem Stocked.visible {t : NodePtr} (ht : t.Stocked) : t.visible = t.shape := by
  induction t with
  | null => rfl
  | remote root => exact ht.elim
  | node l h x n r ihl ihr => simp [NodePtr.visible, ht.1, ihl ht.2.1, ihr ht.2.2, shape]

theorem Stocked.shape_nil {t : NodePtr} (ht : t.Stocked) : t.shape = .nil ↔ t.present = false := by
  cases t with
  | null => simp [shape]
  | remote root => exact ht.elim
  | node l h x n r => simp [shape]

theorem Stocked.flat {t : NodePtr} (ht : t.Stocked) : t.flat.Stocked := by
  induction t with
  | null => trivial
  | remote root => exact ht.elim
  | node l h x n r ihl ihr =>
      obtain ⟨-, hn, hx⟩ := holds_iff.mp ht.1
      exact ⟨holds_iff.mpr ⟨by decide, hn, hx⟩, ihl ht.2.1, ihr ht.2.2⟩

theorem Stocked.copied {t : NodePtr} (ht : t.Stocked) : t.copied.Stocked := by
  cases t with
  | null => trivial
  | remote root => exact ht.elim
  | node l h x n r =>
      obtain ⟨-, hn, hx⟩ := holds_iff.mp ht.1
      have := ht.2.1.height_ge
      exact ⟨holds_leveled (by omega) hn hx, ht.2⟩

theorem Stocked.ground {t : NodePtr} (ht : t.Stocked) : t.ground.Stocked := by
  cases t with
  | null => trivial
  | remote root => exact ht.elim
  | node l h x n r =>
      obtain ⟨-, hn, hx⟩ := holds_iff.mp ht.1
      exact ⟨holds_iff.mpr ⟨by decide, hn, hx⟩, ht.2⟩

-- What is encoded, sent and decoded: heights are not sent, and counter 0 marks an absent node.
def pruned : NodePtr → NodePtr
  | node l _ x n r => if n = 0 then null else node l.pruned 0 x n r.pruned
  | _ => null

def Counted : NodePtr → Prop
  | null => True
  | node l _ _ n r => n ≠ 0 ∧ l.Counted ∧ r.Counted
  | remote _ => False

theorem Counted.isLocal {t : NodePtr} (ht : t.Counted) : t.AllLocal := by
  induction t with
  | null => trivial
  | remote root => exact ht.elim
  | node l h x n r ihl ihr => exact ⟨ihl ht.2.1, ihr ht.2.2⟩

theorem Counted.pruned {t : NodePtr} (ht : t.Counted) : t.pruned = t.flat := by
  induction t with
  | null => rfl
  | remote root => exact ht.elim
  | node l h x n r ihl ihr => simp [NodePtr.pruned, NodePtr.flat, ht.1, ihl ht.2.1, ihr ht.2.2]

theorem Stocked.counted {t : NodePtr} (ht : t.Stocked) : t.Counted := by
  induction t with
  | null => trivial
  | remote root => exact ht.elim
  | node l h x n r ihl ihr => exact ⟨(holds_iff.mp ht.1).2.1, ihl ht.2.1, ihr ht.2.2⟩

-- An absent child is an unset field.
theorem encoded_field {f : NodePtr → NodePtr} (hf : f null = null) {t : NodePtr}
    (hm : ∃ m, parseProtoTree t = some m ∧ parseTree m = f t) :
    ∃ m, (if t.present then parseProtoTree t else some .unset) = some m ∧ parseTree m = f t := by
  cases hp : t.present with
  | true => exact hm
  | false => exact ⟨.unset, rfl, by rw [present_eq_false.mp hp, hf]; rfl⟩

theorem encoded_pruned {t : NodePtr} (ht : t.AllLocal) :
    ∃ m, parseProtoTree t = some m ∧ parseTree m = t.pruned := by
  induction t with
  | null => exact ⟨_, rfl, rfl⟩
  | remote root => exact ht.elim
  | node l h x n r ihl ihr =>
      obtain ⟨ml, hml, hl⟩ := encoded_field rfl (ihl ht.1)
      obtain ⟨mr, hmr, hr⟩ := encoded_field rfl (ihr ht.2)
      refine ⟨.set (some ⟨n, x⟩) ml mr, by simp [parseProtoTree, hml, hmr], ?_⟩
      by_cases hn : n = 0 <;> simp [parseTree, parseNodeTree, NodePtr.pruned, hn, hl, hr]

theorem carried_pruned {t : NodePtr} (ht : t.AllLocal) : t.carried = some t.pruned := by
  obtain ⟨m, hm, hpruned⟩ := encoded_pruned ht
  simp [carried, hm, hpruned]

theorem encoded_flat {t : NodePtr} (ht : t.Counted) :
    ∃ m, parseProtoTree t = some m ∧ parseTree m = t.flat := by
  rw [← ht.pruned]
  exact encoded_pruned ht.isLocal

theorem carried_flat {t : NodePtr} (ht : t.Counted) : t.carried = some t.flat := by
  rw [carried_pruned ht.isLocal, ht.pruned]

end NodePtr

end DistributedAvl
