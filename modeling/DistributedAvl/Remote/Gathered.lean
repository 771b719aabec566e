import DistributedAvl.Insertion.Unrotated
import DistributedAvl.Remote.Preorder

namespace DistributedAvl

namespace NodePtr

variable {l r t g : NodePtr} {h : Int} {x w : Word} {n : Int} {words : List Word}

-- The same tree on one machine.
def gathered : NodePtr → NodePtr
  | null => null
  | node l h x n r => node l.gathered h x n r.gathered
  | remote root => root.gathered

-- Every proxy leads to a machine with a root.
def Manned (t : NodePtr) : Prop := ∀ m ∈ t.machines, m.present = true

instance decidableManned (t : NodePtr) : Decidable t.Manned :=
  inferInstanceAs (Decidable (∀ m ∈ t.machines, m.present = true))

theorem manned_node : (node l h x n r).Manned ↔ l.Manned ∧ r.Manned := by
  simp only [Manned, machines, List.forall_mem_append]

theorem manned_remote : (remote t).Manned ↔ t.present = true ∧ t.Manned := by
  simp only [Manned, machines, List.forall_mem_cons]

theorem gathered_present (ht : t.Manned) : t.gathered.present = t.present := by
  induction t with
  | null => rfl
  | node l h x n r => rfl
  | remote root ih =>
      obtain ⟨hp, hroot⟩ := manned_remote.mp ht
      rw [gathered, ih hroot, hp, present_remote]

theorem gathered_height (ht : t.Manned) : t.gathered.childHeight = t.childHeight := by
  induction t with
  | null => rfl
  | node l h x n r => rfl
  | remote root ih =>
      obtain ⟨hp, hroot⟩ := manned_remote.mp ht
      rw [gathered, ih hroot, childHeight, if_pos hp]
      rfl

structure Placed (t g : NodePtr) : Prop where
  gathered : t.gathered = g
  manned : t.Manned
  present : t.present = true

theorem still_gathered (hl : l.Manned) (hr : r.Manned)
    (hstill : ((node l.gathered h x n r.gathered).updateHeight.bind
      fun p => still p.1 p.2 w) = some g) :
    ∃ t', ((node l h x n r).updateHeight.bind fun p => still p.1 p.2 w) = some t' ∧
      Placed t' g := by
  obtain ⟨⟨this, b⟩, hup, hstill⟩ := Option.bind_eq_some_iff.mp hstill
  obtain ⟨i, hi, hup⟩ := Option.bind_eq_some_iff.mp hup
  obtain ⟨j, hj, heq⟩ := Option.bind_eq_some_iff.mp hup
  cases heq
  rw [gathered_height hl] at hi
  rw [gathered_height hr] at hj
  obtain ⟨h₁, h₂, rfl⟩ := still_some hstill
  refine ⟨node l (max i j + 1) x n r, ?_, rfl, manned_node.mpr ⟨hl, hr⟩, rfl⟩
  have hup : (node l h x n r).updateHeight = some (node l (max i j + 1) x n r, j - i) := by
    simp [updateHeight, hi, hj]
  rw [hup, Option.bind_some]
  exact still_node h₁ h₂

theorem intoBy_gathered (ht : t.Manned)
    (hins : ∀ g, t.gathered.insertBy still w = some g →
      ∃ t', t.insertBy still w = some t' ∧ Placed t' g)
    (hinto : t.gathered.intoBy still w = some g) :
    ∃ t', t.intoBy still w = some t' ∧ Placed t' g := by
  rw [intoBy, gathered_present ht] at hinto
  rw [intoBy]
  split at hinto
  · rename_i hp
    rw [if_pos hp]
    exact hins g hinto
  · rename_i hp
    rw [if_neg hp]
    cases hinto
    exact ⟨create w, rfl, rfl, by simp [Manned, create, machines], rfl⟩

theorem insertBy_gathered (ht : t.Manned) (hins : t.gathered.insertBy still w = some g) :
    ∃ t', t.insertBy still w = some t' ∧ Placed t' g := by
  induction t generalizing g with
  | null => cases hins
  | remote root ih =>
      obtain ⟨hp, hroot⟩ := manned_remote.mp ht
      obtain ⟨root', hroot', hplaced⟩ := ih hroot hins
      exact ⟨remote root', by simp [insertBy, hroot'], hplaced.gathered,
        manned_remote.mpr ⟨hplaced.present, hplaced.manned⟩, rfl⟩
  | node l h x n r ihl ihr =>
      obtain ⟨hl, hr⟩ := manned_node.mp ht
      rw [gathered] at hins
      by_cases hh : (node l h x n r).holds = true
      · have hh' : (node l.gathered h x n r.gathered).holds = true := hh
        rcases lt_trichotomy x w with hlt | rfl | hlt
        · rw [insertBy_right hh' hlt] at hins
          obtain ⟨g', hg', hrest⟩ := Option.bind_eq_some_iff.mp hins
          obtain ⟨r', hr', rfl, hmanned, -⟩ := intoBy_gathered hr (fun g => ihr hr) hg'
          rw [insertBy_right hh hlt, hr', Option.bind_some]
          exact still_gathered hl hmanned hrest
        · rw [insertBy_here hh'] at hins
          cases hins
          exact ⟨_, insertBy_here hh, rfl, manned_node.mpr ⟨hl, hr⟩, rfl⟩
        · rw [insertBy_left hh' hlt] at hins
          obtain ⟨g', hg', hrest⟩ := Option.bind_eq_some_iff.mp hins
          obtain ⟨l', hl', rfl, hmanned, -⟩ := intoBy_gathered hl (fun g => ihl hl) hg'
          rw [insertBy_left hh hlt, hl', Option.bind_some]
          exact still_gathered hmanned hr hrest
      · have hh' : ¬ (node l.gathered h x n r.gathered).holds = true := hh
        rw [insertBy_blank hh'] at hins
        cases hins
        exact ⟨_, insertBy_blank hh, rfl, manned_node.mpr ⟨hl, hr⟩, rfl⟩

theorem insertAll_gathered (ht : t.Manned)
    (hins : Runs.run (insertBy still) t.gathered words = some g) :
    ∃ t', t.insertAll words = some t' ∧ t'.gathered = g ∧ t'.Manned := by
  induction words generalizing t with
  | nil =>
      cases hins
      exact ⟨t, rfl, rfl, ht⟩
  | cons word words ih =>
      obtain ⟨g₁, h₁, h₂⟩ := Option.bind_eq_some_iff.mp hins
      obtain ⟨t₁, ht₁, rfl, hmanned, -⟩ := insertBy_gathered ht h₁
      obtain ⟨t', hrest, hg, hmanned'⟩ := ih hmanned h₂
      have hrun : Runs.run insert t₁ words = some t' := hrest
      refine ⟨t', ?_, hg, hmanned'⟩
      rw [insertAll, Runs.run, insertBy_still ht₁, Option.bind_some, hrun]

-- a on the machine to the left and b here; then a again, and c.
theorem insertAll_gathered_left : ∃ t',
    (node (remote (create [97])) 1 [98] 1 null).insertAll [[97], [99]] = some t' ∧
      t'.gathered = node (node null 0 [97] 2 null) 1 [98] 1 (create [99]) ∧ t'.Manned :=
  insertAll_gathered (by decide) rfl

end NodePtr

end DistributedAvl
