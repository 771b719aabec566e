import DistributedAvl.Removal.Absent

namespace DistributedAvl

namespace NodePtr

variable {l r t : NodePtr} {h : Int} {x : Word} {n : Int} {w : Word}

theorem stuck_absent (ht : ValidAvl t) (hw : ¬ t.Holds w) : t.stuck w = false := by
  induction t with
  | null => rfl
  | remote root => exact ht.isLocal.elim
  | node l h x n r ihl ihr =>
      obtain ⟨hne, hl, hr⟩ := ht.absent_sides hw
      simp only [stuck, hne, if_false]
      split
      · exact ihr ht.right hr
      · exact ihl ht.left hl

theorem remove_none (ht : ValidAvl t) (hs : t.stuck w = true) : t.remove w = none := by
  by_cases hw : t.Holds w
  · rcases stuck_or_removed ht hw with ⟨-, hnone⟩ | ⟨hfree, -⟩
    · exact hnone
    · rw [hs] at hfree
      cases hfree
  · rw [stuck_absent ht hw] at hs
    cases hs

theorem remove_some (ht : ValidAvl t) (hp : t.present = true) (hs : t.stuck w = false) :
    ∃ l h x n r, t.remove w = some (node l h x n r) := by
  by_cases hw : t.Holds w
  · rcases stuck_or_removed ht hw with ⟨hstuck, -⟩ | ⟨-, hsome⟩
    · rw [hs] at hstuck
      cases hstuck
    · exact hsome
  · obtain ⟨l, h, x, n, r, -, hrem⟩ := remove_absent ht hp hw
    rw [hrem]
    split
    · exact ⟨_, _, _, _, _, rfl⟩
    · exact ⟨_, _, _, _, _, rfl⟩

theorem stuck_fresh (w : Word) : fresh.stuck w = false := by
  simp only [fresh, stuck]
  split
  · rfl
  · split <;> rfl

theorem remove_safe_iff (ht : node l h x n r = fresh ∨ ValidAvl (node l h x n r)) (w : Word) :
    ((node l h x n r).remove w).isSome = true ↔ (node l h x n r).stuck w = false := by
  rcases ht with heq | ht
  · rw [heq, remove_fresh]
    exact iff_of_true rfl (stuck_fresh w)
  · cases hs : (node l h x n r).stuck w with
    | true => simp [remove_none ht hs]
    | false =>
        obtain ⟨a, k, y, m, b, hrem⟩ := remove_some ht rfl hs
        simp [hrem]

theorem remove_safe_iff_chain :
    ((node (node null 0 [97] 1 null) 1 [98] 1 null).remove [98]).isSome = true ↔
      (node (node null 0 [97] 1 null) 1 [98] 1 null).stuck [98] = false :=
  remove_safe_iff (Or.inr (by decide)) [98]

-- (-, a, b) without a: hasWord is called through the missing left child.
theorem remove_follows_null : ¬ ∀ t w, ValidAvl t → t.present = true →
    (t.remove w).isSome = true := by
  intro hall
  have hvalid : ValidAvl (node null 1 [97] 1 (node null 0 [98] 1 null)) := by decide
  exact absurd (hall _ [97] hvalid rfl) (by decide)

-- The node found has the first pair, and what is left has the others.
def FindsFirst (t : NodePtr) : Prop :=
  ∃ value t' x n rest, t.findSuccessor = some (value, t') ∧ t.entries = (x, n) :: rest ∧
    value.getWord = some x ∧ value.getCounter = some n ∧ t'.entries = rest

-- The descent stops only where hasWord is called through the missing left child.
theorem findsFirst_never (ht : ValidAvl t) : ¬ t.FindsFirst := by
  rintro ⟨value, t', x, n, rest, hfound, -⟩
  rw [findSuccessor_local ht.isLocal] at hfound
  cases hfound

theorem findsFirst_never_pair :
    ¬ (node (node null 0 [97] 1 null) 1 [98] 1 null).FindsFirst :=
  findsFirst_never (by decide)

theorem findSuccessor_follows_null : ¬ ∀ t, ValidAvl t → t.present = true → t.FindsFirst := by
  intro hall
  have hvalid : ValidAvl (node null 0 [97] 1 null) := by decide
  obtain ⟨value, t', x, n, rest, hfound, -⟩ := hall _ hvalid rfl
  have hnone : (node null 0 [97] 1 null).findSuccessor = none := rfl
  rw [hnone] at hfound
  cases hfound

end NodePtr

end DistributedAvl
