import Mathlib.Logic.Relation

namespace HeapOrder

def Below (size : Nat) (n child : Nat) : Prop := 2 ≤ child ∧ child ≤ size ∧ child / 2 = n

theorem below_iff {size n child : Nat} :
    Below size n child ↔ child ≤ size ∧ 1 ≤ n ∧ (child = 2 * n ∨ child = 2 * n + 1) := by
  simp only [Below]
  omega

theorem below_unique {size child : Nat} (hlow : 2 ≤ child) (hhigh : child ≤ size) :
    ∃ n, Below size n child ∧ ∀ m, Below size m child → m = n :=
  ⟨child / 2, ⟨hlow, hhigh, rfl⟩, fun _ hm => hm.2.2.symm⟩

theorem reached {size : Nat} : ∀ n, 1 ≤ n → n ≤ size →
    Relation.ReflTransGen (Below size) 1 n := by
  intro n
  induction n using Nat.strongRecOn with
  | ind n ih =>
      intro hlow hhigh
      rcases Nat.lt_or_ge n 2 with h | h
      · obtain rfl : n = 1 := by omega
        exact Relation.ReflTransGen.refl
      · exact (ih (n / 2) (by omega) (by omega) (by omega)).tail ⟨h, hhigh, rfl⟩

end HeapOrder
