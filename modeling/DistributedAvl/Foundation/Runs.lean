import Mathlib.Logic.Relation

namespace Runs

variable {S A : Type} (step : S → A → Option S)

def run : S → List A → Option S
  | s, [] => some s
  | s, a :: as => (step s a).bind (fun s' => run s' as)

def Along (C : S → A → Prop) : S → List A → Prop
  | _, [] => True
  | s, a :: as => C s a ∧ ∀ s', step s a = some s' → Along C s' as

def Always (P : S → Prop) : S → List A → Prop
  | s, [] => P s
  | s, a :: as => P s ∧ ∀ s', step s a = some s' → Always P s' as

variable {step}

theorem along_of_forall {C : S → A → Prop} (hC : ∀ s a, C s a) :
    ∀ (as : List A) (s : S), Along step C s as := by
  intro as
  induction as with
  | nil => intro s; trivial
  | cons a as ih => exact fun s => ⟨hC s a, fun s' _ => ih s'⟩

theorem along_and {C D : S → A → Prop} : ∀ {as : List A} {s : S}, Along step C s as →
    (∀ a ∈ as, ∀ s, D s a) → Along step (fun s a => C s a ∧ D s a) s as := by
  intro as
  induction as with
  | nil => intro s _ _; trivial
  | cons a as ih =>
      intro s hC hD
      exact ⟨⟨hC.1, hD a (by simp) s⟩, fun s' hs => ih (hC.2 s' hs) fun b hb => hD b (by simp [hb])⟩

instance decidableAlong {C : S → A → Prop} [∀ s a, Decidable (C s a)] :
    ∀ (s : S) (as : List A), Decidable (Along step C s as)
  | _, [] => isTrue trivial
  | s, a :: as =>
      match h : step s a with
      | none =>
          decidable_of_iff (C s a)
            ⟨fun hc => ⟨hc, fun s' hs => by rw [h] at hs; cases hs⟩, And.left⟩
      | some s₁ =>
          have := decidableAlong (C := C) s₁ as
          decidable_of_iff (C s a ∧ Along step C s₁ as)
            ⟨fun hc => ⟨hc.1, fun s' hs => by rw [h] at hs; cases hs; exact hc.2⟩,
              fun hc => ⟨hc.1, hc.2 s₁ h⟩⟩

theorem run_append {as bs : List A} : ∀ {s : S},
    run step s (as ++ bs) = (run step s as).bind fun s' => run step s' bs := by
  induction as with
  | nil => intro s; rfl
  | cons a as ih =>
      intro s
      simp only [List.cons_append, run, ih, Option.bind_assoc]

theorem run_history {C : S → A → Prop} {I : List A → S → Prop}
    (hstep : ∀ past s a, I past s → C s a → ∃ s', step s a = some s' ∧ I (past ++ [a]) s') :
    ∀ (as past : List A) (s : S), I past s → Along step C s as →
      ∃ s', run step s as = some s' ∧ I (past ++ as) s' := by
  intro as
  induction as with
  | nil => intro past s hs _; exact ⟨s, rfl, by simpa using hs⟩
  | cons a as ih =>
      intro past s hs hC
      obtain ⟨s₁, h₁, hs₁⟩ := hstep past s a hs hC.1
      obtain ⟨s₂, h₂, hs₂⟩ := ih (past ++ [a]) s₁ hs₁ (hC.2 s₁ h₁)
      exact ⟨s₂, by simp [run, h₁, h₂], by simpa using hs₂⟩

theorem along_history {C : S → A → Prop} {I : List A → S → Prop}
    (hstep : ∀ past s a s', I past s → C s a → step s a = some s' → I (past ++ [a]) s') :
    ∀ (as past : List A) (s s' : S), I past s → Along step C s as → run step s as = some s' →
      I (past ++ as) s' := by
  intro as
  induction as with
  | nil => intro past s s' hs _ h; cases h; simpa using hs
  | cons a as ih =>
      intro past s s' hs hC h
      obtain ⟨s₁, h₁, h₂⟩ := Option.bind_eq_some_iff.mp h
      have hrest := ih (past ++ [a]) s₁ s' (hstep past s a s₁ hs hC.1 h₁) (hC.2 s₁ h₁) h₂
      simpa using hrest

theorem run_invariant {I : S → Prop} (hstep : ∀ s a s', I s → step s a = some s' → I s') :
    ∀ (as : List A) (s s' : S), I s → run step s as = some s' → I s' := by
  intro as
  induction as with
  | nil => intro s s' hs h; cases h; exact hs
  | cons a as ih =>
      intro s s' hs h
      obtain ⟨s₁, h₁, h₂⟩ := Option.bind_eq_some_iff.mp h
      exact ih s₁ s' (hstep s a s₁ hs h₁) h₂

theorem Always.head {P : S → Prop} {s : S} {as : List A} (h : Always step P s as) : P s := by
  cases as with
  | nil => exact h
  | cons a as => exact h.1

-- When the condition on a step decides whether the step keeps P, the condition along a run decides
-- whether P holds all along it.
theorem always_iff_along {J P : S → Prop} {C : S → A → Prop}
    (hJ : ∀ s a s', J s → step s a = some s' → J s')
    (hC : ∀ s a, J s → P s → (C s a ↔ ∀ s', step s a = some s' → P s')) :
    ∀ (as : List A) (s : S), J s → P s → (Always step P s as ↔ Along step C s as) := by
  intro as
  induction as with
  | nil => intro s _ hs; exact iff_of_true hs trivial
  | cons a as ih =>
      intro s hj hs
      constructor
      · rintro ⟨-, hrest⟩
        refine ⟨(hC s a hj hs).mpr fun s' h => (hrest s' h).head, fun s' h => ?_⟩
        exact (ih s' (hJ s a s' hj h) (hrest s' h).head).mp (hrest s' h)
      · rintro ⟨hc, hrest⟩
        refine ⟨hs, fun s' h => ?_⟩
        exact (ih s' (hJ s a s' hj h) ((hC s a hj hs).mp hc s' h)).mpr (hrest s' h)

theorem Always.last {P : S → Prop} : ∀ {as : List A} {s s' : S}, Always step P s as →
    run step s as = some s' → P s' := by
  intro as
  induction as with
  | nil => intro s s' h hrun; cases hrun; exact h
  | cons a as ih =>
      intro s s' h hrun
      obtain ⟨s₁, h₁, h₂⟩ := Option.bind_eq_some_iff.mp hrun
      exact ih (h.2 s₁ h₁) h₂

-- What holds after a step held before it: then the last state decides for the whole run.
theorem always_iff_last {P : S → Prop} (hback : ∀ s a s', step s a = some s' → P s' → P s) :
    ∀ (as : List A) (s s' : S), run step s as = some s' → (Always step P s as ↔ P s') := by
  refine fun as s s' hrun => ⟨fun h => h.last hrun, ?_⟩
  induction as generalizing s with
  | nil => cases hrun; exact id
  | cons a as ih =>
      obtain ⟨s₁, h₁, h₂⟩ := Option.bind_eq_some_iff.mp hrun
      intro hlast
      have hrest := ih s₁ h₂ hlast
      refine ⟨hback s a s₁ h₁ hrest.head, fun s₂ hs₂ => ?_⟩
      rw [h₁] at hs₂
      cases hs₂
      exact hrest

end Runs
