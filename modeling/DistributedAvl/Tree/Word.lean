import Mathlib.Data.List.Lex
import Mathlib.Order.Fin.Basic

namespace DistributedAvl

abbrev Byte := Fin 256

abbrev Word := List Byte

-- std::string::compare: bytes as unsigned char, then length; only the sign is used.
def Word.compare : Word → Word → Int
  | [], [] => 0
  | [], _ :: _ => -1
  | _ :: _, [] => 1
  | a :: s, b :: t => if a < b then -1 else if b < a then 1 else Word.compare s t

theorem Word.compare_eq_zero : ∀ {s t : Word}, Word.compare s t = 0 ↔ s = t := by
  intro s
  induction s with
  | nil => intro t; cases t <;> simp [Word.compare]
  | cons a s ih =>
      intro t
      cases t with
      | nil => simp [Word.compare]
      | cons b t =>
          rcases lt_trichotomy a b with h | h | h
          · simp [Word.compare, h, h.ne]
          · simp [Word.compare, h, ih]
          · simp [Word.compare, h, h.ne', h.not_gt]

theorem Word.compare_neg : ∀ {s t : Word}, Word.compare s t < 0 ↔ s < t := by
  intro s
  induction s with
  | nil => intro t; cases t <;> simp [Word.compare]
  | cons a s ih =>
      intro t
      cases t with
      | nil => simp [Word.compare]
      | cons b t =>
          rcases lt_trichotomy a b with h | h | h
          · simp [Word.compare, h, List.cons_lt_cons_iff]
          · simp [Word.compare, h, ih]
          · simp [Word.compare, h, h.not_gt, h.ne', List.cons_lt_cons_iff]

theorem Word.compare_pos {s t : Word} : 0 < Word.compare s t ↔ t < s := by
  rcases lt_trichotomy s t with h | h | h
  · have hc := Word.compare_neg.mpr h
    exact ⟨fun hp => absurd hp hc.not_gt, fun hp => absurd hp h.not_gt⟩
  · rw [Word.compare_eq_zero.mpr h, h]
    simp
  · have hn : ¬ Word.compare s t < 0 := fun hc => h.not_gt (Word.compare_neg.mp hc)
    have hz : Word.compare s t ≠ 0 := fun hc => h.ne' (Word.compare_eq_zero.mp hc)
    exact ⟨fun _ => h, fun _ => by omega⟩

theorem Word.nil_lt {w : Word} (hw : w ≠ []) : [] < w := by
  cases w with
  | nil => exact absurd rfl hw
  | cons a w => exact List.nil_lt_cons a w

end DistributedAvl
