import Mathlib.Data.List.Basic

namespace Streams

variable {σ ε π β : Type}

def readTimes (read : σ → Except ε (π × σ)) : Nat → σ → Except ε (List π × σ)
  | 0, s => .ok ([], s)
  | n + 1, s => do
      let (p, s) ← read s
      let (ps, s) ← readTimes read n s
      return (p :: ps, s)

theorem readTimes_written {read : σ → Except ε (π × σ)} {write : π → List β}
    (stream : List β → σ) {good : π → Prop}
    (hread : ∀ p rest, good p → read (stream (write p ++ rest)) = .ok (p, stream rest))
    (rest : List β) : ∀ ps : List π, (∀ p ∈ ps, good p) →
      readTimes read ps.length (stream (ps.flatMap write ++ rest)) = .ok (ps, stream rest) := by
  intro ps
  induction ps with
  | nil => intro _; rfl
  | cons p ps ih =>
      intro hgood
      have hp := hread p (ps.flatMap write ++ rest) (hgood p (by simp))
      have hps := ih fun q hq => hgood q (by simp [hq])
      rw [List.flatMap_cons, List.append_assoc, List.length_cons, readTimes, hp]
      simp only [bind, Except.bind, hps]
      rfl

theorem exists_nth {p : β → Bool} : ∀ {n : Nat} {xs : List β}, n < xs.countP p →
    ∃ before x after, xs = before ++ x :: after ∧ p x = true ∧ before.countP p = n := by
  intro n xs
  induction xs generalizing n with
  | nil => intro h; cases h
  | cons x xs ih =>
      intro h
      rw [List.countP_cons] at h
      cases hp : p x with
      | false =>
          obtain ⟨before, y, after, rfl, hy, hcount⟩ := ih (by simpa [hp] using h)
          exact ⟨x :: before, y, after, rfl, hy, by simpa [hp] using hcount⟩
      | true =>
          cases n with
          | zero => exact ⟨[], x, xs, rfl, hp, rfl⟩
          | succ n =>
              obtain ⟨before, y, after, rfl, hy, hcount⟩ := ih (by simpa [hp] using h)
              exact ⟨x :: before, y, after, rfl, hy, by simp [hp, hcount]⟩

end Streams
