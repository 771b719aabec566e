import Mathlib.Data.List.Induction
import Mathlib.Data.List.Sort
import Mathlib.Data.List.Perm.Basic
import Mathlib.Tactic.SplitIfs

namespace Tally

variable {κ : Type} [LinearOrder κ]

def Increasing (xs : List (κ × Int)) : Prop := xs.Pairwise (fun p q => p.1 < q.1)

instance decidableIncreasing (xs : List (κ × Int)) : Decidable (Increasing xs) :=
  inferInstanceAs (Decidable (xs.Pairwise fun p q => p.1 < q.1))

def tally (k : κ) : List (κ × Int) → List (κ × Int)
  | [] => [(k, 1)]
  | (x, n) :: xs =>
      if k = x then (x, n + 1) :: xs
      else if k < x then (k, 1) :: (x, n) :: xs
      else (x, n) :: tally k xs

def untally (k : κ) (xs : List (κ × Int)) : List (κ × Int) :=
  xs.filterMap (fun p => if p.1 = k then if p.2 ≤ 1 then none else some (p.1, p.2 - 1) else some p)

def tallyAll (ks : List κ) : List (κ × Int) := ks.foldl (fun acc k => tally k acc) []

def look (k : κ) : List (κ × Int) → Option Int
  | [] => none
  | (x, n) :: xs => if k = x then some n else look k xs

theorem increasing_append {xs ys : List (κ × Int)} :
    Increasing (xs ++ ys) ↔
      Increasing xs ∧ Increasing ys ∧ ∀ p ∈ xs, ∀ q ∈ ys, p.1 < q.1 := List.pairwise_append

theorem increasing_cons {p : κ × Int} {xs : List (κ × Int)} :
    Increasing (p :: xs) ↔ (∀ q ∈ xs, p.1 < q.1) ∧ Increasing xs := List.pairwise_cons

theorem tally_skip {k : κ} : ∀ {xs ys : List (κ × Int)}, (∀ p ∈ xs, p.1 < k) →
    tally k (xs ++ ys) = xs ++ tally k ys := by
  intro xs
  induction xs with
  | nil => intro ys _; rfl
  | cons p xs ih =>
      intro ys h
      have hp : p.1 < k := h p (by simp)
      have hxs : tally k (xs ++ ys) = xs ++ tally k ys := ih fun q hq => h q (by simp [hq])
      simp [tally, hp.ne', hp.not_gt, hxs]

theorem tally_before {k x : κ} {n : Int} (h : k < x) (ys : List (κ × Int)) :
    ∀ xs : List (κ × Int), tally k (xs ++ (x, n) :: ys) = tally k xs ++ (x, n) :: ys := by
  intro xs
  induction xs with
  | nil => simp [tally, h, h.ne]
  | cons p xs ih =>
      simp only [List.cons_append, tally]
      split_ifs
      · rfl
      · rfl
      · rw [ih]; rfl

theorem tally_right {k x : κ} {n : Int} {xs ys : List (κ × Int)}
    (hs : Increasing (xs ++ (x, n) :: ys)) (h : x < k) :
    tally k (xs ++ (x, n) :: ys) = xs ++ (x, n) :: tally k ys := by
  have hxs : ∀ p ∈ xs ++ [(x, n)], p.1 < k := by
    intro p hp
    rcases List.mem_append.mp hp with hp | hp
    · exact ((increasing_append.mp hs).2.2 p hp (x, n) (by simp)).trans h
    · simp only [List.mem_singleton] at hp
      rw [hp]; exact h
  have hskip : tally k ((xs ++ [(x, n)]) ++ ys) = (xs ++ [(x, n)]) ++ tally k ys := tally_skip hxs
  simpa using hskip

theorem tally_here {x : κ} {n : Int} {xs ys : List (κ × Int)}
    (hs : Increasing (xs ++ (x, n) :: ys)) :
    tally x (xs ++ (x, n) :: ys) = xs ++ (x, n + 1) :: ys := by
  have hxs : ∀ p ∈ xs, p.1 < x := fun p hp => (increasing_append.mp hs).2.2 p hp (x, n) (by simp)
  rw [tally_skip hxs]
  simp [tally]

theorem mem_tally_key {k : κ} : ∀ {xs : List (κ × Int)} {p : κ × Int},
    p ∈ tally k xs → p.1 = k ∨ ∃ q ∈ xs, q.1 = p.1 := by
  intro xs
  induction xs with
  | nil => intro p hp; simp only [tally, List.mem_singleton] at hp; simp [hp]
  | cons q xs ih =>
      intro p hp
      simp only [tally] at hp
      split_ifs at hp with h1 h2
      · rcases List.mem_cons.mp hp with rfl | hp
        · exact Or.inl h1.symm
        · exact Or.inr ⟨p, by simp [hp], rfl⟩
      · rcases List.mem_cons.mp hp with rfl | hp
        · exact Or.inl rfl
        · exact Or.inr ⟨p, hp, rfl⟩
      · rcases List.mem_cons.mp hp with rfl | hp
        · exact Or.inr ⟨_, List.mem_cons_self .., rfl⟩
        · rcases ih hp with h | ⟨r, hr, he⟩
          · exact Or.inl h
          · exact Or.inr ⟨r, List.mem_cons_of_mem _ hr, he⟩

theorem tally_increasing {k : κ} : ∀ {xs : List (κ × Int)}, Increasing xs →
    Increasing (tally k xs) := by
  intro xs
  induction xs with
  | nil => intro _; simp [tally, Increasing]
  | cons p xs ih =>
      intro h
      obtain ⟨hp, hxs⟩ := increasing_cons.mp h
      simp only [tally]
      split_ifs with h1 h2
      · exact increasing_cons.mpr ⟨hp, hxs⟩
      · refine increasing_cons.mpr ⟨?_, h⟩
        intro q hq
        rcases List.mem_cons.mp hq with rfl | hq
        · exact h2
        · exact h2.trans (hp q hq)
      · refine increasing_cons.mpr ⟨?_, ih hxs⟩
        intro q hq
        rcases mem_tally_key hq with he | ⟨r, hr, he⟩
        · rw [he]; exact lt_of_le_of_ne (not_lt.mp h2) (Ne.symm h1)
        · rw [← he]; exact hp r hr

theorem look_tally {k j : κ} : ∀ (xs : List (κ × Int)), Increasing xs →
    look j (tally k xs) = if j = k then some ((look k xs).getD 0 + 1) else look j xs := by
  intro xs
  induction xs with
  | nil => intro _; by_cases h : j = k <;> simp [tally, look, h]
  | cons p xs ih =>
      intro h
      obtain ⟨hp, hxs⟩ := increasing_cons.mp h
      have hfresh : ∀ {i : κ}, i < p.1 → look i xs = none := by
        intro i hi
        clear ih h hxs
        induction xs with
        | nil => rfl
        | cons q xs ih =>
            have hq : i ≠ q.1 := (hi.trans (hp q (by simp))).ne
            simp [look, hq, ih (fun r hr => hp r (by simp [hr]))]
      obtain ⟨x, n⟩ := p
      by_cases hkx : k = x
      · subst hkx
        by_cases hj : j = k <;> simp [tally, look, hj]
      · by_cases hlt : k < x
        · have hk : look k xs = none := hfresh hlt
          by_cases hj : j = k <;> simp [tally, look, hkx, hlt, hk, hj]
        · have hcons : tally k ((x, n) :: xs) = (x, n) :: tally k xs := by simp [tally, hkx, hlt]
          by_cases hj : j = x
          · subst hj
            simp [hcons, look, Ne.symm hkx]
          · simp [hcons, look, hj, hkx, ih hxs]

theorem tallyAll_append (ks : List κ) (k : κ) : tallyAll (ks ++ [k]) = tally k (tallyAll ks) := by
  simp [tallyAll]

theorem tallyAll_increasing (ks : List κ) : Increasing (tallyAll ks) := by
  induction ks using List.reverseRecOn with
  | nil => exact List.Pairwise.nil
  | append_singleton ks k ih => rw [tallyAll_append]; exact tally_increasing ih

theorem look_tallyAll [BEq κ] [LawfulBEq κ] (k : κ) (ks : List κ) :
    look k (tallyAll ks) = if k ∈ ks then some (ks.count k : Int) else none := by
  induction ks using List.reverseRecOn with
  | nil => rfl
  | append_singleton ks j ih =>
      rw [tallyAll_append, look_tally _ (tallyAll_increasing ks)]
      by_cases hk : k = j
      · subst hk
        by_cases hm : k ∈ ks <;> simp [ih, hm, List.count_append, List.count_eq_zero.mpr]
      · have hkj : ¬ j = k := fun h => hk h.symm
        simp [hk, ih, List.count_append, hkj]

theorem untally_append (k : κ) (xs ys : List (κ × Int)) :
    untally k (xs ++ ys) = untally k xs ++ untally k ys := List.filterMap_append

theorem untally_absent {k : κ} {xs : List (κ × Int)} (h : ∀ p ∈ xs, p.1 ≠ k) :
    untally k xs = xs := by
  induction xs with
  | nil => rfl
  | cons p xs ih =>
      have hp := h p (by simp)
      have hxs := ih fun q hq => h q (by simp [hq])
      simp only [untally] at hxs
      simp [untally, hp, hxs]

theorem untally_increasing {k : κ} {xs : List (κ × Int)} (hs : Increasing xs) :
    Increasing (untally k xs) := by
  refine List.Pairwise.filterMap _ ?_ hs
  intro p q hpq p' hp' q' hq'
  have hkey : ∀ {a b : κ × Int}, b ∈ (if a.1 = k then if a.2 ≤ 1 then none else some (a.1, a.2 - 1)
      else some a) → b.1 = a.1 := by
    intro a b hb
    split_ifs at hb with h₁ h₂ <;> simp at hb <;> rw [← hb]
  rw [hkey hp', hkey hq']
  exact hpq

theorem untally_here {k : κ} {n : Int} {xs ys : List (κ × Int)}
    (hs : Increasing (xs ++ (k, n) :: ys)) :
    untally k (xs ++ (k, n) :: ys) = xs ++ (if n ≤ 1 then [] else [(k, n - 1)]) ++ ys := by
  obtain ⟨-, hys, hlt⟩ := increasing_append.mp hs
  have hbefore : untally k xs = xs := untally_absent fun p hp => (hlt p hp (k, n) (by simp)).ne
  have hafter : untally k ys = ys :=
    untally_absent fun p hp => ((increasing_cons.mp hys).1 p hp).ne'
  rw [show xs ++ (k, n) :: ys = xs ++ ([(k, n)] ++ ys) from rfl, untally_append, untally_append,
    hbefore, hafter, ← List.append_assoc]
  congr 2
  simp only [untally, List.filterMap_cons, if_true, List.filterMap_nil]
  split_ifs <;> rfl

theorem untally_eq_nil {k : κ} {xs : List (κ × Int)} (hs : Increasing xs)
    (hmem : ∃ n, (k, n) ∈ xs) : untally k xs = [] ↔ ∃ n, n ≤ 1 ∧ xs = [(k, n)] := by
  obtain ⟨n, hn⟩ := hmem
  obtain ⟨as, bs, rfl⟩ := List.append_of_mem hn
  rw [untally_here hs]
  constructor
  · intro h
    simp only [List.append_eq_nil_iff] at h
    obtain ⟨⟨rfl, hone⟩, rfl⟩ := h
    by_cases hle : n ≤ 1
    · exact ⟨n, hle, rfl⟩
    · simp [hle] at hone
  · rintro ⟨m, hm, heq⟩
    rcases as with _ | ⟨a, as⟩
    · simp only [List.nil_append, List.cons.injEq, Prod.mk.injEq, true_and] at heq
      obtain ⟨rfl, rfl⟩ := heq
      simp [hm]
    · simp at heq

end Tally
