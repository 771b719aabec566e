import DistributedAvl.Tree.Local

namespace DistributedAvl

namespace NodePtr

-- Exact stored heights, balance within one, word-less nodes only as leaves.
inductive Shaped : NodePtr → Prop
  | nil : Shaped null
  | blank : Shaped (node null 0 [] 0 null)
  | bin {l r : NodePtr} {h : Int} {x : Word} {n : Int} : Shaped l → Shaped r →
      h = max l.heightOf r.heightOf + 1 → l.heightOf ≤ r.heightOf + 1 →
      r.heightOf ≤ l.heightOf + 1 → 0 < n → x ≠ [] → Shaped (node l h x n r)

def grows : NodePtr → Word → Bool
  | null, _ => true
  | node l h x n r, w =>
      (node l h x n r).holds && decide (w ≠ x) && decide (l.heightOf = r.heightOf) &&
        (if x < w then r.grows w else l.grows w)
  | remote _, _ => false

-- The node at which inserting w rebalances: the lowest one that leans to the side that grows.
def pivot : NodePtr → Word → Option NodePtr
  | null, _ => none
  | node l h x n r, w =>
      if (node l h x n r).holds && decide (w ≠ x) then
        if x < w then
          if r.grows w && decide (l.heightOf < r.heightOf) then some (node l h x n r)
          else r.pivot w
        else
          if l.grows w && decide (r.heightOf < l.heightOf) then some (node l h x n r)
          else l.pivot w
      else none
  | remote _, _ => none

def graft : NodePtr → Word → NodePtr
  | null, w => create w
  | node l h x n r, w =>
      if (node l h x n r).holds then
        if w = x then node l h x (n + 1) r
        else if x < w then leveled l x n (r.graft w)
        else leveled (l.graft w) x n r
      else node l 0 w (n + 1) r
  | remote root, _ => remote root

def insertInto (child : NodePtr) (word : Word) : Option NodePtr :=
  if child.present then child.insert word else some (create word)

theorem Shaped.allLocal {t : NodePtr} (ht : Shaped t) : t.AllLocal := by
  induction ht with
  | nil => trivial
  | blank => exact ⟨trivial, trivial⟩
  | bin _ _ _ _ _ _ _ ihl ihr => exact ⟨ihl, ihr⟩

theorem Shaped.height_ge {t : NodePtr} (ht : Shaped t) : -1 ≤ t.heightOf := by
  induction ht with
  | nil => exact le_refl _
  | blank => simp [heightOf]
  | bin _ _ hh _ _ _ _ ihl ihr => simp only [heightOf]; omega

theorem Shaped.height_neg {t : NodePtr} (ht : Shaped t) (h : t.heightOf = -1) : t = null := by
  cases ht with
  | nil => rfl
  | blank => simp [heightOf] at h
  | bin hl hr hh _ _ _ _ =>
      have := hl.height_ge
      simp only [heightOf] at h; omega

theorem Shaped.height_zero {t : NodePtr} (ht : Shaped t) (h : t.heightOf = 0) :
    ∃ x n, t = node null 0 x n null ∧ (x = [] ∧ n = 0 ∨ x ≠ [] ∧ 0 < n) := by
  cases ht with
  | nil => simp [heightOf] at h
  | blank => exact ⟨[], 0, rfl, Or.inl ⟨rfl, rfl⟩⟩
  | @bin l r k x n hl hr hh _ _ hn hx =>
      have := hl.height_ge
      have := hr.height_ge
      simp only [heightOf] at h
      have hl' := hl.height_neg (by omega)
      have hr' := hr.height_neg (by omega)
      subst hl' hr' h
      exact ⟨x, n, rfl, Or.inr ⟨hx, hn⟩⟩

theorem holds_node {l r : NodePtr} {h : Int} {x : Word} {n : Int} (hh : -1 < h) (hn : 0 < n)
    (hx : x ≠ []) : (node l h x n r).holds = true := by
  simp [holds, hh, hn.ne', hx]

theorem grows_node {l r : NodePtr} {h : Int} {x w : Word} {n : Int}
    (hg : (node l h x n r).grows w = true) :
    l.heightOf = r.heightOf ∧ (x < w ∧ r.grows w = true ∨ w < x ∧ l.grows w = true) := by
  simp only [grows, Bool.and_eq_true, decide_eq_true_eq] at hg
  obtain ⟨⟨⟨-, hne⟩, heq⟩, hside⟩ := hg
  refine ⟨heq, ?_⟩
  by_cases hlt : x < w
  · exact Or.inl ⟨hlt, by simpa [hlt] using hside⟩
  · exact Or.inr ⟨lt_of_le_of_ne (not_lt.mp hlt) hne, by simpa [hlt] using hside⟩

theorem pivot_of_grows {w : Word} : ∀ t : NodePtr, t.grows w = true → t.pivot w = none := by
  intro t
  induction t with
  | null => intro _; rfl
  | remote root => intro _; rfl
  | node l h x n r ihl ihr =>
      intro hg
      obtain ⟨heq, ⟨hlt, hr⟩ | ⟨hlt, hl⟩⟩ := grows_node hg
      · simp [pivot, hlt, heq, ihr hr]
      · simp [pivot, hlt.not_gt, heq, ihl hl]

theorem balance_still {l r : NodePtr} {h : Int} {x : Word} {n b : Int} (w : Word)
    (h₁ : b ≠ 2) (h₂ : b ≠ -2) : (node l h x n r).balance b w = some (node l h x n r) := by
  simp [balance, h₁, h₂]

-- insert with another function in the place of balance.
def insertBy (balance : NodePtr → Int → Word → Option NodePtr) : NodePtr → Word → Option NodePtr
  | null, _ => none
  | node l h w c r, word => do
      if !(← (node l h w c r).hasWord) then (node l h w c r).setWord word
      else if ← (node l h w c r).equalWord word then (node l h w c r).increaseCounter
      else
        let this ← (do
          if ← (node l h w c r).greaterWord word then
            if r.present then return node l h w c (← r.insertBy balance word)
            else return node l h w c (create word)
          else
            if l.present then return node (← l.insertBy balance word) h w c r
            else return node (create word) h w c r)
        let (this, balance_value) ← this.updateHeight
        balance this balance_value word
  | remote root, word => do return remote (← root.insertBy balance word)

def intoBy (balance : NodePtr → Int → Word → Option NodePtr) (child : NodePtr) (word : Word) :
    Option NodePtr :=
  if child.present then child.insertBy balance word else some (create word)

theorem insertBy_balance (t : NodePtr) (w : Word) : t.insertBy balance w = t.insert w := by
  induction t with
  | null => rfl
  | remote root ih => simp [insertBy, insert, ih]
  | node l h x n r ihl ihr => simp [insertBy, insert, ihl, ihr]

theorem intoBy_balance (t : NodePtr) (w : Word) : t.intoBy balance w = t.insertInto w := by
  rw [intoBy, insertInto, insertBy_balance]

section

variable {l r : NodePtr} {h : Int} {x w : Word} {n : Int}
  {balance' : NodePtr → Int → Word → Option NodePtr}

theorem insertBy_blank (hh : (node l h x n r).holds ≠ true) :
    (node l h x n r).insertBy balance' w = some (node l 0 w (n + 1) r) := by
  simp [insertBy, hasWord_node, hh, setWord]

theorem insertBy_here (hh : (node l h x n r).holds = true) :
    (node l h x n r).insertBy balance' x = some (node l h x (n + 1) r) := by
  have hc : Word.compare x x = 0 := Word.compare_eq_zero.mpr rfl
  simp [insertBy, hasWord_node, hh, equalWord, getWord, hc, increaseCounter]

theorem insertBy_right (hh : (node l h x n r).holds = true) (hlt : x < w) :
    (node l h x n r).insertBy balance' w = (r.intoBy balance' w).bind fun r' =>
      (node l h x n r').updateHeight.bind fun p => balance' p.1 p.2 w := by
  have hne : Word.compare w x ≠ 0 := fun hc => hlt.ne' (Word.compare_eq_zero.mp hc)
  have hgt : Word.compare w x > 0 := Word.compare_pos.mpr hlt
  cases hp : r.present <;>
    simp [insertBy, intoBy, hasWord_node, hh, equalWord, greaterWord, getWord, hne, hgt, hp,
      Option.bind_assoc]

theorem insertBy_left (hh : (node l h x n r).holds = true) (hlt : w < x) :
    (node l h x n r).insertBy balance' w = (l.intoBy balance' w).bind fun l' =>
      (node l' h x n r).updateHeight.bind fun p => balance' p.1 p.2 w := by
  have hne : Word.compare w x ≠ 0 := fun hc => hlt.ne (Word.compare_eq_zero.mp hc)
  have hgt : ¬ Word.compare w x > 0 := fun hc => hlt.not_gt (Word.compare_pos.mp hc)
  cases hp : l.present <;>
    simp [insertBy, intoBy, hasWord_node, hh, equalWord, greaterWord, getWord, hne, hgt, hp,
      Option.bind_assoc]

theorem insertInto_node : (node l h x n r).insertInto w = (node l h x n r).insert w := rfl

theorem intoBy_node :
    (node l h x n r).intoBy balance' w = (node l h x n r).insertBy balance' w := rfl

theorem intoBy_mono {balance₁ balance₂ : NodePtr → Int → Word → Option NodePtr} {t t' : NodePtr}
    (hins : t.insertBy balance₁ w = some t' → t.insertBy balance₂ w = some t')
    (hinto : t.intoBy balance₁ w = some t') : t.intoBy balance₂ w = some t' := by
  rw [intoBy] at hinto ⊢
  split at hinto
  · rename_i hp
    rw [if_pos hp]
    exact hins hinto
  · rename_i hp
    rwa [if_neg hp]

theorem insertBy_mono {balance₁ balance₂ : NodePtr → Int → Word → Option NodePtr}
    (hmono : ∀ t b t', balance₁ t b w = some t' → balance₂ t b w = some t') {t t' : NodePtr}
    (hins : t.insertBy balance₁ w = some t') : t.insertBy balance₂ w = some t' := by
  induction t generalizing t' with
  | null => cases hins
  | remote root ih =>
      obtain ⟨root', hroot, hsome⟩ := Option.bind_eq_some_iff.mp hins
      simp only [insertBy, ih hroot]
      exact hsome
  | node l h x n r ihl ihr =>
      by_cases hh : (node l h x n r).holds = true
      · rcases lt_trichotomy x w with hlt | rfl | hlt
        · rw [insertBy_right hh hlt] at hins ⊢
          obtain ⟨r', hr', hrest⟩ := Option.bind_eq_some_iff.mp hins
          obtain ⟨p, hp, hbal⟩ := Option.bind_eq_some_iff.mp hrest
          rw [intoBy_mono ihr hr', Option.bind_some, hp, Option.bind_some]
          exact hmono _ _ _ hbal
        · rw [insertBy_here hh] at hins ⊢
          exact hins
        · rw [insertBy_left hh hlt] at hins ⊢
          obtain ⟨l', hl', hrest⟩ := Option.bind_eq_some_iff.mp hins
          obtain ⟨p, hp, hbal⟩ := Option.bind_eq_some_iff.mp hrest
          rw [intoBy_mono ihl hl', Option.bind_some, hp, Option.bind_some]
          exact hmono _ _ _ hbal
      · rw [insertBy_blank hh] at hins ⊢
        exact hins

end

theorem insert_blank {l r : NodePtr} {h : Int} {x w : Word} {n : Int}
    (hh : (node l h x n r).holds ≠ true) :
    (node l h x n r).insert w = some (node l 0 w (n + 1) r) := by
  rw [← insertBy_balance, insertBy_blank hh]

theorem insert_here {l r : NodePtr} {h : Int} {x : Word} {n : Int}
    (hh : (node l h x n r).holds = true) :
    (node l h x n r).insert x = some (node l h x (n + 1) r) := by
  rw [← insertBy_balance, insertBy_here hh]

theorem insert_right_eq {l r : NodePtr} {h : Int} {x w : Word} {n : Int}
    (hh : (node l h x n r).holds = true) (hlt : x < w) :
    (node l h x n r).insert w = (r.insertInto w).bind fun r' =>
      (node l h x n r').updateHeight.bind fun p => p.1.balance p.2 w := by
  rw [← insertBy_balance, insertBy_right hh hlt, intoBy_balance]

theorem insert_left_eq {l r : NodePtr} {h : Int} {x w : Word} {n : Int}
    (hh : (node l h x n r).holds = true) (hlt : w < x) :
    (node l h x n r).insert w = (l.insertInto w).bind fun l' =>
      (node l' h x n r).updateHeight.bind fun p => p.1.balance p.2 w := by
  rw [← insertBy_balance, insertBy_left hh hlt, intoBy_balance]

theorem insert_right {l r : NodePtr} {h : Int} {x w : Word} {n : Int}
    (hh : (node l h x n r).holds = true) (hl : l.AllLocal) (hlt : x < w) {r' : NodePtr}
    (hr' : r'.AllLocal) (hr : r.insertInto w = some r') :
    (node l h x n r).insert w = (leveled l x n r').balance (r'.heightOf - l.heightOf) w := by
  rw [insert_right_eq hh hlt, hr, Option.bind_some, updateHeight_local hl hr', Option.bind_some]

theorem insert_left {l r : NodePtr} {h : Int} {x w : Word} {n : Int}
    (hh : (node l h x n r).holds = true) (hr : r.AllLocal) (hlt : w < x) {l' : NodePtr}
    (hl' : l'.AllLocal) (hl : l.insertInto w = some l') :
    (node l h x n r).insert w = (leveled l' x n r).balance (r.heightOf - l'.heightOf) w := by
  rw [insert_left_eq hh hlt, hl, Option.bind_some, updateHeight_local hl' hr, Option.bind_some]

end NodePtr

end DistributedAvl
