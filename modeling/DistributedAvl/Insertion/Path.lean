import DistributedAvl.Insertion.Pivot

namespace DistributedAvl

namespace NodePtr

variable {w : Word}

def lift (t : NodePtr) (w : Word) : Int := if t.grows w then 1 else 0

theorem lift_cases (t : NodePtr) (w : Word) :
    t.grows w = true ∧ t.lift w = 1 ∨ t.grows w = false ∧ t.lift w = 0 := by
  by_cases h : t.grows w = true
  · exact Or.inl ⟨h, by simp [lift, h]⟩
  · exact Or.inr ⟨by simpa using h, by simp [lift, h]⟩

structure Filled (l : NodePtr) (h : Int) (x : Word) (n : Int) (r : NodePtr) : Prop where
  left : Shaped l
  right : Shaped r
  height : h = max l.heightOf r.heightOf + 1
  left_le : l.heightOf ≤ r.heightOf + 1
  right_le : r.heightOf ≤ l.heightOf + 1
  counted : 0 < n
  worded : x ≠ []

theorem Filled.shaped {l r : NodePtr} {h : Int} {x : Word} {n : Int} (hf : Filled l h x n r) :
    Shaped (node l h x n r) :=
  .bin hf.left hf.right hf.height hf.left_le hf.right_le hf.counted hf.worded

theorem Filled.holds {l r : NodePtr} {h : Int} {x : Word} {n : Int} (hf : Filled l h x n r) :
    (node l h x n r).holds = true := by
  have := hf.left.height_ge
  have := hf.height
  exact holds_node (by omega) hf.counted hf.worded

theorem lift_right {l r : NodePtr} {h : Int} {x : Word} {n : Int}
    (hholds : (node l h x n r).holds = true) (hlt : x < w) :
    (node l h x n r).lift w = if l.heightOf = r.heightOf then r.lift w else 0 := by
  by_cases he : l.heightOf = r.heightOf <;> simp [lift, grows, hholds, hlt.ne', hlt, he]

theorem lift_left {l r : NodePtr} {h : Int} {x : Word} {n : Int}
    (hholds : (node l h x n r).holds = true) (hlt : w < x) :
    (node l h x n r).lift w = if l.heightOf = r.heightOf then l.lift w else 0 := by
  by_cases he : l.heightOf = r.heightOf <;> simp [lift, grows, hholds, hlt.ne, hlt.not_gt, he]

theorem pivot_right {l r : NodePtr} {h : Int} {x : Word} {n : Int}
    (hholds : (node l h x n r).holds = true) (hlt : x < w) :
    (node l h x n r).pivot w =
      if r.grows w = true ∧ l.heightOf < r.heightOf then some (node l h x n r)
      else r.pivot w := by
  simp [pivot, hholds, hlt.ne', hlt]

theorem pivot_left {l r : NodePtr} {h : Int} {x : Word} {n : Int}
    (hholds : (node l h x n r).holds = true) (hlt : w < x) :
    (node l h x n r).pivot w =
      if l.grows w = true ∧ r.heightOf < l.heightOf then some (node l h x n r)
      else l.pivot w := by
  simp [pivot, hholds, hlt.ne, hlt.not_gt]

theorem climb_right {l r r' : NodePtr} {h : Int} {x : Word} {n : Int}
    (hf : Filled l h x n r) (hlt : x < w) (hr' : Shaped r')
    (hins : r.insertInto w = some r') (hheight : r'.heightOf = r.heightOf + r.lift w)
    (hcalm : ¬(r.grows w = true ∧ l.heightOf < r.heightOf)) :
    (node l h x n r).insert w = some (leveled l x n r') ∧ Shaped (leveled l x n r') ∧
      (leveled l x n r').heightOf = h + (node l h x n r).lift w := by
  obtain ⟨hl, hr, hh, hlr, hrl, hn, hx⟩ := hf
  have hholds := Filled.holds ⟨hl, hr, hh, hlr, hrl, hn, hx⟩
  have hbound : l.heightOf ≤ r'.heightOf + 1 ∧ r'.heightOf ≤ l.heightOf + 1 := by
    rcases r.lift_cases w with ⟨hg, hd⟩ | ⟨hg, hd⟩
    · have hle : ¬ l.heightOf < r.heightOf := fun hc => hcalm ⟨hg, hc⟩
      omega
    · omega
  refine ⟨?_, .bin hl hr' rfl hbound.1 hbound.2 hn hx, ?_⟩
  · rw [insert_right hholds hl.allLocal hlt hr'.allLocal hins]
    exact balance_still w (by omega) (by omega)
  · rw [lift_right hholds hlt]
    simp only [leveled, heightOf]
    rcases r.lift_cases w with ⟨hg, hd⟩ | ⟨hg, hd⟩
    · have hle : ¬ l.heightOf < r.heightOf := fun hc => hcalm ⟨hg, hc⟩
      split <;> omega
    · split <;> omega

theorem climb_left_local {l r l' : NodePtr} {h : Int} {x : Word} {n : Int}
    (hf : Filled l h x n r) (hlt : w < x) (hl' : l'.AllLocal)
    (hins : l.insertInto w = some l') (hheight : l'.heightOf = l.heightOf + l.lift w)
    (hcalm : ¬(l.grows w = true ∧ r.heightOf < l.heightOf)) :
    (node l h x n r).insert w = some (leveled l' x n r) ∧
      (l'.heightOf ≤ r.heightOf + 1 ∧ r.heightOf ≤ l'.heightOf + 1) ∧
      (leveled l' x n r).heightOf = h + (node l h x n r).lift w := by
  obtain ⟨hl, hr, hh, hlr, hrl, hn, hx⟩ := hf
  have hholds := Filled.holds ⟨hl, hr, hh, hlr, hrl, hn, hx⟩
  have hbound : l'.heightOf ≤ r.heightOf + 1 ∧ r.heightOf ≤ l'.heightOf + 1 := by
    rcases l.lift_cases w with ⟨hg, hd⟩ | ⟨hg, hd⟩
    · have hle : ¬ r.heightOf < l.heightOf := fun hc => hcalm ⟨hg, hc⟩
      omega
    · omega
  refine ⟨?_, hbound, ?_⟩
  · rw [insert_left hholds hr.allLocal hlt hl' hins]
    exact balance_still w (by omega) (by omega)
  · rw [lift_left hholds hlt]
    simp only [leveled, heightOf]
    rcases l.lift_cases w with ⟨hg, hd⟩ | ⟨hg, hd⟩
    · have hle : ¬ r.heightOf < l.heightOf := fun hc => hcalm ⟨hg, hc⟩
      split <;> omega
    · split <;> omega

theorem climb_left {l r l' : NodePtr} {h : Int} {x : Word} {n : Int}
    (hf : Filled l h x n r) (hlt : w < x) (hl' : Shaped l')
    (hins : l.insertInto w = some l') (hheight : l'.heightOf = l.heightOf + l.lift w)
    (hcalm : ¬(l.grows w = true ∧ r.heightOf < l.heightOf)) :
    (node l h x n r).insert w = some (leveled l' x n r) ∧ Shaped (leveled l' x n r) ∧
      (leveled l' x n r).heightOf = h + (node l h x n r).lift w := by
  obtain ⟨hstep, hbound, hup⟩ := climb_left_local hf hlt hl'.allLocal hins hheight hcalm
  exact ⟨hstep, .bin hl' hf.right rfl hbound.1 hbound.2 hf.counted hf.worded, hup⟩

def Settles (P : NodePtr → NodePtr → Prop) (p : NodePtr) (w : Word) : Prop :=
  ∃ p', p.insert w = some p' ∧ Shaped p' ∧ p'.heightOf = p.heightOf ∧ P p p'

-- Induction along the insertion path: what holds of the places where the path can end, of the
-- rebalanced node, and is kept by every node above, holds of the whole insertion.
theorem insert_rule (hw : w ≠ []) {P : NodePtr → NodePtr → Prop} {C : NodePtr → Prop}
    (hnil : P null (create w))
    (hblank : P (node null 0 [] 0 null) (node null 0 w 1 null))
    (hhere : ∀ l h n r, Filled l h w n r → P (node l h w n r) (node l h w (n + 1) r))
    (hright : ∀ l h x n r r', Filled l h x n r → x < w → P r r' →
      P (node l h x n r) (leveled l x n r'))
    (hleft : ∀ l h x n r l', Filled l h x n r → w < x → P l l' →
      P (node l h x n r) (leveled l' x n r))
    (hpivotRight : ∀ l h x n r, Filled l h x n r → x < w → r.grows w = true →
      r.heightOf = l.heightOf + 1 → C (node l h x n r) → Settles P (node l h x n r) w)
    (hpivotLeft : ∀ l h x n r, Filled l h x n r → w < x → l.grows w = true →
      l.heightOf = r.heightOf + 1 → C (node l h x n r) → Settles P (node l h x n r) w)
    {t : NodePtr} (ht : Shaped t) (hC : ∀ p, t.pivot w = some p → C p) :
    ∃ t', t.insertInto w = some t' ∧ Shaped t' ∧ t'.heightOf = t.heightOf + t.lift w ∧
      P t t' := by
  have leaf : Shaped (create w) :=
    .bin .nil .nil rfl (by decide) (by decide) (by decide) hw
  induction ht with
  | nil => exact ⟨_, rfl, leaf, rfl, hnil⟩
  | blank => exact ⟨_, rfl, leaf, rfl, hblank⟩
  | @bin l r h x n hl hr hh hlr hrl hn hx ihl ihr =>
      have hf : Filled l h x n r := ⟨hl, hr, hh, hlr, hrl, hn, hx⟩
      rcases lt_trichotomy x w with hlt | heq | hlt
      · rw [pivot_right hf.holds hlt] at hC
        by_cases htip : r.grows w = true ∧ l.heightOf < r.heightOf
        · obtain ⟨p', hins, hp', hheight, hP⟩ :=
            hpivotRight l h x n r hf hlt htip.1 (by omega) (hC _ (if_pos htip))
          have hzero : (node l h x n r).lift w = 0 := by
            rw [lift_right hf.holds hlt, if_neg (by omega)]
          exact ⟨p', hins, hp', by omega, hP⟩
        · obtain ⟨r', hins, hr', hheight, hP⟩ := ihr (by simpa [htip] using hC)
          obtain ⟨h₁, h₂, h₃⟩ := climb_right hf hlt hr' hins hheight htip
          exact ⟨_, h₁, h₂, h₃, hright l h x n r r' hf hlt hP⟩
      · subst heq
        have hzero : (node l h x n r).lift x = 0 := by simp [lift, grows]
        refine ⟨_, insert_here hf.holds, .bin hl hr hh hlr hrl (by omega) hx, ?_, hhere l h n r hf⟩
        simp [heightOf, hzero]
      · rw [pivot_left hf.holds hlt] at hC
        by_cases htip : l.grows w = true ∧ r.heightOf < l.heightOf
        · obtain ⟨p', hins, hp', hheight, hP⟩ :=
            hpivotLeft l h x n r hf hlt htip.1 (by omega) (hC _ (if_pos htip))
          have hzero : (node l h x n r).lift w = 0 := by
            rw [lift_left hf.holds hlt, if_neg (by omega)]
          exact ⟨p', hins, hp', by omega, hP⟩
        · obtain ⟨l', hins, hl', hheight, hP⟩ := ihl (by simpa [htip] using hC)
          obtain ⟨h₁, h₂, h₃⟩ := climb_left hf hlt hl' hins hheight htip
          exact ⟨_, h₁, h₂, h₃, hleft l h x n r l' hf hlt hP⟩

theorem graft_spec (hw : w ≠ []) {t : NodePtr} (ht : Shaped t) (hg : t.grows w = true) :
    t.insertInto w = some (t.graft w) ∧ Shaped (t.graft w) ∧
      (t.graft w).heightOf = t.heightOf + 1 := by
  have hnone : t.pivot w = none := pivot_of_grows t hg
  obtain ⟨t', hins, hshape, hheight, rfl⟩ :=
    insert_rule hw (P := fun t t' => t' = t.graft w) (C := fun _ => False) rfl rfl
      (fun l h n r hf => by simp [graft, hf.holds])
      (fun l h x n r r' hf hlt hP => by simp [graft, hf.holds, hlt.ne', hlt, hP])
      (fun l h x n r l' hf hlt hP => by simp [graft, hf.holds, hlt.ne, hlt.not_gt, hP])
      (fun _ _ _ _ _ _ _ _ _ hC => hC.elim) (fun _ _ _ _ _ _ _ _ _ hC => hC.elim)
      ht (by simp [hnone])
  exact ⟨hins, hshape, by simpa [lift, hg] using hheight⟩

theorem Shaped.present_iff {t : NodePtr} (ht : Shaped t) : t.present = true ↔ 0 ≤ t.heightOf := by
  cases ht with
  | nil => simp [present, heightOf]
  | blank => simp [heightOf]
  | bin hl hr hh _ _ _ _ =>
      have := hl.height_ge
      simp only [present_node, heightOf, true_iff]
      omega

theorem insertAll_rule {C : NodePtr → Word → Prop} {Q : List Word → NodePtr → Prop}
    (hfirst : ∀ w, w ≠ [] → Q [w] (create w))
    (hstep : ∀ past t w, w ≠ [] → Shaped t → Q past t → C t w →
      ∃ t', t.insertInto w = some t' ∧ Shaped t' ∧ t'.heightOf = t.heightOf + t.lift w ∧
        Q (past ++ [w]) t')
    {ws : List Word} (hws : ∀ w ∈ ws, w ≠ []) (hC : Runs.Along insert C fresh ws) :
    ∃ t, insertAll fresh ws = some t ∧
      (ws = [] ∧ t = fresh ∨ Shaped t ∧ t.present = true ∧ Q ws t) := by
  refine Runs.run_history (I := fun past t => past = [] ∧ t = fresh ∨
    Shaped t ∧ t.present = true ∧ Q past t) ?_ ws [] fresh (Or.inl ⟨rfl, rfl⟩)
    (Runs.along_and hC fun w hw _ => hws w hw)
  rintro past t w (⟨rfl, rfl⟩ | ⟨ht, hp, hQ⟩) ⟨hCw, hw⟩
  · have hleaf : Shaped (create w) := .bin .nil .nil rfl (by decide) (by decide) (by decide) hw
    exact ⟨create w, rfl, Or.inr ⟨hleaf, rfl, hfirst w hw⟩⟩
  · obtain ⟨t', hins, ht', hheight, hQ'⟩ := hstep past t w hw ht hQ hCw
    rw [insertInto, if_pos hp] at hins
    refine ⟨t', hins, Or.inr ⟨ht', ht'.present_iff.mpr ?_, hQ'⟩⟩
    have := ht.present_iff.mp hp
    rcases t.lift_cases w with ⟨-, hd⟩ | ⟨-, hd⟩ <;> omega

end NodePtr

end DistributedAvl
