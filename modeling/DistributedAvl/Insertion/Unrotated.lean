import DistributedAvl.Insertion.Heights
import DistributedAvl.Tree.Valid

namespace DistributedAvl

open Tally SearchTree

namespace NodePtr

variable {l r t t' : NodePtr} {h : Int} {x w : Word} {n b : Int}

-- balance, stopped where it would rotate.
def still (this : NodePtr) (balance_value : Int) (new_word : Word) : Option NodePtr :=
  if balance_value = 2 ∨ balance_value = -2 then none else this.balance balance_value new_word

theorem still_balance (hstill : t.still b w = some t') : t.balance b w = some t' := by
  rw [still] at hstill
  split at hstill
  · cases hstill
  · exact hstill

theorem still_node (h₁ : b ≠ 2) (h₂ : b ≠ -2) :
    (node l h x n r).still b w = some (node l h x n r) := by
  rw [still, if_neg (by omega), balance_still w h₁ h₂]

theorem still_some (hstill : (node l h x n r).still b w = some t') :
    b ≠ 2 ∧ b ≠ -2 ∧ t' = node l h x n r := by
  by_cases hb : b = 2 ∨ b = -2
  · rw [still, if_pos hb] at hstill
    cases hstill
  · obtain ⟨h₁, h₂⟩ := not_or.mp hb
    rw [still_node h₁ h₂] at hstill
    cases hstill
    exact ⟨h₁, h₂, rfl⟩

theorem still_right (hf : Filled l h x n r) (hlt : x < w)
    (hins : (node l h x n r).insertBy still w = some t') :
    ∃ r', r.intoBy still w = some r' ∧ (Shaped r' → t' = leveled l x n r' ∧
      r'.heightOf - l.heightOf ≠ 2 ∧ r'.heightOf - l.heightOf ≠ -2) := by
  rw [insertBy_right hf.holds hlt] at hins
  obtain ⟨r', hr', hrest⟩ := Option.bind_eq_some_iff.mp hins
  refine ⟨r', hr', fun hshape => ?_⟩
  rw [updateHeight_local hf.left.allLocal hshape.allLocal, Option.bind_some, leveled] at hrest
  obtain ⟨h₁, h₂, rfl⟩ := still_some hrest
  exact ⟨rfl, h₁, h₂⟩

theorem still_left (hf : Filled l h x n r) (hlt : w < x)
    (hins : (node l h x n r).insertBy still w = some t') :
    ∃ l', l.intoBy still w = some l' ∧ (Shaped l' → t' = leveled l' x n r ∧
      r.heightOf - l'.heightOf ≠ 2 ∧ r.heightOf - l'.heightOf ≠ -2) := by
  rw [insertBy_left hf.holds hlt] at hins
  obtain ⟨l', hl', hrest⟩ := Option.bind_eq_some_iff.mp hins
  refine ⟨l', hl', fun hshape => ?_⟩
  rw [updateHeight_local hshape.allLocal hf.right.allLocal, Option.bind_some, leveled] at hrest
  obtain ⟨h₁, h₂, rfl⟩ := still_some hrest
  exact ⟨rfl, h₁, h₂⟩

theorem ValidAvl.shaped (ht : ValidAvl t) : Shaped t := by
  induction t with
  | null => exact .nil
  | remote root => exact ht.isLocal.elim
  | node l h x n r ihl ihr =>
      have hl := heightOf_exact ht.left.isLocal ht.left.exact
      have hr := heightOf_exact ht.right.isLocal ht.right.exact
      have hpos := ht.full.2.1
      refine .bin (ihl ht.left) (ihr ht.right) ?_ ?_ ?_ (by omega) ht.full.1
      · rw [hl, hr]; exact ht.exact.1
      · rw [hl, hr]; exact ht.balanced.1
      · rw [hl, hr]; exact ht.balanced.2.1

theorem ValidAvl.filled (ht : ValidAvl (node l h x n r)) : Filled l h x n r := by
  cases ht.shaped with
  | blank => exact absurd rfl ht.full.1
  | bin hl hr hh hlr hrl hn hx => exact ⟨hl, hr, hh, hlr, hrl, hn, hx⟩

-- The same tree with one more on the counter of the node that holds the word.
def bumped : NodePtr → Word → NodePtr
  | null, _ => null
  | node l h x n r, w => node (l.bumped w) h x (if x = w then n + 1 else n) (r.bumped w)
  | remote root, w => remote (root.bumped w)

theorem bumped_height (t : NodePtr) (w : Word) : (t.bumped w).heightOf = t.heightOf := by
  induction t with
  | null => rfl
  | remote root ih => exact ih
  | node l h x n r _ _ => rfl

theorem bumped_local (ht : t.AllLocal) (w : Word) : (t.bumped w).AllLocal := by
  induction t with
  | null => trivial
  | remote root => exact ht.elim
  | node l h x n r ihl ihr => exact ⟨ihl ht.1, ihr ht.2⟩

theorem bumped_absent (ht : ValidAvl t) (hw : ¬ t.Holds w) : t.bumped w = t := by
  induction t with
  | null => rfl
  | remote root => exact ht.isLocal.elim
  | node l h x n r ihl ihr =>
      obtain ⟨hne, hl, hr⟩ := ht.absent_sides hw
      rw [bumped, ihl ht.left hl, ihr ht.right hr, if_neg hne.symm]

theorem bumped_holds (ht : ValidAvl (node l h x n r)) (w : Word) :
    ((node l h x n r).bumped w).holds = true := by
  have hge := ht.filled.left.height_ge
  have hh := ht.filled.height
  have hpos := ht.full.2.1
  refine holds_node (by omega) ?_ ht.full.1
  split <;> omega

theorem bumped_entries (ht : ValidAvl t) (hw : t.Holds w) :
    (t.bumped w).entries = tally w t.entries := by
  induction t with
  | null => exact absurd (hw.present ht.isLocal) (by decide)
  | remote root => exact ht.isLocal.elim
  | node l h x n r ihl ihr =>
      have hord := ht.ordered
      have hheld := bumped_holds ht w
      rw [ht.entries_eq] at hord
      rw [bumped] at hheld ⊢
      rw [entries_node hheld, ht.entries_eq]
      rcases ht.holds_side hw with rfl | ⟨hlt, hw'⟩ | ⟨hlt, hw'⟩
      · rw [tally_here hord, bumped_absent ht.left (ht.left_free le_rfl),
          bumped_absent ht.right (ht.right_free le_rfl), if_pos rfl]
      · rw [tally_right hord hlt, ihr ht.right hw', bumped_absent ht.left (ht.left_free hlt.le),
          if_neg hlt.ne]
      · rw [tally_before hlt, ihl ht.left hw', bumped_absent ht.right (ht.right_free hlt.le),
          if_neg hlt.ne']

theorem insertBy_held (ht : ValidAvl t) (hw : t.Holds w) :
    t.insertBy still w = some (t.bumped w) := by
  induction t with
  | null => exact absurd (hw.present ht.isLocal) (by decide)
  | remote root => exact ht.isLocal.elim
  | node l h x n r ihl ihr =>
      have hf := ht.filled
      have hhl := bumped_height l w
      have hhr := bumped_height r w
      have hh := hf.height
      have hlr := hf.left_le
      have hrl := hf.right_le
      rcases ht.holds_side hw with rfl | ⟨hlt, hw'⟩ | ⟨hlt, hw'⟩
      · rw [insertBy_here ht.holds, bumped, bumped_absent ht.left (ht.left_free le_rfl),
          bumped_absent ht.right (ht.right_free le_rfl), if_pos rfl]
      · rw [insertBy_right ht.holds hlt, intoBy, if_pos (hw'.present ht.right.isLocal),
          ihr ht.right hw', Option.bind_some,
          updateHeight_local ht.left.isLocal (bumped_local ht.right.isLocal w), Option.bind_some,
          leveled, still_node (by omega) (by omega), bumped,
          bumped_absent ht.left (ht.left_free hlt.le), if_neg hlt.ne, hhr, ← hh]
      · rw [insertBy_left ht.holds hlt, intoBy, if_pos (hw'.present ht.left.isLocal),
          ihl ht.left hw', Option.bind_some,
          updateHeight_local (bumped_local ht.left.isLocal w) ht.right.isLocal, Option.bind_some,
          leveled, still_node (by omega) (by omega), bumped,
          bumped_absent ht.right (ht.right_free hlt.le), if_neg hlt.ne', hhl, ← hh]

theorem insertBy_still (hins : t.insertBy still w = some t') : t.insert w = some t' := by
  rw [← insertBy_balance]
  exact insertBy_mono (fun _ _ _ => still_balance) hins

theorem intoBy_still (hinto : t.intoBy still w = some t') : t.insertInto w = some t' := by
  rw [← intoBy_balance]
  exact intoBy_mono (insertBy_mono fun _ _ _ => still_balance) hinto

theorem insert_held (ht : ValidAvl t) (hw : t.Holds w) :
    t.insert w = some (t.bumped w) ∧ t.insertBy still w = some (t.bumped w) ∧
      ∃ xs n ys, t.entries = xs ++ (w, n) :: ys ∧
        (t.bumped w).entries = xs ++ (w, n + 1) :: ys := by
  have hstill := insertBy_held ht hw
  refine ⟨insertBy_still hstill, hstill, ?_⟩
  obtain ⟨n, hn⟩ := id hw
  obtain ⟨xs, ys, hsplit⟩ := List.append_of_mem hn
  have hord := ht.ordered
  rw [hsplit] at hord
  exact ⟨xs, n, ys, hsplit, by rw [bumped_entries ht hw, hsplit, tally_here hord]⟩

theorem insert_held_below :
    (node (node null 0 [97] 2 null) 1 [98] 1 null).insert [97] =
        some ((node (node null 0 [97] 2 null) 1 [98] 1 null).bumped [97]) ∧
      (node (node null 0 [97] 2 null) 1 [98] 1 null).insertBy still [97] =
        some ((node (node null 0 [97] 2 null) 1 [98] 1 null).bumped [97]) ∧
      ∃ xs n ys, (node (node null 0 [97] 2 null) 1 [98] 1 null).entries = xs ++ ([97], n) :: ys ∧
        ((node (node null 0 [97] 2 null) 1 [98] 1 null).bumped [97]).entries =
          xs ++ ([97], n + 1) :: ys :=
  insert_held (by decide) ⟨2, by decide⟩

-- What insert does up to the update of this node's height, when nothing below it rotates.
def descended : NodePtr → Word → Option NodePtr
  | node l h x n r, w =>
      if x < w then (r.intoBy still w).map fun r' => node l h x n r'
      else (l.intoBy still w).map fun l' => node l' h x n r
  | _, _ => none

-- The test on words that decides about the double rotation.
def asksDouble : NodePtr → Int → Word → Option Bool
  | node l _ _ _ r, balance_value, new_word =>
      if balance_value = 2 then r.smaller new_word
      else if balance_value = -2 then do return !(← l.smaller new_word)
      else some false
  | _, _, _ => some false

def leftTaller : NodePtr → Bool
  | node a _ _ _ c => decide (c.realHeight < a.realHeight)
  | _ => false

def rightTaller : NodePtr → Bool
  | node a _ _ _ c => decide (a.realHeight < c.realHeight)
  | _ => false

def innerTaller : NodePtr → Int → Bool
  | node l _ _ _ r, balance_value =>
      if balance_value = 2 then r.leftTaller
      else if balance_value = -2 then l.rightTaller
      else false
  | _, _ => false

-- The rotations of balance, double or single.
def rotated : NodePtr → Int → Bool → Option NodePtr
  | node l h x n r, balance_value, double =>
      if balance_value = 2 then
        (if double then r.rotateRight else some r).bind fun r' => (node l h x n r').rotateLeft
      else if balance_value = -2 then
        (if double then l.rotateLeft else some l).bind fun l' => (node l' h x n r).rotateRight
      else some (node l h x n r)
  | t, _, _ => some t

theorem balance_asks (balance_value : Int) (new_word : Word) :
    (node l h x n r).balance balance_value new_word =
      ((node l h x n r).asksDouble balance_value new_word).bind
        ((node l h x n r).rotated balance_value) := by
  simp only [balance, asksDouble]
  split
  · rename_i hb
    cases r.smaller new_word <;> simp [rotated, hb]
  · rename_i hb
    split
    · rename_i hb'
      cases l.smaller new_word <;> simp [rotated, hb']
    · rename_i hb'
      simp [rotated, hb, hb']

theorem Shaped.realHeight {t : NodePtr} (ht : Shaped t) : t.realHeight = t.heightOf := ht.levels

theorem intoBy_still_shaped (hw : w ≠ []) (ht : Shaped t) (hinto : t.intoBy still w = some t') :
    Shaped t' ∧ t.heightOf ≤ t'.heightOf ∧ t'.heightOf ≤ t.heightOf + 1 := by
  have hleaf : Shaped (create w) := .bin .nil .nil rfl (by decide) (by decide) (by decide) hw
  induction ht generalizing t' with
  | nil => cases hinto; exact ⟨hleaf, by simp [create, heightOf], by simp [create, heightOf]⟩
  | blank => cases hinto; exact ⟨hleaf, le_rfl, by simp [heightOf]⟩
  | @bin l r h x n hl hr hh hlr hrl hn hx ihl ihr =>
      have hf : Filled l h x n r := ⟨hl, hr, hh, hlr, hrl, hn, hx⟩
      rw [intoBy_node] at hinto
      rcases lt_trichotomy x w with hlt | rfl | hlt
      · obtain ⟨r', hr', hup⟩ := still_right hf hlt hinto
        obtain ⟨hshape, hlow, hhigh⟩ := ihr hr'
        obtain ⟨rfl, h₁, h₂⟩ := hup hshape
        refine ⟨.bin hl hshape rfl (by omega) (by omega) hn hx, ?_, ?_⟩ <;>
          simp only [leveled, heightOf] <;> omega
      · rw [insertBy_here hf.holds] at hinto
        cases hinto
        exact ⟨.bin hl hr hh hlr hrl (by omega) hx, le_rfl, by simp only [heightOf]; omega⟩
      · obtain ⟨l', hl', hup⟩ := still_left hf hlt hinto
        obtain ⟨hshape, hlow, hhigh⟩ := ihl hl'
        obtain ⟨rfl, h₁, h₂⟩ := hup hshape
        refine ⟨.bin hshape hr rfl (by omega) (by omega) hn hx, ?_, ?_⟩ <;>
          simp only [leveled, heightOf] <;> omega

theorem smaller_side (hl : Shaped l) (hr : Shaped r) (hn : 0 < n) (hx : x ≠ [])
    (hside : x < w ∧ l.heightOf < r.heightOf ∨ w < x ∧ r.heightOf < l.heightOf) :
    (leveled l x n r).smaller w = some (leveled l x n r).leftTaller ∧
      (leveled l x n r).rightTaller = !(leveled l x n r).leftTaller := by
  have hge := hl.height_ge
  have hheld : (leveled l x n r).holds = true := holds_node (by omega) hn hx
  rw [leveled] at hheld ⊢
  rw [smaller_node hheld, leftTaller, rightTaller, hl.realHeight, hr.realHeight]
  rcases hside with ⟨hlt, hh⟩ | ⟨hlt, hh⟩
  · simp [hlt.not_gt, hh, hh.not_gt]
  · simp [hlt, hh, hh.not_gt]

theorem grown_side (hw : w ≠ []) (ht : Shaped t) (hinto : t.intoBy still w = some t')
    (hgrew : t.heightOf < t'.heightOf) (hhigh : 0 < t'.heightOf) :
    t'.smaller w = some t'.leftTaller ∧ t'.rightTaller = !t'.leftTaller := by
  cases ht with
  | nil => cases hinto; simp [create, heightOf] at hhigh
  | blank => cases hinto; simp [heightOf] at hhigh
  | @bin l r h x n hl hr hh hlr hrl hn hx =>
      have hf : Filled l h x n r := ⟨hl, hr, hh, hlr, hrl, hn, hx⟩
      rw [intoBy_node] at hinto
      rcases lt_trichotomy x w with hlt | rfl | hlt
      · obtain ⟨r', hr', hup⟩ := still_right hf hlt hinto
        obtain ⟨hshape, -, -⟩ := intoBy_still_shaped hw hr hr'
        obtain ⟨rfl, -, -⟩ := hup hshape
        simp only [leveled, heightOf] at hgrew
        exact smaller_side hl hshape hn hx (Or.inl ⟨hlt, by omega⟩)
      · rw [insertBy_here hf.holds] at hinto
        cases hinto
        exact absurd hgrew (lt_irrefl _)
      · obtain ⟨l', hl', hup⟩ := still_left hf hlt hinto
        obtain ⟨hshape, -, -⟩ := intoBy_still_shaped hw hl hl'
        obtain ⟨rfl, -, -⟩ := hup hshape
        simp only [leveled, heightOf] at hgrew
        exact smaller_side hshape hr hn hx (Or.inr ⟨hlt, by omega⟩)

theorem balance_picks_double (ht : ValidAvl (node l h x n r)) (hw : w ≠ [])
    (hnew : ¬ (node l h x n r).Holds w) (hdesc : (node l h x n r).descended w = some t)
    (hup : t.updateHeight = some (t', b)) (hb : b = 2 ∨ b = -2) :
    (node l h x n r).insert w = t'.balance b w ∧
      t'.balance b w = (t'.asksDouble b w).bind (t'.rotated b) ∧
      t'.asksDouble b w = some (t'.innerTaller b) := by
  have hf := ht.filled
  have hhr := hf.right_le
  have hhl := hf.left_le
  have hgl := hf.left.height_ge
  have hgr := hf.right.height_ge
  obtain ⟨hne, -, -⟩ := ht.absent_sides hnew
  rcases lt_or_gt_of_ne hne with hlt | hlt
  · rw [descended, if_neg hlt.not_gt] at hdesc
    obtain ⟨l', hl', rfl⟩ := Option.map_eq_some_iff.mp hdesc
    obtain ⟨hshape, hlow, -⟩ := intoBy_still_shaped hw hf.left hl'
    rw [updateHeight_local hshape.allLocal hf.right.allLocal] at hup
    cases hup
    obtain ⟨hsmaller, hright⟩ := grown_side hw hf.left hl' (by omega) (by omega)
    refine ⟨?_, balance_asks _ _, ?_⟩
    · rw [insert_left_eq hf.holds hlt, intoBy_still hl', Option.bind_some,
        updateHeight_local hshape.allLocal hf.right.allLocal, Option.bind_some]
    · have hneg : r.heightOf - l'.heightOf = -2 := by omega
      rw [hneg]
      simp [leveled, asksDouble, innerTaller, hsmaller, hright]
  · rw [descended, if_pos hlt] at hdesc
    obtain ⟨r', hr', rfl⟩ := Option.map_eq_some_iff.mp hdesc
    obtain ⟨hshape, hlow, -⟩ := intoBy_still_shaped hw hf.right hr'
    rw [updateHeight_local hf.left.allLocal hshape.allLocal] at hup
    cases hup
    obtain ⟨hsmaller, -⟩ := grown_side hw hf.right hr' (by omega) (by omega)
    refine ⟨?_, balance_asks _ _, ?_⟩
    · rw [insert_right_eq hf.holds hlt, intoBy_still hr', Option.bind_some,
        updateHeight_local hf.left.allLocal hshape.allLocal, Option.bind_some]
    · have hpos : r'.heightOf - l.heightOf = 2 := by omega
      rw [hpos]
      simp [leveled, asksDouble, innerTaller, hsmaller]

-- (-, a, c) with b: the child c is now (b, c, -), and the rotation is double.
theorem balance_picks_double_inner :
    (node null 1 [97] 1 (node null 0 [99] 1 null)).insert [98] =
        (node null 2 [97] 1 (node (node null 0 [98] 1 null) 1 [99] 1 null)).balance 2 [98] ∧
      (node null 2 [97] 1 (node (node null 0 [98] 1 null) 1 [99] 1 null)).balance 2 [98] =
        ((node null 2 [97] 1 (node (node null 0 [98] 1 null) 1 [99] 1 null)).asksDouble 2 [98]).bind
          ((node null 2 [97] 1 (node (node null 0 [98] 1 null) 1 [99] 1 null)).rotated 2) ∧
      (node null 2 [97] 1 (node (node null 0 [98] 1 null) 1 [99] 1 null)).asksDouble 2 [98] =
        some ((node null 2 [97] 1 (node (node null 0 [98] 1 null) 1 [99] 1 null)).innerTaller 2) :=
  balance_picks_double (l := null) (r := node null 0 [99] 1 null) (h := 1) (x := [97]) (n := 1)
    (t := node null 1 [97] 1 (node (node null 0 [98] 1 null) 1 [99] 1 null))
    (by decide) (by decide) (by rintro ⟨m, hm⟩; simp [entries, holds] at hm) rfl rfl (Or.inl rfl)

end NodePtr

end DistributedAvl
