import DistributedAvl.Insertion.Order

namespace DistributedAvl

open SearchTree

namespace NodePtr

variable {w : Word} {ws : List Word}

-- Rotations move subtrees by setData, which resets height_: below a pivot this low they are leaves.
def rotatesLow (t : NodePtr) (w : Word) : Bool :=
  (t.pivot w).all (fun p => decide (p.heightOf ≤ 2))

theorem low_pivot_right (hw : w ≠ []) {l r : NodePtr} {h : Int} {x : Word} {n : Int}
    (hf : Filled l h x n r) (hxw : x < w) (hg : r.grows w = true)
    (hlean : r.heightOf = l.heightOf + 1) (hlow : h ≤ 2) :
    Settles (fun _ _ => True) (node l h x n r) w := by
  obtain ⟨b, k, y, m, c, rfl, hr, hb, hc, hside⟩ := tip_right hf hg hlean
  have hh := hf.height
  simp only [heightOf] at hlean hh
  rcases hside with ⟨hyw, hgc⟩ | ⟨hwy, hgb⟩
  · obtain ⟨hshape, hheight⟩ := low_right_right hw hf.worded hf.counted hr.worded hr.counted
      hf.left hr.left hr.right hb hc (by omega) hgc
    exact ⟨_, insert_right_right hw hf hr hb hc hxw hyw hgc, hshape,
      by rw [hheight]; simp only [heightOf]; omega, trivial⟩
  · obtain ⟨hshape, hheight⟩ := low_right_left hw hf.worded hf.counted hr.worded hr.counted
      hf.left hr.left hr.right hb hc (by omega) hgb
    exact ⟨_, insert_right_left hw hf hr hb hc hxw hwy hgb, hshape,
      by rw [hheight]; simp only [heightOf]; omega, trivial⟩

theorem low_pivot_left (hw : w ≠ []) {l r : NodePtr} {h : Int} {x : Word} {n : Int}
    (hf : Filled l h x n r) (hwx : w < x) (hg : l.grows w = true)
    (hlean : l.heightOf = r.heightOf + 1) (hlow : h ≤ 2) :
    Settles (fun _ _ => True) (node l h x n r) w := by
  obtain ⟨a, k, y, m, b, rfl, hl, ha, hb, hside⟩ := tip_left hf hg hlean
  have hh := hf.height
  simp only [heightOf] at hlean hh
  rcases hside with ⟨hyw, hgb⟩ | ⟨hwy, hga⟩
  · obtain ⟨hshape, hheight⟩ := low_left_right hw hf.worded hf.counted hl.worded hl.counted
      hl.left hl.right hf.right ha hb (by omega) hgb
    exact ⟨_, insert_left_right hw hf hl ha hb hwx hyw hgb, hshape,
      by rw [hheight]; simp only [heightOf]; omega, trivial⟩
  · obtain ⟨hshape, hheight⟩ := low_left_left hw hf.worded hf.counted hl.worded hl.counted
      hl.left hl.right hf.right ha hb (by omega) hga
    exact ⟨_, insert_left_left hw hf hl ha hb hwx hwy hga, hshape,
      by rw [hheight]; simp only [heightOf]; omega, trivial⟩

theorem insert_low (hw : w ≠ []) {t : NodePtr} (ht : Shaped t) (hC : t.rotatesLow w = true) :
    ∃ t', t.insertInto w = some t' ∧ Shaped t' ∧ t'.heightOf = t.heightOf + t.lift w := by
  obtain ⟨t', hins, ht', hheight, -⟩ :=
    insert_rule hw (P := fun _ _ => True) (C := fun p => p.heightOf ≤ 2) trivial trivial
      (fun _ _ _ _ _ => trivial) (fun _ _ _ _ _ _ _ _ _ => trivial)
      (fun _ _ _ _ _ _ _ _ _ => trivial)
      (fun l h x n r hf hxw hg hlean hC => low_pivot_right hw hf hxw hg hlean hC)
      (fun l h x n r hf hwx hg hlean hC => low_pivot_left hw hf hwx hg hlean hC) ht
      (fun p hp => by simpa [rotatesLow, hp] using hC)
  exact ⟨t', hins, ht', hheight⟩

theorem Shaped.levels {t : NodePtr} (ht : Shaped t) : levels t.shape = t.heightOf := by
  induction ht with
  | nil => rfl
  | blank => rfl
  | bin _ _ hh _ _ _ _ ihl ihr => simp [shape, SearchTree.levels, heightOf, ihl, ihr, hh]

theorem Shaped.heightsExact {t : NodePtr} (ht : Shaped t) : t.HeightsExact := by
  induction ht with
  | nil => trivial
  | blank => exact ⟨rfl, trivial, trivial⟩
  | bin hl hr hh hlr hrl hn hx ihl ihr =>
      exact ⟨(Shaped.bin hl hr hh hlr hrl hn hx).levels.symm, ihl, ihr⟩

theorem Shaped.balanced {t : NodePtr} (ht : Shaped t) : LevelBalanced t.shape := by
  induction ht with
  | nil => trivial
  | blank => exact ⟨by decide, by decide, trivial, trivial⟩
  | bin hl hr hh hlr hrl hn hx ihl ihr =>
      exact ⟨by rw [hl.levels, hr.levels]; exact hlr, by rw [hl.levels, hr.levels]; exact hrl,
        ihl, ihr⟩

theorem insertAll_shaped (hws : ∀ w ∈ ws, w ≠ [])
    (hrun : Runs.Along insert (fun t w => t.rotatesLow w = true) fresh ws) :
    ∃ t, insertAll fresh ws = some t ∧ (ws = [] ∧ t = fresh ∨ Shaped t ∧ t.present = true) := by
  simpa using insertAll_rule (Q := fun _ _ => True) (fun _ _ => trivial)
    (fun _ t w hw ht _ hC => by simpa using insert_low hw ht hC) hws hrun

-- Before the first word the tree is one node of height -1, which counts as missing.
def ExactlyBalanced (t : NodePtr) : Prop := t = fresh ∨ t.HeightsExact ∧ LevelBalanced t.shape

theorem insertAll_exactlyBalanced (hws : ∀ w ∈ ws, w ≠ [])
    (hrun : Runs.Along insert (fun t w => t.rotatesLow w = true) fresh ws) :
    ∃ t, insertAll fresh ws = some t ∧ t.ExactlyBalanced := by
  obtain ⟨t, ht, ⟨-, hfresh⟩ | ⟨hshape, -⟩⟩ := insertAll_shaped hws hrun
  · exact ⟨t, ht, Or.inl hfresh⟩
  · exact ⟨t, ht, Or.inr ⟨hshape.heightsExact, hshape.balanced⟩⟩

theorem insertAll_exactlyBalanced_double :
    ∃ t, insertAll fresh [[122], [113], [115], [117], [106], [109], [105]] = some t ∧
      t.ExactlyBalanced :=
  insertAll_exactlyBalanced (by decide) (by decide)

-- A rotation below the root moves a node with a child to another place as if it were a leaf.
theorem insertAll_misjudges : ¬ ∀ ws t, (∀ w ∈ ws, w ≠ []) → insertAll fresh ws = some t →
    t.ExactlyBalanced := by
  intro h
  obtain ⟨t, ht, hfresh, hexact⟩ : ∃ t, insertAll fresh [[122], [113], [115], [117], [106], [109],
      [105], [108], [112], [98]] = some t ∧ t ≠ fresh ∧ ¬ t.HeightsExact :=
    ⟨_, rfl, by decide, by decide⟩
  rcases h _ t (by decide) ht with heq | ⟨hexact', -⟩
  · exact hfresh heq
  · exact hexact hexact'

end NodePtr

end DistributedAvl
