import DistributedAvl.Insertion.Order

namespace DistributedAvl

open Tally

namespace NodePtr

variable {ws : List Word}

def FindsAll (ws : List Word) (t : NodePtr) : Prop :=
  ∀ w, t.search w = if w ∈ ws then some (ws.count w : Int) else none

theorem insertAll_entries (hws : ∀ w ∈ ws, w ≠ [])
    (hrun : Runs.Along insert (fun t w => t.rotatesInOrder w = true) fresh ws) :
    ∃ t, insertAll fresh ws = some t ∧ t.entries = tallyAll ws ∧
      ∀ w, t.search w = look w t.entries := by
  obtain ⟨t, ht, ⟨rfl, rfl⟩ | ⟨hshape, -, hent⟩⟩ :=
    insertAll_rule (Q := fun past t => t.entries = tallyAll past)
      (fun w hw => entries_ground_leaf w 1 hw (by decide))
      (fun past t w hw hshape hent hC => by
        obtain ⟨t', hins, ht', hheight, htally⟩ := insert_tallied hw hshape hC
        refine ⟨t', hins, ht', hheight, ?_⟩
        rw [htally (by rw [hent]; exact tallyAll_increasing past), hent, tallyAll_append]) hws hrun
  · refine ⟨fresh, ht, rfl, ?_⟩
    intro w
    cases w <;> rfl
  · have hord : Increasing t.entries := by rw [hent]; exact tallyAll_increasing ws
    exact ⟨t, ht, hent, fun w => search_entries hshape hord w⟩

theorem insertAll_finds (hws : ∀ w ∈ ws, w ≠ [])
    (hrun : Runs.Along insert (fun t w => t.rotatesInOrder w = true) fresh ws) :
    ∃ t, insertAll fresh ws = some t ∧ FindsAll ws t := by
  obtain ⟨t, ht, hent, hsearch⟩ := insertAll_entries hws hrun
  exact ⟨t, ht, fun w => by rw [hsearch, hent, look_tallyAll]⟩

theorem insertAll_finds_repeated :
    ∃ t, insertAll fresh [[98], [97], [100], [99], [98], [102], [103]] = some t ∧
      FindsAll [[98], [97], [100], [99], [98], [102], [103]] t :=
  insertAll_finds (by decide) (by decide)

-- The last rotation sets the new word to the right of the greater one it was inserted below.
theorem insertAll_hides : ¬ ∀ ws t, (∀ w ∈ ws, w ≠ []) → insertAll fresh ws = some t →
    FindsAll ws t := by
  intro h
  obtain ⟨t, ht, hnone⟩ : ∃ t, insertAll fresh [[98], [97], [100], [99], [102], [101]] = some t ∧
      t.search [101] = none := ⟨_, rfl, by decide⟩
  have hfound := h _ t (by decide) ht [101]
  rw [hnone] at hfound
  exact absurd hfound (by decide)

theorem insertAll_increasing (hws : ∀ w ∈ ws, w ≠ [])
    (hrun : Runs.Along insert (fun t w => t.rotatesInOrder w = true) fresh ws) :
    ∃ t, insertAll fresh ws = some t ∧ Increasing t.entries := by
  obtain ⟨t, ht, hent, -⟩ := insertAll_entries hws hrun
  exact ⟨t, ht, by rw [hent]; exact tallyAll_increasing ws⟩

theorem insertAll_increasing_ladder :
    ∃ t, insertAll fresh [[97], [98], [99], [100], [101]] = some t ∧ Increasing t.entries :=
  insertAll_increasing (by decide) (by decide)

theorem insertAll_disorders : ¬ ∀ ws t, (∀ w ∈ ws, w ≠ []) → insertAll fresh ws = some t →
    Increasing t.entries := by
  intro h
  obtain ⟨t, ht, hent⟩ : ∃ t, insertAll fresh [[98], [97], [101], [99], [102], [100]] = some t ∧
      t.entries = [([97], 1), ([98], 1), ([99], 1), ([101], 1), ([100], 1)] := ⟨_, rfl, by decide⟩
  have hinc := h _ t (by decide) ht
  rw [hent] at hinc
  exact absurd hinc (by decide)

end NodePtr

end DistributedAvl
