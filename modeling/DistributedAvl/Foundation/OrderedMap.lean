import Mathlib.Data.List.Nodup
import Mathlib.Data.List.Range
import Mathlib.Order.Lattice

namespace OrderedMap

variable {κ β : Type}

section Assign

variable [LinearOrder κ]

def assign (k : κ) (v : β) : List (κ × β) → List (κ × β)
  | [] => [(k, v)]
  | (j, u) :: m =>
      if k = j then (k, v) :: m
      else if k < j then (k, v) :: (j, u) :: m
      else (j, u) :: assign k v m

def find (k : κ) : List (κ × β) → Option β
  | [] => none
  | (j, u) :: m => if k = j then some u else find k m

theorem assign_last {k : κ} (v : β) : ∀ {m : List (κ × β)}, (∀ p ∈ m, p.1 < k) →
    assign k v m = m ++ [(k, v)] := by
  intro m
  induction m with
  | nil => intro _; rfl
  | cons p m ih =>
      intro h
      have hp : p.1 < k := h p (by simp)
      simp [assign, hp.ne', hp.not_gt, ih fun q hq => h q (by simp [hq])]

end Assign

def numbered : Nat → List β → List (Nat × β)
  | _, [] => []
  | i, v :: vs => (i, v) :: numbered (i + 1) vs

theorem numbered_keys (vs : List β) :
    ∀ i, (numbered i vs).map Prod.fst = List.range' i vs.length := by
  induction vs with
  | nil => intro i; rfl
  | cons v vs ih => intro i; simp [numbered, ih, List.range'_succ]

theorem numbered_values (vs : List β) : ∀ i, (numbered i vs).map Prod.snd = vs := by
  induction vs with
  | nil => intro i; rfl
  | cons v vs ih => intro i; simp [numbered, ih]

theorem numbered_append (vs ws : List β) :
    ∀ i, numbered i (vs ++ ws) = numbered i vs ++ numbered (i + vs.length) ws := by
  induction vs with
  | nil => intro i; rfl
  | cons v vs ih =>
      intro i
      rw [List.length_cons, show i + (vs.length + 1) = i + 1 + vs.length by omega]
      simp [numbered, ih]

theorem numbered_snoc (vs : List β) (v : β) (i : Nat) :
    assign (i + vs.length) v (numbered i vs) = numbered i (vs ++ [v]) := by
  rw [assign_last, numbered_append]
  · rfl
  · intro p hp
    have hkey : p.1 ∈ (numbered i vs).map Prod.fst := List.mem_map_of_mem hp
    rw [numbered_keys, List.mem_range'_1] at hkey
    exact hkey.2

theorem find_numbered (vs : List β) :
    ∀ i k, find k (numbered i vs) = if i ≤ k then vs[k - i]? else none := by
  induction vs with
  | nil => intro i k; simp [numbered, find]
  | cons v vs ih =>
      intro i k
      rcases lt_trichotomy k i with h | rfl | h
      · simp [numbered, find, ih, h.ne, h.not_ge, Nat.not_le.mpr (Nat.lt_succ_of_lt h)]
      · simp [numbered, find]
      · obtain ⟨d, rfl⟩ := Nat.exists_eq_add_of_lt h
        have hsub : i + d + 1 - i = d + 1 := by omega
        have hsub' : i + d + 1 - (i + 1) = d := by omega
        simp [numbered, find, ih, h.ne', hsub, hsub', h.le, Nat.succ_le_of_lt h]

theorem find?_numbered [DecidableEq β] {v : β} : ∀ {vs : List β} {i j : Nat}, vs.Nodup →
    vs[j]? = some v → (numbered i vs).find? (fun p => decide (p.2 = v)) = some (i + j, v) := by
  intro vs
  induction vs with
  | nil => intro i j _ h; simp at h
  | cons u vs ih =>
      intro i j hnodup h
      obtain ⟨hu, hvs⟩ := List.nodup_cons.mp hnodup
      cases j with
      | zero => simp at h; simp [numbered, h]
      | succ j =>
          have hv : vs[j]? = some v := by simpa using h
          have hne : u ≠ v := fun heq => hu (heq ▸ List.mem_of_getElem? hv)
          have hrest := ih (i := i + 1) hvs hv
          simp [numbered, hne, hrest, Nat.add_comm, Nat.add_left_comm]

theorem find?_value_iff [DecidableEq β] {m : List (κ × β)} (hkeys : (m.map Prod.fst).Nodup)
    (hvalues : (m.map Prod.snd).Nodup) {k : κ} {v : β} (hmem : (k, v) ∈ m) (u : β) :
    (∃ p, m.find? (fun p => decide (p.2 = u)) = some p ∧ p.1 = k) ↔ v = u := by
  constructor
  · rintro ⟨p, hfind, hkey⟩
    have hvalue : p.2 = u := by simpa using List.find?_some hfind
    have hp : p = (k, v) :=
      List.inj_on_of_nodup_map hkeys (List.mem_of_find?_eq_some hfind) hmem hkey
    rw [← hvalue, hp]
  · rintro rfl
    have hfound : (m.find? fun p => decide (p.2 = v)).isSome = true :=
      List.find?_isSome.mpr ⟨(k, v), hmem, by simp⟩
    obtain ⟨p, hfind⟩ := Option.isSome_iff_exists.mp hfound
    have hvalue : p.2 = v := by simpa using List.find?_some hfind
    have hp : p = (k, v) :=
      List.inj_on_of_nodup_map hvalues (List.mem_of_find?_eq_some hfind) hmem hvalue
    exact ⟨p, hfind, by rw [hp]⟩

end OrderedMap
