import DistributedAvl.Remote.Carried

namespace DistributedAvl

namespace PabloSubtree

def wordless : PabloSubtree → Bool
  | set (some d) _ _ => decide (d.counter = 0)
  | _ => true

-- Every sub-message without a node, or with counter 0, goes with all below it.
def cleaned : PabloSubtree → PabloSubtree
  | unset => unset
  | set data left right =>
      if (set data left right).wordless then unset else set data left.cleaned right.cleaned

def normal (p : PabloSubtree) : PabloSubtree :=
  if p.wordless then set none unset unset else p.cleaned

theorem cleaned_wordless {p : PabloSubtree} (h : p.wordless = true) : p.cleaned = unset := by
  cases p with
  | unset => rfl
  | set data left right => rw [cleaned, h]; rfl

theorem wordless_cleaned (p : PabloSubtree) : p.cleaned.wordless = p.wordless := by
  cases hp : p.wordless with
  | true => rw [cleaned_wordless hp]; rfl
  | false =>
      cases p with
      | unset => cases hp
      | set data left right =>
          rw [cleaned, hp]
          cases data with
          | none => cases hp
          | some d => exact hp

theorem cleaned_cleaned (p : PabloSubtree) : p.cleaned.cleaned = p.cleaned := by
  induction p with
  | unset => rfl
  | set data left right ihl ihr =>
      cases hp : (set data left right).wordless with
      | true => rw [cleaned_wordless hp]; rfl
      | false =>
          have hclean : (set data left right).cleaned = set data left.cleaned right.cleaned := by
            rw [cleaned, hp]; rfl
          have hworded := wordless_cleaned (set data left right)
          rw [hp, hclean] at hworded
          rw [hclean, cleaned, hworded, ihl, ihr]
          rfl

theorem normal_wordless {p : PabloSubtree} (h : p.wordless = true) :
    p.normal = set none unset unset := by
  rw [normal, if_pos h]

theorem normal_worded {p : PabloSubtree} (h : p.wordless = false) : p.normal = p.cleaned := by
  rw [normal, if_neg (by simp [h])]

theorem normal_normal (p : PabloSubtree) : p.normal.normal = p.normal := by
  cases hp : p.wordless with
  | true => rw [normal_wordless hp]; rfl
  | false =>
      have hclean : p.cleaned.wordless = false := by rw [wordless_cleaned, hp]
      rw [normal_worded hp, normal_worded hclean, cleaned_cleaned]

end PabloSubtree

open NodePtr SubtreeMessageParser

theorem parseTree_present (p : PabloSubtree) : (parseTree p).present = !p.wordless := by
  rcases p with _ | ⟨_ | d, left, right⟩
  · rfl
  · rfl
  · by_cases hd : d.counter = 0 <;> simp [parseTree, parseNodeTree, PabloSubtree.wordless, hd]

theorem parseProtoTree_field (p : PabloSubtree) :
    (if (parseTree p).present then parseProtoTree (parseTree p) else some .unset) =
      some p.cleaned := by
  induction p with
  | unset => rfl
  | set data left right ihl ihr =>
      rcases data with _ | d
      · rfl
      · by_cases hd : d.counter = 0
        · simp [parseTree, parseNodeTree, PabloSubtree.cleaned, PabloSubtree.wordless, hd]
        · simp [parseTree, parseNodeTree, parseProtoTree, PabloSubtree.cleaned,
            PabloSubtree.wordless, hd, ihl, ihr]

theorem parseProtoTree_parseTree (p : PabloSubtree) :
    parseProtoTree (parseTree p) = some p.normal := by
  have hfield := parseProtoTree_field p
  rw [parseTree_present] at hfield
  cases hp : p.wordless with
  | true =>
      have hnull : parseTree p = null := by
        rw [← present_eq_false, parseTree_present, hp]; rfl
      rw [hnull, PabloSubtree.normal_wordless hp]
      rfl
  | false =>
      rw [hp] at hfield
      rw [PabloSubtree.normal_worded hp]
      exact hfield

theorem codec_exact :
    (∀ t : NodePtr, t.Counted → ∃ p, parseProtoTree t = some p ∧ (parseTree p).shape = t.shape) ∧
      ∀ p : PabloSubtree, parseProtoTree (parseTree p) = some p.normal ∧
        parseProtoTree (parseTree p.normal) = some p.normal := by
  refine ⟨fun t ht => ?_, fun p => ⟨parseProtoTree_parseTree p, ?_⟩⟩
  · obtain ⟨p, hp, hflat⟩ := encoded_flat ht
    exact ⟨p, hp, by rw [hflat, flat_shape]⟩
  · rw [parseProtoTree_parseTree, PabloSubtree.normal_normal]

theorem codec_exact_three : ∃ p, parseProtoTree
      (node (node null 0 [97] 1 null) 1 [98] 2 (node null 0 [99] 3 null)) = some p ∧
    (parseTree p).shape =
      (node (node null 0 [97] 1 null) 1 [98] 2 (node null 0 [99] 3 null)).shape :=
  codec_exact.1 _ ⟨by decide, ⟨by decide, trivial, trivial⟩, ⟨by decide, trivial, trivial⟩⟩

end DistributedAvl
