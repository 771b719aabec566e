import DistributedAvl.Worker.AVLTree

namespace DistributedAvl

namespace AVLTree

def due (s : State) : Option (Kind × Word) := s.submitted[s.applied.length]?

-- When the worker takes an operation, the last waiting word is that of the oldest submission.
def LastIsDue (s : State) (action : Action) : Prop :=
  action = .invoke → s.root ≠ none → s.queue ≠ [] → s.words.getLast? = (due s).map Prod.snd

def InOrder (s : State) : Prop := s.applied <+: s.submitted

structure Matched (s : State) : Prop where
  taken : s.applied.length ≤ s.submitted.length
  kinds : s.queue = (s.submitted.drop s.applied.length).map Prod.fst
  words : s.words.length = s.queue.length

theorem submit_matched {s : State} (hs : Matched s) (kind : Kind) (word : Word) :
    Matched (submit s kind word) where
  taken := by simpa [submit] using Nat.le_succ_of_le hs.taken
  kinds := by simp [submit, hs.kinds, List.drop_append_of_le_length hs.taken]
  words := by simp [submit, hs.words]

theorem submit_inOrder {s : State} (hs : InOrder s) (kind : Kind) (word : Word) :
    InOrder (submit s kind word) := hs.trans (List.prefix_append _ _)

theorem parseMessage_submit (s : State) (msg : Option MessageToRoot) :
    parseMessage s msg = s ∨ ∃ kind word, parseMessage s msg = submit s kind word := by
  rcases msg with _ | ⟨type, word⟩
  · exact Or.inl rfl
  · cases type with
    | heartbeat => exact Or.inl rfl
    | addWord => exact Or.inr ⟨_, _, rfl⟩
    | removeWord => exact Or.inr ⟨_, _, rfl⟩

theorem invoke_cases {s : State} (hs : Matched s) (root : NodePtr) :
    s.queue = [] ∧ invoke s root = s ∨
      ∃ kind queue word word', s.queue = kind :: queue ∧ s.words.getLast? = some word ∧
        due s = some (kind, word') ∧ invoke s root =
          { s with
            root := work root kind word, queue := queue, words := s.words.dropLast,
            applied := s.applied ++ [(kind, word)] } := by
  cases hq : s.queue with
  | nil => exact Or.inl ⟨rfl, by simp [invoke, hq]⟩
  | cons kind queue =>
      have hne : s.words ≠ [] := by
        intro hnil
        have := hs.words
        simp [hnil, hq] at this
      have hlast := List.getLast?_eq_some_getLast hne
      have hkinds := hs.kinds
      rw [hq] at hkinds
      obtain ⟨⟨k, word'⟩, rest, hdrop, hk, -⟩ := List.map_eq_cons_iff.mp hkinds.symm
      obtain rfl : k = kind := hk
      refine Or.inr ⟨k, queue, _, word', rfl, hlast, ?_, by simp [invoke, hq, hlast]⟩
      rw [due, ← List.head?_drop, hdrop]
      rfl

theorem invoke_matched {s : State} (hs : Matched s) (root : NodePtr) :
    Matched (invoke s root) := by
  rcases invoke_cases hs root with ⟨-, heq⟩ | ⟨kind, queue, word, word', hq, -, hdue, heq⟩
  · rw [heq]; exact hs
  · rw [heq]
    have hkinds := hs.kinds
    have hwords := hs.words
    have hlt : s.applied.length < s.submitted.length := (List.getElem?_eq_some_iff.mp hdue).1
    rw [hq] at hkinds hwords
    refine ⟨by simpa using Nat.succ_le_of_lt hlt, ?_, by simp [hwords]⟩
    rw [List.drop_eq_getElem_cons hlt] at hkinds
    simpa using (List.cons.inj hkinds).2

theorem prefix_snoc_iff {α : Type} {xs ys : List α} {a : α} (h : xs <+: ys) :
    xs ++ [a] <+: ys ↔ ys[xs.length]? = some a := by
  obtain ⟨zs, rfl⟩ := h
  rw [List.prefix_append_right_inj]
  cases zs with
  | nil => simp
  | cons z zs => simp [eq_comm]

theorem invoke_inOrder_iff {s : State} (hs : Matched s) (horder : InOrder s) (root : NodePtr) :
    InOrder (invoke s root) ↔ (s.queue ≠ [] → s.words.getLast? = (due s).map Prod.snd) := by
  rcases invoke_cases hs root with ⟨hq, heq⟩ | ⟨kind, queue, word, word', hq, hlast, hdue, heq⟩
  · rw [heq]
    exact iff_of_true horder fun hne => absurd hq hne
  · rw [heq, hlast, hdue]
    have hiff := prefix_snoc_iff (a := (kind, word)) horder
    rw [← due, hdue] at hiff
    simpa [InOrder, hq, eq_comm] using hiff

theorem step_matched (s : State) (action : Action) (s' : State) (hs : Matched s)
    (h : step s action = some s') : Matched s' := by
  obtain ⟨root, -, h⟩ := Option.bind_eq_some_iff.mp h
  cases action with
  | insert word => cases h; exact submit_matched hs .add word
  | remove word => cases h; exact submit_matched hs .remove word
  | message client msg =>
      cases h
      rcases parseMessage_submit s msg with heq | ⟨kind, word, heq⟩ <;> rw [heq]
      · exact hs
      · exact submit_matched hs kind word
  | invoke => cases h; exact invoke_matched hs root

theorem step_inOrder_iff (s : State) (action : Action) (hs : Matched s) (horder : InOrder s) :
    LastIsDue s action ↔ ∀ s', step s action = some s' → InOrder s' := by
  cases hroot : s.root with
  | none => simp [LastIsDue, step, hroot]
  | some root =>
      cases action with
      | insert word =>
          simpa [LastIsDue, step, hroot, insert] using submit_inOrder horder .add word
      | remove word =>
          simpa [LastIsDue, step, hroot, remove] using submit_inOrder horder .remove word
      | message client msg =>
          have hmsg : InOrder (parseMessage s msg) := by
            rcases parseMessage_submit s msg with heq | ⟨kind, word, heq⟩ <;> rw [heq]
            · exact horder
            · exact submit_inOrder horder kind word
          simpa [LastIsDue, step, hroot] using hmsg
      | invoke => simp [LastIsDue, step, hroot, invoke_inOrder_iff hs horder root]

theorem always_inOrder_iff (root : NodePtr) (actions : List Action) :
    Runs.Always step InOrder (start root) actions ↔
      Runs.Along step LastIsDue (start root) actions :=
  Runs.always_iff_along step_matched step_inOrder_iff actions (start root)
    ⟨le_refl _, rfl, rfl⟩ (List.prefix_refl _)

-- Two words wait: the worker takes the second for the first operation.
theorem applies_last_word : ¬ ∀ root actions s, Runs.run step (start root) actions = some s →
    InOrder s := by
  intro h
  obtain ⟨s, hrun, happlied, hsubmitted⟩ : ∃ s, Runs.run step (start .fresh)
      [.insert [97], .insert [98], .invoke] = some s ∧ s.applied = [(.add, [98])] ∧
        s.submitted = [(.add, [97]), (.add, [98])] := ⟨_, rfl, rfl, rfl⟩
  have horder := h _ _ s hrun
  rw [InOrder, happlied, hsubmitted] at horder
  exact absurd horder (by decide)

end AVLTree

end DistributedAvl
