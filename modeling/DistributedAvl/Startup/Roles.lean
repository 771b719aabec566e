import DistributedAvl.Startup.Server
import DistributedAvl.Startup.Links
import DistributedAvl.Foundation.Runs

namespace DistributedAvl

open OrderedMap RemoteTreeManager

namespace Server

def RightRoles (s : State) : Prop :=
  ∀ n, 2 ≤ n → (∀ m, (s.peers n).sender = some m → m = 1) ∧
    ∀ m, (s.peers n).rootConnection = some m → m = n / 2

section Numbered

variable {endpoints : List Endpoint.MapEndpoint} {n m : Nat}

theorem mem_joiners : n ∈ joiners (numbered 1 endpoints) ↔ 2 ≤ n ∧ n ≤ endpoints.length := by
  simp only [joiners, numbered_keys, List.mem_filter, List.mem_range'_1, decide_eq_true_eq]
  omega

theorem mem_opened : m ∈ opened (numbered 1 endpoints) n ↔
    (m = n / 2 ∧ 1 < n / 2 ∨ m = n * 2 ∨ m = n * 2 + 1) ∧ 1 ≤ m ∧ m ≤ endpoints.length := by
  have hchild : ∀ id, m ∈ (createChild (numbered 1 endpoints) id).toList.map Prod.fst ↔
      m = id ∧ 1 ≤ id ∧ id ≤ endpoints.length := by
    intro id
    rw [← createChild_numbered endpoints id m]
    cases createChild (numbered 1 endpoints) id <;> simp [eq_comm]
  have hparent : m ∈ (localRoot (numbered 1 endpoints) n).parent.toList.map Prod.fst ↔
      1 < n / 2 ∧ m = n / 2 ∧ n / 2 ≤ endpoints.length := by
    rw [localRoot]
    split
    · rw [hchild]
      omega
    · simp_all
  rw [opened]
  simp only [List.map_append, List.mem_append, hparent]
  simp only [localRoot, hchild]
  omega

-- Who waits at a node: the root, the node above it or one below it.  After the node's Hello the
-- root waits only where it is the node above.
structure Expected (size : Nat) (s : State) : Prop where
  waiting : ∀ n, ∀ m ∈ (s.peers n).waiting, m = 1 ∨ m ≤ size ∧ (m = n / 2 ∨ m / 2 = n)
  root : ∀ n, (s.peers n).helloReady → 1 ∈ (s.peers n).waiting → n ≤ 3

theorem start_expected (size : Nat) : Expected size (start (numbered 1 endpoints)) where
  waiting := by
    intro n m hm
    simp only [start] at hm
    split at hm <;> simp_all
  root := by intro n hready; cases hready

theorem update_expected {s : State} {size : Nat} (hs : Expected size s) {peer : Peer}
    (hsub : peer.waiting ⊆ (s.peers n).waiting)
    (hroot : peer.helloReady → 1 ∈ peer.waiting → n ≤ 3) : Expected size (s.update n peer) where
  waiting := by
    intro k m hm
    by_cases hk : k = n
    · subst hk
      exact hs.waiting k m (hsub (by simpa [State.update] using hm))
    · exact hs.waiting k m (by simpa [State.update, hk] using hm)
  root := by
    intro k hready hone
    by_cases hk : k = n
    · subst hk
      exact hroot (by simpa [State.update] using hready) (by simpa [State.update] using hone)
    · exact hs.root k (by simpa [State.update, hk] using hready)
        (by simpa [State.update, hk] using hone)

theorem connect_expected {s : State} (hs : Expected endpoints.length s)
    (hn : n = 1 ∨ n ≤ endpoints.length) :
    Expected endpoints.length (s.connect n (opened (numbered 1 endpoints) n)) where
  waiting := by
    intro k m hm
    simp only [State.connect] at hm
    split at hm
    · rename_i hk
      have hk := mem_opened.mp hk
      rcases List.mem_append.mp hm with hm | hm
      · exact hs.waiting k m hm
      · obtain rfl := List.mem_singleton.mp hm
        omega
    · exact hs.waiting k m hm
  root := by
    intro k hready hone
    simp only [State.connect] at hready hone
    split at hone
    · rename_i hk
      have hk := mem_opened.mp hk
      simp only [mem_opened.mpr hk, if_true] at hready
      rcases List.mem_append.mp hone with hone | hone
      · exact hs.root k hready hone
      · have := List.mem_singleton.mp hone
        omega
    · rename_i hk
      simp only [hk, if_false] at hready
      exact hs.root k hready hone

theorem handleAccept_waiting (peer : Peer) (opener : Nat) :
    (handleAccept peer opener).waiting = peer.waiting.erase opener := by
  simp only [handleAccept]
  split <;> rfl

theorem handleAccept_helloReady (peer : Peer) (opener : Nat) :
    (handleAccept peer opener).helloReady = peer.helloReady := by
  simp only [handleAccept]
  split <;> rfl

theorem step_expected (s : State) (event : Event) (s' : State) (hs : Expected endpoints.length s)
    (h : step (numbered 1 endpoints) s event = some s') : Expected endpoints.length s' := by
  cases event with
  | accept n opener =>
      obtain ⟨-, ⟨⟩⟩ := Option.ite_none_right_eq_some.mp h
      refine update_expected hs ?_ ?_
      · rw [handleAccept_waiting]
        exact List.erase_subset
      · rw [handleAccept_waiting, handleAccept_helloReady]
        exact fun hready hone => hs.root n hready (List.mem_of_mem_erase hone)
  | hello n =>
      obtain ⟨⟨hn, -, hroot⟩, ⟨⟩⟩ := Option.ite_none_right_eq_some.mp h
      refine connect_expected ?_ (.inr (mem_joiners.mp hn).2)
      exact update_expected hs (List.Subset.refl _) fun _ hone => absurd hone hroot
  | dummy n =>
      obtain ⟨-, ⟨⟩⟩ := Option.ite_none_right_eq_some.mp h
      exact update_expected hs (List.Subset.refl _) (hs.root n)
  | resendDummy =>
      obtain ⟨-, ⟨⟩⟩ := Option.ite_none_right_eq_some.mp h
      have hs' : Expected endpoints.length { s with dummiesAnswered := true } :=
        ⟨hs.waiting, hs.root⟩
      exact connect_expected hs' (.inl rfl)

theorem update_rightRoles_iff {s : State} (hs : RightRoles s) (hn : 2 ≤ n) {peer : Peer} :
    RightRoles (s.update n peer) ↔
      (∀ m, peer.sender = some m → m = 1) ∧ ∀ m, peer.rootConnection = some m → m = n / 2 := by
  constructor
  · intro h
    simpa [State.update] using h n hn
  · intro h k hk
    by_cases hkn : k = n
    · subst hkn
      simpa [State.update] using h
    · simpa [State.update, hkn] using hs k hk

theorem connect_rightRoles {s : State} (hs : RightRoles s) (targets : List Nat) :
    RightRoles (s.connect n targets) := by
  intro k hk
  simp only [State.connect]
  split <;> exact hs k hk

-- No node accepts a connection opened from below it, nor, before its Hello, one that the root has
-- not opened.
def AcceptsInTurn (endpoints : Endpoint.Map) (s : State) : Event → Prop
  | .accept n opener => n ∈ joiners endpoints → opener ∈ (s.peers n).waiting →
      opener < n ∧ (1 < opener → (s.peers n).helloReady)
  | _ => True

theorem handleAccept_rightRoles_iff {s : State} {size opener : Nat} (hs : RightRoles s)
    (hexpected : Expected size s) (hn : 2 ≤ n) (hopener : opener ∈ (s.peers n).waiting) :
    RightRoles (s.update n (handleAccept (s.peers n) opener)) ↔
      opener < n ∧ (1 < opener → (s.peers n).helloReady) := by
  have hwaits := hexpected.waiting n opener hopener
  have hroot := hexpected.root n
  obtain ⟨hsender, hconnection⟩ := hs n hn
  rw [update_rightRoles_iff hs hn, handleAccept]
  cases hready : (s.peers n).helloReady with
  | false =>
      simp only [Bool.not_false, if_true, Option.some.injEq, forall_eq', Bool.false_eq_true,
        imp_false]
      constructor
      · rintro ⟨rfl, -⟩
        omega
      · rintro ⟨-, hone⟩
        exact ⟨by omega, hconnection⟩
  | true =>
      simp only [Bool.not_true, Bool.false_eq_true, if_false, Option.some.injEq, forall_eq',
        implies_true, and_true]
      constructor
      · rintro ⟨-, rfl⟩
        omega
      · intro hlt
        refine ⟨hsender, ?_⟩
        by_cases hone : opener = 1
        · subst hone
          have := hroot hready hopener
          omega
        · omega

theorem step_rightRoles_iff (s : State) (event : Event) (hexpected : Expected endpoints.length s)
    (hs : RightRoles s) : AcceptsInTurn (numbered 1 endpoints) s event ↔
      ∀ s', step (numbered 1 endpoints) s event = some s' → RightRoles s' := by
  cases event with
  | accept n opener =>
      simp only [AcceptsInTurn, step, Option.ite_none_right_eq_some, Option.some.injEq, and_imp]
      refine ⟨fun hturn s' hn hopener heq => ?_, fun h hn hopener => ?_⟩
      · rw [← heq, handleAccept_rightRoles_iff hs hexpected (mem_joiners.mp hn).1 hopener]
        exact hturn hn hopener
      · rw [← handleAccept_rightRoles_iff hs hexpected (mem_joiners.mp hn).1 hopener]
        exact h _ hn hopener rfl
  | hello n =>
      refine iff_of_true trivial fun s' h => ?_
      obtain ⟨⟨hn, -⟩, ⟨⟩⟩ := Option.ite_none_right_eq_some.mp h
      have hlow := (mem_joiners.mp hn).1
      refine connect_rightRoles ?_ _
      exact (update_rightRoles_iff hs hlow).mpr (hs n hlow)
  | dummy n =>
      refine iff_of_true trivial fun s' h => ?_
      obtain ⟨⟨hn, -⟩, ⟨⟩⟩ := Option.ite_none_right_eq_some.mp h
      have hlow := (mem_joiners.mp hn).1
      exact (update_rightRoles_iff hs hlow).mpr (hs n hlow)
  | resendDummy =>
      refine iff_of_true trivial fun s' h => ?_
      obtain ⟨-, ⟨⟩⟩ := Option.ite_none_right_eq_some.mp h
      have hs' : RightRoles { s with dummiesAnswered := true } := hs
      exact connect_rightRoles hs' _

theorem start_rightRoles : RightRoles (start (numbered 1 endpoints)) :=
  fun _ _ => ⟨fun _ h => (Option.some_ne_none _ h.symm).elim,
    fun _ h => (Option.some_ne_none _ h.symm).elim⟩

theorem acceptsInTurn_small (hsmall : endpoints.length ≤ 3) {s : State}
    (hexpected : Expected endpoints.length s) (event : Event) :
    AcceptsInTurn (numbered 1 endpoints) s event := by
  cases event with
  | accept n opener =>
      intro hn hopener
      have hn := mem_joiners.mp hn
      have := hexpected.waiting n opener hopener
      refine ⟨by omega, fun hlt => ?_⟩
      omega
  | _ => trivial

theorem run_rightRoles (hsmall : endpoints.length ≤ 3) {events : List Event} {s : State}
    (hrun : Runs.run (step (numbered 1 endpoints)) (start (numbered 1 endpoints)) events = some s) :
    RightRoles s := by
  have hstep : ∀ s event s', Expected endpoints.length s ∧ RightRoles s →
      step (numbered 1 endpoints) s event = some s' →
        Expected endpoints.length s' ∧ RightRoles s' := by
    rintro s event s' ⟨hexpected, hright⟩ h
    have hturn := acceptsInTurn_small hsmall hexpected event
    exact ⟨step_expected s event s' hexpected h,
      (step_rightRoles_iff s event hexpected hright).mp hturn s' h⟩
  exact (Runs.run_invariant hstep events _ s ⟨start_expected _, start_rightRoles⟩ hrun).2

-- Node 4 connects up to node 2, which has not read its Hello yet.
def climb : List Event := [.accept 4 1, .hello 4, .accept 2 1, .accept 2 4]

theorem climb_sender (endpoints : List Endpoint.MapEndpoint) (hlarge : 4 ≤ endpoints.length) : ∃ s,
    Runs.run (step (numbered 1 endpoints)) (start (numbered 1 endpoints)) climb = some s ∧
      (s.peers 2).sender = some 4 := by
  have h4 : 4 ∈ joiners (numbered 1 endpoints) := mem_joiners.mpr ⟨by decide, hlarge⟩
  have h2 : 2 ∈ joiners (numbered 1 endpoints) := mem_joiners.mpr ⟨by decide, by omega⟩
  have hup : 2 ∈ opened (numbered 1 endpoints) 4 := mem_opened.mpr ⟨.inl (by decide), by omega⟩
  simp [climb, Runs.run, step, start, State.update, State.connect, handleAccept, h2, h4, hup]

end Numbered

theorem roles_right_iff (root : InitSystemMessage) (nodeCounter : Nat)
    (inits : List InitSystemMessage) :
    let endpoints := ((InitTreeHandler.create root nodeCounter).parseAll inits).endpointMap
    (∀ events, Runs.Always (step endpoints) RightRoles (start endpoints) events ↔
      Runs.Along (step endpoints) (AcceptsInTurn endpoints) (start endpoints) events) ∧
    ((∀ events s, Runs.run (step endpoints) (start endpoints) events = some s → RightRoles s) ↔
      inits.length + 1 ≤ 3) := by
  intro endpoints
  have hmap : endpoints = numbered 1 ((root :: inits).map InitSystemMessage.endpoint) :=
    (InitTreeHandler.collected root nodeCounter inits).map
  have hlength : ((root :: inits).map InitSystemMessage.endpoint).length = inits.length + 1 := by
    simp
  rw [hmap]
  refine ⟨fun events => Runs.always_iff_along step_expected step_rightRoles_iff events _
    (start_expected _) start_rightRoles, ?_⟩
  constructor
  · intro h
    by_contra hlarge
    obtain ⟨s, hrun, hsender⟩ := climb_sender
      ((root :: inits).map InitSystemMessage.endpoint) (by omega)
    exact absurd ((h climb s hrun 2 (by decide)).1 4 hsender) (by decide)
  · intro hsmall events s hrun
    exact run_rightRoles (hlength.trans_le hsmall) hrun

theorem climb_misroutes : ¬ ∀ (root : InitSystemMessage) (nodeCounter : Nat)
    (inits : List InitSystemMessage) (events : List Event) (s : State),
    let endpoints := ((InitTreeHandler.create root nodeCounter).parseAll inits).endpointMap
    Runs.run (step endpoints) (start endpoints) events = some s → RightRoles s := by
  intro h
  let inits : List InitSystemMessage := [⟨"b", 2⟩, ⟨"c", 3⟩, ⟨"d", 4⟩]
  obtain ⟨s, hrun, hsender⟩ :=
    climb_sender ((⟨"a", 1⟩ :: inits).map InitSystemMessage.endpoint) (by decide)
  have hright := h ⟨"a", 1⟩ 4 inits climb s
  rw [(InitTreeHandler.collected ⟨"a", 1⟩ 4 inits).map] at hright
  exact absurd ((hright hrun 2 (by decide)).1 4 hsender) (by decide)

end Server

end DistributedAvl
