import DistributedAvl.Startup.Links
import DistributedAvl.Foundation.Runs

namespace DistributedAvl

open OrderedMap InitTreeHandler

namespace Registration

-- What a call of sayHello finds: the endpoints it connects to, the connections it greets, and
-- which of them have had their InitSystemMessage registered.
structure Greeting where
  endpoints : Endpoint.Map
  connections : List Nat
  registered : List Nat
  deriving Repr

-- The root's side, its connections numbered in the order in which they are accepted.
structure State where
  init : InitTreeHandler
  accepted : Nat
  connections : List Nat
  posted : List Nat
  registered : List Nat
  sender : Option Nat
  greetings : List Greeting
  deriving Repr

def start (root : InitSystemMessage) (nodeCounter : Nat) : State :=
  ⟨create root nodeCounter, 0, [], [], [], none, []⟩

-- The root reads no Hello, so a connection accepted once it is ready goes to the Sender.
def handleAccept (s : State) : State :=
  if !s.init.ready then
    { s with
      accepted := s.accepted + 1
      connections := s.connections ++ [s.accepted]
      posted := s.posted ++ [s.accepted] }
  else { s with accepted := s.accepted + 1, sender := some s.accepted }

def sayHello (s : State) : State :=
  { s with greetings := s.greetings ++ [⟨s.init.endpointMap, s.connections, s.registered⟩] }

inductive Event where
  | accept
  | read
  deriving DecidableEq, Repr

-- The strand runs the posted reads in the order in which they were posted.
def step (message : Nat → InitSystemMessage) (joiners : Nat) (s : State) : Event → Option State
  | .accept => if s.accepted < joiners then some (handleAccept s) else none
  | .read =>
      match s.posted with
      | [] => none
      | connection :: posted =>
          let (init, fires) := s.init.parseMessage (some (message connection))
          let s' :=
            { s with init := init, posted := posted, registered := s.registered ++ [connection] }
          some (if fires then sayHello s' else s')

def GreetsOnce (nodeCounter : Nat) (s : State) : Prop :=
  ∃ greeting, s.greetings = [greeting] ∧ greeting.endpoints.length = nodeCounter ∧
    ∀ connection ∈ greeting.connections, connection ∈ greeting.registered

-- No connection is accepted, while the root is not ready, beyond the number it waits for.
def AcceptsInTime (joiners : Nat) (s : State) : Event → Prop
  | .accept => s.accepted < joiners → s.init.ready = false →
      s.connections.length + 1 < s.init.nodeCounter
  | .read => True

structure Greeted (nodeCounter connections : Nat) (greeting : Greeting) : Prop where
  endpoints : greeting.endpoints.length = greeting.registered.length + 1
  enough : nodeCounter ≤ greeting.registered.length + 1
  among : greeting.registered <+: greeting.connections
  within : greeting.connections.length ≤ connections

structure Kept (root : InitSystemMessage) (message : Nat → InitSystemMessage)
    (nodeCounter : Nat) (s : State) : Prop where
  counter : s.init.nodeCounter = nodeCounter
  collected : Collected s.init (root :: s.registered.map message)
  split : s.connections = s.registered ++ s.posted
  waits : s.init.ready = false → s.connections.length = s.accepted
  few : s.connections.length ≤ s.accepted
  greeted : ∀ greeting ∈ s.greetings, Greeted nodeCounter s.connections.length greeting
  count : 2 ≤ nodeCounter →
    s.greetings.length + nodeCounter = max nodeCounter (s.registered.length + 2)
  alone : nodeCounter ≤ 1 → s.greetings = [] ∧ s.posted = []

section Steps

variable {root : InitSystemMessage} {message : Nat → InitSystemMessage} {nodeCounter joiners : Nat}
  {s s' : State}

theorem ready_iff {init : InitTreeHandler} {connections : List Nat}
    (hcounter : init.nodeCounter = nodeCounter)
    (h : Collected init (root :: connections.map message)) :
    init.ready = true ↔ nodeCounter ≤ connections.length + 1 := by
  simp only [ready, h.next, hcounter, List.length_cons, List.length_map, decide_eq_true_eq]
  omega

theorem endpoints_length {init : InitTreeHandler} {connections : List Nat}
    (h : Collected init (root :: connections.map message)) :
    init.endpointMap.length = connections.length + 1 := by
  have hkeys := congrArg List.length (numbered_keys
    ((root :: connections.map message).map InitSystemMessage.endpoint) 1)
  rw [← h.map] at hkeys
  simpa using hkeys

theorem Kept.ready_iff (hs : Kept root message nodeCounter s) :
    s.init.ready = true ↔ nodeCounter ≤ s.registered.length + 1 :=
  Registration.ready_iff hs.counter hs.collected

theorem start_kept (root : InitSystemMessage) (message : Nat → InitSystemMessage)
    (nodeCounter : Nat) : Kept root message nodeCounter (start root nodeCounter) where
  counter := rfl
  collected := create_collected root nodeCounter
  split := rfl
  waits := fun _ => rfl
  few := Nat.zero_le _
  greeted := by intro greeting h; cases h
  count := by
    intro h
    show 0 + nodeCounter = max nodeCounter 2
    omega
  alone := fun _ => ⟨rfl, rfl⟩

theorem Greeted.grow {few many : Nat} {greeting : Greeting} (h : Greeted nodeCounter few greeting)
    (hgrow : few ≤ many) : Greeted nodeCounter many greeting :=
  { h with within := h.within.trans hgrow }

theorem handleAccept_kept (hs : Kept root message nodeCounter s) :
    Kept root message nodeCounter (handleAccept s) := by
  cases hready : s.init.ready with
  | true =>
      simp only [handleAccept, hready, Bool.not_true, Bool.false_eq_true, if_false]
      exact { hs with
        waits := fun h => absurd (hready.symm.trans h) (by decide)
        few := hs.few.trans (Nat.le_succ _) }
  | false =>
      have hlength := hs.waits hready
      have hmany : ¬ nodeCounter ≤ s.registered.length + 1 := fun h =>
        absurd (hready.symm.trans (hs.ready_iff.mpr h)) (by decide)
      simp only [handleAccept, hready, Bool.not_false, if_true]
      exact { hs with
        split := by simp [hs.split]
        waits := fun _ => by simp [hlength]
        few := by simp [hlength]
        greeted := fun greeting h => (hs.greeted greeting h).grow (by simp)
        alone := fun h => absurd h (by omega) }

theorem Kept.posted_many {connection : Nat} {posted : List Nat}
    (hs : Kept root message nodeCounter s) (hposted : s.posted = connection :: posted) :
    2 ≤ nodeCounter := by
  by_contra hfew
  have hnil := (hs.alone (by omega)).2
  rw [hposted] at hnil
  cases hnil

theorem Kept.posted_split {connection : Nat} {posted : List Nat}
    (hs : Kept root message nodeCounter s) (hposted : s.posted = connection :: posted) :
    s.connections = (s.registered ++ [connection]) ++ posted := by
  rw [hs.split, hposted]
  simp

theorem read_kept {connection : Nat} {posted : List Nat}
    (hs : Kept root message nodeCounter s) (hposted : s.posted = connection :: posted)
    (h : step message joiners s .read = some s') : Kept root message nodeCounter s' := by
  have hcollected := addInitToTree_collected hs.collected (message connection)
  rw [List.cons_append, ← List.map_singleton, ← List.map_append] at hcollected
  have hcounter := hs.posted_many hposted
  have hcount := hs.count hcounter
  have hsplit := hs.posted_split hposted
  have hlength : (s.registered ++ [connection]).length = s.registered.length + 1 := by simp
  have hnode : (s.init.addInitToTree (message connection)).nodeCounter = nodeCounter := hs.counter
  have hfires := ready_iff hnode hcollected
  rw [hlength] at hfires
  simp only [step, hposted, parseMessage, Option.some.injEq] at h
  cases hready : (s.init.addInitToTree (message connection)).ready with
  | false =>
      simp only [hready, Bool.false_eq_true, if_false] at h
      rw [hready] at hfires
      subst h
      have hmany : ¬ nodeCounter ≤ s.registered.length + 2 := fun h =>
        absurd (hfires.mpr h) (by decide)
      have hlow : s.init.ready = false := by
        rw [← Bool.not_eq_true, hs.ready_iff]
        omega
      exact
        { counter := hs.counter
          collected := hcollected
          split := hsplit
          waits := fun _ => hs.waits hlow
          few := hs.few
          greeted := hs.greeted
          count := fun _ => by simp only [hlength]; omega
          alone := fun h => absurd h (by omega) }
  | true =>
      simp only [hready, if_true] at h
      have hmany := hfires.mp hready
      subst h
      have hnew : Greeted nodeCounter s.connections.length
          ⟨(s.init.addInitToTree (message connection)).endpointMap, s.connections,
            s.registered ++ [connection]⟩ :=
        ⟨endpoints_length hcollected, by simp only [hlength]; omega, ⟨posted, hsplit.symm⟩,
          le_refl _⟩
      exact
        { counter := hs.counter
          collected := hcollected
          split := hsplit
          waits := fun h => absurd (hready.symm.trans h) (by decide)
          few := hs.few
          greeted := fun greeting h => by
            rcases List.mem_append.mp h with h | h
            · exact hs.greeted greeting h
            · rw [List.mem_singleton.mp h]
              exact hnew
          count := fun _ => by
            simp only [sayHello, hlength, List.length_append, List.length_singleton]
            omega
          alone := fun h => absurd h (by omega) }

theorem step_kept (s : State) (event : Event) (s' : State)
    (hs : Kept root message nodeCounter s) (h : step message joiners s event = some s') :
    Kept root message nodeCounter s' := by
  cases event with
  | accept =>
      obtain ⟨-, ⟨⟩⟩ := Option.ite_none_right_eq_some.mp h
      exact handleAccept_kept hs
  | read =>
      cases hposted : s.posted with
      | nil => simp [step, hposted] at h
      | cons connection posted => exact read_kept hs hposted h

theorem read_connections (h : step message joiners s .read = some s') :
    s'.connections = s.connections := by
  cases hposted : s.posted with
  | nil => simp [step, hposted] at h
  | cons connection posted =>
      simp only [step, hposted, Option.some.injEq] at h
      subst h
      split <;> rfl

theorem handleAccept_connections (s : State) : (handleAccept s).connections.length =
    if s.init.ready then s.connections.length else s.connections.length + 1 := by
  cases hready : s.init.ready <;> simp [handleAccept, hready]

theorem step_connections (s : State) (event : Event) (s' : State)
    (h : step message joiners s event = some s') :
    s.connections.length ≤ s'.connections.length := by
  cases event with
  | accept =>
      obtain ⟨-, ⟨⟩⟩ := Option.ite_none_right_eq_some.mp h
      rw [handleAccept_connections]
      split <;> omega
  | read => rw [read_connections h]

theorem acceptsInTime_iff (s : State) (event : Event)
    (hs : Kept root message nodeCounter s) (hfew : s.connections.length < nodeCounter) :
    AcceptsInTime joiners s event ↔
      ∀ s', step message joiners s event = some s' → s'.connections.length < nodeCounter := by
  cases event with
  | accept =>
      have hlength := handleAccept_connections s
      simp only [AcceptsInTime, step, Option.ite_none_right_eq_some, Option.some.injEq, hs.counter]
      cases hready : s.init.ready with
      | true =>
          simp only [hready, if_true] at hlength
          refine iff_of_true (fun _ h => absurd h (by decide)) ?_
          rintro s' ⟨-, rfl⟩
          rwa [hlength]
      | false =>
          simp only [hready, Bool.false_eq_true, if_false] at hlength
          constructor
          · rintro h s' ⟨hleft, rfl⟩
            rw [hlength]
            exact h hleft rfl
          · intro h hleft _
            rw [← hlength]
            exact h _ ⟨hleft, rfl⟩
  | read => exact iff_of_true trivial fun s' h => by rw [read_connections h]; exact hfew

theorem Kept.greetsOnce_iff (hs : Kept root message nodeCounter s)
    (hcounter : 2 ≤ nodeCounter) (hjoiners : nodeCounter ≤ joiners + 1)
    (haccepted : s.accepted = joiners) (hposted : s.posted = []) :
    GreetsOnce nodeCounter s ↔ s.connections.length < nodeCounter := by
  have hcount := hs.count hcounter
  have hsplit : s.connections.length = s.registered.length := by
    rw [hs.split, hposted, List.append_nil]
  constructor
  · rintro ⟨greeting, heq, -⟩
    rw [heq, List.length_singleton] at hcount
    omega
  · intro hfew
    have hmany : nodeCounter ≤ s.registered.length + 1 := by
      cases hready : s.init.ready with
      | true => exact hs.ready_iff.mp hready
      | false =>
          have := hs.waits hready
          omega
    obtain ⟨greeting, heq⟩ := List.length_eq_one_iff.mp (show s.greetings.length = 1 by omega)
    obtain ⟨hendpoints, henough, hamong, hwithin⟩ := hs.greeted greeting (by rw [heq]; simp)
    have hall : greeting.registered = greeting.connections :=
      hamong.eq_of_length (le_antisymm hamong.length_le (by omega))
    have hlength := congrArg List.length hall
    exact ⟨greeting, heq, by omega, by rw [hall]; exact fun _ h => h⟩

end Steps

theorem along_iff {message : Nat → InitSystemMessage} {joiners nodeCounter : Nat}
    (root : InitSystemMessage) (hcounter : 1 ≤ nodeCounter) {events : List Event} {s : State}
    (hrun : Runs.run (step message joiners) (start root nodeCounter) events = some s) :
    Runs.Along (step message joiners) (AcceptsInTime joiners) (start root nodeCounter) events ↔
      s.connections.length < nodeCounter := by
  have hkept := start_kept root message nodeCounter
  have hback : ∀ s event s', step message joiners s event = some s' →
      s'.connections.length < nodeCounter → s.connections.length < nodeCounter :=
    fun s event s' h => (step_connections s event s' h).trans_lt
  rw [← Runs.always_iff_along step_kept acceptsInTime_iff events _ hkept hcounter]
  exact Runs.always_iff_last hback events _ s hrun

theorem run_kept {message : Nat → InitSystemMessage} {joiners nodeCounter : Nat}
    (root : InitSystemMessage) {events : List Event} {s : State}
    (hrun : Runs.run (step message joiners) (start root nodeCounter) events = some s) :
    Kept root message nodeCounter s :=
  Runs.run_invariant step_kept events _ s (start_kept root message nodeCounter) hrun

theorem run_accepts (message : Nat → InitSystemMessage) (joiners : Nat) :
    ∀ (n : Nat) (s : State), s.accepted + n = joiners →
      ∃ s', Runs.run (step message joiners) s (List.replicate n .accept) = some s' ∧
        s'.accepted = joiners ∧
        (s.init.ready = false → s'.connections.length = s.connections.length + n) := by
  intro n
  induction n with
  | zero => intro s heq; exact ⟨s, rfl, heq, fun _ => rfl⟩
  | succ n ih =>
      intro s heq
      have hstep : step message joiners s .accept = some (handleAccept s) := if_pos (by omega)
      have hinit : (handleAccept s).init = s.init := by rw [handleAccept]; split <;> rfl
      have haccepted : (handleAccept s).accepted = s.accepted + 1 := by
        rw [handleAccept]
        split <;> rfl
      obtain ⟨s', hrun, hall, hlength⟩ := ih (handleAccept s) (by omega)
      rw [handleAccept_connections, hinit] at hlength
      refine ⟨s', by rw [List.replicate_succ, Runs.run, hstep]; exact hrun, hall, fun hready => ?_⟩
      have hlength := hlength hready
      simp only [hready, Bool.false_eq_true, if_false] at hlength
      omega

theorem run_reads (message : Nat → InitSystemMessage) (joiners : Nat) :
    ∀ (n : Nat) (s : State), s.posted.length = n →
      ∃ s', Runs.run (step message joiners) s (List.replicate n .read) = some s' ∧
        s'.accepted = s.accepted ∧ s'.connections = s.connections ∧ s'.posted = [] := by
  intro n
  induction n with
  | zero => intro s h; exact ⟨s, rfl, rfl, rfl, List.length_eq_zero_iff.mp h⟩
  | succ n ih =>
      intro s h
      obtain ⟨connection, posted, hposted⟩ := List.exists_cons_of_length_eq_add_one h
      obtain ⟨s₁, hstep, haccepted, hrest⟩ : ∃ s₁, step message joiners s .read = some s₁ ∧
          s₁.accepted = s.accepted ∧ s₁.posted = posted := by
        simp only [step, hposted, Option.some.injEq, exists_eq_left']
        split <;> exact ⟨rfl, rfl⟩
      rw [hposted, List.length_cons] at h
      obtain ⟨s', hrun, hall, hsame, hnil⟩ := ih s₁ (by rw [hrest]; omega)
      exact ⟨s', by rw [List.replicate_succ, Runs.run, hstep]; exact hrun, hall.trans haccepted,
        hsame.trans (read_connections hstep), hnil⟩

theorem run_late (root : InitSystemMessage) (message : Nat → InitSystemMessage)
    (nodeCounter joiners : Nat) :
    ∃ events s, Runs.run (step message joiners) (start root nodeCounter) events = some s ∧
      s.accepted = joiners ∧ s.posted = [] ∧
      (2 ≤ nodeCounter → s.connections.length = joiners) := by
  obtain ⟨s₁, hrun₁, haccepted, hlength⟩ :=
    run_accepts message joiners joiners (start root nodeCounter) (Nat.zero_add joiners)
  obtain ⟨s, hrun, hall, hsame, hposted⟩ := run_reads message joiners _ s₁ rfl
  refine ⟨_, s, by rw [Runs.run_append, hrun₁]; exact hrun, hall.trans haccepted, hposted, ?_⟩
  intro htwo
  have hready : (start root nodeCounter).init.ready = false := by
    rw [← Bool.not_eq_true, (start_kept root message nodeCounter).ready_iff]
    exact Nat.not_le_of_lt htwo
  rw [hsame, hlength hready]
  exact Nat.zero_add joiners

theorem registration_iff (root : InitSystemMessage) (message : Nat → InitSystemMessage)
    {nodeCounter joiners : Nat} (hcounter : 1 ≤ nodeCounter)
    (hjoiners : nodeCounter ≤ joiners + 1) :
    (∀ events s, Runs.run (step message joiners) (start root nodeCounter) events = some s →
      s.accepted = joiners → s.posted = [] →
      (GreetsOnce nodeCounter s ↔ 2 ≤ nodeCounter ∧ Runs.Along (step message joiners)
        (AcceptsInTime joiners) (start root nodeCounter) events)) ∧
    ((∀ events s, Runs.run (step message joiners) (start root nodeCounter) events = some s →
      s.accepted = joiners → s.posted = [] → GreetsOnce nodeCounter s) ↔
        2 ≤ nodeCounter ∧ nodeCounter = joiners + 1) := by
  by_cases htwo : 2 ≤ nodeCounter
  · refine ⟨fun events s hrun haccepted hposted => ?_, fun h => ⟨htwo, ?_⟩, ?_⟩
    · rw [(run_kept root hrun).greetsOnce_iff htwo hjoiners haccepted hposted,
        along_iff root hcounter hrun]
      simp [htwo]
    · obtain ⟨events, s, hrun, haccepted, hposted, hlength⟩ :=
        run_late root message nodeCounter joiners
      have honce := h events s hrun haccepted hposted
      rw [(run_kept root hrun).greetsOnce_iff htwo hjoiners haccepted hposted, hlength htwo]
        at honce
      omega
    · rintro ⟨-, heq⟩ events s hrun haccepted hposted
      have hs := run_kept root hrun
      rw [hs.greetsOnce_iff htwo hjoiners haccepted hposted]
      have hmany := hs.few
      omega
  · have hnever : ∀ events s, Runs.run (step message joiners) (start root nodeCounter) events =
        some s → ¬ GreetsOnce nodeCounter s := by
      rintro events s hrun ⟨greeting, heq, -⟩
      rw [((run_kept root hrun).alone (by omega)).1] at heq
      cases heq
    refine ⟨fun events s hrun _ _ => iff_of_false (hnever events s hrun) fun h => htwo h.1,
      iff_of_false (fun h => ?_) fun h => htwo h.1⟩
    obtain ⟨events, s, hrun, haccepted, hposted, -⟩ := run_late root message nodeCounter joiners
    exact hnever events s hrun (h events s hrun haccepted hposted)

theorem registration_iff_three :
    (∀ events s, Runs.run (step (fun n => ⟨"b", n⟩) 2) (start ⟨"a", 1⟩ 3) events = some s →
      s.accepted = 2 → s.posted = [] →
      (GreetsOnce 3 s ↔ 2 ≤ 3 ∧ Runs.Along (step (fun n => ⟨"b", n⟩) 2) (AcceptsInTime 2)
        (start ⟨"a", 1⟩ 3) events)) ∧
    ((∀ events s, Runs.run (step (fun n => ⟨"b", n⟩) 2) (start ⟨"a", 1⟩ 3) events = some s →
      s.accepted = 2 → s.posted = [] → GreetsOnce 3 s) ↔ 2 ≤ 3 ∧ 3 = 2 + 1) :=
  registration_iff ⟨"a", 1⟩ (fun n => ⟨"b", n⟩) (by decide) (by decide)

-- Two joiners are accepted where one is waited for: the first message greets both, the second
-- greets them again.
theorem greets_early : ¬ ∀ (root : InitSystemMessage) (message : Nat → InitSystemMessage)
    (nodeCounter joiners : Nat) (events : List Event) (s : State), 1 ≤ nodeCounter →
    nodeCounter ≤ joiners + 1 →
    Runs.run (step message joiners) (start root nodeCounter) events = some s →
    s.accepted = joiners → s.posted = [] → GreetsOnce nodeCounter s := by
  intro h
  obtain ⟨greeting, heq, -⟩ := h ⟨"a", 1⟩ (fun n => ⟨"b", n⟩) 2 2
    [.accept, .accept, .read, .read] _ (by decide) (by decide) rfl rfl rfl
  have htwo : 2 = 1 := congrArg List.length heq
  exact absurd htwo (by decide)

end Registration

end DistributedAvl
