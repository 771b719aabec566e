import DistributedAvl.Foundation.Streams

namespace DistributedAvl

open Streams

structure Dummy where
  deriving DecidableEq, Repr

-- The two int fields have no initial value; ++index_ on the greatest int is undefined.
structure DummyMessageHandler where
  counter : Int
  index : Int
  deriving DecidableEq, Repr

namespace DummyMessageHandler

def setCounter (this : DummyMessageHandler) (counter : Int) : DummyMessageHandler :=
  { this with counter := counter }

def ready (this : DummyMessageHandler) : Bool := decide (this.index = this.counter)

-- The handler after the buffer, and whether it tells its observers that it is ready.
def parseMessage (this : DummyMessageHandler) : Option Dummy → DummyMessageHandler × Bool
  | some _ =>
      let this := { this with index := this.index + 1 }
      (this, this.ready)
  | none => ({ this with index := this.index + 1 }, false)

def parseAll (this : DummyMessageHandler) (buffers : List (Option Dummy)) : DummyMessageHandler :=
  buffers.foldl (fun this buffer => (this.parseMessage buffer).1) this

end DummyMessageHandler

-- One reader a connection is started; a buffer that any of them reads goes to the handler.
def RootDutiesManager.waitForDummy (connections : List Nat) (dummyHandler : DummyMessageHandler) :
    DummyMessageHandler := dummyHandler.setCounter connections.length

namespace DummyMessageHandler

variable {this : DummyMessageHandler} {n : Nat} {buffers : List (Option Dummy)}

-- ready_ fires at a buffer exactly when it holds the n-th Dummy.
def FiresOnce (this : DummyMessageHandler) (n : Nat) (buffers : List (Option Dummy)) : Prop :=
  ∀ before buffer after, buffers = before ++ buffer :: after →
    (((this.parseAll before).parseMessage buffer).2 = true ↔
      buffer.isSome = true ∧ before.countP Option.isSome + 1 = n)

-- index_ starts as far below 0 as there are unparseable buffers before the n-th Dummy; where fewer
-- than n come, none of them is in the buffer whose number is n - index_.
structure OnTime (index : Int) (n : Nat) (buffers : List (Option Dummy)) : Prop where
  nth : ∀ before dummy after, buffers = before ++ some dummy :: after →
    before.countP Option.isSome + 1 = n → index = -(before.countP Option.isNone : Int)
  fewer : buffers.countP Option.isSome < n →
    ∀ before dummy after, buffers = before ++ some dummy :: after → index + before.length + 1 ≠ n

theorem parseMessage_next (buffer : Option Dummy) :
    (this.parseMessage buffer).1 = { this with index := this.index + 1 } := by
  cases buffer <;> rfl

theorem parseAll_next (buffers : List (Option Dummy)) :
    ∀ this : DummyMessageHandler,
      this.parseAll buffers = { this with index := this.index + buffers.length } := by
  induction buffers with
  | nil => intro this; simp [parseAll]
  | cons buffer buffers ih =>
      intro this
      have hrest := ih (this.parseMessage buffer).1
      rw [parseMessage_next] at hrest
      rw [parseAll, List.foldl_cons, parseMessage_next, ← parseAll, hrest]
      simp only [List.length_cons, mk.injEq, true_and]
      omega

theorem fires_iff (before : List (Option Dummy)) (buffer : Option Dummy) :
    ((this.parseAll before).parseMessage buffer).2 = true ↔
      buffer.isSome = true ∧ this.index + before.length + 1 = this.counter := by
  rw [parseAll_next]
  cases buffer <;> simp [parseMessage, ready]

theorem length_split (buffers : List (Option Dummy)) :
    buffers.length = buffers.countP Option.isSome + buffers.countP Option.isNone := by
  induction buffers with
  | nil => rfl
  | cons buffer buffers ih => cases buffer <;> simp <;> omega

theorem firesOnce_iff (hn : 1 ≤ n) :
    FiresOnce (this.setCounter n) n buffers ↔ OnTime this.index n buffers := by
  constructor
  · refine fun h => ⟨fun before dummy after heq hnth => ?_, fun hfew before dummy after heq => ?_⟩
    · have hfires := (h before _ after heq).mpr ⟨rfl, hnth⟩
      have hcount := ((fires_iff before _).mp hfires).2
      have hsplit := length_split before
      simp only [setCounter] at hcount
      omega
    · intro hnumber
      have hfires : (((this.setCounter n).parseAll before).parseMessage (some dummy)).2 = true :=
        (fires_iff before (some dummy)).mpr ⟨rfl, hnumber⟩
      have hnth := ((h before _ after heq).mp hfires).2
      rw [heq, List.countP_append, List.countP_cons] at hfew
      simp only [Option.isSome_some, if_true] at hfew
      omega
  · intro h before buffer after heq
    rw [fires_iff]
    refine and_congr_right fun hsome => ?_
    obtain ⟨dummy, rfl⟩ := Option.isSome_iff_exists.mp hsome
    simp only [setCounter]
    constructor
    · intro hnumber
      by_cases hfew : buffers.countP Option.isSome < n
      · exact absurd hnumber (h.fewer hfew before dummy after heq)
      · have hmany : n - 1 < buffers.countP Option.isSome := by omega
        obtain ⟨past, last, rest, hlast, hsome, hcount⟩ := exists_nth hmany
        obtain ⟨dummy', rfl⟩ := Option.isSome_iff_exists.mp hsome
        have hindex := h.nth past dummy' rest hlast (by omega)
        have hsplit := length_split past
        have hlength : before.length = past.length := by omega
        obtain ⟨rfl, -⟩ := List.append_inj (heq.symm.trans hlast) hlength
        omega
    · intro hnth
      have hindex := h.nth before dummy after heq hnth
      have hsplit := length_split before
      omega

end DummyMessageHandler

open DummyMessageHandler RootDutiesManager

theorem dummy_fires_once_iff (handler : DummyMessageHandler) {connections : List Nat}
    (hn : 1 ≤ connections.length) (buffers : List (Option Dummy)) :
    FiresOnce (waitForDummy connections handler) connections.length buffers ↔
      OnTime handler.index connections.length buffers := firesOnce_iff hn

theorem dummy_fires_once_iff_pair :
    FiresOnce (waitForDummy [4, 7] ⟨3, 0⟩) 2 [some ⟨⟩, some ⟨⟩, none] ↔
      OnTime 0 2 [some ⟨⟩, some ⟨⟩, none] :=
  dummy_fires_once_iff ⟨3, 0⟩ (show 1 ≤ [4, 7].length by decide) _

-- Even from index_ = 0 one unparseable buffer before the only Dummy is enough.
theorem dummy_never_fires : ¬ ∀ (handler : DummyMessageHandler) (connections : List Nat)
    (buffers : List (Option Dummy)), 1 ≤ connections.length →
    FiresOnce (waitForDummy connections handler) connections.length buffers := by
  intro h
  have hfires := (h ⟨0, 0⟩ [4] [none, some ⟨⟩] (by decide) [none] (some ⟨⟩) [] rfl).mpr
    ⟨rfl, rfl⟩
  exact absurd hfires (by decide)

end DistributedAvl
