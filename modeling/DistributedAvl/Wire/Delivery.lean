import DistributedAvl.Wire.Frames

namespace DistributedAvl

open MessageParser Connection

-- What readMessage hands to a handler that keeps every buffer it is given.
def Delivers (s : Socket) (buf : Buffer) : Prop :=
  ∃ s', readMessage (fun given buf => given ++ [buf]) [] s = .ok ([buf], s')

def HoldsFrame (bytes payload : Buffer) : Prop :=
  payload.length < 2 ^ 31 ∧ ∃ rest, bytes = parseMsg payload ++ rest

def ReadsFrames (s : Socket) : Prop := ∀ buf, Delivers s buf ↔ HoldsFrame s.bytes buf

theorem delivers_iff {s : Socket} {buf : Buffer} :
    Delivers s buf ↔ ∃ s', doReadMsg s = .ok (buf, s') := by
  simp only [Delivers, readMessage]
  cases doReadMsg s with
  | error e => simp [bind, Except.bind]
  | ok p => simp [bind, Except.bind, pure, Except.pure, Prod.ext_iff]

theorem HoldsFrame.delivers {s : Socket} {payload : Buffer} (h : HoldsFrame s.bytes payload) :
    ∃ s', doReadMsg s = .ok (payload, s') := by
  obtain ⟨hsize, rest, hrest⟩ := h
  exact ⟨_, doReadMsg_parseMsg rest hsize hrest⟩

theorem HoldsFrame.nonneg {bytes payload : Buffer} (h : HoldsFrame bytes payload) :
    ¬ (headerValue (padded bytes)).toInt < 0 := by
  obtain ⟨hsize, rest, rfl⟩ := h
  have hlen := announced_payload hsize
  rw [padded_parseMsg, headerValue_octets (by omega), BitVec.toInt_neg_iff]
  omega

theorem HoldsFrame.long {bytes payload : Buffer} (h : HoldsFrame bytes payload) :
    headerSize + payload.length ≤ bytes.length := by
  obtain ⟨hsize, rest, rfl⟩ := h
  simp [parseMsg_eq, octets, headerSize]
  omega

theorem holdsFrame_of_long {a b c d : SignedChar} {tail : Buffer}
    (hneg : ¬ (headerValue [a, b, c, d]).toInt < 0)
    (hlong : (headerValue [a, b, c, d]).toNat ≤ tail.length) :
    HoldsFrame (a :: b :: c :: d :: tail) (tail.take (headerValue [a, b, c, d]).toNat) := by
  have hsize : (headerValue [a, b, c, d]).toNat < 2 ^ 31 := by
    rw [BitVec.toInt_neg_iff] at hneg; omega
  have htaken : (tail.take (headerValue [a, b, c, d]).toNat).length =
      (headerValue [a, b, c, d]).toNat := by
    rw [List.length_take]; omega
  refine ⟨by omega, tail.drop (headerValue [a, b, c, d]).toNat, ?_⟩
  rw [parseMsg_eq, htaken, BitVec.ofNat_toNat, BitVec.setWidth_eq, octets_headerValue hsize]
  simp

theorem readsFrames_of_held {s : Socket} {payload : Buffer} (h : HoldsFrame s.bytes payload) :
    ReadsFrames s := by
  intro buf
  rw [delivers_iff]
  refine ⟨fun hbuf => ?_, HoldsFrame.delivers⟩
  obtain ⟨s₁, h₁⟩ := hbuf
  obtain ⟨s₂, h₂⟩ := h.delivers
  rw [h₁] at h₂
  cases h₂
  exact h

theorem readsFrames_of_negative {s : Socket} (h : (headerValue (padded s.bytes)).toInt < 0) :
    ReadsFrames s := by
  intro buf
  rw [delivers_iff, doReadMsg_eq]
  simp only [h, if_true, reduceCtorEq, exists_false, false_iff]
  exact fun hframe => hframe.nonneg h

-- A buffer is delivered, but the stream is shorter than the buffer's frame.
theorem not_readsFrames {s : Socket} (hs : s.ending = .eof)
    (hneg : ¬ (headerValue (padded s.bytes)).toInt < 0)
    (hshort : s.bytes.length < headerSize + (headerValue (padded s.bytes)).toNat) :
    ¬ ReadsFrames s := by
  intro h
  have hread := doReadMsg_eq s
  simp only [hneg, if_false, hs, true_or, if_true] at hread
  have hlong := ((h _).mp (delivers_iff.mpr ⟨_, hread⟩)).long
  simp only [List.length_append, List.length_take, List.length_drop, List.length_replicate] at hlong
  omega

theorem readsFrames_iff (s : Socket) (hs : s.ending = .eof) :
    ReadsFrames s ↔ (∃ payload, HoldsFrame s.bytes payload) ∨ ∃ c ∈ s.bytes.head?, c.toInt < 0 := by
  rw [← padded_negative]
  by_cases hneg : (headerValue (padded s.bytes)).toInt < 0
  · exact iff_of_true (readsFrames_of_negative hneg) (Or.inr hneg)
  · simp only [hneg, or_false]
    constructor
    · intro h
      have hlong : headerSize + (headerValue (padded s.bytes)).toNat ≤ s.bytes.length := by
        by_contra hshort
        exact not_readsFrames hs hneg (by omega) h
      match hbytes : s.bytes with
      | [] => rw [hbytes] at hlong; simp [headerSize] at hlong
      | [_] => rw [hbytes] at hlong; simp [headerSize] at hlong; omega
      | [_, _] => rw [hbytes] at hlong; simp [headerSize] at hlong; omega
      | [_, _, _] => rw [hbytes] at hlong; simp [headerSize] at hlong; omega
      | a :: b :: c :: d :: tail =>
          have hfour : padded s.bytes = [a, b, c, d] := by simp [hbytes, padded, headerSize]
          rw [hfour] at hneg hlong
          simp only [hbytes, List.length_cons, headerSize] at hlong
          exact ⟨_, holdsFrame_of_long hneg (by omega)⟩
    · rintro ⟨payload, h⟩
      exact readsFrames_of_held h

theorem readsFrames_iff_cut :
    ReadsFrames ⟨[0, 0, 0, 2, 5], .eof, by decide⟩ ↔
      (∃ payload, HoldsFrame [0, 0, 0, 2, 5] payload) ∨
        ∃ c ∈ [(0 : SignedChar), 0, 0, 2, 5].head?, c.toInt < 0 :=
  readsFrames_iff ⟨[0, 0, 0, 2, 5], .eof, by decide⟩ rfl

-- A connection closed before any byte was sent delivers an empty message.
theorem closed_delivers : ¬ ∀ s : Socket, s.ending = .eof → ReadsFrames s := by
  intro hall
  have hempty : Delivers ⟨[], .eof, by decide⟩ [] := ⟨_, rfl⟩
  have hlong := ((hall ⟨[], .eof, by decide⟩ rfl []).mp hempty).long
  exact absurd hlong (by decide)

end DistributedAvl
