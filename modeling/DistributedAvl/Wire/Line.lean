import DistributedAvl.Wire.Frames
import DistributedAvl.Foundation.Calls

namespace DistributedAvl

open MessageParser Connection

-- The generated code of one message type: SerializeToArray and ParseFromArray.
structure Protobuf (M : Type) where
  serializeToArray : M → Buffer
  parseFromArray : Buffer → Option M

-- A message that comes out of its bytes as it went in, and whose length fits the header.
def Protobuf.Faithful {M : Type} (proto : Protobuf M) (message : M) : Prop :=
  proto.parseFromArray (proto.serializeToArray message) = some message ∧
    (proto.serializeToArray message).length < 2 ^ 31

namespace Connection

-- Both reads block while the connection is open and what they are to fill has not come.
def arrived (bytes : Buffer) : Bool :=
  match decodeHeader bytes with
  | .ok len => decide (headerSize + len.toNat ≤ bytes.length)
  | .error _ => false

def line {M : Type} (proto : Protobuf M) : Calls.Line M Buffer where
  idle := []
  put := fun bytes message => bytes ++ parseMsg (proto.serializeToArray message)
  get := fun bytes =>
    if arrived bytes then
      match doReadMsg ⟨bytes, .eof, by decide⟩ with
      | .ok (buf, s) => some (proto.parseFromArray buf, s.bytes)
      | .error _ => none
    else none
  get_idle := rfl

theorem arrived_parseMsg {payload : Buffer} (hsize : payload.length < 2 ^ 31) :
    arrived (parseMsg payload) = true := by
  have hlow : (BitVec.ofNat 32 payload.length).toNat < 2 ^ 31 := by
    rw [announced_payload hsize]
    exact hsize
  have hvalue := headerValue_octets hlow
  have hdecode : decodeHeader (parseMsg payload) = .ok (BitVec.ofNat 32 payload.length) := by
    rw [parseMsg_eq, decodeHeader, if_neg (by simp [octets, headerSize])]
    exact congrArg Except.ok hvalue
  simp only [arrived, hdecode, announced_payload hsize, decide_eq_true_eq]
  rw [parseMsg_eq]
  simp only [octets, headerSize, List.length_append, List.length_cons, List.length_nil]
  omega

theorem line_carries {M : Type} {proto : Protobuf M} {message : M}
    (h : proto.Faithful message) : (line proto).Carries message := by
  obtain ⟨hparse, hsize⟩ := h
  have hread := doReadMsg_parseMsg [] hsize
    (s := ⟨parseMsg (proto.serializeToArray message), .eof, by decide⟩) (by simp)
  simp [Calls.Line.Carries, line, arrived_parseMsg hsize, hread, hparse]

end Connection

end DistributedAvl
