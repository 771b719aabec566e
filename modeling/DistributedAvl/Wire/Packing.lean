import DistributedAvl.Wire.Delivery

namespace DistributedAvl

open MessageParser Connection

namespace MessageParser

-- std::copy from begin() + first to begin() + last: neither iterator may be formed past end().
def copied (buffer : Buffer) (first last : Nat) : Option Buffer :=
  if first ≤ last ∧ last ≤ buffer.length then some ((buffer.take last).drop first) else none

-- What is printed and what is parsed.  ParseFromArray reads the buffer through &buffer[0], which
-- an empty vector does not have.
def packMsg {M : Type} (parseFromArray : Buffer → Option M) (buffer : Buffer) :
    Option (Buffer × Option M) := do
  let printed ← copied buffer headerSize buffer.length
  let _ ← buffer[0]?
  return (printed, parseFromArray buffer)

end MessageParser

variable {M : Type} {payload rest : Buffer} {s : Socket}

-- The handler that is given the next message of the stream reads nothing outside it.
def PacksInside (parseFromArray : Buffer → Option M) (s : Socket) : Prop :=
  ∃ buf, Delivers s buf ∧ (packMsg parseFromArray buf).isSome = true

theorem packMsg_isSome (parseFromArray : Buffer → Option M) (buffer : Buffer) :
    (packMsg parseFromArray buffer).isSome = true ↔ headerSize ≤ buffer.length := by
  by_cases hlong : headerSize ≤ buffer.length
  · have hfirst : 0 < buffer.length := Nat.lt_of_lt_of_le (by decide) hlong
    simp [packMsg, copied, hlong, List.getElem?_eq_getElem hfirst]
  · simp [packMsg, copied, hlong]

theorem delivers_parseMsg (hsize : payload.length < 2 ^ 31)
    (hs : s.bytes = parseMsg payload ++ rest) (buf : Buffer) : Delivers s buf ↔ buf = payload := by
  rw [delivers_iff, doReadMsg_parseMsg rest hsize hs]
  simp [eq_comm]

theorem packs_inside_iff (parseFromArray : Buffer → Option M) (hsize : payload.length < 2 ^ 31)
    (hs : s.bytes = parseMsg payload ++ rest) :
    PacksInside parseFromArray s ↔ headerSize ≤ payload.length := by
  simp [PacksInside, delivers_parseMsg hsize hs, packMsg_isSome]

theorem packs_inside_iff_five :
    PacksInside (fun buf => some buf.length)
        ⟨parseMsg [10, 3, 97, 98, 99] ++ [0], .eof, by decide⟩ ↔
      headerSize ≤ [(10 : SignedChar), 3, 97, 98, 99].length := by
  have hbytes : parseMsg [10, 3, 97, 98, 99] ++ [0] = parseMsg [10, 3, 97, 98, 99] ++ [0] := rfl
  exact packs_inside_iff _ (by decide) hbytes

-- A Dummy has no payload.
theorem packs_outside : ¬ ∀ (M : Type) (parseFromArray : Buffer → Option M) (payload rest : Buffer)
    (s : Socket), payload.length < 2 ^ 31 → s.bytes = parseMsg payload ++ rest →
    PacksInside parseFromArray s := by
  intro hall
  obtain ⟨buf, hread, hpack⟩ := hall Nat (fun buf => some buf.length) [] []
    ⟨parseMsg [], .eof, by decide⟩ (by decide) rfl
  obtain rfl := (delivers_parseMsg (by decide) (List.append_nil _).symm buf).mp hread
  exact absurd hpack (by decide)

end DistributedAvl
