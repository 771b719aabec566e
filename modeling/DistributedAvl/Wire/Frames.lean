import DistributedAvl.Wire.Connection
import DistributedAvl.Foundation.Streams
import Mathlib.Tactic.SplitIfs
import Mathlib.Algebra.Group.Nat.Defs

namespace DistributedAvl

open MessageParser Connection

def octets (size : BitVec 32) : Buffer :=
  [(size.sshiftRight 24 &&& 0xFF).setWidth 8, (size.sshiftRight 16 &&& 0xFF).setWidth 8,
    (size.sshiftRight 8 &&& 0xFF).setWidth 8, (size &&& 0xFF).setWidth 8]

def headerValue (header : Buffer) : BitVec 32 :=
  header.foldl (fun msgSize c => msgSize * 256 + (c.signExtend 32 &&& 0xFF)) 0

-- The mask takes off what the sign of the char has spread over the unsigned.
theorem octet_value : ∀ c : SignedChar, (c.signExtend 32 &&& 0xFF).toNat = c.toNat := by
  decide +kernel

theorem octet_shifted {size : BitVec 32} (hsize : size.toNat < 2 ^ 31) (k : Nat) :
    ((size.sshiftRight k &&& 0xFF).setWidth 8).toNat = size.toNat / 2 ^ k % 256 := by
  have hmsb : size.msb = false := by rw [BitVec.msb_eq_false_iff_two_mul_lt]; omega
  have hmask : (0xFF : BitVec 32).toNat = 2 ^ 8 - 1 := rfl
  rw [BitVec.sshiftRight_eq_of_msb_false hmsb, BitVec.toNat_setWidth, BitVec.toNat_and,
    BitVec.toNat_ushiftRight, Nat.shiftRight_eq_div_pow, hmask, Nat.and_two_pow_sub_one_eq_mod]
  omega

theorem octet_last (size : BitVec 32) :
    ((size &&& 0xFF).setWidth 8).toNat = size.toNat % 256 := by
  have hmask : (0xFF : BitVec 32).toNat = 2 ^ 8 - 1 := rfl
  rw [BitVec.toNat_setWidth, BitVec.toNat_and, hmask, Nat.and_two_pow_sub_one_eq_mod]
  omega

theorem headerValue_four (a b c d : SignedChar) : (headerValue [a, b, c, d]).toNat =
    a.toNat * 2 ^ 24 + b.toNat * 2 ^ 16 + c.toNat * 2 ^ 8 + d.toNat := by
  have ha := a.isLt
  have hb := b.isLt
  have hc := c.isLt
  have hd := d.isLt
  have hbase : (256 : BitVec 32).toNat = 256 := rfl
  simp only [headerValue, List.foldl_cons, List.foldl_nil, BitVec.toNat_add, BitVec.toNat_mul,
    octet_value, hbase]
  omega

theorem headerValue_octets {size : BitVec 32} (hsize : size.toNat < 2 ^ 31) :
    headerValue (octets size) = size := by
  refine BitVec.eq_of_toNat_eq ?_
  rw [octets, headerValue_four, octet_shifted hsize, octet_shifted hsize, octet_shifted hsize,
    octet_last]
  omega

theorem octets_headerValue {a b c d : SignedChar}
    (hsize : (headerValue [a, b, c, d]).toNat < 2 ^ 31) :
    octets (headerValue [a, b, c, d]) = [a, b, c, d] := by
  have ha := a.isLt
  have hb := b.isLt
  have hc := c.isLt
  have hd := d.isLt
  have hvalue := headerValue_four a b c d
  simp only [octets, List.cons.injEq, and_true]
  refine ⟨?_, ?_, ?_, ?_⟩ <;> refine BitVec.eq_of_toNat_eq ?_
  · rw [octet_shifted hsize]; omega
  · rw [octet_shifted hsize]; omega
  · rw [octet_shifted hsize]; omega
  · rw [octet_last]; omega

theorem parseMsg_eq (payload : Buffer) :
    parseMsg payload = octets (BitVec.ofNat 32 payload.length) ++ payload := by
  simp [parseMsg, encodeHeader, headerSize, octets, Nat.add_comm 4, List.replicate_succ]

theorem announced_payload {payload : Buffer} (hsize : payload.length < 2 ^ 31) :
    (BitVec.ofNat 32 payload.length).toNat = payload.length := by
  rw [BitVec.toNat_ofNat]; omega

theorem decodeHeader_four (a b c d : SignedChar) :
    decodeHeader [a, b, c, d] = .ok (headerValue [a, b, c, d]) := rfl

-- What the header buffer holds after the first read.
def padded (bytes : Buffer) : Buffer :=
  bytes.take headerSize ++ List.replicate (headerSize - bytes.length) 0

theorem padded_four (bytes : Buffer) : ∃ a b c d, padded bytes = [a, b, c, d] := by
  match bytes with
  | [] => exact ⟨_, _, _, _, rfl⟩
  | [a] => exact ⟨_, _, _, _, rfl⟩
  | [a, b] => exact ⟨_, _, _, _, rfl⟩
  | [a, b, c] => exact ⟨_, _, _, _, rfl⟩
  | a :: b :: c :: d :: bytes => exact ⟨a, b, c, d, by simp [padded, headerSize]⟩

theorem read_eq (s : Socket) (n : Nat) : s.read (List.replicate n 0) =
    (s.bytes.take n ++ List.replicate (n - s.bytes.length) 0,
      { s with bytes := s.bytes.drop n }, if n ≤ s.bytes.length then .success else s.ending) := by
  have hzeros : n - min n s.bytes.length = n - s.bytes.length := by omega
  have hfull : min n s.bytes.length = n ↔ n ≤ s.bytes.length := by omega
  simp [Socket.read, hzeros, hfull]

theorem doReadMsg_eq (s : Socket) : doReadMsg s =
    if (headerValue (padded s.bytes)).toInt < 0 then .error .lengthError
    else
      let n := (headerValue (padded s.bytes)).toNat
      let tail := s.bytes.drop headerSize
      if s.ending = .eof ∨ n ≤ tail.length then
        .ok (tail.take n ++ List.replicate (n - tail.length) 0, { s with bytes := tail.drop n })
      else .error (.systemError s.ending) := by
  obtain ⟨a, b, c, d, hfour⟩ := padded_four s.bytes
  simp only [doReadMsg, read_eq]
  rw [← padded, hfour]
  simp only [decodeHeader_four, bind, Except.bind]
  by_cases hneg : (headerValue [a, b, c, d]).toInt < 0
  · simp only [hneg, if_true]
    rfl
  · simp only [hneg, if_false]
    by_cases hfit : (headerValue [a, b, c, d]).toNat ≤ (s.bytes.drop headerSize).length
    · simp only [hfit, if_true, or_true]
      rfl
    · simp only [hfit, if_false, or_false]
      by_cases heof : s.ending = .eof
      · simp only [heof, ne_eq, not_true_eq_false, false_and, if_false, if_true]
        rfl
      · simp only [heof, ne_eq, s.ends, not_false_eq_true, and_self, if_true, if_false]
        rfl

theorem headerValue_negative (a b c d : SignedChar) :
    (headerValue [a, b, c, d]).toInt < 0 ↔ a.toInt < 0 := by
  have hb := b.isLt
  have hc := c.isLt
  have hd := d.isLt
  have hvalue := headerValue_four a b c d
  rw [BitVec.toInt_neg_iff, BitVec.toInt_neg_iff]
  omega

theorem padded_negative (bytes : Buffer) :
    (headerValue (padded bytes)).toInt < 0 ↔ ∃ c ∈ bytes.head?, c.toInt < 0 := by
  match bytes with
  | [] => decide
  | [a] => exact (headerValue_negative _ _ _ _).trans (by simp)
  | [a, b] => exact (headerValue_negative _ _ _ _).trans (by simp)
  | [a, b, c] => exact (headerValue_negative _ _ _ _).trans (by simp)
  | a :: b :: c :: d :: bytes =>
      have hfour : padded (a :: b :: c :: d :: bytes) = [a, b, c, d] := by
        simp [padded, headerSize]
      rw [hfour, headerValue_negative]
      simp

theorem padded_parseMsg (payload rest : Buffer) : padded (parseMsg payload ++ rest) =
    octets (BitVec.ofNat 32 payload.length) := by
  simp [parseMsg_eq, padded, octets, headerSize]

theorem doReadMsg_parseMsg {payload : Buffer} (rest : Buffer) (hsize : payload.length < 2 ^ 31)
    {s : Socket} (hs : s.bytes = parseMsg payload ++ rest) :
    doReadMsg s = .ok (payload, { s with bytes := rest }) := by
  have hlen := announced_payload hsize
  have hvalue : headerValue (padded s.bytes) = BitVec.ofNat 32 payload.length := by
    rw [hs, padded_parseMsg, headerValue_octets (by omega)]
  have hneg : ¬ (BitVec.ofNat 32 payload.length).toInt < 0 := by
    rw [BitVec.toInt_neg_iff]; omega
  have htail : s.bytes.drop headerSize = payload ++ rest := by
    simp [hs, parseMsg_eq, octets, headerSize]
  rw [doReadMsg_eq, hvalue, htail, hlen]
  simp [hneg]

theorem readTimes_parseMsg (payloads : List Buffer) (hsize : ∀ p ∈ payloads, p.length < 2 ^ 31)
    (rest : Buffer) (s : Socket) (hs : s.bytes = payloads.flatMap parseMsg ++ rest) :
    Streams.readTimes doReadMsg payloads.length s = .ok (payloads, { s with bytes := rest }) := by
  let stream : Buffer → Socket := fun bytes => { s with bytes := bytes }
  have hread : ∀ p rest, p.length < 2 ^ 31 →
      doReadMsg (stream (parseMsg p ++ rest)) = .ok (p, stream rest) :=
    fun p rest hp => doReadMsg_parseMsg rest hp rfl
  have htimes := Streams.readTimes_written stream hread rest payloads hsize
  rwa [← hs] at htimes

theorem readTimes_parseMsg_three :
    Streams.readTimes doReadMsg 3 ⟨[[200, 7], [], [0]].flatMap parseMsg ++ [9], .eof, by decide⟩ =
      .ok ([[200, 7], [], [0]], ⟨[9], .eof, by decide⟩) :=
  readTimes_parseMsg [[200, 7], [], [0]] (by decide) [9] _ rfl

end DistributedAvl
