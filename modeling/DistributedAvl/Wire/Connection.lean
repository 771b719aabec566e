import Mathlib.Data.List.Basic

namespace DistributedAvl

-- A char is signed, int and unsigned have 32 bits.
abbrev SignedChar := BitVec 8

abbrev Buffer := List SignedChar

def headerSize : Nat := 4

namespace MessageParser

def encodeHeader (buf : Buffer) (size : BitVec 32) : Buffer :=
  (((buf.set 0 ((size.sshiftRight 24 &&& 0xFF).setWidth 8)).set 1
    ((size.sshiftRight 16 &&& 0xFF).setWidth 8)).set 2
    ((size.sshiftRight 8 &&& 0xFF).setWidth 8)).set 3 ((size &&& 0xFF).setWidth 8)

-- The payload is what SerializeToArray writes behind the header.
def parseMsg (payload : Buffer) : Buffer :=
  let msgSize := BitVec.ofNat 32 payload.length
  let buffer := List.replicate (headerSize + msgSize.toNat) 0
  (encodeHeader buffer msgSize).take headerSize ++ payload

end MessageParser

inductive ErrorCode where
  | success
  | eof
  | failed
  deriving DecidableEq, Repr

inductive ReadError where
  | logicError
  | lengthError
  | systemError (error : ErrorCode)
  deriving DecidableEq, Repr

-- The bytes not yet read, and the error of a read that goes past them.
structure Socket where
  bytes : Buffer
  ending : ErrorCode
  ends : ending ≠ .success

namespace Socket

-- boost::asio::read fills the buffer from its front.
def read (s : Socket) (buf : Buffer) : Buffer × Socket × ErrorCode :=
  let taken := s.bytes.take buf.length
  (taken ++ buf.drop taken.length, { s with bytes := s.bytes.drop buf.length },
    if taken.length = buf.length then .success else s.ending)

end Socket

namespace Connection

def decodeHeader (buf : Buffer) : Except ReadError (BitVec 32) :=
  if buf.length < headerSize then .error .logicError
  else .ok ((buf.take headerSize).foldl
    (fun msgSize c => msgSize * 256 + (c.signExtend 32 &&& 0xFF)) 0)

def doReadMsg (s : Socket) : Except ReadError (Buffer × Socket) := do
  -- the error of the first read is overwritten by that of the second
  let (header, s, _) := s.read (List.replicate headerSize 0)
  let len ← decodeHeader header
  -- resize takes a size_t, which a negative int makes too large
  if len.toInt < 0 then throw .lengthError
  let (buf, s, error) := s.read (List.replicate len.toNat 0)
  if error ≠ .eof ∧ error ≠ .success then throw (.systemError error)
  return (buf, s)

def readMessage {H : Type} (parseMessage : H → Buffer → H) (handler : H) (s : Socket) :
    Except ReadError (H × Socket) := do
  let (buf, s) ← doReadMsg s
  return (parseMessage handler buf, s)

end Connection

end DistributedAvl
