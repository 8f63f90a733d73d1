/-
Identities: which connection a message belongs to.

Within the server every message carries the identity of its connection as its first
part. On the wire there is none.
-/
import BarArchive.Text.Digits
import BarArchive.Wire.Frame

namespace BarArchive

/-- The identity of a connection. -/
structure Identity where
  word : UInt64
deriving DecidableEq, Repr

namespace Identity

/-- The text of an identity: sixteen digits. -/
def toText (i : Identity) : String := Digits.hex 16 i.word.toNat

/-- An identity as a part of a message, the most significant byte first. -/
def part (i : Identity) : Bytes := Bytes.ofUInt64BE i.word

/-- The identity in a part of a message. -/
def ofPart (part : Bytes) : Except WireError Identity :=
  if part.length = 8 then .ok ⟨(Bytes.toNat part.reverse).toUInt64⟩
  else .error (.malformedFrame ("identity is " ++ part.length.repr ++ " bytes, expected 8"))

/-- A message with the identity of its connection in front. -/
def address (i : Identity) (message : Message) : Message := i.part :: message

/-- The identity in front of a message, and the message. -/
def split : Message → Except WireError (Identity × Message)
  | [] => .error (.malformedFrame "routed message is empty")
  | part :: message => (ofPart part).map fun i => (i, message)

end Identity

end BarArchive
