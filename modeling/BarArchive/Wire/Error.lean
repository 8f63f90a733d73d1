/-
What can go wrong with messages on the wire.
-/
import BarArchive.Wire.Bytes

namespace BarArchive

/-- Failures to frame, read, write or exchange messages. -/
inductive WireError where
  | broken
  | frameTooLarge (size limit : Nat)
  | malformedFrame (text : String)
  | unknownTag (text : String)
  | missingPart (tag : String) (index : Nat)
  | undecodable
  | invalidField (field text : String)
  | undecompressible
  | lengthMismatch (expected actual : Nat)
  | remote (requestId : UInt32) (text : String)
  | connectionClosed
deriving DecidableEq

namespace WireError

/-- The text of a failure; damage that the bytes do not explain further has none of its own. -/
def message : WireError → String
  | broken => "I/O error"
  | frameTooLarge size limit =>
    "Frame of " ++ size.repr ++ " bytes exceeds the " ++ limit.repr ++ " byte limit"
  | malformedFrame text => "Malformed frame: " ++ text
  | unknownTag text => "Unknown message tag: " ++ text
  | missingPart tag index => tag ++ " message is missing part " ++ index.repr
  | undecodable => "Descriptor decode failed"
  | invalidField field text => "Invalid field " ++ field ++ ": " ++ text
  | undecompressible => "Bar array decompression failed"
  | lengthMismatch expected actual =>
    "Bar array is " ++ actual.repr ++ " bytes, header says " ++ expected.repr
  | remote id text => "Server error for request " ++ id.toNat.repr ++ ": " ++ text
  | connectionClosed => "Connection closed"

end WireError

end BarArchive
