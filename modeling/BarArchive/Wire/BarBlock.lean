/-
Bars in compressed form.

The length that the bars have when they are not compressed travels beside the block, and
a reader lets neither more nor less come out of it.
-/
import BarArchive.Wire.Block
import BarArchive.Wire.Describe

namespace BarArchive

/-- A block of bars, and how long it is once it is expanded. -/
structure BarBlock where
  length : UInt32
  payload : Bytes
deriving DecidableEq

namespace BarBlock

variable {τ : Type} [Dated τ]

/-- Bars before they are compressed. -/
def serialize (bars : List (Bar τ)) : Except WireError Bytes := do
  let descriptors ← bars.mapM Bar.describe
  return Field.writeAll (BarDescriptor.listFields descriptors)

/-- Bars as they were before they were compressed. -/
def deserialize (bs : Bytes) : Except WireError (List Bar) := do
  match (Field.readAll? Field.depthLimit bs).bind (BarDescriptor.listOfFields? Field.depthLimit) with
  | none => .error .undecodable
  | some descriptors => descriptors.mapM BarDescriptor.meaning

/-- The greatest length that can be told. -/
def maxLength : Nat := 2 ^ 32 - 1

/-- Compresses bars; any writer of blocks will do. -/
def pack (bars : List (Bar τ)) (encoder : Block.Encoder := .plain) : Except WireError BarBlock := do
  let serialized ← serialize bars
  if maxLength < serialized.length then .error (.frameTooLarge serialized.length maxLength)
  else return ⟨serialized.length.toUInt32, encoder.shrink serialized⟩

/-- The bars of a block; a block of no length has none, whatever it holds. -/
def unpack (block : BarBlock) : Except WireError (List Bar) :=
  if block.length = 0 then .ok []
  else match Block.expand? block.length.toNat block.payload with
    | none => .error .undecompressible
    | some serialized =>
      if serialized.length = block.length.toNat then deserialize serialized
      else .error (.lengthMismatch block.length.toNat serialized.length)

/-- The length as a part of a message. -/
def lengthPart (block : BarBlock) : Bytes := Bytes.ofUInt32 block.length

/-- The length in a part of a message. -/
def lengthOfPart (part : Bytes) : Except WireError UInt32 :=
  match Bytes.uint32? part with
  | some (n, []) => .ok n
  | _ =>
    .error (.malformedFrame ("bar array length part is " ++ part.length.repr ++ " bytes, expected 4"))

end BarBlock

end BarArchive
