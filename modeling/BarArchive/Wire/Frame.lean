/-
Frames: messages of several parts in a stream of bytes.

A frame is the number of its parts, then for each part its length and its bytes. A
reader that finds only the beginning of a frame waits for the rest and leaves the bytes
where they are. A frame beyond the limit is refused as soon as that can be told from the
lengths that have come, and a refusal takes nothing from the bytes either.
-/
import BarArchive.Wire.Error

namespace BarArchive

/-- The parts of a message. -/
abbrev Message := List Bytes

namespace Frame

/-- The limit that is used if none is set. -/
def defaultLimit : Nat := 64 * 1024 * 1024

/-- The bytes of a length. -/
def lengthWidth : Nat := 4

/-- The length of a frame. -/
def length (parts : Message) : Nat :=
  parts.foldr (fun part n => lengthWidth + part.length + n) lengthWidth

/-- Refuses what is beyond the limit. -/
def checkSize (limit size : Nat) : Except WireError Unit :=
  if limit < size then .error (.frameTooLarge size limit) else .ok ()

/-- A part with its length before it. -/
def writePart (part : Bytes) : Bytes := Bytes.ofUInt32 part.length.toUInt32 ++ part

/-- The bytes of a frame. -/
def write (parts : Message) : Bytes :=
  Bytes.ofUInt32 parts.length.toUInt32 ++ parts.flatMap writePart

/-- The bytes of a frame that may be sent: it has parts and keeps to the limit. -/
def encode (limit : Nat) (parts : Message) : Except WireError Bytes := do
  if parts.isEmpty then .error (.malformedFrame "frame has no parts")
  else
    checkSize limit (length parts)
    return write parts

/-- What is found where a frame may begin. -/
inductive Found where
  | incomplete
  | frame (parts : Message) (rest : Bytes)
  | refused (cause : WireError)
deriving DecidableEq

/-- Adds a part in front of those found after it. -/
def Found.cons (part : Bytes) : Found → Found
  | frame parts rest => frame (part :: parts) rest
  | found => found

/-- `count` parts, of a frame of which `size` bytes have been read. -/
def readParts (limit : Nat) : (count size : Nat) → Bytes → Found
  | 0, _, bs => .frame [] bs
  | count + 1, size, bs =>
    match Bytes.uint32? bs with
    | none => .incomplete
    | some (n, bs) =>
      let size := size + lengthWidth + n.toNat
      if limit < size then .refused (.frameTooLarge size limit)
      else match Bytes.split? n.toNat bs with
        | none => .incomplete
        | some (part, bs) => (readParts limit count size bs).cons part

/-- Looks for a frame at the front. -/
def decode (limit : Nat) (bs : Bytes) : Found :=
  match Bytes.uint32? bs with
  | none => .incomplete
  | some (count, rest) =>
    if count = 0 then .refused (.malformedFrame "frame has no parts")
    else
      let least := lengthWidth + count.toNat * lengthWidth
      if limit < least then .refused (.frameTooLarge least limit)
      else readParts limit count.toNat lengthWidth rest

/-! ### Buffers -/

/-- Appends a message to a buffer; one that may not be sent leaves the buffer alone. -/
def put (limit : Nat) (buffer : Bytes) (parts : Message) : Bytes × Except WireError Unit :=
  match encode limit parts with
  | .ok bs => (buffer ++ bs, .ok ())
  | .error e => (buffer, .error e)

/-- Takes the message at the front of a buffer; without a whole frame the buffer is left alone. -/
def take (limit : Nat) (buffer : Bytes) : Bytes × Except WireError (Option Message) :=
  match decode limit buffer with
  | .incomplete => (buffer, .ok none)
  | .frame parts rest => (rest, .ok (some parts))
  | .refused e => (buffer, .error e)

end Frame

end BarArchive
