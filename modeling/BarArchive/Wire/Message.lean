/-
Messages: what clients and servers say to each other.

A message is a list of parts, the first of which is its tag. A question has one more
part, its descriptor. Answers differ: bars come with the request that asked for them,
the answer to a push is a tag of its own, and a failure carries the number of the
request and a text.
-/
import BarArchive.Wire.BarBlock
import BarArchive.Wire.Frame
import BarArchive.Wire.Tag

namespace BarArchive

/-- What a client says. -/
inductive Query (τ : Type := Instant) (κ : Type := TimeOfDay) where
  | history (r : Request τ κ)
  | push (a : Addition τ κ)
  | coverage (q : CoverageQuery)
deriving DecidableEq

/-- What a server says. -/
inductive Response (τ : Type := Instant) (κ : Type := TimeOfDay) where
  | history (r : Request τ κ) (bars : List (Bar τ))
  | pushAccepted
  | pushRejected (text : String)
  | coverage (requestId : UInt32) (c : Option (Coverage τ))
  | failure (requestId : UInt32) (text : String)
deriving DecidableEq

/-! ### Parts -/

namespace Message

/-- The tag of a message. -/
def tag : Message → Except WireError MessageTag
  | [] => .error (.malformedFrame "message has no tag")
  | part :: _ => MessageTag.ofPart part

/-- The part of a message at a place. -/
def part (m : Message) (t : MessageTag) (n : Nat) : Except WireError Bytes :=
  match m[n]? with
  | some part => .ok part
  | none => .error (.missingPart t.name n)

/-- The descriptor in a part of a message. -/
def descriptor {α : Type} (f : List Field → Option α) (part : Bytes) : Except WireError α :=
  match (Field.readAll? Field.depthLimit part).bind f with
  | some d => .ok d
  | none => .error .undecodable

end Message

/-! ### Questions -/

namespace Query

variable {τ κ : Type}

/-- The tag of a question. -/
def tag : Query τ κ → MessageTag
  | history _ => .historyRequest
  | push _ => .push
  | coverage _ => .coverageRequest

/-- The number of the request, where a question has one. -/
def requestId : Query τ κ → Option UInt32
  | history r => some r.requestId
  | push _ => none
  | coverage q => some q.requestId

variable [Dated τ] [Timed κ]

/-- The fields of a question. -/
def fields : Query τ κ → Except WireError (List Field)
  | history r => r.describe.map RequestDescriptor.fields
  | push a => a.describe.map AdditionDescriptor.fields
  | coverage q => .ok q.describe.fields

/-- The parts of a question. -/
def toParts (q : Query τ κ) : Except WireError Message := do
  let fields ← q.fields
  return [q.tag.part, Field.writeAll fields]

/-- The question in parts. -/
def ofParts (m : Message) : Except WireError Query := do
  let t ← Message.tag m
  let body ← Message.part m t 1
  match t with
  | .historyRequest =>
    let d ← Message.descriptor (RequestDescriptor.ofFields? Field.depthLimit) body
    return history (← d.meaning)
  | .push =>
    let d ← Message.descriptor (AdditionDescriptor.ofFields? Field.depthLimit) body
    return push (← d.meaning)
  | .coverageRequest =>
    let d ← Message.descriptor CoverageQueryDescriptor.ofFields? body
    return coverage (← d.meaning)
  | _ => .error (.unknownTag (t.name ++ " is not a request"))

end Query

/-! ### Answers -/

namespace Response

variable {τ κ : Type}

/-- The tag of an answer. -/
def tag : Response τ κ → MessageTag
  | history .. => .historyReply
  | pushAccepted | pushRejected _ => .pushReply
  | coverage .. => .coverageReply
  | failure .. => .error

variable [Dated τ] [Timed κ]

/-- The parts of an answer after its tag. -/
def body (encoder : Block.Encoder) : Response τ κ → Except WireError Message
  | history r bars => do
    let d ← r.describe
    let block ← BarBlock.pack bars encoder
    return [Field.writeAll d.fields, block.lengthPart, block.payload]
  | pushAccepted => .ok [MessageTag.success.part]
  | pushRejected text => .ok [MessageTag.error.part, Utf8.bytes text]
  | coverage requestId c => do
    let d ← Coverage.describe requestId c
    return [Field.writeAll d.fields]
  | failure requestId text => .ok [Bytes.ofUInt32 requestId, Utf8.bytes text]

/-- The parts of an answer. -/
def toParts (a : Response τ κ) (encoder : Block.Encoder := .plain) : Except WireError Message := do
  let body ← a.body encoder
  return a.tag.part :: body

/-- The number of the request that failed, in a part of a message. -/
def failedId (part : Bytes) : Except WireError UInt32 :=
  match Bytes.uint32? part with
  | some (id, []) => .ok id
  | _ => .error (.malformedFrame ("request id is " ++ part.length.repr ++ " bytes"))

/-- Bars and the request that asked for them, in parts. -/
def historyOfParts (m : Message) : Except WireError Response := do
  let d ← Message.descriptor (RequestDescriptor.ofFields? Field.depthLimit)
    (← Message.part m .historyReply 1)
  let r ← d.meaning
  let length ← BarBlock.lengthOfPart (← Message.part m .historyReply 2)
  let bars ← BarBlock.unpack ⟨length, ← Message.part m .historyReply 3⟩
  return history r bars

/-- The answer to a push, in parts. -/
def pushOfParts (m : Message) : Except WireError Response := do
  let status ← MessageTag.ofPart (← Message.part m .pushReply 1)
  match status with
  | .success => return pushAccepted
  | .error => return pushRejected (Utf8.lossy (← Message.part m .pushReply 2))
  | _ => .error (.malformedFrame ("PUSHREP status " ++ status.name))

/-- What is stored, in parts. -/
def coverageOfParts (m : Message) : Except WireError Response := do
  let d ← Message.descriptor CoverageDescriptor.ofFields? (← Message.part m .coverageReply 1)
  return coverage d.requestId (← d.meaning)

/-- A failure, in parts; it may come without a text. -/
def failureOfParts (m : Message) : Except WireError Response := do
  let id ← failedId (← Message.part m .error 1)
  return failure id ((m[2]?.map Utf8.lossy).getD "")

/-- The answer in parts. -/
def ofParts (m : Message) : Except WireError Response := do
  let t ← Message.tag m
  match t with
  | .historyReply => historyOfParts m
  | .pushReply => pushOfParts m
  | .coverageReply => coverageOfParts m
  | .error => failureOfParts m
  | _ => .error (.unknownTag (t.name ++ " is not a reply"))

end Response

end BarArchive
