/-
Tags: what a message is about.
-/
import BarArchive.Text.Utf8
import BarArchive.Wire.Error

namespace BarArchive

/-- The tags of messages. -/
inductive MessageTag where
  | historyRequest
  | historyReply
  | push
  | pushReply
  | error
  | success
  | coverageRequest
  | coverageReply
deriving DecidableEq, Repr

namespace MessageTag

/-- All tags. -/
def all : List MessageTag :=
  [historyRequest, historyReply, push, pushReply, error, success, coverageRequest, coverageReply]

/-- The name of a tag on the wire. -/
def name : MessageTag → String
  | historyRequest => "HISTREQ"
  | historyReply => "HISTREQREP"
  | push => "HISTPUSH"
  | pushReply => "PUSHREP"
  | error => "ERROR"
  | success => "SUCCESS"
  | coverageRequest => "AVAILABLEDATAREQ"
  | coverageReply => "AVAILABLEDATAREP"

/-- A tag as a part of a message. -/
def part (t : MessageTag) : Bytes := Utf8.bytes t.name

/-- The tag in a part of a message. -/
def ofPart (part : Bytes) : Except WireError MessageTag :=
  match all.find? fun t => t.part == part with
  | some t => .ok t
  | none => .error (.unknownTag (Utf8.lossy part))

theorem ofPart_part (t : MessageTag) : ofPart t.part = .ok t := by
  cases t <;> rfl

end MessageTag

end BarArchive
