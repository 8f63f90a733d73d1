/-
Forms: which documents stand for a value, and which of them is written.

A form takes a document to the one that would be written for the same value, or turns it
down. Records may be given by name or in order. By name, unknown entries are passed over
and none may come twice; in order, only an entry with a usual value may be missing at
the end.
-/
import BarArchive.Decimal.Text
import BarArchive.Json.Binary
import BarArchive.Json.Value
import BarArchive.Time.Stamp

namespace BarArchive

/-- What a document is written as. -/
abbrev Form := JsonValue → Option JsonValue

namespace Form

/-! ### Plain values -/

/-- A truth value. -/
def bool : Form
  | .bool b => some (.bool b)
  | _ => none

/-- An integer between two others. -/
def integer (least greatest : Int) : Form
  | .number n => (n.int?.filter fun i => least ≤ i ∧ i ≤ greatest).map JsonValue.ofInt
  | _ => none

/-- A signed integer of 32 bits. -/
def int32 : Form := integer (-2 ^ 31) (2 ^ 31 - 1)

/-- A signed integer of 64 bits. -/
def int64 : Form := integer (-2 ^ 63) (2 ^ 63 - 1)

/-- An unsigned integer of 32 bits. -/
def uint32 : Form := integer 0 (2 ^ 32 - 1)

/-- An unsigned integer of 64 bits. -/
def uint64 : Form := integer 0 (2 ^ 64 - 1)

/-- A text of which `f` makes another one. -/
def textBy (f : String → Option String) : Form
  | .text (some s) => (f s).map JsonValue.ofString
  | _ => none

/-- Any text. -/
def text : Form := textBy some

/-- A point in time. -/
def stamp : Form := textBy fun s => (Stamp.ofText? s).map Stamp.toText

/-- A time of day. -/
def clock : Form := textBy fun s => (Clock.ofText? s).map Clock.toText

/-- One of several names, possibly as the key of an entry without a value. -/
def oneOf (names : List String) : Form
  | .text (some s) => if names.contains s then some (.ofString s) else none
  | .object [(some s, .null)] => if names.contains s then some (.ofString s) else none
  | _ => none

/-- The decimal that a number is; beyond 64 bits it is what a reader with as many bits sees. -/
def decimalOfNumber? (n : JsonNumber) : Option Decimal :=
  match n.int?.filter fun i => -2 ^ 63 ≤ i ∧ i < 2 ^ 64 with
  | some i => Decimal.ofInt? i
  | none =>
    (Binary.ofDigits? n.whole (n.places.getD []) (n.exponent.getD 0)).bind fun x =>
      Decimal.plain? ((if n.negative then ['-'] else []) ++ x.toText.toList)

/-- A decimal, written as a text. -/
def decimal : Form
  | .text (some s) => (Decimal.ofText? s).map fun x => .ofString x.toText
  | .number n => (decimalOfNumber? n).map fun x => .ofString x.toText
  | _ => none

/-- A list. -/
def list (item : Form) : Form
  | .array items => (items.mapM item).map JsonValue.array
  | _ => none

/-! ### Records -/

/-- What becomes of an entry that is missing or null. -/
inductive Absence where
  | refused
  | omitted
  | null
  | usual (value : JsonValue)

/-- An entry of a record. -/
structure Member where
  name : String
  form : Form
  absence : Absence := .refused

namespace Member

/-- The entry as it is written. -/
def named (m : Member) (value : JsonValue) : List JsonEntry := [(some m.name, value)]

/-- What is written for a given value; null stands for a missing one where one may be missing. -/
def present (m : Member) (value : JsonValue) : Option (List JsonEntry) :=
  match m.absence, value with
  | .omitted, .null => some []
  | .null, .null => some (m.named .null)
  | _, value => (m.form value).map m.named

/-- What is written for an entry that is not there. -/
def missing (m : Member) : Option (List JsonEntry) :=
  match m.absence with
  | .refused => none
  | .omitted => some []
  | .null => some (m.named .null)
  | .usual value => some (m.named value)

/-- What is written for an entry that is looked for by its name. -/
def byName (entries : List JsonEntry) (m : Member) : Option (List JsonEntry) :=
  match entries.filter fun e => e.1 = some m.name with
  | [] => m.missing
  | [e] => m.present e.2
  | _ => none

/-- What is written for entries in order. -/
def inOrder : List Member → List JsonValue → Option (List JsonEntry)
  | [], [] => some []
  | [], _ :: _ => none
  | m :: ms, value :: values => do return (← m.present value) ++ (← inOrder ms values)
  | m :: ms, [] =>
    match m.absence with
    | .usual value => do return m.named value ++ (← inOrder ms [])
    | _ => none

end Member

/-- A record. -/
def record (members : List Member) : Form
  | .object entries =>
    if entries.any fun e => e.1.isNone then none
    else (members.mapM (Member.byName entries)).map fun written => .object written.flatten
  | .array items => (Member.inOrder members items).map JsonValue.object
  | _ => none

end Form

end BarArchive
