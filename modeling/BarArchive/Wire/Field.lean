/-
Numbered fields: the form in which descriptors travel.

A descriptor is written as a list of fields, each a key and a value. The key holds the
number of the field and the kind of its value. Two kinds carry everything here: plain
numbers of 64 bits, and bytes, which hold texts and descriptors within descriptors. A
reader takes fields in any order and passes over those it does not know, of whatever
kind they are; even groups, which nest, are passed over as a whole.

What a field means is said by the functions that look for one: of several fields with
one number the last counts, several descriptors under one number are read as one, and a
field that is not there is zero or empty. A known number with a value of the wrong kind
spoils the whole.
-/
import BarArchive.Text.Utf8
import BarArchive.Wire.Varint

namespace BarArchive

/-- The value of a field; values of kinds that no descriptor has are not kept. -/
inductive Value where
  | number (v : UInt64)
  | bytes (bs : Bytes)
  | other
deriving DecidableEq

/-- A numbered value. -/
structure Field where
  number : Nat
  value : Value
deriving DecidableEq

namespace Value

/-- Whether a value is zero or empty. -/
def isZero : Value → Bool
  | number v => v == 0
  | bytes bs => bs.isEmpty
  | other => false

/-- A signed number of 32 bits, widened with its sign. -/
def ofInt32 (v : Int32) : Value := number v.toInt64.toUInt64

/-- A signed number of 64 bits. -/
def ofInt64 (v : Int64) : Value := number v.toUInt64

/-- An unsigned number of 32 bits. -/
def ofUInt32 (v : UInt32) : Value := number v.toUInt64

/-- A truth value, as one or zero. -/
def ofBool (v : Bool) : Value := number (if v then 1 else 0)

/-- A text. -/
def ofText (s : String) : Value := bytes (Utf8.bytes s)

end Value

namespace Field

/-! ### Writing -/

/-- A field that is left out when it is zero or empty. -/
def plain (n : Nat) (v : Value) : List Field := if v.isZero then [] else [⟨n, v⟩]

/-- A field that is written when it is there. -/
def optional (n : Nat) (v : Option Value) : List Field := v.toList.map (⟨n, ·⟩)

/-- A field for each value. -/
def repeated (n : Nat) (vs : List Value) : List Field := vs.map (⟨n, ·⟩)

/-- The bytes of a field. -/
def write (f : Field) : Bytes :=
  match f.value with
  | .number v => Varint.write (f.number * 8) ++ Varint.write v.toNat
  | .bytes bs => Varint.write (f.number * 8 + 2) ++ Varint.write bs.length ++ bs
  | .other => []

/-- The bytes of fields, one after the other. -/
def writeAll (fs : List Field) : Bytes := fs.flatMap write

/-- A descriptor as the value of a field. -/
def nested (fs : List Field) : Value := .bytes (writeAll fs)

/-! ### Reading -/

/-- A key from the front: the number and the kind of a field. -/
def key? (bs : Bytes) : Option (Nat × Nat × Bytes) := do
  let (key, rest) ← Varint.read? bs
  if 8 ≤ key ∧ key < 2 ^ 32 then some (key / 8, key % 8, rest) else none

/-- The value of a kind from the front. -/
def value? (kind : Nat) (bs : Bytes) : Option (Value × Bytes) :=
  match kind with
  | 0 => (Varint.read? bs).map fun (v, rest) => (.number v.toUInt64, rest)
  | 1 => (Bytes.split? 8 bs).map fun (_, rest) => (.other, rest)
  | 2 => do
    let (n, rest) ← Varint.read? bs
    let (chunk, rest) ← Bytes.split? n rest
    return (.bytes chunk, rest)
  | 5 => (Bytes.split? 4 bs).map fun (_, rest) => (.other, rest)
  | _ => none

/--
What follows the end of the groups that are open, the innermost first.

Fields may be nested at most `depth` deep. Every step takes a key, so `fuel` need not be
more than the bytes there are.
-/
def skipGroups (depth : Nat) : (fuel : Nat) → (groups : List Nat) → Bytes → Option Bytes
  | _, [], bs => some bs
  | 0, _, _ => none
  | fuel + 1, group :: outer, bs => do
    let (number, kind, rest) ← key? bs
    if kind = 4 then
      if number = group then skipGroups depth fuel outer rest else none
    else if depth ≤ outer.length + 1 then none
    else if kind = 3 then skipGroups depth fuel (number :: group :: outer) rest
    else
      let (_, rest) ← value? kind rest
      skipGroups depth fuel (group :: outer) rest

/-- A field from the front, and the bytes after it. -/
def read? (depth : Nat) (bs : Bytes) : Option (Field × Bytes) := do
  let (number, kind, rest) ← key? bs
  if kind = 3 then
    let rest ← skipGroups depth (rest.length + 1) [number] rest
    return (⟨number, .other⟩, rest)
  else
    let (value, rest) ← value? kind rest
    return (⟨number, value⟩, rest)

/-- At most `fuel` fields; nothing may be left over. -/
def readWithin (depth : Nat) : (fuel : Nat) → Bytes → Option (List Field)
  | _, [] => some []
  | 0, _ :: _ => none
  | fuel + 1, bs => do
    let (f, rest) ← read? depth bs
    return f :: (← readWithin depth fuel rest)

/-- All fields of a descriptor. -/
def readAll? (depth : Nat) (bs : Bytes) : Option (List Field) := readWithin depth bs.length bs

/-- How deep fields may be nested in a descriptor that is in no other one. -/
def depthLimit : Nat := 100

end Field

/-! ### Looking for fields -/

namespace Fields

/-- The values under a number. -/
def values (fs : List Field) (n : Nat) : List Value := (fs.filter fun f => f.number == n).map (·.value)

/-- The number that a value is. -/
def number? : Value → Option UInt64
  | .number v => some v
  | _ => none

/-- The bytes that a value is. -/
def chunk? : Value → Option Bytes
  | .bytes bs => some bs
  | _ => none

/-- The text that a value is. -/
def text? (v : Value) : Option String := (chunk? v).bind Utf8.text?

/-- What the last value under a number says, after `f` has made sense of all of them. -/
def last? {α : Type} (f : Value → Option α) (fs : List Field) (n : Nat) : Option (Option α) :=
  ((values fs n).mapM f).map List.getLast?

/-- A number that may be missing. -/
def optionalNumber? (fs : List Field) (n : Nat) : Option (Option UInt64) := last? number? fs n

/-- A number, zero if it is missing. -/
def plainNumber? (fs : List Field) (n : Nat) : Option UInt64 :=
  (optionalNumber? fs n).map fun v => v.getD 0

/-- A signed number of 32 bits, of which a wider one keeps the lowest. -/
def int32 (v : UInt64) : Int32 := v.toUInt32.toInt32

/-- A truth value: whether a number is not zero. -/
def bool (v : UInt64) : Bool := v != 0

/-- Bytes that may be missing. -/
def optionalChunk? (fs : List Field) (n : Nat) : Option (Option Bytes) := last? chunk? fs n

/-- Bytes, none if they are missing. -/
def plainChunk? (fs : List Field) (n : Nat) : Option Bytes :=
  (optionalChunk? fs n).map fun bs => bs.getD []

/-- A text, empty if it is missing. -/
def plainText? (fs : List Field) (n : Nat) : Option String :=
  (last? text? fs n).map fun s => s.getD ""

/-- The fields of every descriptor under a number. -/
def nested? (depth : Nat) (fs : List Field) (n : Nat) : Option (List (List Field)) :=
  (values fs n).mapM fun v => (chunk? v).bind (Field.readAll? depth)

/-- The fields of a descriptor that may be missing; several are read as one. -/
def merged? (depth : Nat) (fs : List Field) (n : Nat) : Option (Option (List Field)) :=
  (nested? depth fs n).map fun
    | [] => none
    | parts => some parts.flatten

end Fields

end BarArchive
