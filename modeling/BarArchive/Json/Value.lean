/-
JSON documents.

A document keeps what its text says: the entries of an object in their order, with
repeated keys, and numbers by their digits. One thing it does not keep is a text in
which half of a character pair stands alone; that is not an error as long as nobody
asks for it.
-/
import BarArchive.Text.Digits

namespace BarArchive

/-- A number as it was written: its sign, its digits around the point and its exponent. -/
structure JsonNumber where
  negative : Bool
  whole : List Char
  places : Option (List Char) := none
  exponent : Option Int := none
deriving DecidableEq

/-- The integer that a number without point and exponent is; a negative zero is none. -/
def JsonNumber.int? (n : JsonNumber) : Option Int :=
  if n.places.isSome || n.exponent.isSome then none
  else (Digits.nat? n.whole).bind fun c =>
    if n.negative then (if c = 0 then none else some (-(c : Int))) else some (c : Int)

/-- An integer as a number. -/
def JsonNumber.ofInt (n : Int) : JsonNumber := { negative := n < 0, whole := n.natAbs.repr.toList }

/-- A document. Texts that cannot be read are missing. -/
inductive JsonValue where
  | null
  | bool (b : Bool)
  | number (n : JsonNumber)
  | text (s : Option String)
  | array (items : List JsonValue)
  | object (entries : List (Option String × JsonValue))

/-- An entry of an object. -/
abbrev JsonEntry := Option String × JsonValue

namespace JsonValue

/-- A text that can be read. -/
def ofString (s : String) : JsonValue := text (some s)

/-- An integer. -/
def ofInt (n : Int) : JsonValue := number (.ofInt n)

end JsonValue

end BarArchive
