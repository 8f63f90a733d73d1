/-
Writing JSON, without any blanks.
-/
import BarArchive.Json.Value

namespace BarArchive.JsonValue

/-- A character in a text; quotation marks, backslashes and control characters are escaped. -/
def escaped (c : Char) : List Char :=
  match c with
  | '"' => ['\\', '"']
  | '\\' => ['\\', '\\']
  | '\x08' => ['\\', 'b']
  | '\x0c' => ['\\', 'f']
  | '\n' => ['\\', 'n']
  | '\r' => ['\\', 'r']
  | '\t' => ['\\', 't']
  | c => if c.toNat < 0x20 then ['\\', 'u'] ++ (Digits.hex 4 c.toNat).toList else [c]

/-- A text between quotation marks. -/
def quoted (s : String) : String := "\"" ++ String.ofList (s.toList.flatMap escaped) ++ "\""

/-- The text of a number. -/
def numberText (n : JsonNumber) : String :=
  (if n.negative then "-" else "") ++ String.ofList n.whole
    ++ (n.places.elim "" fun places => "." ++ String.ofList places)
    ++ (n.exponent.elim "" fun e => "e" ++ toString e)

mutual

/-- The text of a document. -/
def write : JsonValue → String
  | null => "null"
  | bool b => if b then "true" else "false"
  | number n => numberText n
  | text s => quoted (s.getD "")
  | array items => "[" ++ ",".intercalate (writeItems items) ++ "]"
  | object entries => "\x7b" ++ ",".intercalate (writeEntries entries) ++ "\x7d"

/-- The texts of items. -/
def writeItems : List JsonValue → List String
  | [] => []
  | item :: items => item.write :: writeItems items

/-- The texts of entries. -/
def writeEntries : List JsonEntry → List String
  | [] => []
  | (key, value) :: entries => (quoted (key.getD "") ++ ":" ++ value.write) :: writeEntries entries

end

end BarArchive.JsonValue
