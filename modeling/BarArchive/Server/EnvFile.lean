/-
Variables from a file.

A line sets a variable: a name, an equals sign and a value. Values may be quoted, and a
quoted value may go on in the next line. Outside single quotes a dollar sign puts the
value of another variable in, whose name are the letters and digits that follow, in any
script. A variable that is set already is left alone, and the first line that makes no
sense ends the reading; what was set before stays. A value that holds the NUL character
cannot be set at all.
-/
import BarArchive.Table
import BarArchive.Text.Alphanumeric
import BarArchive.Text.Blank

namespace BarArchive

/-- The variables that are set. -/
abbrev Environment := Table String String

namespace EnvFile

/-! ### Lines that belong together -/

/-- Where in a line the reader is. -/
inductive Place where
  | plain
  | blank
  | escaped
  | weak
  | weakEscaped
  | strong
  | strongEscaped
deriving DecidableEq

/-- The place after a character that quotes, escapes or does neither. -/
def Place.opened (c : Char) : Place :=
  if c = '\\' then escaped
  else if c = '"' then weak
  else if c = '\'' then strong
  else plain

/-- The place after a character. -/
def Place.next (c : Char) : Place → Place
  | plain => if Blank.isBlank c ∧ c ≠ '\n' ∧ c ≠ '\r' then blank else opened c
  | blank => opened c
  | escaped => plain
  | weak => if c = '\\' then weakEscaped else if c = '"' then plain else weak
  | weakEscaped => weak
  | strong => if c = '\\' then strongEscaped else if c = '\'' then plain else strong
  | strongEscaped => strong

/-- The characters up to a comment, and the place after them unless there is a comment. -/
def scan : Place → List Char → List Char × Option Place
  | place, [] => ([], some place)
  | place, c :: rest =>
    if place = .blank ∧ c = '#' then ([], none)
    else
      let (before, place) := scan (place.next c) rest
      (c :: before, place)

/-- The lines of a text, each with the line feed that ends it. -/
def lines : List Char → List (List Char)
  | [] => []
  | c :: rest =>
    if c = '\n' then [c] :: lines rest
    else match lines rest with
      | [] => [[c]]
      | line :: others => (c :: line) :: others

/-- A line without the line feed that ends it, and without a carriage return before that. -/
def withoutEnd (line : List Char) : List Char :=
  match line.reverse with
  | '\n' :: '\r' :: rest => rest.reverse
  | '\n' :: rest => rest.reverse
  | _ => line

/--
Lines put together where a quotation goes on, without comments.

`begun` is what there is so far of the line to be completed. A line that is never
completed is left out, which ends the reading.
-/
def entries (begun : List Char) (place : Place) : List (List Char) → List (List Char)
  | [] => []
  | line :: rest =>
    if (Blank.dropLeading (begun ++ line)).head? = some '#' then [] :: entries [] .plain rest
    else match scan place line with
      | (before, none) => (begun ++ before) :: entries [] .plain rest
      | (_, some .plain) => withoutEnd (begun ++ line) :: entries [] .plain rest
      | (_, some place) => entries (begun ++ line) place rest

/-! ### Values -/

/-- What the reader of a value is in. -/
inductive Mode where
  | plain
  | weak
  | strong
  | escaped (inQuotes : Bool)
  | name (inQuotes : Bool) (cs : List Char)
  | braced (inQuotes : Bool) (cs : List Char)
  | ended
deriving DecidableEq

/-- Inside or outside of double quotes. -/
def Mode.of (inQuotes : Bool) : Mode := if inQuotes then weak else plain

/-- The value of a variable; nothing if it is not set. -/
def lookup (env : Environment) (name : List Char) : List Char :=
  ((env.find? (String.ofList name)).map String.toList).getD []

/-- The character that an escaped one stands for. -/
def unescaped? (c : Char) : Option Char :=
  if c = 'n' then some '\n' else if ['\\', '\'', '"', '$', ' '].contains c then some c else none

/-- What a character after a dollar sign adds to the value, and the mode after it. -/
def nameStep (env : Environment) (inQuotes : Bool) (cs : List Char) (c : Char) : List Char × Mode :=
  if Alphanumeric.isAlphanumeric c then ([], .name inQuotes (cs ++ [c]))
  else if c = '{' ∧ cs = [] then ([], .braced inQuotes [])
  else if c = '$' then (lookup env cs, .name inQuotes [])
  else (lookup env cs ++ [c], .of inQuotes)

/-- What a character outside of quotes adds to the value, and the mode after it. -/
def plainStep (c : Char) : List Char × Mode :=
  if c = '$' then ([], .name false [])
  else if c = '\'' then ([], .strong)
  else if c = '"' then ([], .weak)
  else if c = '\\' then ([], .escaped false)
  else if c = ' ' ∨ c = '\t' then ([], .ended)
  else ([c], .plain)

/-- What a character in double quotes adds to the value, and the mode after it. -/
def weakStep (c : Char) : List Char × Mode :=
  if c = '$' then ([], .name true [])
  else if c = '"' then ([], .plain)
  else if c = '\\' then ([], .escaped true)
  else ([c], .weak)

/-- What a character adds to the value, and the mode after it, if it may stand there. -/
def step? (env : Environment) (c : Char) : Mode → Option (List Char × Mode)
  | .plain => some (plainStep c)
  | .weak => some (weakStep c)
  | .strong => some (if c = '\'' then ([], .plain) else ([c], .strong))
  | .escaped inQuotes => (unescaped? c).map fun c => ([c], .of inQuotes)
  | .name inQuotes cs => some (nameStep env inQuotes cs c)
  | .braced inQuotes cs =>
    some (if c = '}' then (lookup env cs, .of inQuotes) else ([], .braced inQuotes (cs ++ [c])))
  | .ended => if c = ' ' ∨ c = '\t' then some ([], .ended) else none

/-- What the end of the line adds to the value, if the value may end there. -/
def finish? (env : Environment) : Mode → Option (List Char)
  | .name false cs => some (lookup env cs)
  | .plain | .escaped false | .ended => some []
  | _ => none

/-- The value in the rest of a line. -/
def value? (env : Environment) : Mode → List Char → Option (List Char)
  | mode, [] => finish? env mode
  | mode, c :: rest =>
    if mode = .ended ∧ c = '#' then some []
    else do
      let (added, mode) ← step? env c mode
      return added ++ (← value? env mode rest)

/-! ### Variables -/

/-- A variable may have any value without the NUL character. -/
def settable (value : String) : Bool := !value.toList.contains '\x00'

/-- A name from the front, and what follows it. -/
def name? (cs : List Char) : Option (List Char × List Char) :=
  let isPart := fun c : Char => c.isAlphanum || c == '_' || c == '.'
  match cs with
  | c :: _ => if c.isAlpha || c == '_' then some (cs.takeWhile isPart, cs.dropWhile isPart) else none
  | [] => none

/-- What follows an equals sign, blanks around it left out. -/
def afterEquals? (cs : List Char) : Option (List Char) :=
  match Blank.dropLeading cs with
  | '=' :: rest => some (Blank.dropLeading rest)
  | _ => none

/-- The name in a line, and what follows the equals sign; a word may say that it is exported. -/
def assignment? (cs : List Char) : Option (List Char × List Char) := do
  let (name, rest) ← name? cs
  match afterEquals? rest with
  | some value => return (name, value)
  | none =>
    if name = "export".toList then
      let (name, rest) ← name? (Blank.dropLeading rest)
      return (name, ← afterEquals? rest)
    else none

/-- What a line sets, if it sets anything; there is no answer if it makes no sense. -/
def entry? (env : Environment) (line : List Char) : Option (Option (String × String)) :=
  let cs := Blank.trim line
  if cs = [] ∨ cs.head? = some '#' then some none
  else do
    let (name, rest) ← assignment? cs
    if rest = [] ∨ rest.head? = some '#' then return some (String.ofList name, "")
    else return some (String.ofList name, String.ofList (← value? env .plain rest))

/-- Sets what lines say, as far as they make sense, unless a value cannot be set. -/
def assign? (env : Environment) : List (List Char) → Option Environment
  | [] => some env
  | line :: rest =>
    match entry? env line with
    | none => some env
    | some none => assign? env rest
    | some (some (name, value)) =>
      if env.contains name then assign? env rest
      else if settable value then assign? (env.insert name value) rest
      else none

/-- Sets what a file says, unless a value cannot be set. -/
def load? (env : Environment) (text : String) : Option Environment :=
  let cs := match text.toList with
    | '\uFEFF' :: rest => rest
    | cs => cs
  assign? env (entries [] .plain (lines cs))

end EnvFile

end BarArchive
