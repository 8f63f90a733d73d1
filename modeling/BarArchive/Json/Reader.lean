/-
Reading JSON.

The reader is strict: no comma too many, no leading zeros, no control characters in
texts, nothing but blanks after the document. Every step takes at least one character or
goes one level down, so twice as many steps as there are characters are enough.
-/
import BarArchive.Json.Value

namespace BarArchive.JsonValue

/-- What follows blanks. -/
def skip (cs : List Char) : List Char := cs.dropWhile fun c => c = ' ' ∨ c = '\n' ∨ c = '\t' ∨ c = '\r'

/-- What follows a given word. -/
def word? : List Char → List Char → Option (List Char)
  | [], cs => some cs
  | _ :: _, [] => none
  | w :: ws, c :: cs => if c = w then word? ws cs else none

/-! ### Numbers -/

/-- The digits in front, if there are any, and what follows. -/
def digits? (cs : List Char) : Option (List Char × List Char) :=
  let digits := cs.takeWhile Char.isDigit
  if digits.isEmpty then none else some (digits, cs.dropWhile Char.isDigit)

/-- The number that digits write. -/
def valueOf (digits : List Char) : Nat := (Digits.continueFrom 0 digits).1

/-- The digits before the point, of which the first may be zero only if it is alone. -/
def whole? (cs : List Char) : Option (List Char × List Char) :=
  (digits? cs).filter fun (digits, _) => digits.head? ≠ some '0' ∨ digits.length = 1

/-- The digits after a point, if there is one. -/
def places? : List Char → Option (Option (List Char) × List Char)
  | '.' :: cs => (digits? cs).map fun (digits, rest) => (some digits, rest)
  | cs => some (none, cs)

/-- The digits of an exponent with their sign. -/
def signed? : List Char → Option (Int × List Char)
  | '-' :: cs => (digits? cs).map fun (digits, rest) => (-(valueOf digits : Int), rest)
  | '+' :: cs => (digits? cs).map fun (digits, rest) => ((valueOf digits : Int), rest)
  | cs => (digits? cs).map fun (digits, rest) => ((valueOf digits : Int), rest)

/-- An exponent, if there is one. -/
def exponent? : List Char → Option (Option Int × List Char)
  | c :: cs =>
    if c = 'e' ∨ c = 'E' then (signed? cs).map fun (e, rest) => (some e, rest) else some (none, c :: cs)
  | [] => some (none, [])

/-- A number without its sign. -/
def unsigned? (negative : Bool) (cs : List Char) : Option (JsonNumber × List Char) := do
  let (whole, cs) ← whole? cs
  let (places, cs) ← places? cs
  let (exponent, cs) ← exponent? cs
  return ({ negative, whole, places, exponent }, cs)

/-- A number. -/
def number? : List Char → Option (JsonNumber × List Char)
  | '-' :: cs => unsigned? true cs
  | cs => unsigned? false cs

/-! ### Texts -/

/-- Something that a text is made of: a character, or half of a pair that stands alone. -/
abbrev Piece := Option Char

/-- The number that four hexadecimal digits write. -/
def fourDigits? : List Char → Option (Nat × List Char)
  | a :: b :: c :: d :: rest => (Digits.hexNat? [a, b, c, d]).map fun n => (n, rest)
  | _ => none

/-- The second half of a pair, if one follows. -/
def lowHalf? (cs : List Char) : Option (Nat × List Char) := do
  let cs ← word? ['\\', 'u'] cs
  (fourDigits? cs).filter fun (n, _) => 0xDC00 ≤ n ∧ n < 0xE000

/-- A character by its number; one beyond sixteen bits is a pair of numbers. -/
def numbered? (cs : List Char) : Option (Piece × List Char) := do
  let (n, rest) ← fourDigits? cs
  if n < 0xD800 ∨ 0xE000 ≤ n then return (some (Char.ofNat n), rest)
  else if n < 0xDC00 then
    match lowHalf? rest with
    | some (low, rest) => return (some (Char.ofNat (0x10000 + (n - 0xD800) * 0x400 + (low - 0xDC00))), rest)
    | none => return (none, rest)
  else return (none, rest)

/-- The character that a letter after a backslash stands for. -/
def escape? (c : Char) : Option Char :=
  match c with
  | '"' => some '"'
  | '\\' => some '\\'
  | '/' => some '/'
  | 'b' => some '\x08'
  | 'f' => some '\x0c'
  | 'n' => some '\n'
  | 'r' => some '\r'
  | 't' => some '\t'
  | _ => none

/-- The pieces up to the closing quotation mark, in at most `fuel` of them. -/
def pieces? : (fuel : Nat) → List Char → Option (List Piece × List Char)
  | 0, _ => none
  | _ + 1, [] => none
  | _ + 1, '"' :: rest => some ([], rest)
  | fuel + 1, '\\' :: 'u' :: rest => do
    let (piece, rest) ← numbered? rest
    let (pieces, rest) ← pieces? fuel rest
    return (piece :: pieces, rest)
  | fuel + 1, '\\' :: c :: rest => do
    let c ← escape? c
    let (pieces, rest) ← pieces? fuel rest
    return (some c :: pieces, rest)
  | fuel + 1, c :: rest =>
    if c.toNat < 0x20 ∨ c = '\\' then none
    else do
      let (pieces, rest) ← pieces? fuel rest
      return (some c :: pieces, rest)

/-- A text after its opening quotation mark. -/
def string? (cs : List Char) : Option (Option String × List Char) :=
  (pieces? (cs.length + 1) cs).map fun (pieces, rest) =>
    ((pieces.mapM fun piece => piece).map String.ofList, rest)

/-! ### Documents -/

mutual

/-- A document from the front. -/
def value? : (fuel : Nat) → List Char → Option (JsonValue × List Char)
  | 0, _ => none
  | fuel + 1, cs =>
    match skip cs with
    | '"' :: rest => (string? rest).map fun (s, rest) => (.text s, rest)
    | '[' :: rest =>
      match skip rest with
      | ']' :: rest => some (.array [], rest)
      | _ => (items? fuel rest).map fun (items, rest) => (.array items, rest)
    | '\x7b' :: rest =>
      match skip rest with
      | '\x7d' :: rest => some (.object [], rest)
      | _ => (entries? fuel rest).map fun (entries, rest) => (.object entries, rest)
    | 'n' :: rest => (word? ['u', 'l', 'l'] rest).map fun rest => (.null, rest)
    | 't' :: rest => (word? ['r', 'u', 'e'] rest).map fun rest => (.bool true, rest)
    | 'f' :: rest => (word? ['a', 'l', 's', 'e'] rest).map fun rest => (.bool false, rest)
    | cs => (number? cs).map fun (n, rest) => (.number n, rest)

/-- The items of an array up to its end. -/
def items? : (fuel : Nat) → List Char → Option (List JsonValue × List Char)
  | 0, _ => none
  | fuel + 1, cs => do
    let (item, rest) ← value? fuel cs
    match skip rest with
    | ',' :: rest => (items? fuel rest).map fun (items, rest) => (item :: items, rest)
    | ']' :: rest => some ([item], rest)
    | _ => none

/-- The entries of an object up to its end. -/
def entries? : (fuel : Nat) → List Char → Option (List JsonEntry × List Char)
  | 0, _ => none
  | fuel + 1, cs => do
    let rest ← word? ['"'] (skip cs)
    let (key, rest) ← string? rest
    let rest ← word? [':'] (skip rest)
    let (value, rest) ← value? fuel rest
    match skip rest with
    | ',' :: rest => (entries? fuel rest).map fun (entries, rest) => ((key, value) :: entries, rest)
    | '\x7d' :: rest => some ([(key, value)], rest)
    | _ => none

end

/-- The document that a text writes. -/
def parse? (s : String) : Option JsonValue := do
  let (json, rest) ← value? (2 * s.length + 2) s.toList
  if (skip rest).isEmpty then return json else none

end BarArchive.JsonValue
