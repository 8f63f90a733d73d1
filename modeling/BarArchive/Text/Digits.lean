/-
Digits of natural numbers, with leading zeros where a format asks for them.

Dates, decimals and identifiers are all written in a fixed number of digits, so the
one operation here beside plain digits is padding on the left.
-/

namespace BarArchive.Digits

/-- The text `s` with zeros in front until it has at least `width` characters. -/
def pad (width : Nat) (s : String) : String :=
  String.ofList (List.replicate (width - s.length) '0' ++ s.toList)

/-- `n` in base ten with at least `width` digits. -/
def decimal (width n : Nat) : String :=
  pad width n.repr

/-- `n` in base sixteen, lower case, with at least `width` digits. -/
def hex (width n : Nat) : String :=
  pad width (String.ofList (Nat.toDigits 16 n))

/-- The value of one decimal digit. -/
def value? (c : Char) : Option Nat :=
  if c.isDigit then some (c.toNat - '0'.toNat) else none

/-- The value of one hexadecimal digit of either case. -/
def hexValue? (c : Char) : Option Nat :=
  if c.isDigit then some (c.toNat - '0'.toNat)
  else if 'a' ≤ c ∧ c ≤ 'f' then some (c.toNat - 'a'.toNat + 10)
  else if 'A' ≤ c ∧ c ≤ 'F' then some (c.toNat - 'A'.toNat + 10)
  else none

/-- Reads digits from the front, continuing the number `n`; stops at the first other character. -/
def continueFrom (n : Nat) : List Char → Nat × List Char
  | [] => (n, [])
  | c :: cs =>
    match value? c with
    | some d => continueFrom (10 * n + d) cs
    | none => (n, c :: cs)

/-- The number that a text of decimal digits writes, if it is one and is not empty. -/
def nat? (cs : List Char) : Option Nat :=
  if cs.isEmpty then none
  else match continueFrom 0 cs with
    | (n, []) => some n
    | _ => none

/-- The integer that an optional minus sign and decimal digits write. -/
def int? : List Char → Option Int
  | '-' :: cs => (nat? cs).map fun n => -(n : Int)
  | cs => (nat? cs).map fun n => (n : Int)

/-- The number that hexadecimal digits write. -/
def hexNat? (cs : List Char) : Option Nat :=
  if cs.isEmpty then none
  else cs.foldl (fun acc c => acc.bind fun n => (hexValue? c).map (16 * n + ·)) (some 0)

end BarArchive.Digits
