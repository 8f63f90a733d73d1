/-
Clock readings: the time of a day to the nanosecond.

A reading within a leap second has 59 as its second and a billion nanoseconds or more,
and is written with second 60. Written readings have three, six or nine digits after
the point, the fewest that hold the nanoseconds, and none when there are none.
-/
import BarArchive.Text.Blank
import BarArchive.Text.Digits

namespace BarArchive

/-- The seconds since midnight and the nanoseconds within the second. -/
structure Clock where
  second : Nat
  nano : Nat
deriving DecidableEq, Repr

namespace Clock

/-- The nanoseconds of a second. -/
def secondNanos : Nat := 1000000000

/-- The seconds of a day. -/
def daySeconds : Nat := 86400

/-- The fraction of a second, in the fewest groups of three digits that hold it. -/
def fractionText (nano : Nat) : String :=
  if nano = 0 then ""
  else if nano % 1000000 = 0 then "." ++ Digits.decimal 3 (nano / 1000000)
  else if nano % 1000 = 0 then "." ++ Digits.decimal 6 (nano / 1000)
  else "." ++ Digits.decimal 9 nano

/-- Hours, minutes and seconds with the fraction after them. -/
def toText (t : Clock) : String :=
  Digits.decimal 2 (t.second / 3600) ++ ":" ++ Digits.decimal 2 (t.second / 60 % 60) ++ ":"
    ++ Digits.decimal 2 (t.second % 60 + t.nano / secondNanos) ++ fractionText (t.nano % secondNanos)

/-! ### Reading

A reader takes characters from the front and gives back the rest.
-/

/-- At least one and at most `width` digits, after blanks. -/
def number? (width : Nat) (cs : List Char) : Option (Nat × List Char) :=
  let cs := Blank.dropLeading cs
  let (n, rest) := Digits.continueFrom 0 (cs.take width)
  if (cs.take width).length = rest.length then none
  else some (n, rest ++ cs.drop width)

/-- The character `c`, after blanks. -/
def mark? (c : Char) (cs : List Char) : Option (List Char) :=
  match Blank.dropLeading cs with
  | d :: rest => if d = c then some rest else none
  | [] => none

/-- The nanoseconds that the digits after a point write; what is finer is dropped. -/
def fraction? : List Char → Option (Nat × List Char)
  | '.' :: cs =>
    let digits := cs.takeWhile Char.isDigit
    if digits.isEmpty then none
    else
      let kept := digits.take 9
      some ((Digits.continueFrom 0 kept).1 * 10 ^ (9 - kept.length), cs.dropWhile Char.isDigit)
  | cs => some (0, cs)

/-- A number below `limit`, of at most two digits. -/
def pair? (limit : Nat) (cs : List Char) : Option (Nat × List Char) :=
  (number? 2 cs).bind fun (n, rest) => if n < limit then some (n, rest) else none

/-- The reading of a minute, a second and its fraction; second 60 is a leap second. -/
def ofParts (minutes second nano : Nat) : Clock :=
  if second = 60 then ⟨60 * minutes + 59, secondNanos + nano⟩ else ⟨60 * minutes + second, nano⟩

/-- Hours and minutes, as minutes. -/
def minutes? (cs : List Char) : Option (Nat × List Char) := do
  let (hour, cs) ← pair? 24 cs
  let cs ← mark? ':' cs
  let (minute, cs) ← pair? 60 cs
  return (60 * hour + minute, cs)

/-- A second with its fraction, after a colon. -/
def seconds? (cs : List Char) : Option ((Nat × Nat) × List Char) := do
  let cs ← mark? ':' cs
  let (second, cs) ← pair? 61 cs
  let (nano, cs) ← fraction? cs
  return ((second, nano), Blank.dropLeading cs)

/-- The reading that a text writes; the seconds may be left out. -/
def ofText? (s : String) : Option Clock := do
  let (minutes, cs) ← minutes? s.toList
  let ((second, nano), cs) := (seconds? cs).getD ((0, 0), cs)
  if (Blank.dropLeading cs).isEmpty then return ofParts minutes second nano else none

end Clock

end BarArchive
