/-
Stamps: the text of a point in time with its offset from universal time.

A stamp is read leniently, with blanks around its numbers, a blank for the letter
between date and clock, and offsets with or without a colon. It is written in one form
only, in universal time. Unlike an instant a stamp can lie within a leap second, so
that what was read is what is written.
-/
import BarArchive.Time.Instant

namespace BarArchive

/-- A day and a clock reading in universal time. -/
structure Stamp where
  day : Int
  clock : Clock
deriving DecidableEq, Repr

namespace Stamp

/-- The written form. -/
def toText (s : Stamp) : String :=
  (Date.ofDays s.day).toText ++ "T" ++ s.clock.toText ++ "Z"

/-- A year: a sign and any digits, or at most four digits without one. -/
def year? (cs : List Char) : Option (Int × List Char) :=
  match Blank.dropLeading cs with
  | '-' :: cs =>
    if (cs.takeWhile Char.isDigit).isEmpty then none
    else
      let (n, rest) := Digits.continueFrom 0 cs
      some (-(n : Int), rest)
  | '+' :: cs =>
    if (cs.takeWhile Char.isDigit).isEmpty then none
    else
      let (n, rest) := Digits.continueFrom 0 cs
      some ((n : Int), rest)
  | cs => (Clock.number? 4 cs).map fun (n, rest) => ((n : Int), rest)

/-- A date. -/
def date? (cs : List Char) : Option (Date × List Char) := do
  let (year, cs) ← year? cs
  let cs ← Clock.mark? '-' cs
  let (month, cs) ← Clock.number? 2 cs
  let cs ← Clock.mark? '-' cs
  let (day, cs) ← Clock.number? 2 cs
  let date ← Date.of? year month day
  return (date, cs)

/-- The character between the date and the clock. -/
def separator? : List Char → Option (List Char)
  | c :: cs => if c = 'T' ∨ c = 't' ∨ c = ' ' then some cs else none
  | [] => none

/-- The value of exactly two digits. -/
def twoDigits? : List Char → Option (Nat × List Char)
  | a :: b :: cs => do return (10 * (← Digits.value? a) + (← Digits.value? b), cs)
  | _ => none

/-- Hours and minutes of an offset, in seconds. -/
def offsetSize? (cs : List Char) : Option (Nat × List Char) := do
  let (hours, cs) ← twoDigits? cs
  let (minutes, cs) ← twoDigits? (cs.dropWhile fun c => c = ':' ∨ Blank.isBlank c)
  if minutes < 60 ∧ 60 * hours + minutes < 1440 then return (3600 * hours + 60 * minutes, cs)
  else none

/-- The offset from universal time, in seconds. -/
def offset? : List Char → Option (Int × List Char)
  | [] => none
  | c :: cs =>
    if (((c :: cs).take 3).map Char.toLower) = ['u', 't', 'c'] then some (0, cs.drop 2)
    else if c = 'Z' ∨ c = 'z' then some (0, cs)
    else if c = '+' then (offsetSize? cs).map fun (n, rest) => ((n : Int), rest)
    else if c = '-' ∨ c = '\u2212' then (offsetSize? cs).map fun (n, rest) => (-(n : Int), rest)
    else none

/-- The stamp at a local date and clock reading, `offset` seconds ahead of universal time. -/
def ofLocal (date : Date) (clock : Clock) (offset : Int) : Stamp :=
  let second := (clock.second : Int) - offset
  ⟨date.toDays + Int.fdiv second Clock.daySeconds,
    ⟨(Int.fmod second Clock.daySeconds).toNat, clock.nano⟩⟩

/-- The stamp that a text writes. -/
def ofText? (s : String) : Option Stamp := do
  let (date, cs) ← date? s.toList
  let cs ← separator? cs
  let (minutes, cs) ← Clock.minutes? cs
  let ((second, nano), cs) ← Clock.seconds? cs
  let (offset, cs) ← offset? cs
  let stamp := ofLocal date (Clock.ofParts minutes second nano) offset
  if (Blank.dropLeading cs).isEmpty ∧ Date.hasYear (Date.ofDays stamp.day).year then return stamp
  else none

end Stamp

end BarArchive
