/-
Days and dates of the proleptic Gregorian calendar.

Days are counted from 1970-01-01, day zero. Years count their months from March, so
that the leap day is the last day of a year and 400 years always have the same number
of days; the first two months then belong to the year before.
-/

namespace BarArchive

/-- A date: a year of any sign, a month from 1 and a day from 1. -/
structure Date where
  year : Int
  month : Nat
  day : Nat
deriving DecidableEq, Repr

namespace Date

/-- The days of 400 years. -/
def eraDays : Int := 146097

/-- The days from the first of March of year zero to day zero. -/
def epochDays : Int := 719468

/-- The date of a day. -/
def ofDays (days : Int) : Date :=
  let shifted := days + epochDays
  let era := Int.fdiv shifted eraDays
  let dayOfEra := (Int.fmod shifted eraDays).toNat
  let yearOfEra := (dayOfEra - dayOfEra / 1460 + dayOfEra / 36524 - dayOfEra / 146096) / 365
  let dayOfYear := dayOfEra - (365 * yearOfEra + yearOfEra / 4 - yearOfEra / 100)
  let march := (5 * dayOfYear + 2) / 153
  let month := if march < 10 then march + 3 else march - 9
  ⟨yearOfEra + era * 400 + (if month ≤ 2 then 1 else 0), month,
    dayOfYear - (153 * march + 2) / 5 + 1⟩

/-- The day of a date. -/
def toDays (d : Date) : Int :=
  let year := if d.month ≤ 2 then d.year - 1 else d.year
  let era := Int.fdiv year 400
  let yearOfEra := (Int.fmod year 400).toNat
  let march := if d.month ≤ 2 then d.month + 9 else d.month - 3
  let dayOfYear := (153 * march + 2) / 5 + d.day - 1
  let dayOfEra := 365 * yearOfEra + yearOfEra / 4 - yearOfEra / 100 + dayOfYear
  era * eraDays + dayOfEra - epochDays

/-- Whether a year has a leap day. -/
def isLeap (year : Int) : Bool :=
  year % 4 = 0 && (year % 100 != 0 || year % 400 = 0)

/-- The days of a month. -/
def monthDays (year : Int) (month : Nat) : Nat :=
  if month = 2 then (if isLeap year then 29 else 28)
  else if month = 4 ∨ month = 6 ∨ month = 9 ∨ month = 11 then 30
  else 31

/-- The years that dates may have. -/
def yearLimit : Int := 262142

/-- Whether dates may have a year. -/
def hasYear (year : Int) : Bool := -yearLimit - 1 ≤ year && year ≤ yearLimit

/-- The date with these numbers, if there is such a day. -/
def of? (year : Int) (month day : Nat) : Option Date :=
  if 1 ≤ month ∧ month ≤ 12 ∧ 1 ≤ day ∧ day ≤ monthDays year month ∧ hasYear year then
    some ⟨year, month, day⟩
  else none

end Date

end BarArchive
