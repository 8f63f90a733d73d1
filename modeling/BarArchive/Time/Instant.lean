/-
Instants: nanoseconds since 1970-01-01T00:00:00Z, leap seconds left out.

An instant is an integer, so order and distance are those of the integers and spans of
nanoseconds are added as they are. There is no instant within a leap second, and no time of
day either: where such a point in time can be told, it is a `Moment` or a `Reading`. The text
of an instant is its date and clock reading; years outside 0 to 9999 carry a sign.
-/
import BarArchive.Time.Calendar
import BarArchive.Time.Clock

namespace BarArchive

/-- Nanoseconds since the epoch; leap seconds have none, and are not counted. -/
abbrev Instant := Int

/-- The nanoseconds of a day. -/
def dayNanos : Nat := 86400 * 1000000000

/-- A time of day outside leap seconds, in nanoseconds since midnight. -/
structure TimeOfDay where
  nanos : Nat
  nanos_lt : nanos < dayNanos
deriving DecidableEq

namespace TimeOfDay

/-- The time of day at `nanos` nanoseconds after midnight, if the day is that long. -/
def of? (nanos : Nat) : Option TimeOfDay :=
  if h : nanos < dayNanos then some ⟨nanos, h⟩ else none

/-- The whole seconds since midnight. -/
def seconds (t : TimeOfDay) : Nat := t.nanos / 1000000000

/-- The time of day at a whole number of seconds after midnight. -/
def ofSeconds (n : Nat) (h : n < Clock.daySeconds) : TimeOfDay :=
  ⟨n * 1000000000, Nat.mul_lt_mul_of_pos_right h (by decide)⟩

/-- The time of day at a whole number of seconds after midnight, if the day is that long. -/
def ofSeconds? (n : Nat) : Option TimeOfDay :=
  if h : n < Clock.daySeconds then some (ofSeconds n h) else none

theorem seconds_lt (t : TimeOfDay) : t.seconds < Clock.daySeconds :=
  Nat.div_lt_of_lt_mul (Nat.mul_comm _ _ ▸ t.nanos_lt)

theorem seconds_ofSeconds {n : Nat} (h : n < Clock.daySeconds) : (ofSeconds n h).seconds = n :=
  Nat.mul_div_cancel n (by decide)

end TimeOfDay

/-- The text of a date: four digits of the year, or a sign and at least four. -/
def Date.toText (d : Date) : String :=
  let year :=
    if 0 ≤ d.year ∧ d.year ≤ 9999 then Digits.decimal 4 d.year.toNat
    else (if d.year < 0 then "-" else "+") ++ Digits.decimal 4 d.year.natAbs
  year ++ "-" ++ Digits.decimal 2 d.month ++ "-" ++ Digits.decimal 2 d.day

namespace Instant

/-- The day that an instant falls on. -/
def day (t : Instant) : Int := Int.fdiv t dayNanos

/-- The nanoseconds since midnight. -/
def nanosOfDay (t : Instant) : Nat := (Int.fmod t dayNanos).toNat

/-- The clock reading of an instant. -/
def clock (t : Instant) : Clock :=
  ⟨nanosOfDay t / Clock.secondNanos, nanosOfDay t % Clock.secondNanos⟩

/-- Date, clock reading and time zone, as messages show an instant. -/
def toText (t : Instant) : String :=
  (Date.ofDays (day t)).toText ++ " " ++ (clock t).toText ++ " UTC"

/-- The first instant of the calendar. -/
def earliest : Instant := (Date.toDays ⟨-Date.yearLimit - 1, 1, 1⟩) * dayNanos

/-- The last instant of the calendar. -/
def latest : Instant := (Date.toDays ⟨Date.yearLimit + 1, 1, 1⟩) * dayNanos - 1

/-- Whether the calendar has an instant. -/
def inCalendar (t : Instant) : Bool := earliest ≤ t && t ≤ latest

/-- Whether an instant can be written in 64 bits. -/
def fits (t : Instant) : Bool := -(2 ^ 63) ≤ t && t < 2 ^ 63

theorem nanosOfDay_lt (t : Instant) : nanosOfDay t < dayNanos := by
  unfold nanosOfDay
  have h0 : (0 : Int) < (dayNanos : Int) := by decide
  have h1 := Int.fmod_lt_of_pos t h0
  have h2 := Int.fmod_nonneg_of_pos t h0
  omega

end Instant

end BarArchive
