/-
Moments: points in time as a clock shows them, leap seconds included.

Within a leap second a clock reading has a billion nanoseconds or more, and stays on the second
before. An instant counts nanoseconds as if there were no leap seconds, so that a moment within
one has the instant of a moment in the second after it. Of all moments that have the same
instant, one at most is outside leap seconds, and it is this one that an instant is taken for.

What a message says about time may be said in instants and times of day or in moments and
readings. The wire does not need to know which: it asks for the instant and for the seconds
since midnight, and for a text if something is wrong.
-/
import BarArchive.Time.Instant

namespace BarArchive

/-! ### Readings -/

/-- A clock reading that a day has, which may lie within a leap second. -/
structure Reading extends Clock where
  second_lt : second < Clock.daySeconds
  nano_lt : nano < 2 * Clock.secondNanos
deriving DecidableEq

namespace Reading

/-- Whether a reading lies within a leap second. -/
def isLeap (r : Reading) : Bool := Clock.secondNanos ≤ r.nano

/-- The reading without what it has below a second. -/
def wholeSecond (r : Reading) : Reading :=
  { r with nano := 0, nano_lt := (by decide : 0 < 2 * Clock.secondNanos) }

end Reading

/-- What a clock reads at a time of day. -/
def TimeOfDay.reading (t : TimeOfDay) : Reading where
  second := t.seconds
  nano := t.nanos % Clock.secondNanos
  second_lt := t.seconds_lt
  nano_lt := Nat.lt_of_lt_of_le (Nat.mod_lt _ (by decide)) (by decide)

/-! ### Moments -/

/-- A day and a clock reading in universal time. -/
structure Moment where
  day : Int
  reading : Reading
deriving DecidableEq

namespace Moment

/-- Whether a moment lies within a leap second. -/
def isLeap (m : Moment) : Bool := m.reading.isLeap

/-- The nanoseconds since the epoch, as if there were no leap seconds. -/
def instant (m : Moment) : Instant :=
  m.day * dayNanos + (m.reading.second * Clock.secondNanos + m.reading.nano : Nat)

/-- Date, clock reading and time zone, as messages show a moment. -/
def toText (m : Moment) : String :=
  (Date.ofDays m.day).toText ++ " " ++ m.reading.toText ++ " UTC"

end Moment

/-- The moment outside leap seconds that an instant is taken for. -/
def Instant.moment (t : Instant) : Moment where
  day := t.day
  reading := {
    toClock := t.clock
    second_lt := Nat.div_lt_of_lt_mul t.nanosOfDay_lt
    nano_lt := Nat.lt_of_lt_of_le (Nat.mod_lt _ (by decide)) (by decide) }

namespace Moment

/-- The moment of the same instant that is outside leap seconds. -/
def settled (m : Moment) : Moment := m.instant.moment

theorem isLeap_moment (t : Instant) : t.moment.isLeap = false := by
  have hnano : t.nanosOfDay % Clock.secondNanos < Clock.secondNanos := Nat.mod_lt _ (by decide)
  exact decide_eq_false (Nat.not_le_of_lt hnano)

theorem instant_moment (t : Instant) : t.moment.instant = t := by
  have hday : t.day * dayNanos + (t.nanosOfDay : Int) = t := by
    have hnonneg := Int.fmod_nonneg_of_pos t (show (0 : Int) < dayNanos by decide)
    rw [Instant.nanosOfDay, Int.toNat_of_nonneg hnonneg, Instant.day, Int.mul_comm]
    exact Int.mul_fdiv_add_fmod t dayNanos
  have hclock : t.nanosOfDay / Clock.secondNanos * Clock.secondNanos
      + t.nanosOfDay % Clock.secondNanos = t.nanosOfDay := Nat.div_add_mod' _ _
  show t.day * dayNanos + ((t.nanosOfDay / Clock.secondNanos * Clock.secondNanos
      + t.nanosOfDay % Clock.secondNanos : Nat) : Int) = t
  rw [hclock, hday]

theorem instant_settled (m : Moment) : m.settled.instant = m.instant := instant_moment m.instant

/-- Outside leap seconds a moment can be told by its instant. -/
theorem settled_of_not_leap {m : Moment} (h : m.isLeap = false) : m.settled = m := by
  obtain ⟨day, ⟨⟨second, nano⟩, hsecond, hnano⟩⟩ := m
  have hlt : nano < Clock.secondNanos := Nat.lt_of_not_le (of_decide_eq_false h)
  have hnanos : second * Clock.secondNanos + nano < dayNanos := by
    have hday : dayNanos = Clock.daySeconds * Clock.secondNanos := rfl
    have hle : (second + 1) * Clock.secondNanos ≤ Clock.daySeconds * Clock.secondNanos :=
      Nat.mul_le_mul_right _ hsecond
    rw [Nat.succ_mul] at hle
    omega
  generalize hn : second * Clock.secondNanos + nano = n at hnanos
  have hpos : (0 : Int) < dayNanos := by decide
  have hfdiv : Int.fdiv (day * dayNanos + n) dayNanos = day := by
    rw [Int.fdiv_eq_ediv_of_nonneg _ (Int.le_of_lt hpos), Int.add_comm,
      Int.add_mul_ediv_right _ _ (Int.ne_of_gt hpos),
      Int.ediv_eq_zero_of_lt (Int.natCast_nonneg n) (Int.ofNat_lt.mpr hnanos), Int.zero_add]
  have hfmod : (Int.fmod (day * dayNanos + n) dayNanos).toNat = n := by
    have hparts := Int.mul_fdiv_add_fmod (day * dayNanos + n) dayNanos
    rw [hfdiv, Int.mul_comm] at hparts
    rw [Int.add_left_cancel hparts, Int.toNat_natCast]
  have hclock : n / Clock.secondNanos = second ∧ n % Clock.secondNanos = nano := by
    rw [← hn, Nat.mul_comm]
    exact ⟨by rw [Nat.mul_add_div (by decide), Nat.div_eq_of_lt hlt, Nat.add_zero],
      by rw [Nat.mul_add_mod, Nat.mod_eq_of_lt hlt]⟩
  simp only [settled, instant, Instant.moment, Instant.day, Instant.clock, Instant.nanosOfDay, hn,
    hfdiv, hfmod, hclock]

/-- Nothing but a leap second is lost. -/
theorem settled_eq_self_iff (m : Moment) : m.settled = m ↔ m.isLeap = false := by
  constructor
  · intro h
    rw [← h]
    exact isLeap_moment m.instant
  · exact settled_of_not_leap

end Moment

/-! ### What the wire asks for -/

/-- Points in time, with their instants and their texts. -/
class Dated (τ : Type) where
  instant : τ → Instant
  toText : τ → String

instance : Dated Instant := ⟨id, Instant.toText⟩

instance : Dated Moment := ⟨Moment.instant, Moment.toText⟩

/-- Times of a day, with the seconds since midnight. -/
class Timed (κ : Type) where
  seconds : κ → Nat
  seconds_lt : ∀ t, seconds t < Clock.daySeconds

instance : Timed TimeOfDay := ⟨TimeOfDay.seconds, TimeOfDay.seconds_lt⟩

instance : Timed Reading := ⟨fun r => r.second, Reading.second_lt⟩

namespace Timed

variable {κ : Type} [Timed κ]

/-- The time of day at the last whole second. -/
def wholeSeconds (t : κ) : TimeOfDay := .ofSeconds (seconds t) (seconds_lt t)

/-- The seconds of a time lead back to it, less what it has below a second. -/
theorem ofSeconds?_seconds (t : κ) : TimeOfDay.ofSeconds? (seconds t) = some (wholeSeconds t) :=
  dif_pos (seconds_lt t)

/-- A time of day that is given by seconds has nothing below a second. -/
theorem wholeSeconds_of_ofSeconds? {n : Nat} {t : TimeOfDay}
    (h : TimeOfDay.ofSeconds? n = some t) : wholeSeconds t = t := by
  unfold TimeOfDay.ofSeconds? at h
  split at h
  · rename_i hn
    obtain rfl := Option.some.inj h
    have hseconds : seconds (TimeOfDay.ofSeconds n hn) = n := TimeOfDay.seconds_ofSeconds hn
    simp only [wholeSeconds, hseconds]
  · cases h

/-- A reading loses what it has below a second, and the leap second too. -/
theorem reading_wholeSeconds (r : Reading) : (wholeSeconds r).reading = r.wholeSecond := by
  obtain ⟨⟨second, nano⟩, hsecond, hnano⟩ := r
  have hseconds : (TimeOfDay.ofSeconds second hsecond).seconds = second :=
    TimeOfDay.seconds_ofSeconds hsecond
  have hnano : (TimeOfDay.ofSeconds second hsecond).nanos % Clock.secondNanos = 0 :=
    Nat.mul_mod_left second Clock.secondNanos
  show TimeOfDay.reading (.ofSeconds second hsecond) = _
  simp only [TimeOfDay.reading, hseconds, hnano, Reading.wholeSecond]

end Timed

end BarArchive
