/-
Frequencies: how much time one bar of a series spans.

There are sixteen, from single trades to years, in ascending order of their spans. A
frequency is numbered by its place in that order, which is its number on the wire too.
Months, quarters and years have nominal spans, as good as any for pacing and for
telling neighbouring bars apart.
-/

namespace BarArchive

/-- The span of one bar. -/
inductive Frequency where
  | tick
  | oneSecond
  | fiveSeconds
  | fifteenSeconds
  | thirtySeconds
  | oneMinute
  | twoMinutes
  | fiveMinutes
  | fifteenMinutes
  | thirtyMinutes
  | oneHour
  | oneDay
  | oneWeek
  | oneMonth
  | oneQuarter
  | oneYear
deriving DecidableEq, Repr, Inhabited

namespace Frequency

/-- All frequencies, ascending. -/
def all : List Frequency :=
  [tick, oneSecond, fiveSeconds, fifteenSeconds, thirtySeconds, oneMinute, twoMinutes, fiveMinutes,
    fifteenMinutes, thirtyMinutes, oneHour, oneDay, oneWeek, oneMonth, oneQuarter, oneYear]

/-- The place of a frequency among all of them. -/
def number : Frequency → Nat
  | tick => 0
  | oneSecond => 1
  | fiveSeconds => 2
  | fifteenSeconds => 3
  | thirtySeconds => 4
  | oneMinute => 5
  | twoMinutes => 6
  | fiveMinutes => 7
  | fifteenMinutes => 8
  | thirtyMinutes => 9
  | oneHour => 10
  | oneDay => 11
  | oneWeek => 12
  | oneMonth => 13
  | oneQuarter => 14
  | oneYear => 15

/-- The frequency with a number, if there is one. -/
def ofNumber? (n : Int) : Option Frequency :=
  if 0 ≤ n then all[n.toNat]? else none

/-- The name of a frequency in documents. -/
def name : Frequency → String
  | tick => "TICK"
  | oneSecond => "ONE_SECOND"
  | fiveSeconds => "FIVE_SECONDS"
  | fifteenSeconds => "FIFTEEN_SECONDS"
  | thirtySeconds => "THIRTY_SECONDS"
  | oneMinute => "ONE_MINUTE"
  | twoMinutes => "TWO_MINUTES"
  | fiveMinutes => "FIVE_MINUTES"
  | fifteenMinutes => "FIFTEEN_MINUTES"
  | thirtyMinutes => "THIRTY_MINUTES"
  | oneHour => "ONE_HOUR"
  | oneDay => "ONE_DAY"
  | oneWeek => "ONE_WEEK"
  | oneMonth => "ONE_MONTH"
  | oneQuarter => "ONE_QUARTER"
  | oneYear => "ONE_YEAR"

/-- The frequency with a name, if there is one. -/
def ofName? (s : String) : Option Frequency := all.find? fun f => f.name == s

/-- The label of a frequency in messages. -/
def label : Frequency → String
  | tick => "tick"
  | oneSecond => "1s"
  | fiveSeconds => "5s"
  | fifteenSeconds => "15s"
  | thirtySeconds => "30s"
  | oneMinute => "1m"
  | twoMinutes => "2m"
  | fiveMinutes => "5m"
  | fifteenMinutes => "15m"
  | thirtyMinutes => "30m"
  | oneHour => "1h"
  | oneDay => "1d"
  | oneWeek => "1w"
  | oneMonth => "1mo"
  | oneQuarter => "1q"
  | oneYear => "1y"

/-! ### Spans, in nanoseconds -/

/-- The nominal span of a bar in seconds; a trade has none. -/
def seconds : Frequency → Nat
  | tick => 0
  | oneSecond => 1
  | fiveSeconds => 5
  | fifteenSeconds => 15
  | thirtySeconds => 30
  | oneMinute => 60
  | twoMinutes => 120
  | fiveMinutes => 300
  | fifteenMinutes => 900
  | thirtyMinutes => 1800
  | oneHour => 3600
  | oneDay => 86400
  | oneWeek => 7 * 86400
  | oneMonth => 30 * 86400
  | oneQuarter => 91 * 86400
  | oneYear => 365 * 86400

/-- The nominal span of a bar. -/
def span (f : Frequency) : Nat := f.seconds * 1000000000

/-- Half a bar: the margin that tells a missing bar from a present one. -/
def halfBar (f : Frequency) : Nat := max (f.span / 2) 1

/-- Whether bars are shorter than a day. -/
def isIntraday (f : Frequency) : Bool := f.number < oneDay.number

/-- The shortest time between two replayed bars. -/
def minReplay : Nat := 10000000

/-- The time between two replayed bars. -/
def replayInterval (f : Frequency) : Nat := max f.span minReplay

theorem ofNumber?_number (f : Frequency) : ofNumber? f.number = some f := by
  cases f <;> rfl

theorem number_injective {f g : Frequency} (h : f.number = g.number) : f = g := by
  have := congrArg (fun n : Nat => ofNumber? n) h
  simpa [ofNumber?_number] using this

theorem replayInterval_pos (f : Frequency) : 0 < f.replayInterval :=
  Nat.lt_of_lt_of_le (by decide) (Nat.le_max_right _ _)

theorem halfBar_pos (f : Frequency) : 0 < f.halfBar :=
  Nat.lt_of_lt_of_le (by decide) (Nat.le_max_right _ _)

end Frequency

end BarArchive
