/-
Requests for ranges of bars, and the ranges that are stored.

The broker gives every request it accepts a number of its own; a request for part of
another one's range names that one as its parent.
-/
import BarArchive.Market.Bar
import BarArchive.Text.Digits

namespace BarArchive

/-- The number that the broker gives a request; never shared by two of them. -/
structure AssignedId where
  word : UInt64
deriving DecidableEq, Inhabited, Repr

/-- Sixteen hexadecimal digits. -/
def AssignedId.toText (id : AssignedId) : String := Digits.hex 16 id.word.toNat

/-- What a series of bars is filed under. -/
structure SeriesKey where
  instrument : InstrumentId
  frequency : Frequency
deriving DecidableEq, Repr

/-- A request for the bars of a range, both ends included. -/
structure Request (τ : Type := Instant) (κ : Type := TimeOfDay) where
  instrument : Instrument τ κ
  frequency : Frequency
  start : τ
  stop : τ
  forceFresh : Bool := false
  localOnly : Bool := false
  save : Bool := true
  regularHoursOnly : Bool := false
  requestId : UInt32 := 0
  assignedId : Option AssignedId := none
  parentId : Option AssignedId := none
deriving DecidableEq

namespace Request

/-- Whether the request asks for part of another one's range. -/
def isPart (r : Request) : Bool := r.parentId.isSome

/-- The same request for part of its range, with `r` as the parent. -/
def part (r : Request) (start stop : Instant) (id : AssignedId) : Request :=
  { r with start, stop, assignedId := some id, parentId := r.assignedId }

/-- The key of the series that the request asks for, if its instrument can be stored. -/
def key? (r : Request) : Option SeriesKey := r.instrument.id.map fun id => ⟨id, r.frequency⟩

end Request

/-- Bars to be stored. -/
structure Addition (τ : Type := Instant) (κ : Type := TimeOfDay) where
  instrument : Instrument τ κ
  frequency : Frequency
  bars : List (Bar τ)
  overwrite : Bool := false
deriving DecidableEq

/-- The first and the last instant that a series has bars for. -/
structure Coverage (τ : Type := Instant) where
  instrument : InstrumentId
  frequency : Frequency
  earliest : τ
  latest : τ
deriving DecidableEq, Repr

namespace Coverage

/-- Whether the range lies between the two instants. -/
def contains (c : Coverage) (start stop : Instant) : Bool := c.earliest ≤ start && stop ≤ c.latest

/-- Whether the bars go on at least until an instant. -/
def reaches (c : Coverage) (t : Instant) : Bool := t ≤ c.latest

end Coverage

end BarArchive
