/-
What descriptors mean.

Describing can fail for one reason only: the wire has 64 bits for the nanoseconds of an
instant, which is some 292 years to either side of 1970. Understanding can fail for
several, and the first field that makes no sense is the one that is named. Session
times lose what they have below a second.

What is described may have moments for its points in time and readings for its times of day,
leap seconds included. What is understood has instants and times of day.
-/
import BarArchive.Decimal.Words
import BarArchive.Market.Request
import BarArchive.Time.Moment
import BarArchive.Wire.Descriptor
import BarArchive.Wire.Error

namespace BarArchive

variable {τ κ : Type} [Dated τ] [Timed κ]

/-! ### Fields -/

namespace Describe

/-- A point in time on the wire, which is its instant. -/
def instant (field : String) (t : τ) : Except WireError Int64 :=
  if (Dated.instant t).fits then .ok (Int64.ofInt (Dated.instant t))
  else .error (.invalidField field (Dated.toText t ++ " is out of range"))

/-- A point in time that may be missing. -/
def optionalInstant (field : String) : Option τ → Except WireError (Option Int64)
  | none => .ok none
  | some t => (instant field t).map some

end Describe

namespace Understand

/-- A frequency by its number. -/
def frequency (n : Int32) : Except WireError Frequency :=
  match Frequency.ofNumber? n.toInt with
  | some f => .ok f
  | none => .error (.invalidField "frequency" ("unknown frequency " ++ toString n.toInt))

/-- An adjustment mode by its number. -/
def adjustment (n : Int32) : Except WireError AdjustmentMode :=
  match AdjustmentMode.ofNumber? n.toInt with
  | some m => .ok m
  | none => .error (.invalidField "adjustment" ("unknown adjustment mode " ++ toString n.toInt))

/-- A time of day by its seconds. -/
def timeOfDay (field : String) (seconds : UInt32) : Except WireError TimeOfDay :=
  match TimeOfDay.ofSeconds? seconds.toNat with
  | some t => .ok t
  | none => .error (.invalidField field (seconds.toNat.repr ++ " is not a time of day"))

/-- A decimal by its bytes. -/
def decimal (field : String) (bs : Bytes) : Except WireError Decimal :=
  match Decimal.ofBytes? bs with
  | some x => .ok x
  | none => .error (.invalidField field ("expected 16 bytes, got " ++ bs.length.repr))

/-- A decimal that may be missing. -/
def optionalDecimal (field : String) : Option Bytes → Except WireError (Option Decimal)
  | none => .ok none
  | some bs => (decimal field bs).map some

end Understand

/-! ### Instruments -/

/-- The descriptor of a session. -/
def TradingSession.describe (s : TradingSession κ) : SessionDescriptor :=
  ⟨(Timed.seconds s.opens).toUInt32, (Timed.seconds s.closes).toUInt32⟩

/-- The session that a descriptor means. -/
def SessionDescriptor.meaning (d : SessionDescriptor) : Except WireError TradingSession := do
  let opens ← Understand.timeOfDay "session start" d.opens
  let closes ← Understand.timeOfDay "session end" d.closes
  return ⟨opens, closes⟩

/-- The descriptor of a continuous future. -/
def ContinuousFuture.describe (f : ContinuousFuture) : FutureDescriptor :=
  ⟨f.root, Int32.ofNat f.adjustment.number⟩

/-- The continuous future that a descriptor means. -/
def FutureDescriptor.meaning (d : FutureDescriptor) : Except WireError ContinuousFuture := do
  let adjustment ← Understand.adjustment d.adjustment
  return ⟨d.root, adjustment⟩

/-- The descriptor of an instrument. -/
def Instrument.describe (i : Instrument τ κ) : Except WireError InstrumentDescriptor := do
  let expiration ← Describe.optionalInstant "expiration" i.expiration
  return {
    id := i.id
    symbol := i.symbol
    datasource := i.datasource
    expiration
    future := i.continuousFuture.map ContinuousFuture.describe
    sessions := i.sessions.map TradingSession.describe }

/-- The instrument that a descriptor means. -/
def InstrumentDescriptor.meaning (d : InstrumentDescriptor) : Except WireError Instrument := do
  let continuousFuture ← d.future.mapM FutureDescriptor.meaning
  let sessions ← d.sessions.mapM SessionDescriptor.meaning
  return {
    id := d.id
    symbol := d.symbol
    datasource := d.datasource
    expiration := d.expiration.map Int64.toInt
    continuousFuture, sessions }

/-- The instrument of a message, which must not be missing. -/
def Understand.instrument : Option InstrumentDescriptor → Except WireError Instrument
  | some d => d.meaning
  | none => .error (.invalidField "instrument" "missing")

/-! ### Requests -/

/-- The descriptor of a request; the numbers that the broker gave it stay behind. -/
def Request.describe (r : Request τ κ) : Except WireError RequestDescriptor := do
  let instrument ← r.instrument.describe
  let start ← Describe.instant "start" r.start
  let stop ← Describe.instant "end" r.stop
  return {
    instrument := some instrument
    frequency := Int32.ofNat r.frequency.number
    start, stop
    forceFresh := r.forceFresh
    localOnly := r.localOnly
    save := some r.save
    regularHoursOnly := r.regularHoursOnly
    requestId := r.requestId }

/-- The request that a descriptor means. -/
def RequestDescriptor.meaning (d : RequestDescriptor) : Except WireError Request := do
  let instrument ← Understand.instrument d.instrument
  let frequency ← Understand.frequency d.frequency
  return {
    instrument, frequency
    start := d.start.toInt
    stop := d.stop.toInt
    forceFresh := d.forceFresh
    localOnly := d.localOnly
    save := d.save.getD true
    regularHoursOnly := d.regularHoursOnly
    requestId := d.requestId }

/-! ### Bars -/

/-- The descriptor of a bar. -/
def Bar.describe (b : Bar τ) : Except WireError BarDescriptor := do
  let time ← Describe.instant "timestamp" b.time
  let opened ← Describe.optionalInstant "bar_open" b.opened
  return {
    instrument := b.instrument
    frequency := Int32.ofNat b.frequency.number
    time, opened
    opening := b.prices.opening.toBytes
    high := b.prices.high.toBytes
    low := b.prices.low.toBytes
    closing := b.prices.closing.toBytes
    volume := b.volume
    openInterest := b.openInterest
    dividend := b.dividend.map Decimal.toBytes
    split := b.split.map Decimal.toBytes
    adjustedOpening := b.adjusted.opening.map Decimal.toBytes
    adjustedHigh := b.adjusted.high.map Decimal.toBytes
    adjustedLow := b.adjusted.low.map Decimal.toBytes
    adjustedClosing := b.adjusted.closing.map Decimal.toBytes }

/-- The bar that a descriptor means. -/
def BarDescriptor.meaning (d : BarDescriptor) : Except WireError Bar := do
  let frequency ← Understand.frequency d.frequency
  let opening ← Understand.decimal "open" d.opening
  let high ← Understand.decimal "high" d.high
  let low ← Understand.decimal "low" d.low
  let closing ← Understand.decimal "close" d.closing
  let dividend ← Understand.optionalDecimal "dividend" d.dividend
  let split ← Understand.optionalDecimal "split" d.split
  let adjustedOpening ← Understand.optionalDecimal "adj_open" d.adjustedOpening
  let adjustedHigh ← Understand.optionalDecimal "adj_high" d.adjustedHigh
  let adjustedLow ← Understand.optionalDecimal "adj_low" d.adjustedLow
  let adjustedClosing ← Understand.optionalDecimal "adj_close" d.adjustedClosing
  return {
    instrument := d.instrument
    frequency
    time := d.time.toInt
    opened := d.opened.map Int64.toInt
    prices := ⟨opening, high, low, closing⟩
    volume := d.volume
    openInterest := d.openInterest
    dividend, split
    adjusted := ⟨adjustedOpening, adjustedHigh, adjustedLow, adjustedClosing⟩ }

/-! ### Additions and coverage -/

/-- The descriptor of bars to be stored. -/
def Addition.describe (a : Addition τ κ) : Except WireError AdditionDescriptor := do
  let instrument ← a.instrument.describe
  let bars ← a.bars.mapM Bar.describe
  return {
    instrument := some instrument
    frequency := Int32.ofNat a.frequency.number
    bars
    overwrite := a.overwrite }

/-- The bars to be stored that a descriptor means. -/
def AdditionDescriptor.meaning (d : AdditionDescriptor) : Except WireError Addition := do
  let instrument ← Understand.instrument d.instrument
  let frequency ← Understand.frequency d.frequency
  let bars ← d.bars.mapM BarDescriptor.meaning
  return { instrument, frequency, bars, overwrite := d.overwrite }

/-- A question for what is stored under a key. -/
structure CoverageQuery where
  key : SeriesKey
  requestId : UInt32
deriving DecidableEq

/-- The descriptor of a question. -/
def CoverageQuery.describe (q : CoverageQuery) : CoverageQueryDescriptor :=
  ⟨q.key.instrument, Int32.ofNat q.key.frequency.number, q.requestId⟩

/-- The question that a descriptor means. -/
def CoverageQueryDescriptor.meaning (d : CoverageQueryDescriptor) : Except WireError CoverageQuery := do
  let frequency ← Understand.frequency d.frequency
  return ⟨⟨d.instrument, frequency⟩, d.requestId⟩

/-- The descriptor that answers a question. -/
def CoverageQueryDescriptor.answer (d : CoverageQueryDescriptor) (c : Option (Coverage τ)) :
    Except WireError CoverageDescriptor := do
  let earliest ← Describe.optionalInstant "earliest" (c.map (·.earliest))
  let latest ← Describe.optionalInstant "latest" (c.map (·.latest))
  return { instrument := d.instrument, frequency := d.frequency, earliest, latest, requestId := d.requestId }

/-- The descriptor of what is stored, for the request that asked. -/
def Coverage.describe (requestId : UInt32) : Option (Coverage τ) → Except WireError CoverageDescriptor
  | none => .ok { requestId }
  | some c =>
    CoverageQueryDescriptor.answer ⟨c.instrument, Int32.ofNat c.frequency.number, requestId⟩ (some c)

/-- What is stored, according to a descriptor; it has both ends or neither. -/
def CoverageDescriptor.meaning (d : CoverageDescriptor) : Except WireError (Option Coverage) :=
  match d.earliest, d.latest with
  | some earliest, some latest => do
    let frequency ← Understand.frequency d.frequency
    return some ⟨d.instrument, frequency, earliest.toInt, latest.toInt⟩
  | none, none => .ok none
  | _, _ => .error (.invalidField "coverage" "only one bound present")

end BarArchive
