/-
Descriptors: the fields that messages are made of.

A descriptor holds what is on the wire before anybody asks whether it makes sense: times
in nanoseconds, frequencies by number, decimals as bytes. The numbers of the fields are
what sender and receiver have agreed on.
-/
import BarArchive.Wire.Field

namespace BarArchive

/-- A trading session, in seconds after midnight. -/
structure SessionDescriptor where
  opens : UInt32
  closes : UInt32
deriving DecidableEq

/-- A continuous future. -/
structure FutureDescriptor where
  root : String
  adjustment : Int32
deriving DecidableEq

/-- An instrument. -/
structure InstrumentDescriptor where
  id : Option Int32
  symbol : String
  datasource : String
  expiration : Option Int64
  future : Option FutureDescriptor
  sessions : List SessionDescriptor
deriving DecidableEq

/-- A request for bars; a missing instruction about saving stands for yes. -/
structure RequestDescriptor where
  instrument : Option InstrumentDescriptor
  frequency : Int32
  start : Int64
  stop : Int64
  forceFresh : Bool
  localOnly : Bool
  save : Option Bool
  regularHoursOnly : Bool
  requestId : UInt32
deriving DecidableEq

/-- A bar. -/
structure BarDescriptor where
  instrument : Int32
  frequency : Int32
  time : Int64
  opened : Option Int64
  opening : Bytes
  high : Bytes
  low : Bytes
  closing : Bytes
  volume : Option Int64
  openInterest : Option Int32
  dividend : Option Bytes
  split : Option Bytes
  adjustedOpening : Option Bytes
  adjustedHigh : Option Bytes
  adjustedLow : Option Bytes
  adjustedClosing : Option Bytes
deriving DecidableEq

/-- Bars to be stored. -/
structure AdditionDescriptor where
  instrument : Option InstrumentDescriptor
  frequency : Int32
  bars : List BarDescriptor
  overwrite : Bool
deriving DecidableEq

/-- A question for what is stored. -/
structure CoverageQueryDescriptor where
  instrument : Int32
  frequency : Int32
  requestId : UInt32
deriving DecidableEq

/-- What is stored; nothing if both ends are missing. -/
structure CoverageDescriptor where
  instrument : Int32 := 0
  frequency : Int32 := 0
  earliest : Option Int64 := none
  latest : Option Int64 := none
  requestId : UInt32
deriving DecidableEq

/-! ### Writing and reading -/

namespace SessionDescriptor

/-- The fields of a session. -/
def fields (d : SessionDescriptor) : List Field :=
  Field.plain 1 (.ofUInt32 d.opens) ++ Field.plain 2 (.ofUInt32 d.closes)

/-- The session in fields. -/
def ofFields? (fs : List Field) : Option SessionDescriptor := do
  let opens ← Fields.plainNumber? fs 1
  let closes ← Fields.plainNumber? fs 2
  return ⟨opens.toUInt32, closes.toUInt32⟩

end SessionDescriptor

namespace FutureDescriptor

/-- The fields of a continuous future. -/
def fields (d : FutureDescriptor) : List Field :=
  Field.plain 1 (.ofText d.root) ++ Field.plain 2 (.ofInt32 d.adjustment)

/-- The continuous future in fields. -/
def ofFields? (fs : List Field) : Option FutureDescriptor := do
  let root ← Fields.plainText? fs 1
  let adjustment ← Fields.plainNumber? fs 2
  return ⟨root, Fields.int32 adjustment⟩

end FutureDescriptor

namespace InstrumentDescriptor

/-- The fields of an instrument. -/
def fields (d : InstrumentDescriptor) : List Field :=
  Field.optional 1 (d.id.map .ofInt32)
    ++ Field.plain 2 (.ofText d.symbol)
    ++ Field.plain 3 (.ofText d.datasource)
    ++ Field.optional 4 (d.expiration.map .ofInt64)
    ++ Field.optional 5 (d.future.map fun f => Field.nested f.fields)
    ++ Field.repeated 6 (d.sessions.map fun s => Field.nested s.fields)

/-- The instrument in fields. -/
def ofFields? (depth : Nat) (fs : List Field) : Option InstrumentDescriptor := do
  let id ← Fields.optionalNumber? fs 1
  let symbol ← Fields.plainText? fs 2
  let datasource ← Fields.plainText? fs 3
  let expiration ← Fields.optionalNumber? fs 4
  let future ← (← Fields.merged? (depth - 1) fs 5).mapM FutureDescriptor.ofFields?
  let sessions ← (← Fields.nested? (depth - 1) fs 6).mapM SessionDescriptor.ofFields?
  return {
    id := id.map Fields.int32
    symbol, datasource
    expiration := expiration.map UInt64.toInt64
    future, sessions }

end InstrumentDescriptor

namespace RequestDescriptor

/-- The fields of a request. -/
def fields (d : RequestDescriptor) : List Field :=
  Field.optional 1 (d.instrument.map fun i => Field.nested i.fields)
    ++ Field.plain 2 (.ofInt32 d.frequency)
    ++ Field.plain 3 (.ofInt64 d.start)
    ++ Field.plain 4 (.ofInt64 d.stop)
    ++ Field.plain 5 (.ofBool d.forceFresh)
    ++ Field.plain 6 (.ofBool d.localOnly)
    ++ Field.optional 7 (d.save.map .ofBool)
    ++ Field.plain 8 (.ofBool d.regularHoursOnly)
    ++ Field.plain 9 (.ofUInt32 d.requestId)

/-- The request in fields. -/
def ofFields? (depth : Nat) (fs : List Field) : Option RequestDescriptor := do
  let instrument ← (← Fields.merged? (depth - 1) fs 1).mapM (InstrumentDescriptor.ofFields? (depth - 1))
  let frequency ← Fields.plainNumber? fs 2
  let start ← Fields.plainNumber? fs 3
  let stop ← Fields.plainNumber? fs 4
  let forceFresh ← Fields.plainNumber? fs 5
  let localOnly ← Fields.plainNumber? fs 6
  let save ← Fields.optionalNumber? fs 7
  let regularHoursOnly ← Fields.plainNumber? fs 8
  let requestId ← Fields.plainNumber? fs 9
  return {
    instrument
    frequency := Fields.int32 frequency
    start := start.toInt64
    stop := stop.toInt64
    forceFresh := Fields.bool forceFresh
    localOnly := Fields.bool localOnly
    save := save.map Fields.bool
    regularHoursOnly := Fields.bool regularHoursOnly
    requestId := requestId.toUInt32 }

end RequestDescriptor

namespace BarDescriptor

/-- The fields of a bar. -/
def fields (d : BarDescriptor) : List Field :=
  Field.plain 1 (.ofInt32 d.instrument)
    ++ Field.plain 2 (.ofInt32 d.frequency)
    ++ Field.plain 3 (.ofInt64 d.time)
    ++ Field.optional 4 (d.opened.map .ofInt64)
    ++ Field.plain 5 (.bytes d.opening)
    ++ Field.plain 6 (.bytes d.high)
    ++ Field.plain 7 (.bytes d.low)
    ++ Field.plain 8 (.bytes d.closing)
    ++ Field.optional 9 (d.volume.map .ofInt64)
    ++ Field.optional 10 (d.openInterest.map .ofInt32)
    ++ Field.optional 11 (d.dividend.map .bytes)
    ++ Field.optional 12 (d.split.map .bytes)
    ++ Field.optional 13 (d.adjustedOpening.map .bytes)
    ++ Field.optional 14 (d.adjustedHigh.map .bytes)
    ++ Field.optional 15 (d.adjustedLow.map .bytes)
    ++ Field.optional 16 (d.adjustedClosing.map .bytes)

/-- The bar in fields. -/
def ofFields? (fs : List Field) : Option BarDescriptor := do
  let instrument ← Fields.plainNumber? fs 1
  let frequency ← Fields.plainNumber? fs 2
  let time ← Fields.plainNumber? fs 3
  let opened ← Fields.optionalNumber? fs 4
  let opening ← Fields.plainChunk? fs 5
  let high ← Fields.plainChunk? fs 6
  let low ← Fields.plainChunk? fs 7
  let closing ← Fields.plainChunk? fs 8
  let volume ← Fields.optionalNumber? fs 9
  let openInterest ← Fields.optionalNumber? fs 10
  let dividend ← Fields.optionalChunk? fs 11
  let split ← Fields.optionalChunk? fs 12
  let adjustedOpening ← Fields.optionalChunk? fs 13
  let adjustedHigh ← Fields.optionalChunk? fs 14
  let adjustedLow ← Fields.optionalChunk? fs 15
  let adjustedClosing ← Fields.optionalChunk? fs 16
  return {
    instrument := Fields.int32 instrument
    frequency := Fields.int32 frequency
    time := time.toInt64
    opened := opened.map UInt64.toInt64
    opening, high, low, closing
    volume := volume.map UInt64.toInt64
    openInterest := openInterest.map Fields.int32
    dividend, split, adjustedOpening, adjustedHigh, adjustedLow, adjustedClosing }

/-- The fields of a list of bars. -/
def listFields (ds : List BarDescriptor) : List Field :=
  Field.repeated 1 (ds.map fun d => Field.nested d.fields)

/-- The list of bars in fields. -/
def listOfFields? (depth : Nat) (fs : List Field) : Option (List BarDescriptor) := do
  (← Fields.nested? (depth - 1) fs 1).mapM ofFields?

end BarDescriptor

namespace AdditionDescriptor

/-- The fields of bars to be stored. -/
def fields (d : AdditionDescriptor) : List Field :=
  Field.optional 1 (d.instrument.map fun i => Field.nested i.fields)
    ++ Field.plain 2 (.ofInt32 d.frequency)
    ++ Field.repeated 3 (d.bars.map fun b => Field.nested b.fields)
    ++ Field.plain 4 (.ofBool d.overwrite)

/-- The bars to be stored that are in fields. -/
def ofFields? (depth : Nat) (fs : List Field) : Option AdditionDescriptor := do
  let instrument ← (← Fields.merged? (depth - 1) fs 1).mapM (InstrumentDescriptor.ofFields? (depth - 1))
  let frequency ← Fields.plainNumber? fs 2
  let bars ← (← Fields.nested? (depth - 1) fs 3).mapM BarDescriptor.ofFields?
  let overwrite ← Fields.plainNumber? fs 4
  return {
    instrument
    frequency := Fields.int32 frequency
    bars
    overwrite := Fields.bool overwrite }

end AdditionDescriptor

namespace CoverageQueryDescriptor

/-- The fields of a question for what is stored. -/
def fields (d : CoverageQueryDescriptor) : List Field :=
  Field.plain 1 (.ofInt32 d.instrument)
    ++ Field.plain 2 (.ofInt32 d.frequency)
    ++ Field.plain 3 (.ofUInt32 d.requestId)

/-- The question in fields. -/
def ofFields? (fs : List Field) : Option CoverageQueryDescriptor := do
  let instrument ← Fields.plainNumber? fs 1
  let frequency ← Fields.plainNumber? fs 2
  let requestId ← Fields.plainNumber? fs 3
  return ⟨Fields.int32 instrument, Fields.int32 frequency, requestId.toUInt32⟩

end CoverageQueryDescriptor

namespace CoverageDescriptor

/-- The fields of what is stored. -/
def fields (d : CoverageDescriptor) : List Field :=
  Field.plain 1 (.ofInt32 d.instrument)
    ++ Field.plain 2 (.ofInt32 d.frequency)
    ++ Field.optional 3 (d.earliest.map .ofInt64)
    ++ Field.optional 4 (d.latest.map .ofInt64)
    ++ Field.plain 5 (.ofUInt32 d.requestId)

/-- What is stored, from fields. -/
def ofFields? (fs : List Field) : Option CoverageDescriptor := do
  let instrument ← Fields.plainNumber? fs 1
  let frequency ← Fields.plainNumber? fs 2
  let earliest ← Fields.optionalNumber? fs 3
  let latest ← Fields.optionalNumber? fs 4
  let requestId ← Fields.plainNumber? fs 5
  return {
    instrument := Fields.int32 instrument
    frequency := Fields.int32 frequency
    earliest := earliest.map UInt64.toInt64
    latest := latest.map UInt64.toInt64
    requestId := requestId.toUInt32 }

end CoverageDescriptor

end BarArchive
