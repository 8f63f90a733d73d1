/-
The store: all series that are kept, each under its instrument and frequency.

Adding writes whole groups: the bars of a batch that share a time replace what was
stored for that time, or leave it alone when nothing is to be overwritten. If the
batch asks for it, the adjusted prices of the whole series are computed anew; should a
price outgrow its decimals then, the series stays as it was written.
-/
import BarArchive.Market.Adjustment
import BarArchive.Market.Error
import BarArchive.Series
import BarArchive.Table

namespace BarArchive

/-- The series that are kept. -/
structure Store where
  series : Table SeriesKey Series := .empty

/-- Why bars were not added, or not added properly. -/
inductive AddFailure where
  | refused (cause : StoreError)
  | overflow
deriving DecidableEq

namespace Store

/-- The store without bars. -/
def empty : Store := {}

/-- The series under a key. -/
def get (s : Store) (k : SeriesKey) : Series := (s.series.find? k).getD []

/-- The number under which an instrument is stored. -/
def instrumentId (i : Instrument) : Except StoreError InstrumentId :=
  match i.id with
  | some id => .ok id
  | none => .error (.missingInstrumentId i.symbol)

/-- The number of bars under a key. -/
def size (s : Store) (k : SeriesKey) : Nat := (s.get k).bars.length

/-- Whether there are no bars at all. -/
def isEmpty (s : Store) : Bool := s.series.values.all List.isEmpty

/-- The first and the last instant with bars under a key. -/
def coverage (s : Store) (k : SeriesKey) : Option Coverage :=
  (s.get k).bounds?.map fun (earliest, latest) => ⟨k.instrument, k.frequency, earliest, latest⟩

/-- The bars of a range; nothing when it is upside down. -/
def query (s : Store) (i : Instrument) (start stop : Instant) (f : Frequency) :
    Except StoreError (List Bar) := do
  let id ← instrumentId i
  if stop < start then return []
  return ((s.get ⟨id, f⟩).within start stop).bars

/-! ### Adding -/

/-- A bar as it is filed. -/
def relabel (k : SeriesKey) (b : Bar) : Bar := { b with instrument := k.instrument, frequency := k.frequency }

/-- Writes one group unless it is there and must stay, and counts the bars written. -/
def writeGroup (k : SeriesKey) (overwrite : Bool) (state : Series × Nat) (e : Instant × List Bar) :
    Series × Nat :=
  if overwrite || (state.1.find? e.1).isNone then
    (state.1.put e.1 (e.2.map (relabel k)), state.2 + e.2.length)
  else state

/-- Writes the groups of a batch into a series and counts the bars written. -/
def write (k : SeriesKey) (overwrite : Bool) (s : Series) (bars : List Bar) : Series × Nat :=
  (Series.group k.frequency bars).foldl (writeGroup k overwrite) (s, 0)

/-- A series with its adjusted prices computed anew. -/
def readjust? (f : Frequency) (s : Series) : Option Series :=
  (Adjustment.adjust? s.bars).map (Series.group f)

/-- Adds bars and says how many were written. -/
def add (s : Store) (bars : List Bar) (i : Instrument) (f : Frequency) (overwrite adjust : Bool) :
    Store × Except AddFailure Nat :=
  match instrumentId i with
  | .error e => (s, .error (.refused e))
  | .ok id =>
    let k : SeriesKey := ⟨id, f⟩
    let (written, count) := write k overwrite (s.get k) bars
    let kept : Store := ⟨s.series.insert k written⟩
    if adjust then
      match readjust? f written with
      | some adjusted => (⟨s.series.insert k adjusted⟩, .ok count)
      | none => (kept, .error .overflow)
    else (kept, .ok count)

end Store

end BarArchive
