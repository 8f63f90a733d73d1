/-
Instruments: what is traded, and when.

An instrument names the source that serves it. Without a number of its own nothing can
be stored for it. A continuous future is stitched together from contracts; once the
stitching adjusts older prices, every new contract changes all of them, so such a
series can only be replaced as a whole.
-/
import BarArchive.Time.Instant

namespace BarArchive

/-- The number under which an instrument is stored. -/
abbrev InstrumentId := Int32

/-- The name of a data source. -/
abbrev SourceId := String

/-- How the prices of older contracts are brought in line with newer ones. -/
inductive AdjustmentMode where
  | none
  | difference
  | ratio
deriving DecidableEq, Repr

namespace AdjustmentMode

/-- The adjustment modes in order of their numbers. -/
def all : List AdjustmentMode := [.none, .difference, .ratio]

/-- The number of an adjustment mode. -/
def number : AdjustmentMode → Nat
  | .none => 0
  | .difference => 1
  | .ratio => 2

/-- The adjustment mode with a number, if there is one. -/
def ofNumber? (n : Int) : Option AdjustmentMode :=
  if 0 ≤ n then all[n.toNat]? else Option.none

/-- The name of an adjustment mode in documents. -/
def name : AdjustmentMode → String
  | .none => "NONE"
  | .difference => "DIFFERENCE"
  | .ratio => "RATIO"

/-- The adjustment mode with a name, if there is one. -/
def ofName? (s : String) : Option AdjustmentMode := all.find? fun m => m.name == s

end AdjustmentMode

/-- A future that rolls from contract to contract. -/
structure ContinuousFuture where
  root : String
  adjustment : AdjustmentMode
deriving DecidableEq

/-- A daily window of regular trading; it may run past midnight. -/
structure TradingSession (κ : Type := TimeOfDay) where
  opens : κ
  closes : κ
deriving DecidableEq

/-- Whether a time of day, in nanoseconds, lies in the window, both ends included. -/
def TradingSession.contains (s : TradingSession) (nanos : Nat) : Bool :=
  if s.opens.nanos ≤ s.closes.nanos then s.opens.nanos ≤ nanos && nanos ≤ s.closes.nanos
  else s.opens.nanos ≤ nanos || nanos ≤ s.closes.nanos

/-- What is traded. -/
structure Instrument (τ : Type := Instant) (κ : Type := TimeOfDay) where
  id : Option InstrumentId
  symbol : String
  datasource : SourceId
  expiration : Option τ := none
  continuousFuture : Option ContinuousFuture := none
  sessions : List (TradingSession κ) := []
deriving DecidableEq

namespace Instrument

/-- Whether the instrument rolls from contract to contract. -/
def isContinuousFuture (i : Instrument) : Bool := i.continuousFuture.isSome

/-- Whether new bars may be joined to stored ones. -/
def allowsPartialFill (i : Instrument) : Bool :=
  match i.continuousFuture with
  | some future => future.adjustment == .none
  | none => true

/-- Whether an instant lies in regular trading; without sessions every instant does. -/
def isRegular (i : Instrument) (t : Instant) : Bool :=
  i.sessions.isEmpty || i.sessions.any fun s => s.contains t.nanosOfDay

end Instrument

end BarArchive
