/-
What a data source offers, and how fast it may be asked.
-/
import BarArchive.Market.Frequency

namespace BarArchive

/-- The services of a source; an empty list of frequencies stands for all of them. -/
structure Capabilities where
  historical : Bool := false
  realtime : Bool := false
  dividends : Bool := false
  earnings : Bool := false
  frequencies : List Frequency := []
deriving DecidableEq

namespace Capabilities

/-- Historical bars and nothing else. -/
def historicalOnly : Capabilities := { historical := true }

/-- Whether bars of a frequency are offered. -/
def supports (c : Capabilities) (f : Frequency) : Bool :=
  c.frequencies.isEmpty || c.frequencies.contains f

end Capabilities

/-- How many requests a source takes per minute, and how many at once. -/
structure Pacing where
  perMinute : Nat := 60
  burst : Nat := 10
deriving DecidableEq, Repr

end BarArchive
