/-
Bars: what the trades of one span of time come to.

A bar has four prices, the volume where it is known and the corporate actions that
take effect with it. The adjusted prices are computed from a whole series and are
missing until then.
-/
import BarArchive.Decimal.Arithmetic
import BarArchive.Market.Frequency
import BarArchive.Market.Instrument

namespace BarArchive

/-- Something for each of the four prices of a bar. -/
structure Prices (α : Type) where
  opening : α
  high : α
  low : α
  closing : α
deriving DecidableEq

namespace Prices

/-- The same for each price. -/
def all {α : Type} (a : α) : Prices α := ⟨a, a, a, a⟩

/-- A partial function of each price, defined where it is defined on all four. -/
def mapM? {α β : Type} (f : α → Option β) (p : Prices α) : Option (Prices β) := do
  return ⟨← f p.opening, ← f p.high, ← f p.low, ← f p.closing⟩

/-- The four of them in order. -/
def toList {α : Type} (p : Prices α) : List α := [p.opening, p.high, p.low, p.closing]

end Prices

/-- The bar of one span of time. -/
structure Bar (τ : Type := Instant) where
  instrument : InstrumentId
  frequency : Frequency
  time : τ
  opened : Option τ := none
  prices : Prices Decimal
  volume : Option Int64 := none
  openInterest : Option Int32 := none
  dividend : Option Decimal := none
  split : Option Decimal := none
  adjusted : Prices (Option Decimal) := .all none
deriving DecidableEq

namespace Bar

/-- The value of an action, unless it is zero. -/
def effective (action : Option Decimal) : Option Decimal := action.filter fun x => !x.isZero

/-- Whether a split or a dividend takes effect with the bar. -/
def hasAction (b : Bar) : Bool := (effective b.dividend).isSome || (effective b.split).isSome

end Bar

end BarArchive
