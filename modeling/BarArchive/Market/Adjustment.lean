/-
Price adjustment: old prices in terms of the newest ones.

Going back through a series, each split divides the prices before it and each dividend
takes its share of the close before it off them. The factor in force at a bar is the
product of what all later bars contribute, so the last bar keeps its prices, and the
adjusted prices of a bar depend on later bars and on no earlier one.
-/
import BarArchive.Market.Bar

namespace BarArchive.Adjustment

/-- The places that adjusted prices keep. -/
def places : Nat := 10

/-- A bar with its prices adjusted by a factor. -/
def scaled? (factor : Decimal) (b : Bar) : Option Bar :=
  (b.prices.mapM? fun p => (p.mul? factor).map fun x => some (x.round places)).map fun adjusted =>
    { b with adjusted := adjusted }

/-- The factor after a bar's split. -/
def afterSplit? (factor : Decimal) (b : Bar) : Option Decimal :=
  match Bar.effective b.split with
  | some ratio => factor.div? ratio
  | none => some factor

/-- The factor after a bar's dividend, which is set against the close of the bar before. -/
def afterDividend? (factor : Decimal) (previousClose : Decimal) (b : Bar) : Option Decimal :=
  match Bar.effective b.dividend with
  | some dividend =>
    if previousClose.isZero then some factor
    else do
      let share ← dividend.div? previousClose
      let kept ← Decimal.one.sub? share
      factor.mul? kept
  | none => some factor

/-- The factor in force before the bar `b`, given the bar before it and the factor at `b`. -/
def carried? (previous b : Bar) (factor : Decimal) : Option Decimal :=
  (afterSplit? factor b).bind fun f => afterDividend? f previous.prices.closing b

/--
The adjusted bars of a series and the factor in force before its first bar.

`previous` is the bar before the series, if there is one; the first bar of all has no
bar before it that its actions could apply to.
-/
def backward? : Option Bar → List Bar → Option (List Bar × Decimal)
  | _, [] => some ([], .one)
  | previous, b :: bars => do
    let (adjusted, factor) ← backward? (some b) bars
    let scaled ← scaled? factor b
    let before ← match previous with
      | some p => carried? p b factor
      | none => some factor
    return (scaled :: adjusted, before)

/-- A series with adjusted prices, unless a price or a factor outgrows its decimals. -/
def adjust? (bars : List Bar) : Option (List Bar) := (backward? none bars).map (·.1)

end BarArchive.Adjustment
