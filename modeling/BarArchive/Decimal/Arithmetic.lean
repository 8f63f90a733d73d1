/-
Sums, products and quotients of decimals.

Every operation computes the exact result first and then brings it into range. A
product has as many places as its factors together, a difference as many as the
longer operand; a quotient has as many as it needs, up to the 28 places and 96 bits
that there are. Each of them fails only when the integer part alone does not fit.
-/
import BarArchive.Decimal.Basic

namespace BarArchive.Decimal

/-- The value scaled by `10 ^ scale`, with its sign. -/
def signed (x : Decimal) : Int :=
  if x.negative then -(x.coefficient : Int) else x.coefficient

/-! ### Differences -/

/-- The difference, with the places of the longer operand. -/
def sub? (x y : Decimal) : Option Decimal :=
  let scale := max x.scale y.scale
  let d := x.signed * 10 ^ (scale - x.scale) - y.signed * 10 ^ (scale - y.scale)
  reduce? (d < 0) d.natAbs scale

/-! ### Products -/

/-- Coefficients below this bound are multiplied in one machine word. -/
def wordLimit : Nat := 2 ^ 32

/-- The most places that a one-word product is rounded from; a product with more is zero. -/
def wordPlaces : Nat := 47

/--
The product.

A zero factor gives zero without places. Otherwise the places add up, and what
exceeds 28 places or 96 bits is rounded away. A longer product that is rounded to zero
keeps its sign, while one that was computed in one machine word has none.
-/
def mul? (x y : Decimal) : Option Decimal :=
  let negative := x.negative != y.negative
  if x.isZero || y.isZero then some zero
  else if x.coefficient < wordLimit ∧ y.coefficient < wordLimit then
    if wordPlaces < x.scale + y.scale then some zero
    else reduce? negative (x.coefficient * y.coefficient) (x.scale + y.scale)
  else
    (reduced? (x.coefficient * y.coefficient) (x.scale + y.scale)).bind fun (c, scale) =>
      ofParts? negative c scale

/-! ### Quotients

The whole part comes first, then the places, up to nine of them at a time: as many as
28 places and 96 bits have room for. The last place that there is room for is rounded
half to even. Zeros that the last group of places ends in are given up in fixed runs,
so a few of them may stay.
-/

/-- How many digits may follow the coefficient `c`: at most nine, and none past 28 places. -/
def room (c : Nat) (scale : Int) : Nat :=
  ([9, 8, 7, 6, 5, 4, 3, 2, 1].find? fun k : Nat => c * 10 ^ k < 2 ^ 96 && scale + k ≤ 28).getD 0

/-- `n / d` rounded at `scale`, or one place earlier if the coefficient has no room for it. -/
def rounded? (n d : Nat) (scale : Int) : Option (Nat × Int) :=
  let c := roundHalfEven n d
  if c < 2 ^ 96 then (if 0 ≤ scale then some (c, scale) else none)
  else if 1 ≤ scale then some (roundHalfEven n (10 * d), scale - 1)
  else none

/--
The digits of a quotient by `d`, from the coefficient `c` and the remainder `r` on.

Every round adds at least one place, so the rounds are no more than the places that
there can be; `rounds` counts them down.
-/
def digits? (d : Nat) : (rounds : Nat) → (c r : Nat) → (scale : Int) → Option (Nat × Int)
  | 0, _, _, _ => none
  | rounds + 1, c, r, scale =>
    if r = 0 then
      if 0 ≤ scale then some (c, scale)
      else
        let k := min 9 (-scale).toNat
        if c * 10 ^ k < 2 ^ 96 then digits? d rounds (c * 10 ^ k) 0 (scale + k) else none
    else
      let k := room c scale
      if k = 0 then rounded? (c * d + r) d scale
      else
        let c' := c * 10 ^ k + r * 10 ^ k / d
        let r' := r * 10 ^ k % d
        if c' < 2 ^ 96 then digits? d rounds c' r' (scale + k)
        else rounded? (c' * d + r') d (scale + k)

/-- The coefficient without a run of `n` zeros at its end, if it has one and the places allow it. -/
def dropRun (n : Nat) (x : Nat × Nat) : Nat × Nat :=
  if n ≤ x.2 ∧ x.1 % 10 ^ n = 0 then (x.1 / 10 ^ n, x.2 - n) else x

/-- The coefficient without runs of eight zeros, as long as its lowest word is zero. -/
def dropEights : (runs : Nat) → Nat × Nat → Nat × Nat
  | 0, x => x
  | runs + 1, x => if x.1 % wordLimit = 0 then dropEights runs (dropRun 8 x) else x

/-- The coefficient and places that are left when zeros at the end are given up. -/
def trimmed (c scale : Nat) : Nat × Nat :=
  dropRun 1 (dropRun 2 (dropRun 4 (dropEights 3 (c, scale))))

/-- The most rounds that producing digits takes. -/
def maxRounds : Nat := 60

/--
The quotient by a decimal that is not zero.

If the coefficients divide evenly and no place is missing, the places are those of
the operands' difference; a zero has none.
-/
def div? (x y : Decimal) : Option Decimal :=
  if y.isZero then none
  else if x.isZero then some zero
  else
    let negative := x.negative != y.negative
    let r := x.coefficient % y.coefficient
    (digits? y.coefficient maxRounds (x.coefficient / y.coefficient) r
        ((x.scale : Int) - y.scale)).bind fun (c, scale) =>
      let (c, scale) := if r = 0 then (c, scale.toNat) else trimmed c scale.toNat
      of? negative c scale

end BarArchive.Decimal
