/-
Decimal numbers as prices are kept: a sign, a coefficient of at most 96 bits and the
number of places after the point, at most 28.

The number of places is part of the value: 1.5 and 1.50 are different decimals that
stand for the same rational. The two bounds travel with the type, so every operation
has to say what it does when a result does not fit, and there is one way to fit a
result (`reduced?`): give up as few places as possible, rounding half to even.
-/

namespace BarArchive

-- powers of numbers are the built-in ones, also where a library brings powers of its own
attribute [instance (high), default_instance (high + 1)] instPowNat

/-- A sign, a coefficient and the place of the point. -/
structure Decimal where
  negative : Bool
  coefficient : Nat
  scale : Nat
  coefficient_lt : coefficient < 2 ^ 96
  scale_le : scale ≤ 28
deriving DecidableEq

namespace Decimal

/-- Nothing, without places. -/
def zero : Decimal := ⟨false, 0, 0, by decide, by decide⟩

/-- The neutral element of multiplication. -/
def one : Decimal := ⟨false, 1, 0, by decide, by decide⟩

instance : Inhabited Decimal := ⟨zero⟩

/-- Whether the decimal stands for zero, whatever its sign and places. -/
def isZero (x : Decimal) : Bool := x.coefficient == 0

/-- The decimal with these parts, if they are in range. A zero keeps its sign. -/
def ofParts? (negative : Bool) (coefficient scale : Nat) : Option Decimal :=
  if h : coefficient < 2 ^ 96 ∧ scale ≤ 28 then
    some ⟨negative, coefficient, scale, h.1, h.2⟩
  else none

/-- The decimal with these parts, if they are in range. A zero has no sign. -/
def of? (negative : Bool) (coefficient scale : Nat) : Option Decimal :=
  ofParts? (negative && coefficient != 0) coefficient scale

/-- A natural number, if it has at most 96 bits. -/
def ofNat? (n : Nat) : Option Decimal := of? false n 0

/-- An integer, if its magnitude has at most 96 bits. -/
def ofInt? (n : Int) : Option Decimal := of? (n < 0) n.natAbs 0

/-! ### Rounding

A quotient is rounded to the nearest natural number. In calculations a tie goes to the even
one; where digits are cut off a text, it goes up.
-/

/-- `n / d` rounded to the nearest natural number, ties to even. -/
def roundHalfEven (n d : Nat) : Nat :=
  let q := n / d
  let twice := 2 * (n % d)
  if twice > d ∨ (twice = d ∧ q % 2 = 1) then q + 1 else q

/-- Rounding a quotient never exceeds what was divided. -/
theorem roundHalfEven_le (n : Nat) {d : Nat} (hd : 0 < d) : roundHalfEven n d ≤ n := by
  have hdiv := Nat.div_add_mod n d
  have hmod := Nat.mod_lt n hd
  unfold roundHalfEven
  simp only
  split
  · rename_i h
    have hr : 1 ≤ n % d := by omega
    have hd2 : 2 ≤ d := by omega
    have hq : 2 * (n / d) ≤ d * (n / d) := Nat.mul_le_mul_right _ hd2
    omega
  · have hq : 1 * (n / d) ≤ d * (n / d) := Nat.mul_le_mul_right _ hd
    omega

/-- `n / d` rounded to the nearest natural number, ties away from zero. -/
def roundHalfUp (n d : Nat) : Nat :=
  if d ≤ 2 * (n % d) then n / d + 1 else n / d

/-- Rounding a quotient by two or more never exceeds what was divided. -/
theorem roundHalfUp_le (n : Nat) {d : Nat} (hd : 1 < d) : roundHalfUp n d ≤ n := by
  have hdiv := Nat.div_add_mod n d
  have hq : 2 * (n / d) ≤ d * (n / d) := Nat.mul_le_mul_right _ hd
  unfold roundHalfUp
  split <;> omega

/-- Dividing by one leaves nothing to round. -/
@[simp] theorem roundHalfEven_one (n : Nat) : roundHalfEven n 1 = n := by
  simp [roundHalfEven, Nat.mod_one]

/--
A coefficient and scale of any size, brought into range.

As few places as possible are given up: the first number of dropped places for which
scale and rounded coefficient both fit. When even a result without places does not
fit there is none.
-/
def reduced? (coefficient scale : Nat) : Option (Nat × Nat) :=
  (List.range' (scale - 28) (scale + 1 - (scale - 28))).findSome? fun dropped =>
    let c := roundHalfEven coefficient (10 ^ dropped)
    if c < 2 ^ 96 ∧ scale - dropped ≤ 28 then some (c, scale - dropped) else none

/-- The decimal nearest to a coefficient and scale of any size, if there is one. -/
def reduce? (negative : Bool) (coefficient scale : Nat) : Option Decimal :=
  (reduced? coefficient scale).bind fun (c, scale) => of? negative c scale

/-- A decimal that has more places than these shows that they are not too many. -/
theorem places_le {places : Nat} {x : Decimal} (h : ¬ x.scale ≤ places) : places ≤ 28 :=
  Nat.le_trans (Nat.le_of_lt (Nat.lt_of_not_le h)) x.scale_le

/--
The decimal with at most `places` places, ties to even; shorter ones stay as they are.

What becomes zero by rounding has no sign, but a zero keeps the one it has.
-/
def round (places : Nat) (x : Decimal) : Decimal :=
  if h : x.scale ≤ places then x
  else
    let c := roundHalfEven x.coefficient (10 ^ (x.scale - places))
    ⟨x.negative && (x.isZero || c != 0), c, places,
      Nat.lt_of_le_of_lt (roundHalfEven_le _ (Nat.pow_pos (by decide))) x.coefficient_lt,
      places_le h⟩

/-- The places of `c` that end in zeros are given up, at most `scale` of them. -/
def stripped (c : Nat) : Nat → Nat × Nat
  | 0 => (c, 0)
  | scale + 1 => if c % 10 = 0 then stripped (c / 10) scale else (c, scale + 1)

end Decimal

end BarArchive
