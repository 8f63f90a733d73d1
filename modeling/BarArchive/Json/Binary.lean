/-
Numbers with a fraction, as a reader with 64 bits for each of them sees them.

A number is a multiple of a power of two with 53 bits, and every operation gives the one
nearest to its exact result. The reader takes digits into a word as long as they fit and
then multiplies or divides by a power of ten, so that up to three roundings lie between
the digits and the number. Written back, a number has as few digits as tell it from its
neighbours, and no exponent. All of this is done in whole numbers here.
-/
import BarArchive.Decimal.Basic
import BarArchive.Text.Digits

namespace BarArchive

/-- `mantissa` times two to the power of `exponent`, with 53 bits for the mantissa. -/
structure Binary where
  mantissa : Nat
  exponent : Int
deriving DecidableEq

namespace Binary

/-! ### Rounding -/

/-- A fraction divided by a power: its numerator and its denominator. -/
def dividedBy (base : Nat) (e : Int) (n d : Nat) : Nat × Nat :=
  if 0 ≤ e then (n, d * base ^ e.toNat) else (n * base ^ (-e).toNat, d)

/-- The least exponent of two. -/
def minExponent : Int := -1074

/-- The greatest exponent of two. -/
def maxExponent : Int := 971

/-- Nothing. -/
def zero : Binary := ⟨0, minExponent⟩

/-- The number nearest to a fraction, however great it is. -/
def nearest (n d : Nat) : Binary :=
  if n = 0 then zero
  else
    let guess : Int := (n.log2 : Int) - d.log2 - 52
    let (a, b) := dividedBy 2 guess n d
    let e := max minExponent (if a / b < 2 ^ 52 then guess - 1 else guess)
    let (a, b) := dividedBy 2 e n d
    let m := Decimal.roundHalfEven a b
    if m = 2 ^ 53 then ⟨2 ^ 52, e + 1⟩ else ⟨m, e⟩

/-- The fraction that a number is. -/
def fraction (x : Binary) : Nat × Nat := dividedBy 2 (-x.exponent) x.mantissa 1

/-! ### Reading -/

/-- The product. -/
def mul (x y : Binary) : Binary :=
  let (a, b) := x.fraction
  let (c, d) := y.fraction
  nearest (a * c) (b * d)

/-- The quotient by a number that is not zero. -/
def div (x y : Binary) : Binary :=
  let (a, b) := x.fraction
  let (c, d) := y.fraction
  nearest (a * d) (b * c)

/-- A power of ten. -/
def powerOfTen (k : Nat) : Binary := nearest (10 ^ k) 1

/-- The greatest power of ten that is used at once. -/
def maxPower : Nat := 308

/-- Digits taken into a word of 64 bits, and how many of them no longer fit. -/
def takeDigits (word : Nat) : List Char → Nat × Nat
  | [] => (word, 0)
  | c :: cs =>
    let next := 10 * word + (Digits.value? c).getD 0
    if next < 2 ^ 64 then takeDigits next cs else (word, cs.length + 1)

/-- A number divided by a power of ten; two of the greatest powers leave nothing of a word. -/
def shrunk : (rounds : Nat) → Binary → Nat → Binary
  | 0, _, _ => zero
  | rounds + 1, x, e =>
    if e ≤ maxPower then x.div (powerOfTen e)
    else shrunk rounds (x.div (powerOfTen maxPower)) (e - maxPower)

/-- A word times a power of ten, unless that is out of reach. -/
def scaled? (word : Nat) (e : Int) : Option Binary :=
  let x := nearest word 1
  if word = 0 then some zero
  else if e < 0 then some (shrunk 3 x (-e).toNat)
  else if maxPower < e then none
  else
    let y := x.mul (powerOfTen e.toNat)
    if y.exponent ≤ maxExponent then some y else none

/--
The number that digits before and after the point write, with an exponent of ten.

Digits that no longer fit the word count as places before the point, and are nothing
after it.
-/
def ofDigits? (whole places : List Char) (e : Int) : Option Binary :=
  let (word, left) := takeDigits 0 whole
  let (word, dropped) := takeDigits word places
  scaled? word (e + left - (places.length - dropped : Nat))

/-! ### Writing -/

/-- How often a fraction below one must be multiplied by ten to reach one. -/
def leadingZeros : (fuel n d : Nat) → Nat
  | 0, _, _ => 0
  | fuel + 1, n, d => if d ≤ n then 0 else leadingZeros fuel (10 * n) d + 1

/-- The power of ten that a fraction reaches. -/
def magnitude (n d : Nat) : Int :=
  if d ≤ n then ((n / d).repr.length : Int) - 1 else -(leadingZeros 400 n d : Int)

/-- Whether digits with a power of ten are read as this number. -/
def isReadFrom (x : Binary) (c : Nat) (e : Int) : Bool :=
  let (p, q) := dividedBy 10 (-e) c 1
  nearest p q == x

/-- The digits next to a number in units of a power of ten that are read as it, the nearer ones first. -/
def digitsAt? (x : Binary) (e : Int) : Option Nat :=
  let (n, d) := x.fraction
  let (a, b) := dividedBy 10 e n d
  let below := a / b
  let candidates := if b ≤ 2 * (a % b) then [below + 1, below] else [below, below + 1]
  candidates.find? fun c => x.isReadFrom c e

/-- The fewest digits that tell a number from its neighbours, from `k` on, and their power of ten. -/
def shortest (x : Binary) : (fuel k : Nat) → Nat × Int
  | 0, _ => (0, 0)
  | fuel + 1, k =>
    let (n, d) := x.fraction
    let e := magnitude n d - k + 1
    match x.digitsAt? e with
    | some c => if c = 10 ^ k then (1, e + k) else (c, e)
    | none => shortest x fuel (k + 1)

/-- Digits and a power of ten, without an exponent. -/
def plainText (c : Nat) (e : Int) : String :=
  if 0 ≤ e then c.repr ++ String.ofList (List.replicate e.toNat '0')
  else
    let places := (-e).toNat
    let digits := (Digits.decimal (places + 1) c).toList
    String.ofList (digits.take (digits.length - places)) ++ "."
      ++ String.ofList (digits.drop (digits.length - places))

/-- The text of a number; seventeen digits are always enough. -/
def toText (x : Binary) : String :=
  if x.mantissa = 0 then "0"
  else
    let (c, e) := x.shortest 17 1
    plainText c e

end Binary

end BarArchive
