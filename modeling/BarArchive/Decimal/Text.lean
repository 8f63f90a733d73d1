/-
Decimals as text.

Writing is exact: the sign, the whole part and as many places as the scale says.
Reading takes an optional sign, digits, at most one point and separators between
digits. Digits that no longer fit after the point are not an error: the first of them
rounds the number, half up in magnitude, and the rest are dropped. A text that does not
read this way may still be a number with an exponent.
-/
import BarArchive.Decimal.Arithmetic
import BarArchive.Text.Digits

namespace BarArchive.Decimal

/-! ### Writing -/

/-- The text of a decimal; the sign shows on a negative zero too. -/
def toText (x : Decimal) : String :=
  let digits := (Digits.decimal (x.scale + 1) x.coefficient).toList
  let whole := digits.take (digits.length - x.scale)
  let places := digits.drop (digits.length - x.scale)
  String.ofList ((if x.negative then ['-'] else []) ++ whole
    ++ (if places.isEmpty then [] else '.' :: places))

/-! ### Reading -/

/-- What has been read of a decimal: its digits, its places, whether the point and a digit came. -/
structure Reading where
  coefficient : Nat := 0
  scale : Nat := 0
  point : Bool := false
  digit : Bool := false

/-- The digit that rounds a number, zero if there is none; separators before it do not count. -/
def roundingDigit? (cs : List Char) : Option Nat :=
  match cs.dropWhile (· = '_') with
  | [] => some 0
  | c :: rest =>
    if rest.all fun c => c = '_' ∨ c.isDigit then Digits.value? c else none

/-- The number so far, one more in its last place if it is to be rounded up. -/
def roundedBy? (negative : Bool) (r : Reading) (digit : Nat) : Option Decimal :=
  if digit < 5 then of? negative r.coefficient r.scale
  else if r.coefficient + 1 < 2 ^ 96 then of? negative (r.coefficient + 1) r.scale
  else if r.scale = 0 then none
  else of? negative ((r.coefficient + 5) / 10) (r.scale - 1)

/-- The last step when digits no longer fit: the first of them rounds, the others only have to be digits. -/
def roundAt? (negative : Bool) (r : Reading) (cs : List Char) : Option Decimal :=
  (roundingDigit? cs).bind (roundedBy? negative r)

/-- Reads the characters after the sign. -/
def readFrom? (negative : Bool) (r : Reading) : List Char → Option Decimal
  | [] => if r.digit then of? negative r.coefficient r.scale else none
  | c :: cs =>
    if r.point ∧ r.digit ∧ 28 ≤ r.scale then roundAt? negative r (c :: cs)
    else match Digits.value? c with
      | some d =>
        let next := 10 * r.coefficient + d
        if next < 2 ^ 96 then
          readFrom? negative ⟨next, if r.point then r.scale + 1 else 0, r.point, true⟩ cs
        else if r.point then roundAt? negative r (c :: cs)
        else none
      | none =>
        if c = '.' ∧ !r.point then readFrom? negative { r with point := true } cs
        else if c = '_' ∧ r.digit then readFrom? negative r cs
        else none

/-- The decimal that a sign, digits and a point write. -/
def plain? : List Char → Option Decimal
  | '-' :: cs => readFrom? true {} cs
  | '+' :: cs => readFrom? false {} cs
  | cs => readFrom? false {} cs

/-- The same digits with another number of places. -/
def withScale? (x : Decimal) (scale : Nat) : Option Decimal :=
  if h : scale ≤ 28 then some { x with scale := scale, scale_le := h } else none

theorem roundHalfUp_lt {places : Nat} {x : Decimal} (h : ¬ x.scale ≤ places) :
    roundHalfUp x.coefficient (10 ^ (x.scale - places)) < 2 ^ 96 :=
  Nat.lt_of_le_of_lt (roundHalfUp_le _ (Nat.one_lt_pow (by omega) (by decide))) x.coefficient_lt

/-- The number with at most `places` places, a half going up in magnitude; its sign stays. -/
def shortened (places : Nat) (x : Decimal) : Decimal :=
  if h : x.scale ≤ places then x
  else
    ⟨x.negative, roundHalfUp x.coefficient (10 ^ (x.scale - places)), places, roundHalfUp_lt h,
      places_le h⟩

/-- The exponent of ten that a text writes, if it has at most 32 bits. -/
def exponent? (cs : List Char) : Option Nat :=
  let digits := match cs with
    | '+' :: r => r
    | r => r
  (Digits.nat? digits).bind fun n => if n < 2 ^ 32 then some n else none

/-- The number divided by a power of ten, for which places are given up if there are too few. -/
def dividedByPower? (x : Decimal) (e : Nat) : Option Decimal :=
  if 28 < e then none
  else
    let x := if 28 < x.scale + e then x.shortened (28 - e) else x
    x.withScale? (x.scale + e)

/-- The number times a power of ten: the point moves, and past the last place zeros are added. -/
def timesPower? (x : Decimal) (e : Nat) : Option Decimal :=
  if e ≤ x.scale then x.withScale? (x.scale - e)
  else if 28 < e then none
  else
    (of? false (10 ^ e) 0).bind fun power => (x.mul? power).bind fun y =>
      let (c, s) := stripped y.coefficient y.scale
      of? y.negative c s

/--
The decimal that digits and an exponent write.

The digits are read first, and rounded if there are too many of them. The exponent then
moves the point as far as there are places to give.
-/
def scientific? (cs : List Char) : Option Decimal :=
  let isMark := fun c : Char => c = 'e' ∨ c = 'E'
  match cs.dropWhile (fun c => !isMark c) with
  | [] => none
  | _ :: exponentText =>
    (plain? (cs.takeWhile fun c => !isMark c)).bind fun x =>
      match exponentText with
      | '-' :: r => (exponent? r).bind x.dividedByPower?
      | r => (exponent? r).bind x.timesPower?

/-- The decimal that a text writes, plainly or with an exponent. -/
def ofText? (s : String) : Option Decimal :=
  (plain? s.toList).orElse fun _ => scientific? s.toList

end BarArchive.Decimal
