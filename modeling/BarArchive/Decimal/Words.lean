/-
Decimals as sixteen bytes.

Four little-endian words: the flags, then the coefficient from its lowest word on. The
flags hold the scale in bits 16 to 20 and the sign in bit 31; every other bit is
written as zero and ignored when read. Five bits can say 29, 30 or 31 places: such a
coefficient is cut back to 28 places.
-/
import BarArchive.Decimal.Basic
import BarArchive.Wire.Bytes

namespace BarArchive.Decimal

/-- The bytes of a decimal. -/
def toBytes (x : Decimal) : Bytes :=
  Bytes.ofNat 4 (x.scale * 2 ^ 16 + if x.negative then 2 ^ 31 else 0)
    ++ Bytes.ofNat 12 x.coefficient

/--
The coefficient with `excess` places cut off.

What was cut off counts in units of the last place cut: five of them or more add one.
-/
def cut (coefficient excess : Nat) : Nat :=
  let q := coefficient / 10 ^ excess
  if 5 ≤ coefficient % 10 ^ excess ∧ 0 < excess then q + 1 else q

/-- The decimal that sixteen bytes write. -/
def ofBytes? (bs : Bytes) : Option Decimal :=
  if bs.length = 16 then
    let flags := Bytes.toNat (bs.take 4)
    let scale := flags / 2 ^ 16 % 32
    let coefficient := cut (Bytes.toNat (bs.drop 4)) (scale - 28)
    if h : coefficient < 2 ^ 96 ∧ min scale 28 ≤ 28 then
      some ⟨flags / 2 ^ 31 % 2 == 1, coefficient, min scale 28, h.1, h.2⟩
    else none
  else none

/-- Nothing is cut off a coefficient without excess places. -/
theorem cut_zero (coefficient : Nat) : cut coefficient 0 = coefficient := by simp [cut]

/-- A decimal keeps its sign, its coefficient and its places. -/
theorem ofBytes?_toBytes (x : Decimal) : ofBytes? x.toBytes = some x := by
  obtain ⟨negative, coefficient, scale, hcoefficient, hscale⟩ := x
  let flags := scale * 2 ^ 16 + if negative then 2 ^ 31 else 0
  obtain ⟨hword, hplaces, hsign⟩ : flags < 256 ^ 4 ∧ flags / 2 ^ 16 % 32 = scale ∧
      (flags / 2 ^ 31 % 2 == 1) = negative := by
    cases negative <;> simp [flags] <;> omega
  have hfirst :
      Bytes.toNat (List.take 4 (Bytes.ofNat 4 flags ++ Bytes.ofNat 12 coefficient)) = flags := by
    rw [List.take_left' (Bytes.length_ofNat 4 flags), Bytes.toNat_ofNat, Nat.mod_eq_of_lt hword]
  have hrest :
      Bytes.toNat (List.drop 4 (Bytes.ofNat 4 flags ++ Bytes.ofNat 12 coefficient)) = coefficient := by
    rw [List.drop_left' (Bytes.length_ofNat 4 flags), Bytes.toNat_ofNat,
      Nat.mod_eq_of_lt hcoefficient]
  have hlength : (Bytes.ofNat 4 flags ++ Bytes.ofNat 12 coefficient).length = 16 := by simp
  show ofBytes? (Bytes.ofNat 4 flags ++ Bytes.ofNat 12 coefficient) = _
  unfold ofBytes?
  simp only [hlength, hfirst, hrest, hplaces, hsign, if_true, Nat.sub_eq_zero_of_le hscale,
    cut_zero, Nat.min_eq_left hscale, hcoefficient, hscale, and_self, dite_true]

end BarArchive.Decimal
