/-
Numbers of varying width.

A number is written in bytes of seven bits each, the lowest first, and every byte but
the last is marked by its highest bit. A reader takes ten bytes at most and no number of
more than 64 bits; it does accept more bytes than the number needs.
-/
import BarArchive.Wire.Bytes

namespace BarArchive.Varint

/-- The bytes of a number. -/
def write (n : Nat) : Bytes :=
  if n < 128 then [n.toUInt8] else (n % 128 + 128).toUInt8 :: write (n / 128)

/-- A number of at most `k` bytes from the front, and the bytes after it. -/
def readWithin : (k : Nat) → Bytes → Option (Nat × Bytes)
  | 0, _ => none
  | _ + 1, [] => none
  | k + 1, b :: rest =>
    if b.toNat < 128 then some (b.toNat, rest)
    else (readWithin k rest).map fun (n, rest) => (b.toNat - 128 + 128 * n, rest)

/-- A number from the front, and the bytes after it. -/
def read? (bs : Bytes) : Option (Nat × Bytes) :=
  (readWithin 10 bs).filter fun (n, _) => n < 2 ^ 64

theorem readWithin_write (k n : Nat) (rest : Bytes) (h : n < 128 ^ (k + 1)) :
    readWithin (k + 1) (write n ++ rest) = some (n, rest) := by
  induction k generalizing n with
  | zero =>
    have hn : n < 128 := by simpa using h
    have hb : n % 256 = n := Nat.mod_eq_of_lt (by omega)
    rw [write, if_pos hn]
    simp [readWithin, hb, hn]
  | succ k ih =>
    rw [write]
    split
    · have : n % 256 = n := Nat.mod_eq_of_lt (by omega)
      simp [readWithin, *]
    · have hb : (n % 128 + 128) % 256 = n % 128 + 128 := Nat.mod_eq_of_lt (by omega)
      have hd : n / 128 < 128 ^ (k + 1) := by
        rw [Nat.pow_succ, Nat.mul_comm] at h
        exact Nat.div_lt_of_lt_mul h
      have hr : readWithin (k + 2) ((n % 128 + 128).toUInt8 :: (write (n / 128) ++ rest)) =
          (readWithin (k + 1) (write (n / 128) ++ rest)).map
            fun (m, rest) => (n % 128 + 128 - 128 + 128 * m, rest) := by
        have hn : (n % 128 + 128).toUInt8.toNat = n % 128 + 128 := by simpa using hb
        rw [readWithin, hn, if_neg (by omega)]
      rw [List.cons_append, hr, ih _ hd]
      simp only [Option.map_some, Option.some.injEq, Prod.mk.injEq, and_true]
      omega

/-- Reading what was written gives the number back, and the bytes after it untouched. -/
theorem read?_write (n : Nat) (rest : Bytes) (h : n < 2 ^ 64) :
    read? (write n ++ rest) = some (n, rest) := by
  have hk : n < 128 ^ 10 := Nat.lt_of_lt_of_le h (by decide)
  simp only [read?, readWithin_write 9 n rest hk, Option.filter_some, decide_eq_true h, if_true]

end BarArchive.Varint
