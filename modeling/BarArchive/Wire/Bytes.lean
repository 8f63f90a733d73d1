/-
Bytes and the fixed-width words in them.

Words are little-endian: the least significant byte comes first. Reading takes the
bytes it needs from the front and gives back the rest, or nothing when there are too
few.
-/

namespace BarArchive

/-- A sequence of bytes. -/
abbrev Bytes := List UInt8

namespace Bytes

/-- The bytes of a 32-bit word, least significant first. -/
def ofUInt32 (w : UInt32) : Bytes :=
  [w.toUInt8, (w >>> 8).toUInt8, (w >>> 16).toUInt8, (w >>> 24).toUInt8]

/-- The number that bytes write, least significant first. -/
def toNat : Bytes → Nat
  | [] => 0
  | b :: bs => b.toNat + 256 * toNat bs

/-- A 32-bit word from the front, and the bytes after it. -/
def uint32? : Bytes → Option (UInt32 × Bytes)
  | a :: b :: c :: d :: rest => some ((toNat [a, b, c, d]).toUInt32, rest)
  | _ => none

/-- The first `n` bytes and the rest, if there are that many. -/
def split? (n : Nat) (bs : Bytes) : Option (Bytes × Bytes) :=
  if n ≤ bs.length then some (bs.take n, bs.drop n) else none

/-- The lowest `n` bytes of a number, least significant first. -/
def ofNat : Nat → Nat → Bytes
  | 0, _ => []
  | n + 1, v => v.toUInt8 :: ofNat n (v / 256)

/-- The bytes of a 64-bit word, most significant first. -/
def ofUInt64BE (w : UInt64) : Bytes := (ofNat 8 w.toNat).reverse

@[simp] theorem length_ofNat (n v : Nat) : (ofNat n v).length = n := by
  induction n generalizing v with
  | zero => rfl
  | succ n ih => simp [ofNat, ih]

theorem toNat_ofNat (n v : Nat) : toNat (ofNat n v) = v % 256 ^ n := by
  induction n generalizing v with
  | zero => simp [ofNat, toNat, Nat.mod_one]
  | succ n ih =>
    have h : (256 : Nat) ^ (n + 1) = 256 * 256 ^ n := by rw [Nat.pow_succ, Nat.mul_comm]
    have hb : v.toUInt8.toNat = v % 256 := by simp
    rw [ofNat, toNat, ih, hb, h, Nat.mod_mul]

theorem ofUInt32_eq (w : UInt32) : ofUInt32 w = ofNat 4 w.toNat := by
  unfold ofUInt32
  simp only [ofNat, List.cons.injEq, and_true]
  refine ⟨?_, ?_, ?_, ?_⟩ <;> apply UInt8.toNat_inj.mp <;> simp [Nat.shiftRight_eq_div_pow] <;> omega

@[simp] theorem length_ofUInt32 (w : UInt32) : (ofUInt32 w).length = 4 := rfl

theorem toNat_lt (bs : Bytes) : toNat bs < 256 ^ bs.length := by
  induction bs with
  | nil => decide
  | cons b bs ih =>
    have hb := b.toNat_lt
    rw [toNat, List.length_cons, Nat.pow_succ]
    omega

/-- Bytes are the lowest bytes of the number that they write. -/
theorem ofNat_toNat (bs : Bytes) : ofNat bs.length (toNat bs) = bs := by
  induction bs with
  | nil => rfl
  | cons b bs ih =>
    have hb := b.toNat_lt
    have hlow : (toNat (b :: bs)).toUInt8 = b := by
      apply UInt8.toNat_inj.mp
      simp only [toNat, Nat.toUInt8_eq, UInt8.toNat_ofNat']
      omega
    have hhigh : toNat (b :: bs) / 256 = toNat bs := by
      rw [toNat]
      omega
    rw [List.length_cons, ofNat, hlow, hhigh, ih]

/-! ### What is read from the front -/

theorem uint32?_eq_some {bs rest : Bytes} {w : UInt32} :
    uint32? bs = some (w, rest) ↔ bs = ofUInt32 w ++ rest := by
  constructor
  · intro h
    match bs with
    | a :: b :: c :: d :: rest' =>
      obtain ⟨rfl, rfl⟩ := Prod.mk.inj (Option.some.inj h)
      have hlt : toNat [a, b, c, d] < UInt32.size := by simpa using toNat_lt [a, b, c, d]
      have hword : (toNat [a, b, c, d]).toUInt32.toNat = toNat [a, b, c, d] :=
        UInt32.toNat_ofNat_of_lt' hlt
      rw [ofUInt32_eq, hword]
      exact congrArg (· ++ rest') (ofNat_toNat [a, b, c, d]).symm
  · rintro rfl
    have hw : toNat (ofUInt32 w) = w.toNat := by
      rw [ofUInt32_eq, toNat_ofNat, Nat.mod_eq_of_lt w.toNat_lt]
    show some ((toNat (ofUInt32 w)).toUInt32, rest) = _
    rw [hw, Nat.toUInt32_eq, UInt32.ofNat_toNat]

theorem uint32?_eq_none {bs : Bytes} : uint32? bs = none ↔ bs.length < 4 := by
  match bs with
  | [] | [_] | [_, _] | [_, _, _] => simp [uint32?]
  | a :: b :: c :: d :: rest => simp [uint32?]

theorem split?_eq_some {n : Nat} {bs first rest : Bytes} :
    split? n bs = some (first, rest) ↔ bs = first ++ rest ∧ first.length = n := by
  unfold split?
  constructor
  · intro h
    split at h
    · rename_i hn
      obtain ⟨rfl, rfl⟩ := Prod.mk.inj (Option.some.inj h)
      exact ⟨(List.take_append_drop n bs).symm, List.length_take_of_le hn⟩
    · cases h
  · rintro ⟨rfl, rfl⟩
    rw [if_pos (by simp), List.take_left, List.drop_left]

theorem split?_eq_none {n : Nat} {bs : Bytes} : split? n bs = none ↔ bs.length < n := by
  unfold split?
  split <;> simp <;> omega

end Bytes

end BarArchive
