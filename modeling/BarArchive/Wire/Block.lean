/-
Compressed blocks.

A block is a sequence of runs. A run begins with a token of two lengths; bytes to be
taken as they are follow, and then a distance and a length for bytes to be copied from
what was there before. A copy may reach into itself, which repeats a pattern. The block
ends right after bytes taken as they are.

A writer may choose any runs that give its bytes back. The one here takes all of them as
they are.
-/
import BarArchive.Wire.Bytes

namespace BarArchive.Block

/-! ### Reading -/

/-- The bytes that continue a length: all of them count, and one below 255 is the last. -/
def extension? : Bytes → Option (Nat × Bytes)
  | [] => none
  | b :: rest =>
    if b = 255 then (extension? rest).map fun (n, rest) => (n + 255, rest)
    else some (b.toNat, rest)

/-- A length of which the token holds up to fifteen. -/
def length? (nibble : Nat) (bs : Bytes) : Option (Nat × Bytes) :=
  if nibble = 15 then (extension? bs).map fun (n, rest) => (n + 15, rest) else some (nibble, bs)

/-- A distance: two bytes, the lower one first. -/
def distance? : Bytes → Option (Nat × Bytes)
  | a :: b :: rest => some (Bytes.toNat [a, b], rest)
  | _ => none

/-- The shortest copy. -/
def shortest : Nat := 4

/-- Copies `n` bytes, one at a time, from as far back as `distance` says. -/
def copy (distance : Nat) : (n : Nat) → Array UInt8 → Array UInt8
  | 0, out => out
  | n + 1, out => copy distance n (out.push (out.getD (out.size - distance) 0))

/-- Carries out runs, at most `fuel` of them, as long as no more than `limit` bytes come out. -/
def expandWithin (limit : Nat) : (fuel : Nat) → Array UInt8 → Bytes → Option (Array UInt8)
  | 0, _, _ => none
  | _ + 1, _, [] => none
  | fuel + 1, out, token :: rest => do
    let (count, rest) ← length? (token.toNat / 16) rest
    let (literals, rest) ← Bytes.split? count rest
    let out := literals.foldl Array.push out
    if limit < out.size then none
    else if rest.isEmpty then some out
    else
      let (distance, rest) ← distance? rest
      let (count, rest) ← length? (token.toNat % 16) rest
      let count := count + shortest
      if distance = 0 ∨ out.size < distance ∨ limit < out.size + count then none
      else expandWithin limit fuel (copy distance count out) rest

/-- The bytes of a block, which are no more than `limit`. -/
def expand? (limit : Nat) (block : Bytes) : Option Bytes :=
  (expandWithin limit (block.length + 1) #[] block).map Array.toList

/-! ### Writing -/

/-- The bytes that continue a length. -/
def extension (n : Nat) : Bytes := if n < 255 then [n.toUInt8] else 255 :: extension (n - 255)

/-- A block of bytes that are all taken as they are. -/
def literals (bs : Bytes) : Bytes :=
  if bs.length < 15 then (bs.length * 16).toUInt8 :: bs
  else 240 :: (extension (bs.length - 15) ++ bs)

theorem extension?_extension (n : Nat) (rest : Bytes) :
    extension? (extension n ++ rest) = some (n, rest) := by
  induction n using extension.induct with
  | case1 n h =>
    have hb : n.toUInt8.toNat = n := by simp; omega
    have hne : n.toUInt8 ≠ 255 := by
      intro heq
      rw [heq] at hb
      simp at hb
      omega
    rw [extension, if_pos h, List.singleton_append, extension?, if_neg hne, hb]
  | case2 n h ih =>
    rw [extension, if_neg h, List.cons_append, extension?, if_pos rfl, ih]
    simp only [Option.map_some, Nat.sub_add_cancel (Nat.not_lt.mp h)]

/-- A block of one run without a copy holds the bytes that it takes as they are. -/
theorem expandWithin_literals {fuel : Nat} {token : UInt8} {rest bs : Bytes}
    (h : length? (token.toNat / 16) rest = some (bs.length, bs)) :
    expandWithin bs.length (fuel + 1) #[] (token :: rest) = some bs.toArray := by
  have hsplit : Bytes.split? bs.length bs = some (bs, []) :=
    Bytes.split?_eq_some.mpr ⟨(List.append_nil bs).symm, rfl⟩
  rw [expandWithin, h]
  simp [hsplit]

theorem expand?_literals (bs : Bytes) : expand? bs.length (literals bs) = some bs := by
  unfold expand? literals
  by_cases h : bs.length < 15
  · have htoken : (bs.length * 16).toUInt8.toNat / 16 = bs.length := by simp; omega
    rw [if_pos h, expandWithin_literals]
    · rfl
    · rw [htoken, length?, if_neg (by omega)]
  · have htoken : (240 : UInt8).toNat / 16 = 15 := rfl
    rw [if_neg h, expandWithin_literals]
    · rfl
    · rw [htoken, length?, if_pos rfl, extension?_extension]
      simp only [Option.map_some, Nat.sub_add_cancel (Nat.not_lt.mp h)]

/-- A writer of blocks: the bytes that a block was made of come out of it again. -/
structure Encoder where
  shrink : Bytes → Bytes
  expand_shrink : ∀ bs, expand? bs.length (shrink bs) = some bs

/-- The writer that takes all bytes as they are. -/
def Encoder.plain : Encoder := ⟨literals, expand?_literals⟩

end BarArchive.Block
