/-
Numbers come round only after all words were given out.

Scrambling permutes the words of 64 bits, so the numbers of an allocator repeat just when
its count does. Any 2 ^ 64 of them in a row differ, and the next one is a repetition. The
word zero is left in its place, and as no allocator starts at zero, it is given out only once
the count has wrapped around.
-/
import BarArchive.Proofs.Numbers
import Mathlib.Data.FinEnum

namespace BarArchive

/-! ### Scrambling -/

/-- Scrambling permutes the words of 64 bits. -/
theorem scramble_bijective : Function.Bijective scramble :=
  Finite.injective_iff_bijective.mp fun _ _ => scramble_injective

theorem scramble_zero : scramble 0 = 0 := by decide

theorem scramble_eq_zero {x : UInt64} : scramble x = 0 ↔ x = 0 := by
  constructor
  · intro h
    exact scramble_injective (h.trans scramble_zero.symm)
  · rintro rfl
    exact scramble_zero

namespace Allocator

/-! ### Repetitions -/

/-- More numbers than there are words cannot differ. -/
theorem length_le_of_nodup {ids : List AssignedId} (h : ids.Nodup) : ids.length ≤ 2 ^ 64 := by
  have hwords : (ids.map (·.word)).Nodup :=
    h.map fun _ _ hword => congrArg AssignedId.mk hword
  have hcard := hwords.length_le_card
  rwa [List.length_map, ← FinEnum.card_eq_fintypeCard, FinEnum.card_UInt64] at hcard

/-- Numbers given out in a row differ just if they are not more than the words of 64 bits. -/
theorem nodup_take_iff {n : Nat} (a : Allocator) : (a.take n).1.Nodup ↔ n ≤ 2 ^ 64 :=
  ⟨fun h => length_take n a ▸ length_le_of_nodup h, fun h => nodup_take h a⟩

/-! ### Zero -/

/-- The count of an allocator at its start. -/
theorem counter_startingAt (seed : UInt64) :
    (startingAt seed).counter.toNat = max 1 seed.toNat := by
  show (if (1 : UInt64) ≤ seed then seed else 1).toNat = max 1 seed.toNat
  split
  · rename_i hle
    exact (Nat.max_eq_right (UInt64.le_iff_toNat_le.mp hle)).symm
  · rename_i hlt
    have hzero : seed.toNat < 1 := by
      simpa [UInt64.le_iff_toNat_le] using hlt
    exact (Nat.max_eq_left (Nat.le_of_lt hzero)).symm

/-- Zero is given out just if the count comes to zero. -/
theorem zero_mem_take {n : Nat} {a : Allocator} :
    ⟨0⟩ ∈ (a.take n).1 ↔ ∃ i < n, a.counter + UInt64.ofNat i = 0 := by
  rw [take_eq, List.mem_map]
  refine exists_congr fun i => and_congr List.mem_range ?_
  rw [AssignedId.mk.injEq, scramble_eq_zero]

/-- A count comes to zero where it passes the last word. -/
theorem counter_add_eq_zero {c : UInt64} {i : Nat} :
    c + UInt64.ofNat i = 0 ↔ (c.toNat + i) % 2 ^ 64 = 0 := by
  rw [← UInt64.toNat_inj, UInt64.toNat_add, UInt64.toNat_ofNat', Nat.add_mod_mod]
  rfl

/-- Zero is among the first numbers just if they are so many that the count wraps around. -/
theorem zero_mem_startingAt (seed : UInt64) (n : Nat) :
    ⟨0⟩ ∈ ((startingAt seed).take n).1 ↔ 2 ^ 64 < max 1 seed.toNat + n := by
  have hstart := counter_startingAt seed
  have hword := (startingAt seed).counter.toNat_lt
  simp only [zero_mem_take, counter_add_eq_zero]
  constructor
  · rintro ⟨i, hi, hzero⟩
    omega
  · intro hwraps
    refine ⟨2 ^ 64 - (startingAt seed).counter.toNat, by omega, ?_⟩
    rw [Nat.add_sub_of_le (Nat.le_of_lt hword)]

/-- **Numbers come round only after all words were given out.** Scrambling permutes the words and
keeps zero. Whatever an allocator starts at and has given out before, its next `n` numbers
differ just if they are at most 2 ^ 64, and zero is among its first `n` numbers just if the
count wraps around before the last of them. -/
theorem numbers_come_round :
    Function.Bijective scramble ∧ scramble 0 = 0 ∧ ∀ (seed : UInt64) (n : Nat),
      (∀ m : Nat, (((startingAt seed).take m).2.take n).1.Nodup ↔ n ≤ 2 ^ 64) ∧
      (⟨0⟩ ∈ ((startingAt seed).take n).1 ↔ 2 ^ 64 < max 1 seed.toNat + n) :=
  ⟨scramble_bijective, scramble_zero, fun seed n =>
    ⟨fun m => nodup_take_iff ((startingAt seed).take m).2, zero_mem_startingAt seed n⟩⟩

end Allocator

end BarArchive
