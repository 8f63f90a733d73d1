/-
The numbers that requests get.

A counter goes up by one and its value is scrambled, so that numbers given out one after the
other look unrelated. Scrambling is a chain of steps that can each be undone: xor with
the word's own upper bits, and multiplication by an odd number.
-/
import BarArchive.Market.Request

namespace BarArchive

/-- One step of scrambling: the word xor its own upper bits. -/
def xorShift (k : UInt64) (x : UInt64) : UInt64 := x ^^^ (x >>> k)

/-- The counter's value with its bits spread over the whole word. -/
def scramble (x : UInt64) : UInt64 :=
  let x := xorShift 30 x * 0xbf58476d1ce4e5b9
  let x := xorShift 27 x * 0x94d049bb133111eb
  xorShift 31 x

/-- The counter behind the numbers; it wraps around at 64 bits. -/
structure Allocator where
  counter : UInt64
deriving DecidableEq, Repr

namespace Allocator

/-- An allocator that starts at `seed`; zero is never a start. -/
def startingAt (seed : UInt64) : Allocator := ⟨max 1 seed⟩

/-- An allocator that starts at one. -/
def fresh : Allocator := startingAt 1

/-- The next number and the allocator after it. -/
def next (a : Allocator) : AssignedId × Allocator := (⟨scramble a.counter⟩, ⟨a.counter + 1⟩)

/-- The next `n` numbers and the allocator after them. -/
def take : Nat → Allocator → List AssignedId × Allocator
  | 0, a => ([], a)
  | n + 1, a =>
    let (id, a) := a.next
    let (ids, a) := take n a
    (id :: ids, a)

/-- How many numbers were given out, for a counter that started at one. -/
def issued (a : Allocator) : Nat := a.counter.toNat - 1

end Allocator

end BarArchive
