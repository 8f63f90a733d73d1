/-
The schedule of a replay: which frequency fires next.

Entries are queued by their deadline. Switching a frequency off leaves its entry in the
queue and only forgets its generation; an entry of a forgotten generation is stale and
is dropped when it comes to the front. Frequencies that fall behind fire once, however
many intervals have passed.
-/
import BarArchive.Market.Frequency
import BarArchive.Table

namespace BarArchive

/-- A frequency that fires at a deadline, unless its generation has passed. -/
structure Firing where
  deadline : Nat
  frequency : Frequency
  generation : Nat
deriving DecidableEq, Repr

namespace Firing

/-- Earlier deadlines come first, then shorter frequencies, then older generations. -/
def before (a b : Firing) : Bool :=
  a.deadline < b.deadline || (a.deadline == b.deadline &&
    (a.frequency.number < b.frequency.number || (a.frequency == b.frequency &&
      a.generation ≤ b.generation)))

end Firing

/-- The queue of firings and the generation of each frequency that is switched on. -/
structure Schedule where
  queue : List Firing := []
  active : Table Frequency Nat := .empty
  generation : Nat := 0

namespace Schedule

/-- The queue with one more firing, in its place. -/
def enqueue (e : Firing) : List Firing → List Firing
  | [] => [e]
  | x :: rest => if e.before x then e :: x :: rest else x :: enqueue e rest

/-- Whether a frequency is switched on. -/
def isActive (s : Schedule) (f : Frequency) : Bool := s.active.contains f

/-- Whether a firing counts. -/
def isCurrent (s : Schedule) (e : Firing) : Bool := s.active.find? e.frequency == some e.generation

/-- Switches a frequency on, to fire one interval after `now`; says whether it was off. -/
def activate (s : Schedule) (f : Frequency) (now : Nat) : Schedule × Bool :=
  if s.isActive f then (s, false)
  else
    let generation := s.generation + 1
    let queue := enqueue ⟨now + f.replayInterval, f, generation⟩ s.queue
    (⟨queue, s.active.insert f generation, generation⟩, true)

/-- Switches a frequency off; says whether it was on. -/
def deactivate (s : Schedule) (f : Frequency) : Schedule × Bool :=
  ({ s with active := s.active.erase f }, s.isActive f)

/-- Switches everything off. -/
def clear (s : Schedule) : Schedule := { s with queue := [], active := .empty }

/-- The schedule without stale firings in front, and the deadline of the first one that counts. -/
def nextDeadline (s : Schedule) : Schedule × Option Nat :=
  let queue := s.queue.dropWhile fun e => !s.isCurrent e
  ({ s with queue }, queue.head?.map (·.deadline))

/-- When a frequency that was due at `deadline` fires again. -/
def nextFiring (f : Frequency) (deadline now : Nat) : Nat :=
  let next := deadline + f.replayInterval
  if next ≤ now then now + f.replayInterval else next

/-- The frequencies that are due, in the order of their deadlines, each queued again. -/
def popDue (s : Schedule) (now : Nat) : Schedule × List Frequency :=
  let due := (s.queue.takeWhile fun e => e.deadline ≤ now).filter s.isCurrent
  let later := s.queue.dropWhile fun e => e.deadline ≤ now
  let queue := due.foldl (fun q e =>
    enqueue { e with deadline := nextFiring e.frequency e.deadline now } q) later
  ({ s with queue }, due.map (·.frequency))

/-! ### Which frequencies are on -/

theorem isActive_activate (s : Schedule) (f g : Frequency) (now : Nat) :
    (s.activate f now).1.isActive g = (decide (g = f) || s.isActive g) := by
  unfold activate
  by_cases hg : g = f
  · subst hg
    cases hactive : s.isActive g with
    | true => simp [hactive]
    | false => simp [isActive, Table.contains, Table.find?_insert]
  · split
    · simp [hg]
    · simp [isActive, Table.contains, Table.find?_insert, hg, Ne.symm hg]

theorem isActive_deactivate (s : Schedule) (f g : Frequency) :
    (s.deactivate f).1.isActive g = (decide (g ≠ f) && s.isActive g) := by
  by_cases hg : g = f
  · simp [deactivate, isActive, Table.contains, Table.find?_erase, hg]
  · simp [deactivate, isActive, Table.contains, Table.find?_erase, hg, Ne.symm hg]

theorem isActive_clear (s : Schedule) (f : Frequency) : s.clear.isActive f = false := rfl

theorem isActive_nextDeadline (s : Schedule) (f : Frequency) :
    s.nextDeadline.1.isActive f = s.isActive f := rfl

theorem isActive_popDue (s : Schedule) (now : Nat) (f : Frequency) :
    (s.popDue now).1.isActive f = s.isActive f := rfl

end Schedule

end BarArchive
