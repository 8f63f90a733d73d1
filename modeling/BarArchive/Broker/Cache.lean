/-
The broker's store, any call of which may be refused.

A refusal stands for a disk that is full or gone: it is an answer like any other, and
nothing is read or written. Refusals come and go independently of what is stored.
-/
import BarArchive.Store

namespace BarArchive

/-- The calls that are refused, with the reason given. -/
structure Refusals where
  coverage : Option String := none
  query : Option String := none
  add : Option String := none
deriving DecidableEq

/-- A store and the refusals in force. -/
structure Cache where
  store : Store := .empty
  refusals : Refusals := {}

namespace Cache

/-- The first and the last instant with bars under a key. -/
def coverage (c : Cache) (k : SeriesKey) : Except StoreError (Option Coverage) :=
  match c.refusals.coverage with
  | some reason => .error (.read reason)
  | none => .ok (c.store.coverage k)

/-- The bars that a request asks for. -/
def query (c : Cache) (r : Request) : Except StoreError (List Bar) :=
  match c.refusals.query with
  | some reason => .error (.read reason)
  | none => c.store.query r.instrument r.start r.stop r.frequency

/-- Adds bars; adjusted prices are computed anew when a corporate action is among them. -/
def add (c : Cache) (bars : List Bar) (i : Instrument) (f : Frequency) (overwrite : Bool) :
    Cache × Except AddFailure Nat :=
  match c.refusals.add with
  | some reason => (c, .error (.refused (.write reason)))
  | none =>
    let (store, result) := c.store.add bars i f overwrite (bars.any Bar.hasAction)
    ({ c with store }, result)

end Cache

end BarArchive
