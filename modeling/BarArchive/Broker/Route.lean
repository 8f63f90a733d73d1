/-
Where a request is answered from.

The route follows from the request, from what is stored and from the current time
alone. A stored range is extended only at its ends: the gaps are what the request asks
for beyond them, half a bar further out, so that the bars at the ends are not fetched
again.
-/
import BarArchive.Market.Request

namespace BarArchive

/-- Which end of the stored range a gap lies beyond. -/
inductive Side where
  | backfill
  | forwardFill
deriving DecidableEq, Repr

/-- A range that the store lacks. -/
structure Gap where
  side : Side
  start : Instant
  stop : Instant
deriving DecidableEq, Repr

/-- Where a request is answered from. -/
inductive Route where
  | stored
  | external
  | split (gaps : List Gap)
deriving DecidableEq, Repr

namespace Route

/-- Whether an expired instrument has no bars after those that are stored. -/
def isComplete (r : Request) (c : Coverage) (now : Instant) : Bool :=
  match r.instrument.expiration with
  | some expiration => expiration ≤ now && c.reaches expiration
  | none => false

/-- The gap before the stored range, unless it is narrower than half a bar. -/
def backfill? (r : Request) (c : Coverage) : Option Gap :=
  let stop := c.earliest - r.frequency.halfBar
  if r.start < c.earliest ∧ r.start ≤ stop then some ⟨.backfill, r.start, stop⟩ else none

/-- The gap after the stored range, unless it is narrower than half a bar. -/
def forwardFill? (r : Request) (c : Coverage) (now : Instant) : Option Gap :=
  let start := c.latest + r.frequency.halfBar
  if c.latest < r.stop ∧ !isComplete r c now ∧ start ≤ r.stop then
    some ⟨.forwardFill, start, r.stop⟩
  else none

/-- Whether a request that is not told where to go lacks bars at an end of the stored range. -/
def needsGaps (r : Request) (c : Coverage) : Bool :=
  r.instrument.allowsPartialFill && !c.contains r.start r.stop

/--
The route of a request.

Fresh data always comes from outside and local data never does. Without stored bars,
or when bars must not be joined, the whole range is fetched. A range that is stored is
not fetched at all, and otherwise the gaps are.
-/
def plan (r : Request) (coverage : Option Coverage) (now : Instant) : Route :=
  if r.forceFresh then .external
  else if r.localOnly then .stored
  else match coverage with
    | none => .external
    | some c =>
      if !r.instrument.allowsPartialFill then .external
      else if c.contains r.start r.stop then .stored
      else match (backfill? r c).toList ++ (forwardFill? r c now).toList with
        | [] => .stored
        | gaps => .split gaps

/-- The instants next to the stored range that a plan looks at, where a request goes beyond it. -/
def brinks (r : Request) (c : Coverage) (now : Instant) : List Instant :=
  (if r.start < c.earliest then [c.earliest - r.frequency.halfBar] else [])
    ++ (if c.latest < r.stop ∧ !isComplete r c now then [c.latest + r.frequency.halfBar] else [])

/-- Whether a plan can be made: everything that it looks at must be in the calendar. -/
def canPlan (r : Request) (coverage : Option Coverage) (now : Instant) : Bool :=
  r.forceFresh || r.localOnly || coverage.all fun c =>
    !needsGaps r c || (brinks r c now).all Instant.inCalendar

/-- The route of a request, if a plan can be made. -/
def plan? (r : Request) (coverage : Option Coverage) (now : Instant) : Option Route :=
  if canPlan r coverage now then some (plan r coverage now) else none

end Route

end BarArchive
