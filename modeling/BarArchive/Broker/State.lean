/-
The broker: every step that it takes.

A request is accepted or turned down at once; if accepted, it leaves work behind, which
is done later and in any order: fetching bars from a source, or reading them from the
store. Each piece of work that gets done is a step, and the step that completes a
request answers it. Steps that concern a request no longer in the table change nothing
there, which is how late parts of a failed request end.
-/
import BarArchive.Broker.Cache
import BarArchive.Broker.Identifiers
import BarArchive.Broker.Inflight
import BarArchive.Broker.Route
import BarArchive.Source.Registry

namespace BarArchive

/-- The bars that answer a request. -/
structure Reply where
  request : Request
  bars : List Bar
deriving DecidableEq

/-- What is left to do for a request that was accepted. -/
inductive Work where
  | fetch (slot : Slot) (requests : List Request)
  | serve (id : AssignedId)
deriving DecidableEq

/-- A request that was accepted. -/
structure Accepted where
  requestId : UInt32
  assignedId : AssignedId
  work : Work
deriving DecidableEq

/-- Why a request is not accepted: it is turned down, or its gaps would leave the calendar. -/
inductive SubmitFailure where
  | refused (cause : BrokerError)
  | outsideCalendar
deriving DecidableEq

/-- What a step lets others know. -/
inductive Outcome where
  | silent
  | answer (id : AssignedId) (result : Except BrokerError Reply)
  | violation (cause : BrokerError)
  | overflow

/-- The store, the table of requests, the next number to give out and the sources. -/
structure Broker where
  cache : Cache := {}
  inflight : Inflight := {}
  ids : Allocator := .fresh
  registry : Registry := {}

namespace Broker

/-! ### Accepting requests -/

/-- The key of a request that can be routed: it has one, and its range is not upside down. -/
def validate (r : Request) : Except SubmitFailure SeriesKey :=
  match r.key? with
  | none => .error (.refused (.routing ("instrument " ++ r.instrument.symbol ++ " has no id")))
  | some k =>
    if r.stop < r.start then
      .error (.refused (.routing
        ("start " ++ Instant.toText r.start ++ " is after end " ++ Instant.toText r.stop)))
    else .ok k

/-- The route of a request; the store is asked only if the answer matters. -/
def route (b : Broker) (now : Instant) (k : SeriesKey) (r : Request) : Except SubmitFailure Route :=
  if r.forceFresh || r.localOnly then .ok (Route.plan r none now)
  else match b.cache.coverage k with
    | .error e => .error (.refused (.store e))
    | .ok coverage =>
      match Route.plan? r coverage now with
      | some route => .ok route
      | none => .error .outsideCalendar

/-- The slot that a route leads to, unless it leads to the store. -/
def slotFor (b : Broker) (r : Request) : Route → Except SubmitFailure (Option Slot)
  | .stored => .ok none
  | _ =>
    match b.registry.resolve r with
    | .ok slot => .ok (some slot)
    | .error e => .error (.refused (.routing e.message))

/-- A part for each gap, numbered from the allocator on. -/
def partsFor (r : Request) : List Gap → Allocator → List Request × Allocator
  | [], ids => ([], ids)
  | g :: gaps, ids =>
    let (id, ids) := ids.next
    let (parts, ids) := partsFor r gaps ids
    (r.part g.start g.stop id :: parts, ids)

/-- Files a request that has a route, and says what is left to do. -/
def accept (b : Broker) (r : Request) (route : Route) (slot : Option Slot) : Accepted × Broker :=
  let (id, ids) := b.ids.next
  let r := { r with assignedId := some id, parentId := none }
  let inflight := b.inflight.insertRequest id r
  match route, slot with
  | .split gaps, some slot =>
    let (parts, ids) := partsFor r gaps ids
    let inflight := inflight.insertParts id (parts.filterMap (·.assignedId))
    (⟨r.requestId, id, .fetch slot parts⟩, { b with ids, inflight })
  | .external, some slot => (⟨r.requestId, id, .fetch slot [r]⟩, { b with ids, inflight })
  | _, _ => (⟨r.requestId, id, .serve id⟩, { b with ids, inflight })

/-- Accepts a request, or turns it down and changes nothing. -/
def submit (b : Broker) (now : Instant) (r : Request) : Except SubmitFailure (Accepted × Broker) := do
  let k ← validate r
  let route ← b.route now k r
  let slot ← b.slotFor r route
  return b.accept r route slot

/-! ### Answering -/

/-- The bars of an answer: outside regular hours they are left out if the request says so. -/
def presented (r : Request) (bars : List Bar) : List Bar :=
  if r.regularHoursOnly && r.frequency.isIntraday then bars.filter fun b => r.instrument.isRegular b.time
  else bars

/-- The answer to a request that was taken out of the table. -/
def answer (id : AssignedId) (w : Waiting) (result : Except BrokerError (List Bar)) : Outcome :=
  .answer id (result.map fun bars => ⟨w.request, presented w.request bars⟩)

/-- Takes a request out of the table and answers it, if it is there. -/
def finish (b : Broker) (id : AssignedId) (result : Except BrokerError (List Bar)) : Broker × Outcome :=
  match b.inflight.take? id with
  | some (w, inflight) => ({ b with inflight }, answer id w result)
  | none => (b, .silent)

/-- Answers a request with an error because a part of it failed. -/
def abort (b : Broker) (parent failed : AssignedId) (e : BrokerError) : Broker × Outcome :=
  match b.inflight.abort? parent failed with
  | some (w, inflight) => ({ b with inflight }, answer parent w (.error e))
  | none => (b, .silent)

/-- What the store says, as the broker passes it on. -/
def stored (b : Broker) (r : Request) : Except BrokerError (List Bar) :=
  match b.cache.query r with
  | .ok bars => .ok bars
  | .error e => .error (.store e)

/-- Answers a request from the store. -/
def serve (b : Broker) (id : AssignedId) : Broker × Outcome :=
  match b.inflight.take? id with
  | some (w, inflight) => ({ b with inflight }, answer id w (b.stored w.request))
  | none => (b, .silent)

/-! ### Bars from a source -/

/-- Stores the bars that came for a request; no bars need no store. -/
def keep (b : Broker) (r : Request) (bars : List Bar) : Broker × Except AddFailure Nat :=
  if bars.isEmpty then (b, .ok 0)
  else
    let (cache, result) := b.cache.add bars r.instrument r.frequency true
    ({ b with cache }, result)

/-- The bars of a whole range came. -/
def arrive (b : Broker) (id : AssignedId) (r : Request) (bars : List Bar) : Broker × Outcome :=
  if !b.inflight.contains id then (b, .silent)
  else if !r.save then b.finish id (.ok bars)
  else match b.keep r bars with
    | (b, .ok _) => b.finish id (.ok bars)
    | (b, .error (.refused e)) => b.finish id (.error (.store e))
    | (b, .error .overflow) => (b, .overflow)

/-- Stored bars with fresh ones of the same range over them. -/
def merge (stored fresh : List Bar) (r : Request) : List Bar :=
  ((Series.group r.frequency stored).overlay
    (Series.group r.frequency (fresh.filter fun b => r.start ≤ b.time && b.time ≤ r.stop))).bars

/-- A part is there; if it was the last one, its request is answered. -/
def completePart (b : Broker) (parent child : AssignedId) : Broker × Outcome :=
  match b.inflight.complete parent child with
  | (none, inflight) => ({ b with inflight }, .silent)
  | (some w, inflight) =>
    ({ b with inflight }, answer parent w ((b.stored w.request).map fun bars =>
      if w.stash.isEmpty then bars else merge bars w.stash w.request))

/-- The bars of a part came. -/
def arrivePart (b : Broker) (parent child : AssignedId) (r : Request) (bars : List Bar) :
    Broker × Outcome :=
  match b.inflight.retire? parent child with
  | some inflight => ({ b with inflight }, .silent)
  | none =>
    if !b.inflight.contains parent then (b, .violation (.unknownParent parent child))
    else if !r.save then
      { b with inflight := b.inflight.addToStash parent bars }.completePart parent child
    else match b.keep r bars with
      | (b, .ok _) => b.completePart parent child
      | (b, .error (.refused e)) => b.abort parent child (.store e)
      | (b, .error .overflow) => (b, .overflow)

/-- A fetch failed. -/
def fail (b : Broker) (id : AssignedId) (parent : Option AssignedId) (e : MarketError) :
    Broker × Outcome :=
  match parent with
  | none => b.finish id (.error (.source e))
  | some parent =>
    match b.inflight.retire? parent id with
    | some inflight => ({ b with inflight }, .silent)
    | none => b.abort parent id (.source e)

/-- A source has answered the request it was sent. -/
def deliver (b : Broker) (r : Request) (result : Except MarketError (List Bar)) : Broker × Outcome :=
  match r.assignedId, result with
  | none, .ok _ =>
    (b, .violation (.routing "source replied to a request without an assigned id"))
  | none, .error _ => (b, .silent)
  | some id, .error e => b.fail id r.parentId e
  | some id, .ok bars =>
    match r.parentId with
    | none => b.arrive id r bars
    | some parent => b.arrivePart parent id r bars

/-! ### Bars from elsewhere -/

/-- Stores bars that nobody asked for, and says how many were written. -/
def addData (b : Broker) (a : Addition) : Broker × Except AddFailure (Except BrokerError Nat) :=
  match a.instrument.id with
  | none => (b, .ok (.error (.routing ("instrument " ++ a.instrument.symbol ++ " has no id"))))
  | some _ =>
    if a.bars.isEmpty then (b, .ok (.ok 0))
    else
      let (cache, result) := b.cache.add a.bars a.instrument a.frequency a.overwrite
      match result with
      | .ok n => ({ b with cache }, .ok (.ok n))
      | .error (.refused e) => ({ b with cache }, .ok (.error (.store e)))
      | .error .overflow => ({ b with cache }, .error .overflow)

/-- The first and the last instant with bars under a key. -/
def coverage (b : Broker) (k : SeriesKey) : Except BrokerError (Option Coverage) :=
  match b.cache.coverage k with
  | .ok c => .ok c
  | .error e => .error (.store e)

end Broker

end BarArchive
