/-
The data sources that the broker knows.

Sources are named by the slot they were given in, since two of them may have one name:
of those that offer historical bars, the last one of a name is the one that requests
reach. Continuous futures have a source of their own.
-/
import BarArchive.Market.Error
import BarArchive.Source.RateLimiter

namespace BarArchive

/-- What the broker sees of a source. -/
structure Source where
  id : SourceId
  capabilities : Capabilities := .historicalOnly
  pacing : Pacing := {}
  connected : Bool := true
deriving DecidableEq

/-- The place of a source: in the order given, or as the resolver of continuous futures. -/
inductive Slot where
  | listed (n : Nat)
  | resolver
deriving DecidableEq, Repr

/-- The sources in their slots. -/
structure Registry where
  sources : List Source := []
  resolver : Option Source := none
deriving DecidableEq

namespace Registry

/-- The source in a slot. -/
def find? (r : Registry) : Slot → Option Source
  | .listed n => r.sources[n]?
  | .resolver => r.resolver

/-- The slot of the last source with a name among `sources`, the first of which is in slot `n`. -/
def lastSlot? (id : SourceId) : (n : Nat) → (sources : List Source) → Option Nat
  | _, [] => none
  | n, s :: rest =>
    (lastSlot? id (n + 1) rest).orElse fun _ =>
      if s.capabilities.historical && s.id == id then some n else none

/-- The slot that requests for a source reach. -/
def slotOf? (r : Registry) (id : SourceId) : Option Nat := lastSlot? id 0 r.sources

/-- Whether requests can reach a slot. -/
def isRegistered (r : Registry) : Slot → Bool
  | .listed n =>
    match r.sources[n]? with
    | some s => r.slotOf? s.id == some n
    | none => false
  | .resolver => r.resolver.isSome

/-- The slots that requests can reach. -/
def slots (r : Registry) : List Slot :=
  (((List.range r.sources.length).map Slot.listed) ++ [Slot.resolver]).filter r.isRegistered

/-- Sets whether a source is connected. -/
def setConnected (r : Registry) (slot : Slot) (connected : Bool) : Registry :=
  match slot with
  | .listed n => { r with sources := r.sources.modify n fun s => { s with connected } }
  | .resolver => { r with resolver := r.resolver.map fun s => { s with connected } }

/-- The slot that a request is meant for. -/
def target (r : Registry) (request : Request) : Except MarketError Slot :=
  if request.instrument.isContinuousFuture then
    if r.resolver.isSome then .ok .resolver
    else .error (.unknownSource "continuous futures resolver")
  else match r.slotOf? request.instrument.datasource with
    | some n => .ok (.listed n)
    | none => .error (.unknownSource request.instrument.datasource)

/-- The slot that a request is sent to: its source must be connected and offer the frequency. -/
def resolve (r : Registry) (request : Request) : Except MarketError Slot := do
  let slot ← r.target request
  match r.find? slot with
  | none => .error (.unknownSource request.instrument.datasource)
  | some s =>
    if !s.connected then .error (.notConnected s.id)
    else if !s.capabilities.supports request.frequency then
      .error (.unsupportedFrequency s.id request.frequency)
    else .ok slot

/-- Name and state of every source that requests can reach, sorted. -/
def statuses (r : Registry) : List (SourceId × Bool) :=
  (r.slots.filterMap fun slot => (r.find? slot).map fun s => (s.id, s.connected)).mergeSort
    fun a b => a.1 < b.1 || (a.1 == b.1 && a.2 ≤ b.2)

/-- The limits of all sources that requests can reach. -/
def limiter (r : Registry) : RateLimiter :=
  (r.slots.filterMap r.find?).foldl (fun l s => l.configure s.id s.pacing) {}

end Registry

end BarArchive
