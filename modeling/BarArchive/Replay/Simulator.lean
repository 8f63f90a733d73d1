/-
The simulator: stored bars streamed as if they were happening.

Subscribers of one series share a feed, which is one fetch and one cadence; each has a
position of its own in the bars that the fetch brings. Every firing of a frequency
gives each of its streaming subscribers one event: the next bar, or the news that
there are no more, with which the subscriber leaves. A feed lives as long as it has
subscribers, and a frequency fires as long as it has feeds.
-/
import BarArchive.Broker.State
import BarArchive.Replay.Schedule

namespace BarArchive

/-- How far a subscriber has come. -/
inductive SubscriberState where
  | awaitingFill
  | streaming
deriving DecidableEq, Repr

/-- The name of a state in answers. -/
def SubscriberState.name : SubscriberState → String
  | awaitingFill => "AwaitingHistoricalFill"
  | streaming => "Streaming"

/-- One reader of a feed: its state and the place of its next bar. -/
structure Subscriber where
  state : SubscriberState
  position : Nat := 0
deriving DecidableEq, Repr

/-- The bars of one series for all its subscribers; there are none until the fetch is answered. -/
structure Feed where
  fetch : AssignedId
  bars : Option (List Bar) := none
  subscribers : Table UInt32 Subscriber := .empty

/-- A request to have a range replayed. -/
structure Subscription where
  instrument : Instrument
  frequency : Frequency
  start : Instant
  stop : Instant
  requestId : UInt32
deriving DecidableEq

/-- What a subscriber is told. -/
inductive News where
  | bar (b : Bar)
  | exhausted
  | failed (message : String)
deriving DecidableEq

/-- Something that a subscriber is told. -/
structure Event where
  requestId : UInt32
  news : News
deriving DecidableEq

/-! ### One feed -/

/-- A new subscriber of a feed, which streams at once if the feed has its bars. -/
def Feed.newcomer (feed : Feed) : Subscriber :=
  ⟨if feed.bars.isSome then .streaming else .awaitingFill, 0⟩

/-- All subscribers of a feed stream from now on. -/
def Feed.fill (feed : Feed) (bars : List Bar) : Feed :=
  { feed with
    bars := some bars
    subscribers := ⟨feed.subscribers.entries.map fun e => (e.1, { e.2 with state := .streaming })⟩ }

/-- The next event of a subscriber, and the subscriber after it. -/
def Subscriber.next (x : Subscriber) (bars : List Bar) : Option (News × Subscriber) :=
  match x.state with
  | .awaitingFill => none
  | .streaming =>
    match bars[x.position]? with
    | some b => some (.bar b, { x with position := x.position + 1 })
    | none => some (.exhausted, x)

/-- The events of a feed's subscribers at one firing. -/
def Feed.news (feed : Feed) : List Event :=
  match feed.bars with
  | none => []
  | some bars =>
    feed.subscribers.entries.filterMap fun e => (e.2.next bars).map fun n => ⟨e.1, n.1⟩

/-- The feed after one firing. -/
def Feed.advanced (feed : Feed) : Feed :=
  match feed.bars with
  | none => feed
  | some bars =>
    { feed with
      subscribers := ⟨feed.subscribers.entries.map fun e =>
        (e.1, ((e.2.next bars).map (·.2)).getD e.2)⟩ }

/-- The feeds, the key that each request id subscribes to, and the schedule. -/
structure Simulator where
  feeds : Table SeriesKey Feed := .empty
  index : Table UInt32 SeriesKey := .empty
  schedule : Schedule := {}
  isShutDown : Bool := false

namespace Simulator

/-- The state of a subscriber, if there is one with this request id. -/
def state? (s : Simulator) (id : UInt32) : Option SubscriberState := do
  let k ← s.index.find? id
  let feed ← s.feeds.find? k
  let subscriber ← feed.subscribers.find? id
  return subscriber.state

/-- The frequencies that fire. -/
def replaying (s : Simulator) : List Frequency := Frequency.all.filter s.schedule.isActive

/-! ### Leaving -/

/-- Whether a frequency has feeds. -/
def isUsed (s : Simulator) (f : Frequency) : Bool := s.feeds.keys.any fun k => k.frequency == f

/-- Removes the feed of a key if nobody reads it, and stops its frequency if it was the last. -/
def removeIfEmpty (s : Simulator) (k : SeriesKey) : Simulator :=
  let s := match s.feeds.find? k with
    | some feed => if feed.subscribers.isEmpty then { s with feeds := s.feeds.erase k } else s
    | none => s
  if s.isUsed k.frequency then s else { s with schedule := (s.schedule.deactivate k.frequency).1 }

/-- Removes a subscriber of a key. -/
def remove (s : Simulator) (k : SeriesKey) (id : UInt32) : Simulator :=
  { s with
    feeds := s.feeds.modify k fun feed => { feed with subscribers := feed.subscribers.erase id }
    index := s.index.erase id }.removeIfEmpty k

/-- Removes a subscriber; says whether there was one. -/
def cancel (s : Simulator) (id : UInt32) : Simulator × Bool :=
  match s.index.find? id with
  | some k => (s.remove k id, true)
  | none => (s, false)

/-- Ends all replay for good. -/
def shutDown (s : Simulator) : Simulator :=
  { feeds := .empty, index := .empty, schedule := s.schedule.clear, isShutDown := true }

/-! ### Joining -/

/-- The request that fetches what is to be replayed. -/
def fetchFor (r : Subscription) : Request :=
  { instrument := r.instrument, frequency := r.frequency, start := r.start, stop := r.stop,
    requestId := r.requestId }

/-- What a subscription comes to: its state, and the fetch that it caused. -/
structure Joined where
  state : SubscriberState
  fetch : Option Accepted := none

/-- Lets a subscriber join a feed that is there. -/
def join (s : Simulator) (k : SeriesKey) (feed : Feed) (id : UInt32) : Simulator × Joined :=
  let subscriber := feed.newcomer
  ({ s with
    feeds := s.feeds.insert k { feed with subscribers := feed.subscribers.insert id subscriber }
    index := s.index.insert id k }, { state := subscriber.state })

/-- Starts a feed with its first subscriber. -/
def found (s : Simulator) (k : SeriesKey) (a : Accepted) (clock : Nat) (id : UInt32) :
    Simulator × Joined :=
  let subscribers := Table.empty.insert id { state := .awaitingFill }
  ({ s with
    feeds := s.feeds.insert k { fetch := a.assignedId, subscribers }
    index := s.index.insert id k
    schedule := (s.schedule.activate k.frequency clock).1 }, { state := .awaitingFill, fetch := some a })

/-- Takes a subscription, or turns it down and changes nothing. -/
def subscribe (s : Simulator) (b : Broker) (now : Instant) (clock : Nat) (r : Subscription) :
    Except SubmitFailure (Simulator × Broker × Joined) := do
  if s.isShutDown then .error (.refused (.routing "simulator is shut down"))
  else match (fetchFor r).key? with
    | none => .error (.refused (.routing ("instrument " ++ r.instrument.symbol ++ " has no id")))
    | some k =>
      if s.index.contains r.requestId then
        .error (.refused (.routing ("subscription " ++ r.requestId.toNat.repr ++ " already exists")))
      else match s.feeds.find? k with
        | some feed =>
          let (s, joined) := s.join k feed r.requestId
          return (s, b, joined)
        | none =>
          let (accepted, b) ← b.submit now (fetchFor r)
          let (s, joined) := s.found k accepted clock r.requestId
          return (s, b, joined)

/-! ### Filling -/

/-- A feed's fetch failed: its subscribers are told and leave. -/
def dismiss (s : Simulator) (k : SeriesKey) (feed : Feed) (message : String) :
    Simulator × List Event :=
  let ids := feed.subscribers.keys
  let s := { s with
    feeds := s.feeds.insert k { feed with subscribers := .empty }
    index := ids.foldl Table.erase s.index }
  (s.removeIfEmpty k, ids.map fun id => ⟨id, .failed message⟩)

/-- A fetch was answered; only the feed that asked for it takes notice. -/
def fill (s : Simulator) (k : SeriesKey) (fetch : AssignedId) (result : Except BrokerError Reply) :
    Simulator × List Event :=
  match s.feeds.find? k with
  | none => (s, [])
  | some feed =>
    if feed.fetch ≠ fetch then (s, [])
    else match result with
      | .ok reply => ({ s with feeds := s.feeds.insert k (feed.fill reply.bars) }, [])
      | .error e => s.dismiss k feed e.message

/-! ### Firing -/

/-- The feeds after one firing of a frequency, while those who leave are still there. -/
def advance (s : Simulator) (f : Frequency) : Simulator :=
  { s with
    feeds := ⟨s.feeds.entries.map fun e =>
      (e.1, if e.1.frequency == f then e.2.advanced else e.2)⟩ }

/-- The events of one firing of a frequency, with the keys of their feeds. -/
def firing (s : Simulator) (f : Frequency) : List (SeriesKey × Event) :=
  s.feeds.entries.flatMap fun e =>
    if e.1.frequency == f then e.2.news.map fun event => (e.1, event) else []

/-- One firing of a frequency: every streaming subscriber gets one event, bars before farewells. -/
def tick (s : Simulator) (f : Frequency) : Simulator × List Event :=
  let (leaving, staying) := (s.firing f).partition fun e => e.2.news == .exhausted
  (leaving.foldl (fun s e => s.remove e.1 e.2.requestId) (s.advance f),
    (staying ++ leaving).map (·.2))

end Simulator

end BarArchive
