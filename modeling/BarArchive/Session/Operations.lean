/-
What can be done in a session.

Calls take no time of their own: whatever they start is done while time passes, or
while somebody waits.
-/
import BarArchive.Session.Run

namespace BarArchive

namespace Session

/-- A session at its beginning. -/
def begin (epoch : Instant) (registry : Registry) (scripts : Table Slot Script) : Session :=
  { epoch, scripts, broker := { registry }, limiter := registry.limiter }

/-! ### Requests -/

/-- The handle of an accepted request, with its numbers. -/
structure Handle where
  place : Nat
  requestId : UInt32
  assignedId : AssignedId
deriving DecidableEq

/-- Submits a request. -/
def submit (s : Session) (r : Request) : Session × Except SubmitFailure Handle :=
  match s.broker.submit s.instant r with
  | .error e => (s, .error e)
  | .ok (accepted, broker) =>
    let handle := ⟨s.handles.length, accepted.requestId, accepted.assignedId⟩
    ({ s with broker, handles := s.handles ++ [some accepted.assignedId] }.start accepted, .ok handle)

/-- The request that a handle stands for, unless its answer was taken or given up. -/
def pending? (s : Session) (place : Nat) : Option AssignedId := s.handles[place]?.join

/-- The answer to a request, if it is there. -/
def result? (s : Session) (id : AssignedId) : Option (Except BrokerError Reply) :=
  (s.channels.find? id).bind (·.result)

/-- Forgets a handle, and the answer it stands for. -/
def drop (s : Session) (place : Nat) : Session :=
  match s.pending? place with
  | none => s
  | some id => { s with handles := s.handles.set place none, channels := s.channels.erase id }

/-- Takes the answer to a request, if it is there. -/
def take (s : Session) (place : Nat) (id : AssignedId) : Session × Option (Except BrokerError Reply) :=
  match s.result? id with
  | none => (s, none)
  | some result => (s.drop place, some result)

/-- How long to wait for an answer. -/
def patience : Nat := 3600000 * millisecond

/-- Waits for the answer to a request and takes it. -/
def wait (s : Session) (place : Nat) (id : AssignedId) : Session × Option (Except BrokerError Reply) :=
  let limit := s.now + patience
  let isThere := fun s : Session => (s.result? id).isSome
  if isThere s then s.take place id
  else
    let s := s.passUntil (limit - 1) isThere
    if isThere s then s.take place id else (s.reach limit, none)

/-- Stores bars that nobody asked for. -/
def addData (s : Session) (a : Addition) : Session × Except AddFailure (Except BrokerError Nat) :=
  let (broker, result) := s.broker.addData a
  ({ s with broker }, result)

/-- Sets which calls of the store are refused from now on. -/
def refuse (s : Session) (refusals : Refusals) : Session :=
  { s with broker := { s.broker with cache := { s.broker.cache with refusals } } }

/-- Gives up the broker. -/
def dropBroker (s : Session) : Session := { s with isHeld := false }.release

/-! ### Sources -/

/-- Starts to connect sources again and again, beside what was started before. -/
def startReconnecting (s : Session) (period : Nat) : Session :=
  let (s, task) := s.spawn (.reconnect period none)
  { s with reconnectTask := some task }

/-- Stops what was started last, and lets everything happen that can. -/
def stopReconnecting (s : Session) : Session :=
  match s.reconnectTask with
  | none => s
  | some task => ({ s with reconnectTask := none }.finish task).settle

/-- What a source was asked since this was last called. -/
def takeCalls (s : Session) (slot : Slot) : Session × List Request :=
  let script := s.script slot
  ({ s with scripts := s.scripts.insert slot { script with calls := [] } }, script.calls.reverse)

/-! ### The simulator -/

/-- Starts the simulator. -/
def startSimulator (s : Session) : Session :=
  let (s, task) := s.spawn .replay
  { s with hasSimulator := true, replayTask := some task }

/-- Subscribes to a replay. -/
def subscribe (s : Session) (r : Subscription) : Session × Except SubmitFailure SubscriberState :=
  match s.simulator.subscribe s.broker s.instant s.now r with
  | .error e => (s, .error e)
  | .ok (simulator, broker, joined) =>
    let wasActive := s.simulator.schedule.isActive r.frequency
    let s := { s with simulator, broker }
    match joined.fetch, (Simulator.fetchFor r).key? with
    | some accepted, some key =>
      let s := s.start accepted
      let s := if wasActive then s else s.replayTask.elim s s.wake
      ((s.spawn (.awaitFill key accepted.assignedId)).1, .ok joined.state)
    | _, _ => (s, .ok joined.state)

/-- Ends a subscription. -/
def cancel (s : Session) (id : UInt32) : Session × Bool :=
  let (simulator, found) := s.simulator.cancel id
  ({ s with simulator }, found)

/-- Ends the replay. -/
def stopReplay (s : Session) : Session :=
  match s.replayTask with
  | none => s
  | some task => { s with replayTask := none }.wake task

/-- Shuts the simulator down, and waits until its replay has ended. -/
def shutDown (s : Session) : Session :=
  let s := if s.replayTask.isSome then s.stopReplay.settle else s
  { s with simulator := s.simulator.shutDown }

/-- Gives up the simulator. -/
def dropSimulator (s : Session) : Session := { s.stopReplay with hasSimulator := false }.release

/-- The events since this was last called, with the milliseconds at which they were published. -/
def takeEvents (s : Session) : Session × List (Nat × Event) :=
  ({ s with events := [] }, s.events.reverse.map fun e => (e.1 / millisecond, e.2))

end Session

end BarArchive
