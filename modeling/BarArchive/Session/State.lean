/-
Sessions: a broker and a simulator with scripted sources, under a clock of their own.

All work is done by tasks, one at a time, in the order in which they became ready. A
task that has to wait leaves a timer behind or is woken by the answer it waits for.
Time passes only when no task is ready. Nothing here is left to chance, so a session
is a function of the calls made to it.

The broker lives as long as somebody holds it: whoever started the session, the
simulator, or a task that works for the broker. When the last of them is gone, requests
that are still unanswered are dropped.
-/
import BarArchive.Replay.Simulator
import BarArchive.Session.Script

namespace BarArchive

/-- The nanoseconds of a millisecond. -/
def millisecond : Nat := 1000000

/-- A fetch: the request, and the rule that it waits on once it has begun. -/
structure Fetch where
  request : Request
  rule : Option Rule := none

/-- The fetches of one accepted request: those that still have to be let through, and the others. -/
structure Batch where
  slot : Slot
  unpaced : List Request
  fetches : Table Nat Fetch := .empty
  ready : List Nat := []
  count : Nat := 0

namespace Batch

/-- The batch with one more fetch, ready to begin. -/
def push (b : Batch) (r : Request) : Batch :=
  { b with
    fetches := b.fetches.insert b.count { request := r }
    ready := b.ready ++ [b.count]
    count := b.count + 1 }

/-- The batch without a fetch. -/
def drop (b : Batch) (n : Nat) : Batch := { b with fetches := b.fetches.erase n }

/-- The batch with a fetch that has begun and waits for its source. -/
def await (b : Batch) (n : Nat) (r : Request) (rule : Rule) : Batch :=
  { b with fetches := b.fetches.insert n { request := r, rule := some rule } }

end Batch

/-- What tasks do. -/
inductive Task where
  | fetch (b : Batch)
  | serve (id : AssignedId)
  | reconnect (period : Nat) (due : Option Nat)
  | awaitFill (key : SeriesKey) (fetch : AssignedId)
  | replay

/-- Whether a task holds the broker. -/
def Task.holdsBroker : Task → Bool
  | .fetch _ | .serve _ | .reconnect .. => true
  | .awaitFill .. | .replay => false

/-- A task to be woken at a deadline, and the fetch of it that goes on then. -/
structure Timer where
  deadline : Nat
  task : Nat
  fetch : Option Nat := none
deriving DecidableEq

/-- Where the answer to an accepted request goes. -/
structure Channel where
  requestId : UInt32
  result : Option (Except BrokerError Reply) := none
  waiter : Option Nat := none

/--
The whole state of a session.

`now` is what the clock shows and `seen` what it showed when timers were last looked at; a
deadline that has come since then is not noticed yet.
-/
structure Session where
  epoch : Instant
  now : Nat := 0
  seen : Nat := 0
  broker : Broker
  scripts : Table Slot Script := .empty
  limiter : RateLimiter := {}
  tasks : Table Nat Task := .empty
  taskCount : Nat := 0
  ready : List Nat := []
  timers : List Timer := []
  channels : Table AssignedId Channel := .empty
  handles : List (Option AssignedId) := []
  simulator : Simulator := {}
  events : List (Nat × Event) := []
  replayTask : Option Nat := none
  reconnectTask : Option Nat := none
  isHeld : Bool := true
  hasSimulator : Bool := false

namespace Session

/-- The instant that the clock shows. -/
def instant (s : Session) : Instant := s.epoch + s.now

/-! ### Tasks and timers -/

/-- Makes a task ready, unless it is. -/
def wake (s : Session) (task : Nat) : Session :=
  if s.ready.contains task || !s.tasks.contains task then s
  else { s with ready := s.ready ++ [task] }

/-- Starts a task. -/
def spawn (s : Session) (t : Task) : Session × Nat :=
  ({ s with
    tasks := s.tasks.insert s.taskCount t
    taskCount := s.taskCount + 1
    ready := s.ready ++ [s.taskCount] }, s.taskCount)

/-- Leaves a timer behind. -/
def sleep (s : Session) (t : Timer) : Session := { s with timers := s.timers ++ [t] }

/-- Keeps a task for later. -/
def suspend (s : Session) (task : Nat) (t : Task) : Session := { s with tasks := s.tasks.insert task t }

/-! ### Answers -/

/-- Puts an answer where it is waited for. -/
def resolve (s : Session) (id : AssignedId) (result : Except BrokerError Reply) : Session :=
  match s.channels.find? id with
  | none => s
  | some c =>
    let s := { s with channels := s.channels.insert id { c with result := some result, waiter := none } }
    match c.waiter with
    | some task => s.wake task
    | none => s

/-- Whether anybody holds the broker. -/
def holdsBroker (s : Session) : Bool :=
  s.isHeld || s.hasSimulator || s.tasks.values.any Task.holdsBroker

/-- Drops the requests that nobody will answer any more. -/
def release (s : Session) : Session :=
  if s.holdsBroker then s
  else s.channels.entries.foldl (fun s e =>
    match e.2.result with
    | none => s.resolve e.1 (.error (.replyDropped e.2.requestId))
    | some _ => s) s

/-- Ends a task, with its timers. -/
def finish (s : Session) (task : Nat) : Session :=
  { s with
    tasks := s.tasks.erase task
    timers := s.timers.filter fun t => t.task ≠ task }.release

/-- Publishes events; the latest come first. -/
def publish (s : Session) (events : List Event) : Session :=
  { s with events := (events.map fun e => (s.now, e)).reverse ++ s.events }

/-- Starts the work of an accepted request. -/
def start (s : Session) (a : Accepted) : Session :=
  let s := { s with channels := s.channels.insert a.assignedId { requestId := a.requestId } }
  match a.work with
  | .fetch slot requests => (s.spawn (.fetch { slot, unpaced := requests })).1
  | .serve id => (s.spawn (.serve id)).1

/-! ### Sources -/

/-- Sets whether a source is connected. -/
def setConnected (s : Session) (slot : Slot) (connected : Bool) : Session :=
  { s with broker := { s.broker with registry := s.broker.registry.setConnected slot connected } }

/-- Whether the source in a slot is connected. -/
def isConnected (s : Session) (slot : Slot) : Bool :=
  ((s.broker.registry.find? slot).map (·.connected)).getD false

/-- The script of a source. -/
def script (s : Session) (slot : Slot) : Script := (s.scripts.find? slot).getD {}

/-- Tries to connect one source and says whether that changed anything. -/
def connectSource (s : Session) (slot : Slot) : Session × Bool :=
  if s.isConnected slot then (s, false)
  else
    let (script, ok) := (s.script slot).connect
    let s := { s with scripts := s.scripts.insert slot script }
    if ok then (s.setConnected slot true, true) else (s, false)

/-- Tries to connect every source and says how many changed. -/
def connectSources (s : Session) : Session × Nat :=
  s.broker.registry.slots.foldl (fun (s, n) slot =>
    let (s, ok) := s.connectSource slot
    (s, if ok then n + 1 else n)) (s, 0)

/-- Disconnects every source. -/
def disconnectSources (s : Session) : Session :=
  s.broker.registry.slots.foldl (fun s slot => s.setConnected slot false) s

end Session

end BarArchive
