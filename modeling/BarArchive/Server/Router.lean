/-
The router: how answers find the connection that asked.

Every connection has a queue, and the router knows which queue belongs to which
identity. An identity that registers again gets a new queue; the old one keeps what is
in it and gets nothing more. No answer puts a message beyond the frame limit into a
queue: bars that are too long are replaced by the news of that, other answers are dropped.
-/
import BarArchive.Table
import BarArchive.Wire.Identity
import BarArchive.Wire.Message

namespace BarArchive

/-- The messages that wait to be written to a connection, and whether anybody still takes them. -/
structure Queue where
  messages : List Message := []
  isOpen : Bool := true
deriving DecidableEq

/-- How answers go out: the writer of the blocks that bars travel in, and the frame limit. -/
structure Outlet where
  encoder : Block.Encoder := .plain
  limit : Nat := Frame.defaultLimit

/-- The queues in the order of their making, and the one that belongs to each identity. -/
structure Router extends Outlet where
  writers : Table Identity Nat := .empty
  queues : List Queue := []

/-- What the reader of a queue finds. -/
inductive Received where
  | message (parts : Message)
  | empty
  | closed
deriving DecidableEq

namespace Router

/-! ### Connections -/

/-- A new queue for an identity, and its place. -/
def register (r : Router) (i : Identity) : Router × Nat :=
  ({ r with writers := r.writers.insert i r.queues.length, queues := r.queues ++ [{}] }, r.queues.length)

/-- Forgets an identity. -/
def unregister (r : Router) (i : Identity) : Router := { r with writers := r.writers.erase i }

/-- The number of identities that are known. -/
def connections (r : Router) : Nat := r.writers.size

/-- Whether the queue at a place belongs to an identity. -/
def isFed (r : Router) (place : Nat) : Bool := r.writers.values.contains place

/-- Nobody takes messages from a queue any more. -/
def dropQueue (r : Router) (place : Nat) : Router :=
  { r with queues := r.queues.modify place fun q => { q with isOpen := false } }

/-- Takes the next message from a queue. -/
def receive (r : Router) (place : Nat) : Router × Received :=
  match r.queues[place]? with
  | some { messages := m :: rest, .. } =>
    ({ r with queues := r.queues.modify place fun q => { q with messages := rest } }, .message m)
  | _ => (r, if r.isFed place then .empty else .closed)

/-- Takes all messages from a queue. -/
def receiveAll (r : Router) (place : Nat) : Router × List Message :=
  ({ r with queues := r.queues.modify place fun q => { q with messages := [] } },
    (r.queues[place]?.map (·.messages)).getD [])

/-! ### Messages -/

/-- The place of the queue that takes messages for an identity. -/
def openQueue? (r : Router) (i : Identity) : Option Nat :=
  (r.writers.find? i).filter fun place => (r.queues[place]?.map (·.isOpen)).getD false

/-- Puts a message into a queue. -/
def enqueue (r : Router) (place : Nat) (m : Message) : Router :=
  { r with queues := r.queues.modify place fun q => { q with messages := q.messages ++ [m] } }

/-- Sends a message to an identity; says whether anybody takes it. -/
def deliver (r : Router) (i : Identity) (m : Message) : Router × Bool :=
  match r.openQueue? i with
  | some place => (r.enqueue place m, true)
  | none => (r, false)

/-- Sends a message to the identity in front of it. -/
def send (r : Router) (routed : Message) : Router × Bool :=
  match Identity.split routed with
  | .ok (i, m) => r.deliver i m
  | .error _ => (r, false)

/-- The news that an answer of some size was too long. -/
def tooLong (limit size : Nat) (requestId : UInt32) : Response :=
  .failure requestId ("reply of " ++ size.repr ++ " bytes exceeds the " ++ limit.repr ++ " byte frame limit")

/-- The message that is sent for an answer, if there is one that can be sent. -/
def outgoing (o : Outlet) (a : Response) : Option Message :=
  match a.toParts o.encoder with
  | .error _ => none
  | .ok parts =>
    if Frame.length parts ≤ o.limit then some parts
    else match a with
      | .history request _ =>
        let news := tooLong o.limit (Frame.length parts) request.requestId
        (news.toParts o.encoder).toOption.filter fun parts => Frame.length parts ≤ o.limit
      | _ => none

/-- Sends an answer to an identity; says whether anybody takes it. -/
def reply (r : Router) (i : Identity) (a : Response) : Router × Bool :=
  match outgoing r.toOutlet a with
  | some m => r.deliver i m
  | none => (r, false)

end Router

end BarArchive
