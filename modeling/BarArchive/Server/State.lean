/-
The server: connections in front of a broker.

Bytes that come over a connection are cut into messages, and every message that can be
understood is answered once, over the connection that it came from. A message leaves
errands behind, and the last errand for it is its answer, which has to be put into a
queue: even an answer that is known at once, since others may be put into the queue before
it. Errands may be run in any order, so answers come neither in the order of the questions
nor in the order in which the broker decided them. Messages that cannot be understood get
no answer, and a frame that cannot be read ends its connection.
-/
import BarArchive.Broker.State
import BarArchive.Server.Router

namespace BarArchive

/-- Who asked for bars: a connection, and the number that it gave its request. -/
structure Asker where
  identity : Identity
  requestId : UInt32
deriving DecidableEq, Repr

/-- What is left to be done: work for the broker, bars to store, an answer for a connection. -/
inductive Errand where
  | work (w : Work)
  | store (i : Identity) (a : Addition)
  | reply (i : Identity) (a : Response)
deriving DecidableEq

/--
A connection: its queue, the bytes that came and do not make a message yet, and whether
more may come.
-/
structure Connection where
  queue : Nat
  received : Bytes := []
  isOpen : Bool := true
deriving DecidableEq

/-- A broker, the connections, and who waits for which answer. -/
structure Server where
  broker : Broker := {}
  router : Router := {}
  identities : Allocator := .fresh
  connections : Table Identity Connection := .empty
  askers : Table AssignedId Asker := .empty

namespace Server

/-! ### Answers -/

/-- Answers a connection; an answer that nobody takes is lost. -/
def reply (s : Server) (i : Identity) (a : Response) : Server := { s with router := (s.router.reply i a).1 }

/-- The answer to a request that the broker has dealt with. -/
def responseTo (requestId : UInt32) : Except BrokerError Reply → Response
  | .ok reply => .history reply.request reply.bars
  | .error e => .failure requestId e.message

/-- Takes what the broker says about a request to whoever waits for it, who has to answer. -/
def heed (s : Server) : Outcome → Server × List Errand
  | .answer id result =>
    match s.askers.find? id with
    | some asker =>
      ({ s with askers := s.askers.erase id },
        [.reply asker.identity (responseTo asker.requestId result)])
    | none => (s, [])
  | .silent | .violation _ | .overflow => (s, [])

/-! ### Messages -/

/--
A request for bars: it is turned down at once, or somebody waits for its answer from now on.

The instants of a message have 64 bits, so no plan for it leaves the calendar.
-/
def history (s : Server) (now : Instant) (i : Identity) (r : Request) : Server × List Errand :=
  match s.broker.submit now r with
  | .error (.refused e) => (s, [.reply i (.failure r.requestId e.message)])
  | .error .outsideCalendar => (s, [])
  | .ok (accepted, broker) =>
    ({ s with broker, askers := s.askers.insert accepted.assignedId ⟨i, r.requestId⟩ },
      [.work accepted.work])

/-- The answer to a question for what is stored. -/
def coverage (s : Server) (q : CoverageQuery) : Response :=
  match s.broker.coverage q.key with
  | .ok c => .coverage q.requestId c
  | .error e => .failure q.requestId e.message

/-- Deals with a message from a connection. -/
def handle (s : Server) (now : Instant) (i : Identity) (m : Message) : Server × List Errand :=
  match Query.ofParts m with
  | .error _ => (s, [])
  | .ok (.history r) => s.history now i r
  | .ok (.push a) => (s, [.store i a])
  | .ok (.coverage q) => (s, [.reply i (s.coverage q)])

/-! ### Errands -/

/-- Stores bars that a connection sent, and is to tell it. -/
def store (s : Server) (i : Identity) (a : Addition) : Server × List Errand :=
  let (broker, result) := s.broker.addData a
  let s := { s with broker }
  match result with
  | .ok (.ok _) => (s, [.reply i .pushAccepted])
  | .ok (.error e) => (s, [.reply i (.pushRejected e.message)])
  | .error _ => (s, [])

/-- Answers a request from the store. -/
def serve (s : Server) (id : AssignedId) : Server × List Errand :=
  let (broker, outcome) := s.broker.serve id
  { s with broker }.heed outcome

/-- A source has answered the request it was sent. -/
def arrive (s : Server) (r : Request) (result : Except MarketError (List Bar)) :
    Server × List Errand :=
  let (broker, outcome) := s.broker.deliver r result
  { s with broker }.heed outcome

/-- Runs an errand; one that asks a source is over when its answers have arrived. -/
def run (s : Server) : Errand → Server × List Errand
  | .work (.serve id) => s.serve id
  | .work (.fetch ..) => (s, [])
  | .store i a => s.store i a
  | .reply i a => (s.reply i a, [])

/-- Runs an errand and the answers that it leaves behind. -/
def complete (s : Server) (e : Errand) : Server :=
  let (s, answers) := s.run e
  answers.foldl (fun s e => (s.run e).1) s

/-! ### Connections -/

/-- A new connection. -/
def accept (s : Server) : Server × Identity :=
  let (id, identities) := s.identities.next
  let i : Identity := ⟨id.word⟩
  let (router, queue) := s.router.register i
  ({ s with router, identities, connections := s.connections.insert i { queue } }, i)

/-- Ends a connection; what is in its queue can still be written. -/
def hangUp (s : Server) (i : Identity) : Server :=
  { s with
    router := s.router.unregister i
    connections := s.connections.modify i fun c => { c with received := [], isOpen := false } }

/-- Whether more may come over a connection. -/
def isOpen (s : Server) (i : Identity) : Bool := ((s.connections.find? i).map (·.isOpen)).getD false

/-- Keeps bytes that do not make a message yet. -/
def keep (s : Server) (i : Identity) (bs : Bytes) : Server :=
  { s with connections := s.connections.modify i fun c => { c with received := bs } }

/-- Deals with the messages in bytes, at most `fuel` of them. -/
def handleAll (now : Instant) (i : Identity) : (fuel : Nat) → Bytes → Server → Server × List Errand
  | 0, bs, s => (s.keep i bs, [])
  | fuel + 1, bs, s =>
    match Frame.decode s.router.limit bs with
    | .incomplete => (s.keep i bs, [])
    | .refused _ => (s.hangUp i, [])
    | .frame m rest =>
      let (s, errands) := s.handle now i m
      let (s, more) := handleAll now i fuel rest s
      (s, errands ++ more)

/-- Deals with bytes that came over a connection; every message takes some of them. -/
def receive (s : Server) (now : Instant) (i : Identity) (bs : Bytes) : Server × List Errand :=
  match (s.connections.find? i).filter (·.isOpen) with
  | none => (s, [])
  | some c => handleAll now i ((c.received ++ bs).length + 1) (c.received ++ bs) s

/-- The bytes that are to be written to a connection; a message beyond the limit is skipped. -/
def transmit (s : Server) (i : Identity) : Server × Bytes :=
  match s.connections.find? i with
  | none => (s, [])
  | some c =>
    let (router, messages) := s.router.receiveAll c.queue
    ({ s with router }, messages.flatMap fun m => ((Frame.encode s.router.limit m).toOption).getD [])

end Server

end BarArchive
