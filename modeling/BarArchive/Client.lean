/-
The client: questions, and the answers to them among all that a server says.

Answers may come in any order. A client that waits for one passes over the others; what
cannot be read is an error, and after it nothing is read until the next question. Here
the bytes that the server sends are known beforehand, up to the point where it stops.
-/
import BarArchive.Wire.Message

namespace BarArchive

/-- The bytes from the server that have not been read, and the messages sent to it. -/
structure Client where
  limit : Nat := Frame.defaultLimit
  incoming : Bytes := []
  sent : List Message := []
  isInterrupted : Bool := false

namespace Client

/-! ### Reading -/

/-- The next answer, whatever it answers. -/
def next (c : Client) : Client × Except WireError Response :=
  if c.isInterrupted then ({ c with isInterrupted := false }, .error .connectionClosed)
  else match Frame.decode c.limit c.incoming with
    | .frame m rest => ({ c with incoming := rest }, Response.ofParts m)
    | .refused e => ({ c with isInterrupted := true }, .error e)
    | .incomplete =>
      if c.incoming.isEmpty then (c, .error .connectionClosed)
      else ({ c with isInterrupted := true }, .error .broken)

/-- The first of at most `fuel` answers that `pick` takes for its own. -/
def await {α : Type} (pick : Response → Option (Except WireError α)) :
    (fuel : Nat) → Client → Client × Except WireError α
  | 0, c => (c, .error .connectionClosed)
  | fuel + 1, c =>
    match c.next with
    | (c, .error e) => (c, .error e)
    | (c, .ok a) =>
      match pick a with
      | some result => (c, result)
      | none => await pick fuel c

/-! ### Asking -/

/-- Sends a question. -/
def send (c : Client) (q : Query) : Except WireError Client := do
  let m ← q.toParts
  let _ ← Frame.encode c.limit m
  return { c with sent := c.sent ++ [m] }

/-- Sends a question and waits for its answer; every answer takes some of the bytes. -/
def ask {α : Type} (c : Client) (q : Query) (pick : Response → Option (Except WireError α)) :
    Client × Except WireError α :=
  match c.send q with
  | .error e => (c, .error e)
  | .ok c => await pick (c.incoming.length + 2) c

/-- Whether an answer concerns a request for bars. -/
def pickHistory (requestId : UInt32) : Response → Option (Except WireError (Request × List Bar))
  | .history r bars => if r.requestId = requestId then some (.ok (r, bars)) else none
  | .failure id text => if id = requestId then some (.error (.remote id text)) else none
  | _ => none

/-- Whether an answer concerns a push. -/
def pickPush : Response → Option (Except WireError Unit)
  | .pushAccepted => some (.ok ())
  | .pushRejected text => some (.error (.remote 0 text))
  | _ => none

/-- Whether an answer concerns a question for what is stored. -/
def pickCoverage (requestId : UInt32) : Response → Option (Except WireError (Option Coverage))
  | .coverage id c => if id = requestId then some (.ok c) else none
  | .failure id text => if id = requestId then some (.error (.remote id text)) else none
  | _ => none

/-- Asks for bars. -/
def history (c : Client) (r : Request) : Client × Except WireError (Request × List Bar) :=
  c.ask (.history r) (pickHistory r.requestId)

/-- Sends bars to be stored. -/
def push (c : Client) (a : Addition) : Client × Except WireError Unit := c.ask (.push a) pickPush

/-- Asks what is stored under a key. -/
def coverage (c : Client) (q : CoverageQuery) : Client × Except WireError (Option Coverage) :=
  c.ask (.coverage q) (pickCoverage q.requestId)

end Client

end BarArchive
