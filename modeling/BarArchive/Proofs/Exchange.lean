/-
Runs of the server.

An exchange is a server with what has been said over its connections so far: the questions
that were understood, in their order, the verdicts that the broker gave on them, in theirs,
and the reports of these verdicts, in the order in which they were made. The place of a
question in the list is its ticket. Some questions are decided at once, others are filed
under the number that the broker gave them, and pushes wait until somebody stores them. A
verdict leaves a letter behind, the answer that the server is to put into a queue, and
letters are delivered at any time and in any order.

Messages may still come from a connection that has gone, bars may arrive for any request at
any time, the store and the sources may change on their own, and connections come and go,
so that a run, which is a list of moves, covers every order in which things can happen.
-/
import BarArchive.Proofs.Queues
import BarArchive.Proofs.Settling
import BarArchive.Server.State

namespace BarArchive

/-- What the broker has said about a question. -/
inductive Verdict where
  | bars (result : Except BrokerError Reply)
  | stored (result : Except BrokerError Nat)
  | range (result : Except BrokerError (Option Coverage))

/-- The answer that a verdict makes to a question, if it is one on such a question. -/
def Query.answer? : Query → Verdict → Option Response
  | .history r, .bars result => some (Server.responseTo r.requestId result)
  | .push _, .stored (.ok _) => some .pushAccepted
  | .push _, .stored (.error e) => some (.pushRejected e.message)
  | .coverage q, .range (.ok c) => some (.coverage q.requestId c)
  | .coverage q, .range (.error e) => some (.failure q.requestId e.message)
  | _, _ => none

/-- Whether an answer is one to a question: it is of its kind, and has its request or its number. -/
def Response.Answers : Response → Query → Prop
  | .history r' _, .history r => ∃ id, r' = r.filed id
  | .failure requestId _, .history r => requestId = r.requestId
  | .pushAccepted, .push _ | .pushRejected _, .push _ => True
  | .coverage requestId _, .coverage q | .failure requestId _, .coverage q => requestId = q.requestId
  | _, _ => False

/-- An answer that is to be put into a queue: its question, the verdict behind it, and for whom. -/
structure Letter where
  ticket : Nat
  verdict : Verdict
  identity : Identity
  answer : Response

/-- The verdict that a letter tells of. -/
def Letter.news (l : Letter) : Nat × Verdict := (l.ticket, l.verdict)

/--
A server; the identities of its connections, whose places are those of their queues; the
questions that were understood, and who asked; the pushes that are not stored yet, and the
questions that wait under a number; the verdicts, with the tickets of their questions; the
letters that are not delivered yet, and the verdicts that were reported by one; and what was
written to connections, with the places of the queues that it came from.
-/
structure Exchange where
  server : Server := {}
  admitted : List Identity := []
  inquiries : List (Identity × Query) := []
  pushes : List Nat := []
  filed : Table AssignedId Nat := .empty
  verdicts : List (Nat × Verdict) := []
  letters : List Letter := []
  reports : List (Nat × Verdict) := []
  written : List (Nat × Message) := []

namespace Exchange

/-- What can happen next. -/
inductive Move where
  | connect (ids : Allocator)
  | say (now : Instant) (i : Identity) (m : Message)
  | arrive (r : Request) (result : Except MarketError (List Bar))
  | serve (id : AssignedId)
  | store (ticket : Nat)
  | report (ticket : Nat)
  | hangUp (i : Identity)
  | abandon (place : Nat)
  | write (place : Nat)
  | turn (cache : Cache) (registry : Registry)

/-- An exchange at its beginning, with any broker, any writer of blocks and any frame limit. -/
def start (b : Broker) (o : Outlet) : Exchange :=
  { server := { broker := b, router := { toOutlet := o } } }

/-! ### Moves -/

/-- The exchange with a verdict on a question, and with the answers among what is left to be done. -/
def rule (w : Exchange) (ticket : Nat) (v : Verdict) (errands : List Errand) : Exchange :=
  { w with
    verdicts := w.verdicts ++ [(ticket, v)]
    letters := w.letters ++ errands.filterMap fun
      | .reply i a => some ⟨ticket, v, i, a⟩
      | _ => none }

/-- The exchange with one more question and the server that it was put to. -/
def enquire (w : Exchange) (s : Server) (i : Identity) (q : Query) : Exchange :=
  { w with server := s, inquiries := w.inquiries ++ [(i, q)] }

/-- The exchange after a message that is a question. -/
def ask (w : Exchange) (now : Instant) (i : Identity) (m : Message) (q : Query) : Exchange :=
  let (s, errands) := w.server.handle now i m
  let asked := w.enquire s i q
  let ticket := w.inquiries.length
  match q with
  | .history r =>
    match w.server.broker.submit now r with
    | .ok (a, _) => { asked with filed := w.filed.insert a.assignedId ticket }
    | .error (.refused e) => asked.rule ticket (.bars (.error e)) errands
    | .error .outsideCalendar => asked
  | .push _ => { asked with pushes := ticket :: w.pushes }
  | .coverage q => asked.rule ticket (.range (w.server.broker.coverage q.key)) errands

/-- The exchange after a step of the server in which the broker had something to say. -/
def settle (w : Exchange) (next : Server × List Errand) (o : Outcome) : Exchange :=
  let w := { w with server := next.1 }
  match o with
  | .answer id result =>
    match w.filed.find? id with
    | some ticket => { w with filed := w.filed.erase id }.rule ticket (.bars result) next.2
    | none => w
  | _ => w

/-- The exchange after a push was stored, or could not be. -/
def stored (w : Exchange) (ticket : Nat) (i : Identity) (a : Addition) : Exchange :=
  let (s, errands) := w.server.store i a
  let w' := { w with server := s, pushes := w.pushes.erase ticket }
  match (w.server.broker.addData a).2 with
  | .ok result => w'.rule ticket (.stored result) errands
  | .error _ => w'

/-- The exchange after a letter was delivered. -/
def report (w : Exchange) (l : Letter) : Exchange :=
  { w with
    server := w.server.reply l.identity l.answer
    letters := w.letters.eraseP (·.ticket = l.ticket)
    reports := w.reports ++ [l.news] }

/-- The exchange after a move, if the move can happen. -/
def step? (w : Exchange) : Move → Option Exchange
  | .connect ids =>
    let (s, i) := { w.server with identities := ids }.accept
    some { w with server := s, admitted := w.admitted ++ [i] }
  | .say now i m =>
    if i ∈ w.admitted then
      match Query.ofParts m with
      | .ok q => some (w.ask now i m q)
      | .error _ => some { w with server := (w.server.handle now i m).1 }
    else none
  | .arrive r result =>
    some (w.settle (w.server.arrive r result) (w.server.broker.deliver r result).2)
  | .serve id => some (w.settle (w.server.serve id) (w.server.broker.serve id).2)
  | .store ticket =>
    if ticket ∈ w.pushes then
      match w.inquiries[ticket]? with
      | some (i, .push a) => some (w.stored ticket i a)
      | _ => none
    else none
  | .report ticket => (w.letters.find? (·.ticket = ticket)).map w.report
  | .hangUp i => some { w with server := w.server.hangUp i }
  | .abandon place =>
    some { w with server := { w.server with router := w.server.router.dropQueue place } }
  | .write place =>
    match w.server.router.receive place with
    | (router, .message m) =>
      some { w with server := { w.server with router }, written := w.written ++ [(place, m)] }
    | _ => none
  | .turn cache registry =>
    some { w with server := { w.server with broker := { w.server.broker with cache, registry } } }

/-- The exchange after a run, if every move of it can happen. -/
def run? (w : Exchange) : List Move → Option Exchange
  | [] => some w
  | m :: moves => (w.step? m).bind fun w => w.run? moves

/-- What every move preserves holds at the end of a run. -/
theorem run?_induction {P : Exchange → Prop} (hstep : ∀ v m v', P v → v.step? m = some v' → P v')
    {moves : List Move} : ∀ {w w' : Exchange}, P w → w.run? moves = some w' → P w' := by
  induction moves with
  | nil =>
    intro w w' hw hrun
    cases hrun
    exact hw
  | cons m moves ih =>
    intro w w' hw hrun
    obtain ⟨v, hv, hrest⟩ := Option.bind_eq_some_iff.mp hrun
    exact ih (hstep w m v hw hv) hrest

/-- What each move makes of an exchange, if it can happen. -/
inductive Makes (w : Exchange) : Move → Exchange → Prop
  | connected {ids} : Makes w (.connect ids) { w with
      server := ({ w.server with identities := ids }.accept).1
      admitted := w.admitted ++ [({ w.server with identities := ids }.accept).2] }
  | asked {now i m q} (there : i ∈ w.admitted) (understood : Query.ofParts m = .ok q) :
      Makes w (.say now i m) (w.ask now i m q)
  | muttered {now i m e} (undecodable : Query.ofParts m = .error e) :
      Makes w (.say now i m) { w with server := (w.server.handle now i m).1 }
  | arrived {r result} : Makes w (.arrive r result)
      (w.settle (w.server.arrive r result) (w.server.broker.deliver r result).2)
  | served {id} :
      Makes w (.serve id) (w.settle (w.server.serve id) (w.server.broker.serve id).2)
  | stored {ticket i a} (waits : ticket ∈ w.pushes)
      (push : w.inquiries[ticket]? = some (i, .push a)) :
      Makes w (.store ticket) (w.stored ticket i a)
  | reported {ticket l} (found : w.letters.find? (·.ticket = ticket) = some l) :
      Makes w (.report ticket) (w.report l)
  | hungUp {i} : Makes w (.hangUp i) { w with server := w.server.hangUp i }
  | abandoned {place} : Makes w (.abandon place)
      { w with server := { w.server with router := w.server.router.dropQueue place } }
  | wrote {place router m} (taken : w.server.router.receive place = (router, .message m)) :
      Makes w (.write place)
        { w with server := { w.server with router }, written := w.written ++ [(place, m)] }
  | turned {cache registry} : Makes w (.turn cache registry)
      { w with server := { w.server with broker := { w.server.broker with cache, registry } } }

theorem makes_of_step {w w' : Exchange} {m : Move} (h : w.step? m = some w') : w.Makes m w' := by
  cases m with
  | connect ids =>
    cases h
    exact .connected
  | say now i m =>
    simp only [step?] at h
    split at h
    · rename_i hthere
      split at h
      · rename_i hq
        cases h
        exact .asked hthere hq
      · rename_i he
        cases h
        exact .muttered he
    · cases h
  | arrive r result =>
    cases h
    exact .arrived
  | serve id =>
    cases h
    exact .served
  | store ticket =>
    simp only [step?] at h
    split at h
    · rename_i hwaits
      split at h
      · rename_i hpush
        cases h
        exact .stored hwaits hpush
      · cases h
    · cases h
  | report ticket =>
    obtain ⟨l, hfound, rfl⟩ := Option.map_eq_some_iff.mp h
    exact .reported hfound
  | hangUp i =>
    cases h
    exact .hungUp
  | abandon place =>
    cases h
    exact .abandoned
  | write place =>
    simp only [step?] at h
    split at h
    · rename_i htaken
      cases h
      exact .wrote htaken
    · cases h
  | turn cache registry =>
    cases h
    exact .turned

/-! ### Questions -/

/-- The question that a move brings, and who asks it. -/
def Move.question? : Move → Option (Identity × Query)
  | .say _ i m => (Query.ofParts m).toOption.map fun q => (i, q)
  | _ => none

theorem ask_adds (w : Exchange) (now : Instant) (i : Identity) (m : Message) (q : Query) :
    (w.ask now i m q).admitted = w.admitted ∧
      (w.ask now i m q).inquiries = w.inquiries ++ [(i, q)] := by
  unfold ask
  cases q with
  | history r =>
    simp only
    split <;> exact ⟨rfl, rfl⟩
  | push a => exact ⟨rfl, rfl⟩
  | coverage q => exact ⟨rfl, rfl⟩

theorem settle_adds (w : Exchange) (next : Server × List Errand) (o : Outcome) :
    (w.settle next o).admitted = w.admitted ∧ (w.settle next o).inquiries = w.inquiries := by
  unfold settle
  cases o with
  | answer id result =>
    simp only
    split <;> exact ⟨rfl, rfl⟩
  | silent => exact ⟨rfl, rfl⟩
  | violation e => exact ⟨rfl, rfl⟩
  | overflow => exact ⟨rfl, rfl⟩

theorem stored_adds (w : Exchange) (ticket : Nat) (i : Identity) (a : Addition) :
    (w.stored ticket i a).admitted = w.admitted ∧
      (w.stored ticket i a).inquiries = w.inquiries := by
  unfold stored
  simp only
  split <;> exact ⟨rfl, rfl⟩

/-- Connections are not forgotten, and a question is added for each message that is one. -/
theorem adds_of_step {w w' : Exchange} {m : Move} (h : w.step? m = some w') :
    w.admitted <+: w'.admitted ∧ w'.inquiries = w.inquiries ++ m.question?.toList := by
  cases makes_of_step h with
  | connected => exact ⟨List.prefix_append _ _, (List.append_nil _).symm⟩
  | asked _ understood =>
    obtain ⟨hadmitted, hinquiries⟩ := w.ask_adds _ _ _ _
    rw [hadmitted, hinquiries, Move.question?, understood]
    exact ⟨List.prefix_refl _, rfl⟩
  | muttered undecodable =>
    rw [Move.question?, undecodable]
    exact ⟨List.prefix_refl _, (List.append_nil _).symm⟩
  | arrived =>
    obtain ⟨hadmitted, hinquiries⟩ := w.settle_adds _ _
    rw [hadmitted, hinquiries]
    exact ⟨List.prefix_refl _, (List.append_nil _).symm⟩
  | served =>
    obtain ⟨hadmitted, hinquiries⟩ := w.settle_adds _ _
    rw [hadmitted, hinquiries]
    exact ⟨List.prefix_refl _, (List.append_nil _).symm⟩
  | stored =>
    obtain ⟨hadmitted, hinquiries⟩ := w.stored_adds _ _ _
    rw [hadmitted, hinquiries]
    exact ⟨List.prefix_refl _, (List.append_nil _).symm⟩
  | reported | hungUp | abandoned | wrote | turned =>
    exact ⟨List.prefix_refl _, (List.append_nil _).symm⟩

theorem inquiries_of_run {moves : List Move} : ∀ {w w' : Exchange}, w.run? moves = some w' →
    w'.inquiries = w.inquiries ++ moves.filterMap Move.question? := by
  induction moves with
  | nil =>
    intro w w' hrun
    cases hrun
    exact (List.append_nil _).symm
  | cons m moves ih =>
    intro w w' hrun
    obtain ⟨v, hv, hrest⟩ := Option.bind_eq_some_iff.mp hrun
    rw [ih hrest, (adds_of_step hv).2, List.append_assoc]
    cases hm : m.question? <;> simp [hm]

/-- A question waits to be decided. -/
def Waits (w : Exchange) (ticket : Nat) : Prop :=
  ticket ∈ w.pushes ∨ ∃ id, w.filed.find? id = some ticket

/-- A question was decided. -/
def Decided (w : Exchange) (ticket : Nat) : Prop := ticket ∈ w.verdicts.map (·.1)

/-! ### What was put into queues, and what should have been -/

/-- All messages that were ever put into the queue at a place, in their order. -/
def stream (w : Exchange) (p : Nat) : List Message :=
  (w.written.filter (·.1 = p)).map (·.2) ++ w.server.router.messages p

/-- Whether a verdict is on a question of an identity. -/
def concerns (w : Exchange) (i : Identity) (e : Nat × Verdict) : Bool :=
  (w.inquiries[e.1]?).any (·.1 = i)

/-- The message that a verdict means for an identity, if it was on one of its questions. -/
def message? (w : Exchange) (i : Identity) (e : Nat × Verdict) : Option Message :=
  match w.inquiries[e.1]? with
  | some (j, q) => if j = i then (q.answer? e.2).bind (Router.outgoing w.server.router.toOutlet) else none
  | none => none

/-- The messages that all reports so far mean for an identity. -/
def due (w : Exchange) (i : Identity) : List Message := w.reports.filterMap (w.message? i)

/-- The tickets of the questions that these messages answer. -/
def tickets (w : Exchange) (i : Identity) : List Nat :=
  (w.reports.filter fun e => (w.message? i e).isSome).map (·.1)

/-- The question that the message at position `k` of a stream answers. -/
def ticket? (w : Exchange) (p k : Nat) : Option Nat :=
  (w.admitted[p]?).bind fun i => (w.tickets i)[k]?

/-- The verdicts on the questions of an identity. -/
def verdictsOn (w : Exchange) (i : Identity) : List (Nat × Verdict) := w.verdicts.filter (w.concerns i)

/-- The verdicts on the questions of an identity that were reported, in the order of the reports. -/
def reportsOn (w : Exchange) (i : Identity) : List (Nat × Verdict) := w.reports.filter (w.concerns i)

end Exchange

end BarArchive
