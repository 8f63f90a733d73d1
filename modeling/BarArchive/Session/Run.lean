/-
What tasks do when it is their turn, and how time passes.

A turn never waits: a task that cannot go on leaves itself behind, with a timer or a
place where an answer will wake it. Between two instants the session settles, which
means that every task that is ready has its turn; the only tasks that others make ready
are those that wait for an answer, one for each answer, so the number of turns is known
in advance. When nothing is ready the clock leaps to the next timer.
-/
import BarArchive.Session.State

namespace BarArchive

namespace Session

/-! ### Fetching -/

/-- The next whole millisecond. -/
def wholeMillisecond (t : Nat) : Nat := (t + millisecond - 1) / millisecond * millisecond

/-- Lets requests through as fast as the source takes them; the rest waits for a timer. -/
def letThrough (task : Nat) (source : SourceId) : List Request → Batch → Session → Batch × Session
  | [], b, s => ({ b with unpaced := [] }, s)
  | r :: rest, b, s =>
    let (limiter, wait) := s.limiter.acquire source s.now
    let s := { s with limiter }
    match wait with
    | none => letThrough task source rest (b.push r) s
    | some wait =>
      ({ b with unpaced := r :: rest }, s.sleep { deadline := wholeMillisecond (s.now + wait), task })

/-- Notes that a source was asked. -/
def record (s : Session) (slot : Slot) (r : Request) : Session :=
  let script := s.script slot
  { s with scripts := s.scripts.insert slot { script with calls := r :: script.calls } }

/-- Does what the broker says must be done; says whether the task may go on. -/
def heed (s : Session) : Outcome → Session × Bool
  | .silent => (s, true)
  | .answer id result => (s.resolve id result, true)
  | .violation _ => (s, false)
  | .overflow => (s, false)

/-- Ends a fetch as its rule says; says whether the task may go on. -/
def conclude (s : Session) (slot : Slot) (r : Request) (rule : Rule) : Session × Bool :=
  let s := if rule.disconnects then s.setConnected slot false else s
  if rule.dies then (s, false)
  else
    let (broker, outcome) := s.broker.deliver r (rule.answer r)
    { s with broker }.heed outcome

/-- Takes the fetches further that can go on; there is no batch any more if its task must end. -/
def proceed (task : Nat) : List Nat → Batch → Session → Option Batch × Session
  | [], b, s => (some b, s)
  | n :: rest, b, s =>
    match b.fetches.find? n with
    | none => proceed task rest b s
    | some ⟨r, some rule⟩ =>
      let (s, goesOn) := s.conclude b.slot r rule
      if goesOn then proceed task rest (b.drop n) s else (none, s)
    | some ⟨r, none⟩ =>
      let s := s.record b.slot r
      let rule := (s.script b.slot).ruleFor r
      if rule.delay = 0 then
        let (s, goesOn) := s.conclude b.slot r rule
        if goesOn then proceed task rest (b.drop n) s else (none, s)
      else
        proceed task rest (b.await n r rule)
          (s.sleep { deadline := s.now + rule.delay, task, fetch := some n })

/-- The turn of a task that fetches. -/
def runBatch (s : Session) (task : Nat) (b : Batch) : Session :=
  let source := ((s.broker.registry.find? b.slot).map (·.id)).getD ""
  let (b, s) := letThrough task source b.unpaced b s
  if !b.unpaced.isEmpty then s.suspend task (.fetch b)
  else match proceed task b.ready { b with ready := [] } s with
    | (none, s) => s.finish task
    | (some b, s) => if b.fetches.isEmpty then s.finish task else s.suspend task (.fetch b)

/-! ### The other tasks -/

/-- The turn of a task that answers from the store. -/
def runServe (s : Session) (task : Nat) (id : AssignedId) : Session :=
  let (broker, outcome) := s.broker.serve id
  ({ s with broker }.heed outcome).1.finish task

/-- How late a tick may be before the next ones are put off. -/
def tolerance : Nat := 5 * millisecond

/-- The ticks that are due, at most `n` of them, and when the next one is. -/
def reconnectTicks (period : Nat) : (n due : Nat) → Session → Nat × Session
  | 0, due, s => (due, s)
  | n + 1, due, s =>
    if s.seen < due then (due, s)
    else
      let next := if due + tolerance < s.now then s.now + period else due + period
      reconnectTicks period n next s.connectSources.1

/-- The turn of a task that connects sources again and again. -/
def runReconnect (s : Session) (task period : Nat) (due : Option Nat) : Session :=
  let (due, s) := reconnectTicks period (tolerance / millisecond + 1) (due.getD s.now) s
  (s.suspend task (.reconnect period (some due))).sleep { deadline := due, task }

/-- The turn of a task that waits for the bars of a feed. -/
def runAwaitFill (s : Session) (task : Nat) (key : SeriesKey) (fetch : AssignedId) : Session :=
  match s.channels.find? fetch with
  | none => s.finish task
  | some c =>
    match c.result with
    | none => { s with channels := s.channels.insert fetch { c with waiter := some task } }
    | some result =>
      let (simulator, events) := s.simulator.fill key fetch result
      ({ s with simulator, channels := s.channels.erase fetch }.publish events).finish task

/-- Fires frequencies, one after the other. -/
def fireFrequencies (s : Session) (due : List Frequency) : Session :=
  due.foldl (fun s f =>
    let (simulator, events) := s.simulator.tick f
    { s with simulator }.publish events) s

/-- The session with the schedule of its replay tidied up, and when the replay goes on. -/
def nextReplay (s : Session) : Session × Option Nat :=
  let (schedule, deadline) := s.simulator.schedule.nextDeadline
  ({ s with simulator := { s.simulator with schedule } }, deadline)

/-- Fires what is due. -/
def replayDue (s : Session) : Session :=
  let (s, deadline) := s.nextReplay
  match deadline with
  | none => s
  | some deadline =>
    if s.seen < deadline then s
    else
      let (schedule, due) := s.simulator.schedule.popDue s.now
      { s with simulator := { s.simulator with schedule } }.fireFrequencies due

/-- The turn of the replay. -/
def runReplay (s : Session) (task : Nat) : Session :=
  if s.replayTask ≠ some task then s.finish task
  else
    let s := { s with timers := s.timers.filter fun t => t.task ≠ task }
    let (s, deadline) := s.replayDue.nextReplay
    match deadline with
    | none => s
    | some deadline => s.sleep { deadline, task }

/-- Gives a task its turn. -/
def runTask (s : Session) (task : Nat) : Session :=
  match s.tasks.find? task with
  | none => s
  | some (.fetch b) => s.runBatch task b
  | some (.serve id) => s.runServe task id
  | some (.reconnect period due) => s.runReconnect task period due
  | some (.awaitFill key fetch) => s.runAwaitFill task key fetch
  | some .replay => s.runReplay task

/-! ### Settling -/

/-- Gives turns to tasks that are ready, at most `n` turns. -/
def settleWithin : (n : Nat) → Session → Session
  | 0, s => s
  | n + 1, s =>
    match s.ready with
    | [] => s
    | task :: rest => settleWithin n ({ s with ready := rest }.runTask task)

/-- Gives turns until no task is ready. -/
def settle (s : Session) : Session := settleWithin (s.ready.length + s.channels.size) s

/-! ### Time -/

/-- Wakes a task because its timer went off. -/
def expire (s : Session) (t : Timer) : Session :=
  match t.fetch, s.tasks.find? t.task with
  | some n, some (.fetch b) => (s.suspend t.task (.fetch { b with ready := b.ready ++ [n] })).wake t.task
  | _, _ => s.wake t.task

/-- Looks at the timers: those whose deadlines have come go off, the earliest first. -/
def expireDue (s : Session) : Session :=
  ((s.timers.filter fun t => t.deadline ≤ s.now).mergeSort fun a b => a.deadline ≤ b.deadline).foldl
    expire { s with seen := s.now, timers := s.timers.filter fun t => s.now < t.deadline }

/-- Sets the clock to `t` unless it is past that, and looks at the timers. -/
def reach (s : Session) (t : Nat) : Session := { s with now := max s.now t }.expireDue

/-- The next instant at which a timer goes off. -/
def nextTimer (s : Session) : Option Nat := (s.timers.map (·.deadline)).min?

/-- Lets time pass up to `limit`, at most `n` leaps, until `enough` holds. -/
def passWithin (enough : Session → Bool) (limit : Nat) : (n : Nat) → Session → Session
  | 0, s => s
  | n + 1, s =>
    let s := s.settle
    if enough s then s
    else match s.nextTimer with
      | none => s.reach limit
      | some t => if limit < t then s.reach limit else passWithin enough limit n (s.reach t)

/-- Lets time pass up to `limit` or until `enough` holds; timers go off at whole milliseconds only. -/
def passUntil (s : Session) (limit : Nat) (enough : Session → Bool) : Session :=
  passWithin enough limit ((limit - s.now) / millisecond + 2) s

/-- Lets time pass, and everything happen that is due. -/
def advance (s : Session) (span : Nat) : Session := s.passUntil (s.now + span) fun _ => false

/-- How many turns are given at most before timers are looked at again. -/
def turnsAtOnce : Nat := 61

/--
Sets the clock ahead at once; then a millisecond passes.

Tasks that are ready have their turns before the timers are looked at, so that deadlines
in between are noticed only after them, and late.
-/
def jump (s : Session) (span : Nat) : Session :=
  ({ s with now := s.now + span }.settleWithin turnsAtOnce).expireDue.advance millisecond

end Session

end BarArchive
