/-
Runs of the broker.

The broker takes its steps one at a time. What it leaves behind in between is work:
fetches that no source has answered yet, and reads of the store that were not made yet.
A world is a broker together with this work and with what has happened so far, and a
move is anything that can happen next. Whatever work is left may be the next to get done,
the store may start or stop to refuse calls between any two moves, and so a run, which
is a list of moves, covers every order in which things can happen.

A decimal that overflows ends the task it happens in. The fetches that the task was
waiting for are then never answered, which is why they leave the world with it.
-/
import BarArchive.Broker.State

namespace BarArchive

/-- A piece of work that is left to do. -/
inductive Job where
  | fetch (r : Request)
  | serve (id : AssignedId)
deriving DecidableEq

/-- The accepted request that a request is made for: its parent, or else itself. -/
def Request.owner? (r : Request) : Option AssignedId := r.parentId.or r.assignedId

/-- The request as it is filed under the number that it got. -/
def Request.filed (r : Request) (id : AssignedId) : Request :=
  { r with assignedId := some id, parentId := none }

/-- The accepted request that a piece of work is for. -/
def Job.owner? : Job → Option AssignedId
  | .fetch r => r.owner?
  | .serve id => some id

/-- The requests that work sends to a source. -/
def Work.requests : Work → List Request
  | .fetch _ requests => requests
  | .serve _ => []

/-- The pieces that work consists of. -/
def Work.jobs : Work → List Job
  | .fetch _ requests => requests.map .fetch
  | .serve id => [.serve id]

/-- The numbers that were given out when a request was accepted. -/
def Accepted.ids (a : Accepted) : List AssignedId :=
  a.assignedId :: (a.work.requests.filter Request.isPart).filterMap (·.assignedId)

/-- The answer that a step gave to a request, if it gave one. -/
def Outcome.answerTo? (id : AssignedId) : Outcome → Option (Except BrokerError Reply)
  | .answer answered result => if answered = id then some result else none
  | _ => none

/-- Whether a decimal overflowed in a step. -/
def Outcome.isOverflow : Outcome → Bool
  | .overflow => true
  | _ => false

/-- What can happen next. -/
inductive Move where
  | submit (now : Instant) (r : Request)
  | fetched (r : Request) (result : Except MarketError (List Bar))
  | served (id : AssignedId)
  | added (a : Addition)
  | refused (refusals : Refusals)
  | connected (slot : Slot) (up : Bool)

/--
A broker, the work that is left, and what has happened: the requests that were accepted,
the fetches that were answered and what the steps came to, the latest first.
-/
structure World where
  broker : Broker := {}
  pending : List Job := []
  accepted : List (Request × Accepted) := []
  fetched : List (Request × Except MarketError (List Bar)) := []
  outcomes : List Outcome := []

namespace World

/-- A world at its beginning. -/
def start (cache : Cache) (ids : Allocator) (registry : Registry) : World :=
  { broker := { cache, ids, registry } }

/-! ### Moves -/

/-- The world with a request that was accepted, and the work that this leaves. -/
def enroll (w : World) (r : Request) (a : Accepted) (b : Broker) : World :=
  { w with
    broker := b
    pending := w.pending ++ a.work.jobs
    accepted := (r.filed a.assignedId, a) :: w.accepted }

/-- The world without the work that is left for a request. -/
def abandon (w : World) (owner : Option AssignedId) : World :=
  { w with pending := w.pending.filter fun j => j.owner? ≠ owner }

/-- The world in which a piece of work was taken up; if it is a fetch, `fetched` is its answer. -/
def take (w : World) (j : Job) (fetched : Option (Request × Except MarketError (List Bar))) : World :=
  { w with pending := w.pending.erase j, fetched := fetched.toList ++ w.fetched }

/-- The world after a step of the broker for a request. -/
def after (w : World) (owner : Option AssignedId) (step : Broker × Outcome) : World :=
  let w := { w with broker := step.1, outcomes := step.2 :: w.outcomes }
  if step.2.isOverflow then w.abandon owner else w

/-- The world after a move, if the move can happen. -/
def step? (w : World) : Move → Option World
  | .submit now r =>
    match w.broker.submit now r with
    | .ok (a, b) => some (w.enroll r a b)
    | .error _ => some w
  | .fetched r result =>
    if .fetch r ∈ w.pending then
      some ((w.take (.fetch r) (some (r, result))).after r.owner? (w.broker.deliver r result))
    else none
  | .served id =>
    if .serve id ∈ w.pending then
      some ((w.take (.serve id) none).after (some id) (w.broker.serve id))
    else none
  | .added a =>
    let (broker, result) := w.broker.addData a
    some { w with
      broker
      outcomes := (match result with
        | .ok _ => .silent
        | .error _ => .overflow) :: w.outcomes }
  | .refused refusals =>
    some { w with broker := { w.broker with cache := { w.broker.cache with refusals } } }
  | .connected slot up =>
    some { w with broker := { w.broker with registry := w.broker.registry.setConnected slot up } }

/-- What each move makes of a world, if it can happen. -/
inductive Makes (w : World) : Move → World → Prop
  | accepted {now r a b} (submit : w.broker.submit now r = .ok (a, b)) :
      Makes w (.submit now r) (w.enroll r a b)
  | declined {now r} : Makes w (.submit now r) w
  | fetched {r result} (pending : .fetch r ∈ w.pending) :
      Makes w (.fetched r result)
        ((w.take (.fetch r) (some (r, result))).after r.owner? (w.broker.deliver r result))
  | served {id} (pending : .serve id ∈ w.pending) :
      Makes w (.served id) ((w.take (.serve id) none).after (some id) (w.broker.serve id))
  | added {a o} (outcome : o = .silent ∨ o = .overflow) :
      Makes w (.added a) { w with broker := (w.broker.addData a).1, outcomes := o :: w.outcomes }
  | refused {refusals} : Makes w (.refused refusals)
      { w with broker := { w.broker with cache := { w.broker.cache with refusals } } }
  | connected {slot up} : Makes w (.connected slot up)
      { w with broker := { w.broker with registry := w.broker.registry.setConnected slot up } }

theorem makes_of_step {w w' : World} {m : Move} (h : w.step? m = some w') : w.Makes m w' := by
  cases m with
  | submit now r =>
      simp only [step?] at h
      split at h
      · rename_i a b hsubmit
        cases h
        exact .accepted hsubmit
      · cases h
        exact .declined
  | fetched r result =>
      simp only [step?] at h
      split at h
      · rename_i hpending
        cases h
        exact .fetched hpending
      · cases h
  | served id =>
      simp only [step?] at h
      split at h
      · rename_i hpending
        cases h
        exact .served hpending
      · cases h
  | added a =>
      simp only [step?, Option.some.injEq] at h
      subst h
      refine .added ?_
      cases (w.broker.addData a).2 with
      | ok result => exact Or.inl rfl
      | error e => exact Or.inr rfl
  | refused refusals =>
      cases h
      exact .refused
  | connected slot up =>
      cases h
      exact .connected

/-- The world after a run, if every move of it can happen. -/
def run? (w : World) : List Move → Option World
  | [] => some w
  | m :: moves => (w.step? m).bind fun w => w.run? moves

/-! ### Reading the history -/

/-- The numbers given out so far. -/
def issued (w : World) : List AssignedId := w.accepted.flatMap fun e => e.2.ids

/-- Whether a decimal has overflowed. -/
def hasOverflowed (w : World) : Bool := w.outcomes.any Outcome.isOverflow

/-- The answers to a request. -/
def answers (w : World) (id : AssignedId) : List (Except BrokerError Reply) :=
  w.outcomes.filterMap (Outcome.answerTo? id)

/-- The work that is left for a request. -/
def jobs (w : World) (id : AssignedId) : List Job := w.pending.filter fun j => j.owner? = some id

/-- The fetches made for a request that were answered. -/
def fetches (w : World) (id : AssignedId) : List (Request × Except MarketError (List Bar)) :=
  w.fetched.filter fun e => e.1.owner? = some id

/-- The gaps of a request that no source has answered for yet. -/
def unanswered (w : World) (id : AssignedId) : List AssignedId :=
  w.pending.filterMap fun
    | .fetch r => if r.parentId = some id then r.assignedId else none
    | .serve _ => none

/-! ### Induction over a run -/

theorem run?_cons {w w' : World} {m : Move} {moves : List Move} :
    w.run? (m :: moves) = some w' ↔ ∃ v, w.step? m = some v ∧ v.run? moves = some w' := by
  simp only [run?, Option.bind_eq_some_iff]

/-- What every move of a run preserves holds at its end. -/
theorem run?_induction {P : World → Prop} {moves : List Move}
    (hstep : ∀ v m v', m ∈ moves → P v → v.step? m = some v' → P v') :
    ∀ {w w' : World}, P w → w.run? moves = some w' → P w' := by
  induction moves with
  | nil =>
      intro w w' hw h
      simp only [run?, Option.some.injEq] at h
      exact h ▸ hw
  | cons m moves ih =>
      intro w w' hw h
      obtain ⟨v, hv, hrest⟩ := run?_cons.mp h
      exact ih (fun u n u' hn => hstep u n u' (List.mem_cons_of_mem m hn))
        (hstep w m v List.mem_cons_self hw hv) hrest

/-- A run of moves one after the other is two runs. -/
theorem run?_append {before later : List Move} : ∀ {w w' : World},
    w.run? (before ++ later) = some w' ↔
      ∃ v, w.run? before = some v ∧ v.run? later = some w' := by
  induction before with
  | nil =>
      intro w w'
      exact ⟨fun h => ⟨w, rfl, h⟩, fun ⟨v, hv, h⟩ => Option.some.inj hv ▸ h⟩
  | cons m before ih =>
      intro w w'
      constructor
      · intro h
        obtain ⟨u, hstep, hrest⟩ := run?_cons.mp h
        obtain ⟨v, hbefore, hlater⟩ := ih.mp hrest
        exact ⟨v, run?_cons.mpr ⟨u, hstep, hbefore⟩, hlater⟩
      · rintro ⟨v, h, hlater⟩
        obtain ⟨u, hstep, hbefore⟩ := run?_cons.mp h
        exact run?_cons.mpr ⟨u, hstep, ih.mpr ⟨v, hbefore, hlater⟩⟩

/-! ### Worlds and moves along a run -/

/-- `P` holds of a world and of all worlds that a run from it passes. -/
def Always (P : World → Prop) (w : World) : List Move → Prop
  | [] => P w
  | m :: moves => P w ∧ ∀ v, w.step? m = some v → v.Always P moves

/-- `Q` holds of each move of a run and the world that it is made in. -/
def AtEachMove (Q : World → Move → Prop) (w : World) : List Move → Prop
  | [] => True
  | m :: moves => Q w m ∧ ∀ v, w.step? m = some v → v.AtEachMove Q moves

theorem always_of_forall {P : World → Prop} (h : ∀ v, P v) (w : World) (moves : List Move) :
    w.Always P moves := by
  induction moves generalizing w with
  | nil => exact h w
  | cons m moves ih => exact ⟨h w, fun v _ => ih v⟩

theorem Always.head {P : World → Prop} {w : World} {moves : List Move} (h : w.Always P moves) :
    P w := by
  cases moves with
  | nil => exact h
  | cons m moves => exact h.1

theorem Always.after {P : World → Prop} {before later : List Move} :
    ∀ {w v : World}, w.Always P (before ++ later) → w.run? before = some v → v.Always P later := by
  induction before with
  | nil =>
      intro w v h hrun
      cases hrun
      exact h
  | cons m before ih =>
      intro w v h hrun
      obtain ⟨u, hstep, hrest⟩ := run?_cons.mp hrun
      exact ih (h.2 u hstep) hrest

theorem Always.last {P : World → Prop} {moves : List Move} : ∀ {w v : World},
    w.Always P moves → w.run? moves = some v → P v := by
  induction moves with
  | nil =>
      intro w v h hrun
      cases hrun
      exact h
  | cons m moves ih =>
      intro w v h hrun
      obtain ⟨u, hstep, hrest⟩ := run?_cons.mp hrun
      exact ih (h.2 u hstep) hrest

/-- What held of a world whenever it holds after a move held at the beginning of a run. -/
theorem earlier_of_run {E : World → Prop} {moves : List Move}
    (hearlier : ∀ v m v', v.step? m = some v' → E v' → E v) : ∀ {w w' : World},
    w.run? moves = some w' → E w' → E w := by
  induction moves with
  | nil =>
      intro w w' hrun h
      cases hrun
      exact h
  | cons m moves ih =>
      intro w w' hrun h
      obtain ⟨v, hstep, hrest⟩ := run?_cons.mp hrun
      exact hearlier w m v hstep (ih hrest h)

/--
`P` holds along a run just if `Q` holds of each of its moves, if that is so for one move. It may
be taken for granted that every move preserves `I`, and that `E` holds of all worlds of the run.
-/
theorem always_iff_atEachMove {I E P : World → Prop} {Q : World → Move → Prop} {moves : List Move}
    (hearlier : ∀ v m v', v.step? m = some v' → E v' → E v)
    (hstep : ∀ v m v', m ∈ moves → v.step? m = some v' → E v' → I v →
      I v' ∧ (P v → (P v' ↔ Q v m))) : ∀ {w w' : World}, I w → P w → w.run? moves = some w' →
      E w' → (w.Always P moves ↔ w.AtEachMove Q moves) := by
  induction moves with
  | nil =>
      intro w w' _ hP _ _
      exact ⟨fun _ => trivial, fun _ => hP⟩
  | cons m moves ih =>
      intro w w' hI hP hrun hE
      obtain ⟨v, hv, hrest⟩ := run?_cons.mp hrun
      obtain ⟨hI', hiff⟩ := hstep w m v List.mem_cons_self hv (earlier_of_run hearlier hrest hE) hI
      have hrec : P v → (v.Always P moves ↔ v.AtEachMove Q moves) := fun hP' =>
        ih (fun u n u' hn => hstep u n u' (List.mem_cons_of_mem m hn)) hI' hP' hrest hE
      constructor
      · rintro ⟨-, hnext⟩
        have halways := hnext v hv
        refine ⟨(hiff hP).mp halways.head, fun u hu => ?_⟩
        obtain rfl : v = u := Option.some.inj (hv.symm.trans hu)
        exact (hrec halways.head).mp halways
      · rintro ⟨hQ, hnext⟩
        refine ⟨hP, fun u hu => ?_⟩
        obtain rfl : v = u := Option.some.inj (hv.symm.trans hu)
        exact (hrec ((hiff hP).mpr hQ)).mpr (hnext v hv)

/--
What holds of a world and is kept by each move that is as `Q` says holds at the end of a run of
such moves, and each of them is then as `R` says. All worlds of the run may be taken to be as `E`.
-/
theorem AtEachMove.induction {I E : World → Prop} {Q R : World → Move → Prop} {moves : List Move}
    (hearlier : ∀ v m v', v.step? m = some v' → E v' → E v)
    (hstep : ∀ v m v', m ∈ moves → v.step? m = some v' → E v' → I v → Q v m → I v' ∧ R v m) :
    ∀ {w w' : World}, w.AtEachMove Q moves → I w → w.run? moves = some w' → E w' →
      I w' ∧ w.AtEachMove R moves := by
  induction moves with
  | nil =>
      intro w w' _ hI hrun _
      cases hrun
      exact ⟨hI, trivial⟩
  | cons m moves ih =>
      rintro w w' ⟨hQ, hlater⟩ hI hrun hE
      obtain ⟨v, hv, hrest⟩ := run?_cons.mp hrun
      obtain ⟨hI', hR⟩ :=
        hstep w m v List.mem_cons_self hv (earlier_of_run hearlier hrest hE) hI hQ
      obtain ⟨hend, heach⟩ := ih (fun u n u' hn => hstep u n u' (List.mem_cons_of_mem m hn))
        (hlater v hv) hI' hrest hE
      refine ⟨hend, hR, fun u hu => ?_⟩
      obtain rfl : v = u := Option.some.inj (hv.symm.trans hu)
      exact heach

end World

/-! ### A small market

One instrument with a bar a day, for the examples among the theorems.
-/

namespace Sample

def instrument : Instrument := { id := some 1, symbol := "ABC", datasource := "feed" }

/-- The key of the instrument's bars of a day. -/
def key : SeriesKey := ⟨1, .oneDay⟩

/-- Midnight of a day. -/
def midnight (day : Int) : Instant := day * dayNanos

/-- The bar of a day. -/
def bar (day : Int) : Bar :=
  { instrument := 1, frequency := .oneDay, time := midnight day, prices := .all .one }

/-- A request for the bars of some days. -/
def request (first last : Int) : Request :=
  { instrument, frequency := .oneDay, start := midnight first, stop := midnight last }

/-- The source of the instrument. -/
def registry : Registry := { sources := [{ id := "feed" }] }

/-- A cache that has the bars of some days. -/
def cacheOf (days : List Int) : Cache :=
  { store := ⟨⟨[(key, days.map fun day => (midnight day, [bar day]))]⟩⟩ }

/-- The `n`-th number that a new allocator gives out. -/
def number (n : UInt64) : AssignedId := ⟨scramble n⟩

/-- The part of the first request that fills the gap before a stored day, under the number `n`. -/
def partBefore (r : Request) (day : Int) (n : UInt64) : Request :=
  (r.filed (number 1)).part r.start (midnight day - r.frequency.halfBar) (number n)

/-- The part of the first request that fills the gap after a stored day, under the number `n`. -/
def partAfter (r : Request) (day : Int) (n : UInt64) : Request :=
  (r.filed (number 1)).part (midnight day + r.frequency.halfBar) r.stop (number n)

/-- A request for the bars of some days that always goes to the source. -/
def freshRequest (first last : Int) : Request := { request first last with forceFresh := true }

/-- Two fetches that leave days out between them, and a request for all days. -/
def apartRun : List Move :=
  [.submit 0 (freshRequest 1 2),
    .fetched ((freshRequest 1 2).filed (number 1)) (.ok [bar 1, bar 2]),
    .submit 0 (freshRequest 5 6),
    .fetched ((freshRequest 5 6).filed (number 2)) (.ok [bar 5, bar 6]),
    .submit 0 (request 1 6),
    .served (number 3)]

/-- A request with a gap on either side of the stored days; the one after them fails first. -/
def lateRun : List Move :=
  [.submit 0 (request 1 9),
    .fetched (partAfter (request 1 9) 6 3) (.error (.timeout "feed")),
    .fetched (partBefore (request 1 9) 4 2) (.ok [bar 2])]

/-- A request with a gap on either side of the stored days, whose later gap is filled first. -/
def gapsRun : List Move :=
  [.submit 0 (request 1 9),
    .fetched (partAfter (request 1 9) 6 3) (.ok [bar 8, bar 9, bar 7]),
    .fetched (partBefore (request 1 9) 4 2) (.ok [bar 1, bar 2, bar 3])]

/-- Bars for the gap after the stored days and then for the one before them, in some disorder. -/
def untidyFills : List (Request × List Bar) :=
  [(partAfter (request 1 9) 6 3, [8, 6, 7, 8, 12].map bar),
    (partBefore (request 1 9) 4 2, [2, 1].map bar)]

/-- The bar of a day with which each share becomes two. -/
def splitBar (day : Int) : Bar :=
  { bar day with split := some ⟨false, 2, 0, by decide, Decimal.zero.scale_le⟩ }

/-- A bar for the gap before the stored days, and a split for the gap after them. -/
def splitFills : List (Request × List Bar) :=
  [(partBefore (request 1 9) 4 2, [bar 2]), (partAfter (request 1 9) 6 3, [splitBar 8])]

/-- A split is stored first, and a bar from before it afterwards. -/
def lateHistory : List Move :=
  [.added { instrument, frequency := .oneDay, bars := [splitBar 5] },
    .added { instrument, frequency := .oneDay, bars := [bar 3] }]

/-- A full hour of the first day. -/
def hour (h : Int) : Instant := h * 3600000000000

/-- The bar of an hour. -/
def hourBar (h : Int) : Bar := { bar 0 with frequency := .oneHour, time := hour h }

/-- A request for hours of a day, of which regular ones, from noon to six, are to be shown. -/
def regularRequest (first last : Int) : Request where
  instrument := { instrument with
    sessions := [⟨⟨12 * 3600000000000, by decide⟩, ⟨18 * 3600000000000, by decide⟩⟩] }
  frequency := .oneHour
  start := hour first
  stop := hour last
  regularHoursOnly := true

/-- A cache that has the bars of two hours in the morning. -/
def morningCache : Cache :=
  { store := ⟨⟨[(⟨1, .oneHour⟩, [10, 11].map fun h => (hour h, [hourBar h]))]⟩⟩ }

/-- Bars for the gap after the morning. -/
def afternoonFills : List (Request × List Bar) :=
  [(((regularRequest 10 13).filed (number 1)).part (hour 11 + Frequency.oneHour.halfBar) (hour 13)
    (number 2), [hourBar 12, hourBar 13])]

end Sample

end BarArchive
