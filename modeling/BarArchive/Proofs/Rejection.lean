/-
Requests that are turned down.

A request can be turned down by a number of checks, and one that is accepted changes a number
of tables. Whether the checks come before the changes cannot be seen where an operation
gives back a new state or none at all. So both operations are written here once more, as what
is done to a session in place: step by step, each step on what the steps before it left, and
what was changed before a failure stays changed.

**They do the same as the operations of a session, and whenever they fail the session is as it
was**: nothing is filed, no number is given out, nothing is stored, started or published. They
fail for the reasons listed here and for no other.
-/
import BarArchive.Proofs.Dispatch
import BarArchive.Session.Operations

namespace BarArchive

/-- A request is turned down by the first check that fails, and accepted if there is none. -/
theorem Broker.submit_eq (b : Broker) (now : Instant) (r : Request) :
    b.submit now r = match validate r with
      | .error e => .error e
      | .ok k => match b.route now k r with
        | .error e => .error e
        | .ok route => match b.slotFor r route with
          | .error e => .error e
          | .ok slot => .ok (b.accept r route slot) := by
  simp only [submit, bind, Except.bind, pure, Except.pure]
  cases validate r with
  | error e => rfl
  | ok k =>
    simp only
    cases b.route now k r with
    | error e => rfl
    | ok route =>
      simp only
      cases b.slotFor r route with
      | error e => rfl
      | ok slot => rfl

namespace Session

/-! ### Doing things in place -/

/-- What is done to a session in place; it may fail half-way. -/
abbrev Doing (α : Type) : Type := ExceptT SubmitFailure (StateM Session) α

/-- What comes of it, and what the session is like then. -/
def Doing.run (x : Doing α) (s : Session) : Except SubmitFailure α × Session :=
  Id.run (StateT.run (ExceptT.run x) s)

section Doing

variable {α β : Type} (s : Session)

theorem Doing.run_bind (x : Doing α) (f : α → Doing β) :
    (x >>= f).run s = match x.run s with
      | (.ok a, s') => (f a).run s'
      | (.error e, s') => (.error e, s') := by
  show Id.run (StateT.run (ExceptT.run x >>= ExceptT.bindCont f) s) = _
  unfold Doing.run
  rw [StateT.run_bind]
  rcases StateT.run (ExceptT.run x) s with ⟨a | e, s'⟩ <;> rfl

@[simp] theorem Doing.run_pure (a : α) : (pure a : Doing α).run s = (.ok a, s) := rfl

@[simp] theorem Doing.run_throw (e : SubmitFailure) : (throw e : Doing α).run s = (.error e, s) := rfl

@[simp] theorem Doing.run_get : (get : Doing Session).run s = (.ok s, s) := rfl

@[simp] theorem Doing.run_modify (f : Session → Session) :
    (modify f : Doing Unit).run s = (.ok (), f s) := rfl

@[simp] theorem Doing.run_ofExcept (x : Except SubmitFailure α) :
    (liftExcept x : Doing α).run s = (x, s) := by
  cases x <;> rfl

end Doing

/-! ### Submitting in place -/

/-- Takes the next number. -/
def number : Doing AssignedId := do
  let s ← get
  modify fun s => { s with broker := { s.broker with ids := s.broker.ids.next.2 } }
  return s.broker.ids.next.1

/-- Makes a part of a request for each gap, one after the other, with numbers of their own. -/
def partition (r : Request) : List Gap → Doing (List Request)
  | [] => return []
  | g :: gaps => do
    let id ← number
    let parts ← partition r gaps
    return r.part g.start g.stop id :: parts

/-- Changes the table of requests. -/
def refile (f : Inflight → Inflight) : Doing Unit :=
  modify fun s => { s with broker := { s.broker with inflight := f s.broker.inflight } }

/-- Opens a channel for the answer to a request. -/
def openChannel (id : AssignedId) (requestId : UInt32) : Doing Unit :=
  modify fun s => { s with channels := s.channels.insert id { requestId } }

/-- Starts a task. -/
def begins (t : Task) : Doing Unit := modify fun s => (s.spawn t).1

/--
Accepts a request, step by step: it is checked and given a route and a source, it gets a number
and a channel, its parts get numbers, it is filed with them, and the work is started.
-/
def accepting (r : Request) : Doing Accepted := do
  let k ← liftExcept (Broker.validate r)
  let s ← get
  let route ← liftExcept (s.broker.route s.instant k r)
  let slot ← liftExcept (s.broker.slotFor r route)
  let id ← number
  let r := { r with assignedId := some id, parentId := none }
  openChannel id r.requestId
  match route, slot with
  | .split gaps, some slot =>
    let parts ← partition r gaps
    refile fun t => t.insertRequest id r
    refile fun t => t.insertParts id (parts.filterMap (·.assignedId))
    begins (.fetch { slot, unpaced := parts })
    return ⟨r.requestId, id, .fetch slot parts⟩
  | .external, some slot =>
    refile fun t => t.insertRequest id r
    begins (.fetch { slot, unpaced := [r] })
    return ⟨r.requestId, id, .fetch slot [r]⟩
  | _, _ =>
    refile fun t => t.insertRequest id r
    begins (.serve id)
    return ⟨r.requestId, id, .serve id⟩

/-- Submits a request, step by step. -/
def submitting (r : Request) : Doing Handle := do
  let a ← accepting r
  let s ← get
  modify fun s => { s with handles := s.handles ++ [some a.assignedId] }
  return ⟨s.handles.length, a.requestId, a.assignedId⟩

theorem run_number (s : Session) : number.run s = (.ok s.broker.ids.next.1,
    { s with broker := { s.broker with ids := s.broker.ids.next.2 } }) := rfl

theorem run_partition (r : Request) : ∀ (gaps : List Gap) (s : Session),
    (partition r gaps).run s = (.ok (Broker.partsFor r gaps s.broker.ids).1,
      { s with broker := { s.broker with ids := (Broker.partsFor r gaps s.broker.ids).2 } }) := by
  intro gaps
  induction gaps with
  | nil => intro s; rfl
  | cons g gaps ih =>
    intro s
    simp only [partition, Doing.run_bind, run_number, ih, Doing.run_pure]
    rfl

/-- Accepting in place is accepting at once, with nothing done on failure. -/
theorem run_accepting (r : Request) (s : Session) :
    (accepting r).run s = match s.broker.submit s.instant r with
      | .ok (a, broker) => (.ok a, { s with broker }.start a)
      | .error e => (.error e, s) := by
  unfold accepting
  rw [Broker.submit_eq]
  simp only [Doing.run_bind, Doing.run_ofExcept, Doing.run_get]
  cases Broker.validate r with
  | error e => rfl
  | ok k =>
    simp only
    cases s.broker.route s.instant k r with
    | error e => rfl
    | ok route =>
      simp only
      cases s.broker.slotFor r route with
      | error e => rfl
      | ok slot =>
        -- all checks have passed, and what is done from here on cannot fail
        cases route with
        | stored => rfl
        | external => cases slot <;> rfl
        | split gaps =>
          cases slot with
          | none => rfl
          | some slot =>
            simp only [Doing.run_bind, run_number, openChannel, Doing.run_modify, run_partition]
            rfl

theorem run_submitting (r : Request) (s : Session) :
    (submitting r).run s = ((s.submit r).2, (s.submit r).1) := by
  unfold submitting submit
  simp only [Doing.run_bind, run_accepting]
  cases s.broker.submit s.instant r with
  | error e => rfl
  | ok accepted =>
    obtain ⟨a, broker⟩ := accepted
    cases hwork : a.work with
    | fetch slot requests => simp [start, hwork, spawn]
    | serve id => simp [start, hwork, spawn]

/-! ### Subscribing in place -/

/-- Changes the simulator. -/
def simulating (f : Simulator → Simulator) : Doing Unit :=
  modify fun s => { s with simulator := f s.simulator }

/-- Wakes the replay if a frequency was switched on. -/
def wakeReplay (switched : Bool) : Doing Unit :=
  modify fun s => if switched then s.replayTask.elim s s.wake else s

/--
Takes a subscription, step by step: it is checked and joins the feed of its key, or else its fetch
is accepted, a feed is filed with it, its frequency is switched on, which wakes the replay if it
was off, and a task waits for the bars.
-/
def subscribing (r : Subscription) : Doing SubscriberState := do
  let s ← get
  if s.simulator.isShutDown then throw (.refused (.routing "simulator is shut down"))
  else match (Simulator.fetchFor r).key? with
    | none => throw (.refused (.routing ("instrument " ++ r.instrument.symbol ++ " has no id")))
    | some k =>
      if s.simulator.index.contains r.requestId then
        throw (.refused (.routing ("subscription " ++ r.requestId.toNat.repr ++ " already exists")))
      else match s.simulator.feeds.find? k with
        | some feed =>
          simulating fun m => { m with
            feeds := m.feeds.insert k
              { feed with subscribers := feed.subscribers.insert r.requestId feed.newcomer } }
          simulating fun m => { m with index := m.index.insert r.requestId k }
          return feed.newcomer.state
        | none =>
          let a ← accepting (Simulator.fetchFor r)
          simulating fun m => { m with
            feeds := m.feeds.insert k
              { fetch := a.assignedId,
                subscribers := Table.empty.insert r.requestId { state := .awaitingFill } } }
          simulating fun m => { m with index := m.index.insert r.requestId k }
          let wasOff := !s.simulator.schedule.isActive r.frequency
          simulating fun m => { m with schedule := (m.schedule.activate k.frequency s.now).1 }
          wakeReplay wasOff
          begins (.awaitFill k a.assignedId)
          return .awaitingFill

theorem run_subscribing (r : Subscription) (s : Session) :
    (subscribing r).run s = ((s.subscribe r).2, (s.subscribe r).1) := by
  unfold subscribing subscribe Simulator.subscribe
  simp only [Doing.run_bind, Doing.run_get]
  cases hdown : s.simulator.isShutDown with
  | true => rfl
  | false =>
    simp only [Bool.false_eq_true, if_false]
    cases hkey : (Simulator.fetchFor r).key? with
    | none => rfl
    | some k =>
      simp only
      cases hthere : s.simulator.index.contains r.requestId with
      | true => rfl
      | false =>
        simp only [Bool.false_eq_true, if_false]
        cases hfeed : s.simulator.feeds.find? k with
        | some feed => rfl
        | none =>
          simp only [Doing.run_bind, run_accepting]
          cases s.broker.submit s.instant (Simulator.fetchFor r) with
          | error e => rfl
          | ok accepted =>
            obtain ⟨a, broker⟩ := accepted
            obtain ⟨requestId, id, work⟩ := a
            cases work <;> cases s.simulator.schedule.isActive r.frequency <;> rfl

end Session

/-! ### Reasons -/

namespace Registry

/-- Why no source can take a request: it is unknown, not connected, or has no such bars. -/
inductive Unreachable (registry : Registry) (r : Request) : MarketError → Prop
  | noResolver (future : r.instrument.isContinuousFuture = true) (none : registry.resolver = none) :
      Unreachable registry r (.unknownSource "continuous futures resolver")
  | unknown (spot : r.instrument.isContinuousFuture = false)
      (none : registry.slotOf? r.instrument.datasource = none) :
      Unreachable registry r (.unknownSource r.instrument.datasource)
  | disconnected {slot s} (target : registry.target r = .ok slot)
      (there : registry.find? slot = some s) (down : s.connected = false) :
      Unreachable registry r (.notConnected s.id)
  | unsuitable {slot s} (target : registry.target r = .ok slot)
      (there : registry.find? slot = some s) (up : s.connected = true)
      (lacks : s.capabilities.supports r.frequency = false) :
      Unreachable registry r (.unsupportedFrequency s.id r.frequency)

variable {registry : Registry} {r : Request}

theorem target_eq_error {e : MarketError} : registry.target r = .error e ↔
    (r.instrument.isContinuousFuture = true ∧ registry.resolver = none ∧
        e = .unknownSource "continuous futures resolver") ∨
      (r.instrument.isContinuousFuture = false ∧
        registry.slotOf? r.instrument.datasource = none ∧
        e = .unknownSource r.instrument.datasource) := by
  unfold target
  cases r.instrument.isContinuousFuture with
  | true => cases registry.resolver <;> simp [eq_comm]
  | false => cases registry.slotOf? r.instrument.datasource <;> simp [eq_comm]

/-- A request is meant for a slot that has a source. -/
theorem exists_of_target {slot : Slot} (h : registry.target r = .ok slot) :
    ∃ s, registry.find? slot = some s := by
  obtain ⟨hresolver, hnamed⟩ := target_spec h
  cases hfuture : r.instrument.isContinuousFuture with
  | false =>
    obtain ⟨s, hs, -⟩ := hnamed hfuture
    exact ⟨s, hs⟩
  | true =>
    obtain rfl := hresolver.mpr hfuture
    unfold target at h
    rw [if_pos hfuture] at h
    split at h
    · rename_i hsome
      exact Option.isSome_iff_exists.mp hsome
    · cases h

theorem resolve_eq_error {e : MarketError} :
    registry.resolve r = .error e ↔ registry.Unreachable r e := by
  constructor
  · intro h
    unfold resolve at h
    cases htarget : registry.target r with
    | error e' =>
      rw [htarget] at h
      obtain rfl : e' = e := Except.error.inj h
      rcases target_eq_error.mp htarget with ⟨hfuture, hnone, rfl⟩ | ⟨hspot, hnone, rfl⟩
      · exact .noResolver hfuture hnone
      · exact .unknown hspot hnone
    | ok slot =>
      obtain ⟨s, hs⟩ := exists_of_target htarget
      simp only [htarget, bind, Except.bind, hs] at h
      split at h
      · rename_i hdown
        obtain rfl := Except.error.inj h
        exact .disconnected htarget hs (by simpa using hdown)
      · rename_i hup
        split at h
        · rename_i hlacks
          obtain rfl := Except.error.inj h
          exact .unsuitable htarget hs (by simpa using hup) (by simpa using hlacks)
        · cases h
  · intro h
    unfold resolve
    cases h with
    | noResolver future none =>
      rw [target_eq_error.mpr (Or.inl ⟨future, none, rfl⟩)]
      rfl
    | unknown spot none =>
      rw [target_eq_error.mpr (Or.inr ⟨spot, none, rfl⟩)]
      rfl
    | disconnected target there down => simp [target, there, down, bind, Except.bind]
    | unsuitable target there up lacks => simp [target, there, up, lacks, bind, Except.bind]

end Registry

namespace Broker

/-- A request asks where its range is stored, since it is not told where to go. -/
def Asks (r : Request) : Prop := r.forceFresh = false ∧ r.localOnly = false

/-- Why a request is turned down. -/
inductive Declines (b : Broker) (now : Instant) (r : Request) : SubmitFailure → Prop
  | nameless (id : r.instrument.id = none) : Declines b now r
      (.refused (.routing ("instrument " ++ r.instrument.symbol ++ " has no id")))
  | inverted {k} (key : r.key? = some k) (range : r.stop < r.start) : Declines b now r
      (.refused (.routing
        ("start " ++ Instant.toText r.start ++ " is after end " ++ Instant.toText r.stop)))
  | unreadable {k e} (key : r.key? = some k) (range : r.start ≤ r.stop) (asks : Asks r)
      (coverage : b.cache.coverage k = .error e) : Declines b now r (.refused (.store e))
  | outsideCalendar {k c} (key : r.key? = some k) (range : r.start ≤ r.stop) (asks : Asks r)
      (coverage : b.cache.coverage k = .ok c) (plan : Route.plan? r c now = none) :
      Declines b now r .outsideCalendar
  | unreachable {k route e} (key : r.key? = some k) (range : r.start ≤ r.stop)
      (routed : b.route now k r = .ok route) (outward : route ≠ .stored)
      (source : b.registry.Unreachable r e) : Declines b now r (.refused (.routing e.message))

variable {b : Broker} {now : Instant} {r : Request} {k : SeriesKey} {e : SubmitFailure}

theorem validate_eq_error : validate r = .error e ↔
    (r.instrument.id = none ∧
        e = .refused (.routing ("instrument " ++ r.instrument.symbol ++ " has no id"))) ∨
      (∃ k, r.key? = some k ∧ r.stop < r.start ∧ e = .refused (.routing
        ("start " ++ Instant.toText r.start ++ " is after end " ++ Instant.toText r.stop))) := by
  unfold validate Request.key?
  cases r.instrument.id with
  | none => simp [eq_comm]
  | some id => by_cases hrange : r.stop < r.start <;> simp [hrange, eq_comm]

theorem route_eq_error : b.route now k r = .error e ↔ Asks r ∧
    ((∃ e', b.cache.coverage k = .error e' ∧ e = .refused (.store e')) ∨
      ∃ c, b.cache.coverage k = .ok c ∧ Route.plan? r c now = none ∧ e = .outsideCalendar) := by
  unfold route Asks
  cases r.forceFresh with
  | true => simp
  | false =>
    cases r.localOnly with
    | true => simp
    | false =>
      cases b.cache.coverage k with
      | error e' => simp [eq_comm]
      | ok c => cases hplan : Route.plan? r c now <;> simp [hplan, eq_comm]

theorem slotFor_eq_error {route : Route} : b.slotFor r route = .error e ↔ route ≠ .stored ∧
    ∃ e', b.registry.Unreachable r e' ∧ e = .refused (.routing e'.message) := by
  have hresolve : ∀ e', b.registry.resolve r = .error e' ↔ b.registry.Unreachable r e' :=
    fun e' => Registry.resolve_eq_error
  simp only [← hresolve]
  unfold slotFor
  cases route with
  | stored => simp
  | external => cases b.registry.resolve r <;> simp [eq_comm]
  | split gaps => cases b.registry.resolve r <;> simp [eq_comm]

/-- A request is turned down for these reasons and for no other. -/
theorem submit_eq_error : b.submit now r = .error e ↔ b.Declines now r e := by
  constructor
  · intro h
    rw [submit_eq] at h
    cases hvalid : validate r with
    | error e' =>
      rw [hvalid] at h
      obtain rfl : e' = e := Except.error.inj h
      rcases validate_eq_error.mp hvalid with ⟨hid, rfl⟩ | ⟨k, hkey, hrange, rfl⟩
      · exact .nameless hid
      · exact .inverted hkey hrange
    | ok k =>
      obtain ⟨hkey, hrange⟩ := validate_eq_ok.mp hvalid
      rw [hvalid] at h
      simp only at h
      cases hroute : b.route now k r with
      | error e' =>
        rw [hroute] at h
        obtain rfl : e' = e := Except.error.inj h
        obtain ⟨hasks, ⟨_, hcoverage, rfl⟩ | ⟨_, hcoverage, hplan, rfl⟩⟩ := route_eq_error.mp hroute
        · exact .unreadable hkey hrange hasks hcoverage
        · exact .outsideCalendar hkey hrange hasks hcoverage hplan
      | ok route =>
        rw [hroute] at h
        simp only at h
        cases hslot : b.slotFor r route with
        | error e' =>
          rw [hslot] at h
          obtain rfl : e' = e := Except.error.inj h
          obtain ⟨houtward, _, hsource, rfl⟩ := slotFor_eq_error.mp hslot
          exact .unreachable hkey hrange hroute houtward hsource
        | ok slot =>
          rw [hslot] at h
          cases h
  · intro h
    rw [submit_eq]
    cases h with
    | nameless id => rw [validate_eq_error.mpr (Or.inl ⟨id, rfl⟩)]
    | inverted key range => rw [validate_eq_error.mpr (Or.inr ⟨_, key, range, rfl⟩)]
    | unreadable key range asks coverage =>
      rw [validate_eq_ok.mpr ⟨key, range⟩]
      simp only [route_eq_error.mpr ⟨asks, Or.inl ⟨_, coverage, rfl⟩⟩]
    | outsideCalendar key range asks coverage plan =>
      rw [validate_eq_ok.mpr ⟨key, range⟩]
      simp only [route_eq_error.mpr ⟨asks, Or.inr ⟨_, coverage, plan, rfl⟩⟩]
    | unreachable key range routed outward source =>
      rw [validate_eq_ok.mpr ⟨key, range⟩]
      simp only [routed, slotFor_eq_error.mpr ⟨outward, _, source, rfl⟩]

end Broker

namespace Session

/-- Why a subscription is turned down. -/
inductive TurnsAway (s : Session) (r : Subscription) : SubmitFailure → Prop
  | shutDown (down : s.simulator.isShutDown = true) :
      TurnsAway s r (.refused (.routing "simulator is shut down"))
  | nameless (up : s.simulator.isShutDown = false) (id : r.instrument.id = none) : TurnsAway s r
      (.refused (.routing ("instrument " ++ r.instrument.symbol ++ " has no id")))
  | live {k} (up : s.simulator.isShutDown = false) (key : (Simulator.fetchFor r).key? = some k)
      (there : s.simulator.index.contains r.requestId = true) : TurnsAway s r
      (.refused (.routing ("subscription " ++ r.requestId.toNat.repr ++ " already exists")))
  | declined {k e} (up : s.simulator.isShutDown = false)
      (key : (Simulator.fetchFor r).key? = some k)
      (new : s.simulator.index.contains r.requestId = false)
      (first : s.simulator.feeds.find? k = none)
      (fetch : s.broker.Declines s.instant (Simulator.fetchFor r) e) : TurnsAway s r e

theorem subscribe_eq_error {s : Session} {r : Subscription} {e : SubmitFailure} :
    s.simulator.subscribe s.broker s.instant s.now r = .error e ↔ s.TurnsAway r e := by
  have hkey : (Simulator.fetchFor r).key? = none ↔ r.instrument.id = none := Option.map_eq_none_iff
  constructor
  · intro h
    unfold Simulator.subscribe at h
    split at h
    · rename_i hdown
      obtain rfl := Except.error.inj h
      exact .shutDown hdown
    rename_i hup
    have hup : s.simulator.isShutDown = false := by simpa using hup
    split at h
    · rename_i hnone
      obtain rfl := Except.error.inj h
      exact .nameless hup (hkey.mp hnone)
    rename_i k hk
    split at h
    · rename_i hthere
      obtain rfl := Except.error.inj h
      exact .live hup hk hthere
    rename_i hnew
    have hnew : s.simulator.index.contains r.requestId = false := by simpa using hnew
    split at h
    · cases h
    rename_i hfirst
    cases hsubmit : s.broker.submit s.instant (Simulator.fetchFor r) with
    | error e' =>
      rw [hsubmit] at h
      obtain rfl : e' = e := Except.error.inj h
      exact .declined hup hk hnew hfirst (Broker.submit_eq_error.mp hsubmit)
    | ok accepted =>
      rw [hsubmit] at h
      cases h
  · intro h
    unfold Simulator.subscribe
    cases h with
    | shutDown down => rw [if_pos down]
    | nameless up id => simp [up, hkey.mpr id]
    | live up key there => simp [up, key, there]
    | declined up key new first fetch =>
      simp [up, key, new, first, Broker.submit_eq_error.mpr fetch, bind, Except.bind]

/-- A submission fails for the reasons of the broker, and then changes nothing. -/
theorem submit_failed_iff {s s' : Session} {r : Request} {e : SubmitFailure} :
    s.submit r = (s', .error e) ↔ s' = s ∧ s.broker.Declines s.instant r e := by
  rw [← Broker.submit_eq_error]
  unfold submit
  cases s.broker.submit s.instant r with
  | error e' => simp [eq_comm]
  | ok accepted => simp

/-- A subscription fails for these reasons, and then changes nothing. -/
theorem subscribe_failed_iff {s s' : Session} {r : Subscription} {e : SubmitFailure} :
    s.subscribe r = (s', .error e) ↔ s' = s ∧ s.TurnsAway r e := by
  rw [← subscribe_eq_error]
  unfold subscribe
  cases s.simulator.subscribe s.broker s.instant s.now r with
  | error e' => simp [eq_comm]
  | ok taken =>
    obtain ⟨simulator, broker, joined⟩ := taken
    simp only
    split <;> simp

/-- **A request that is turned down leaves no trace.** Submitting and subscribing are what they do in
place, one step after the other and without taking anything back. In whatever state a session
is, they fail for the reasons that are listed and for no other, and whenever they fail the
whole session is as it was: the tables of requests, the store, the count of numbers, sources,
tasks and channels, feeds, index and schedule, all subscribers, and the events published. -/
theorem rejected_leaves_no_trace (s : Session) :
    (∀ r, (submitting r).run s = ((s.submit r).2, (s.submit r).1)) ∧
    (∀ r, (subscribing r).run s = ((s.subscribe r).2, (s.subscribe r).1)) ∧
    (∀ r e s', (submitting r).run s = (.error e, s')
      ↔ s' = s ∧ s.broker.Declines s.instant r e) ∧
    (∀ r e s', (subscribing r).run s = (.error e, s') ↔ s' = s ∧ s.TurnsAway r e) := by
  refine ⟨fun r => run_submitting r s, fun r => run_subscribing r s, fun r e s' => ?_,
    fun r e s' => ?_⟩
  · rw [run_submitting, ← submit_failed_iff, Prod.ext_iff, Prod.ext_iff]
    exact and_comm
  · rw [run_subscribing, ← subscribe_failed_iff, Prod.ext_iff, Prod.ext_iff]
    exact and_comm

end Session

end BarArchive
