/-
Requests for regular hours only, and for all hours.

No step of the broker looks at whether a request wants regular hours only, but for the one
that answers it. If the wish of one request is toggled, and that of all the parts that it
is split into, then every step comes to the same, with the wish toggled in whatever the step
left behind: in the table, in the work that is left and in the history. The store, the
sources and the numbers are the same, and so is every answer to another request.

The answer to the request itself has the bars that are presented under the toggled wish.
These can be told from the answer that was given if that one has all bars, so the toggling
goes from a request that wants all hours to one that wants regular hours.
-/
import BarArchive.Proofs.Renaming

namespace BarArchive

/-! ### Tables -/

namespace Table

variable {κ α : Type} [DecidableEq κ]

/-- The table with each entry changed in its place. -/
def adapt (g : κ → α → α) (t : Table κ α) : Table κ α := ⟨t.entries.map fun e => (e.1, g e.1 e.2)⟩

variable (g : κ → α → α) (t : Table κ α)

theorem find?_adapt (k : κ) : (t.adapt g).find? k = (t.find? k).map (g k) := find?_map t g k

theorem put_map (k : κ) (a : α) (es : List (κ × α)) :
    (put k a es).map (fun e => (e.1, g e.1 e.2)) =
      put k (g k a) (es.map fun e => (e.1, g e.1 e.2)) := by
  induction es with
  | nil => rfl
  | cons e es ih =>
      by_cases he : e.1 = k
      · simp [put, he]
      · simp [put, he, ih]

theorem adapt_insert (k : κ) (a : α) :
    (t.insert k a).adapt g = (t.adapt g).insert k (g k a) :=
  congrArg Table.mk (put_map g k a t.entries)

theorem adapt_erase (k : κ) : (t.erase k).adapt g = (t.adapt g).erase k := by
  unfold adapt erase
  rw [List.filter_map]
  rfl

theorem adapt_modify (k : κ) {f : α → α} (h : ∀ a, g k (f a) = f (g k a)) :
    (t.modify k f).adapt g = (t.adapt g).modify k f := by
  unfold modify
  rw [find?_adapt]
  cases t.find? k with
  | none => rfl
  | some a => simp only [Option.map_some, adapt_insert, h]

theorem ne_of_lookup_eq_none {k : κ} {es : List (κ × α)} (h : lookup k es = none) :
    ∀ e ∈ es, e.1 ≠ k := by
  induction es with
  | nil => exact fun e he => nomatch he
  | cons e es ih =>
      unfold lookup at h
      split at h
      · cases h
      · rename_i hne
        exact List.forall_mem_cons.mpr ⟨hne, ih h⟩

/-- A change of what is filed under one key changes nothing if nothing is. -/
theorem adapt_eq_self {g : κ → α → α} {t : Table κ α} {k : κ} (hnone : t.find? k = none)
    (hg : ∀ j a, j ≠ k → g j a = a) : t.adapt g = t := by
  have hmap : t.entries.map (fun e => (e.1, g e.1 e.2)) = t.entries.map id :=
    List.map_congr_left fun e he => by rw [hg e.1 e.2 (ne_of_lookup_eq_none hnone e he)]; rfl
  exact congrArg Table.mk (hmap.trans (List.map_id _))

end Table

/-! ### The other wish -/

/-- The request with the other wish. -/
def Request.toggled (r : Request) : Request := { r with regularHoursOnly := !r.regularHoursOnly }

/-- The waiting request with the other wish. -/
def Waiting.toggled (x : Waiting) : Waiting := { x with request := x.request.toggled }

/-- The reply to the request with the other wish, if this one has all bars. -/
def Reply.toggled (reply : Reply) : Reply :=
  ⟨reply.request.toggled, Broker.presented reply.request.toggled reply.bars⟩

section

variable (p : AssignedId)

/-- The request with the other wish, if it is made for the request `p`. -/
def Request.toggledFor (r : Request) : Request := if r.owner? = some p then r.toggled else r

/-- The piece of work with the other wish for the request `p`. -/
def Job.toggled : Job → Job
  | .fetch r => .fetch (r.toggledFor p)
  | .serve id => .serve id

/-- What is left to do, with the other wish. -/
def Work.toggled : Work → Work
  | .fetch slot requests => .fetch slot (requests.map Request.toggled)
  | .serve id => .serve id

/-- The accepted request with the other wish, if it is the request `p`. -/
def toggledEntry (e : Request × Accepted) : Request × Accepted :=
  if e.2.assignedId = p then (e.1.toggled, { e.2 with work := e.2.work.toggled }) else e

/-- The waiting request with the other wish, if it is filed under `p`. -/
def Waiting.toggledAt (q : AssignedId) (x : Waiting) : Waiting := if q = p then x.toggled else x

/-- The table with the other wish for the request `p`. -/
def Inflight.toggled (t : Inflight) : Inflight :=
  { t with waiting := t.waiting.adapt (Waiting.toggledAt p) }

/-- The broker with the other wish for the request `p`. -/
def Broker.toggled (b : Broker) : Broker := { b with inflight := b.inflight.toggled p }

/-- The outcome with the other wish for the request `p`. -/
def Outcome.toggled : Outcome → Outcome
  | .answer id result => .answer id (if id = p then result.map Reply.toggled else result)
  | o => o

/-- What a step comes to with the other wish for the request `p`. -/
def toggledStep (s : Broker × Outcome) : Broker × Outcome := (s.1.toggled p, s.2.toggled p)

/-- The move with the other wish for the request `p`. -/
def Move.toggled : Move → Move
  | .fetched r result => .fetched (r.toggledFor p) result
  | m => m

/-- The world with the other wish for the request `p`. -/
def World.toggled (w : World) : World where
  broker := w.broker.toggled p
  pending := w.pending.map (Job.toggled p)
  accepted := w.accepted.map (toggledEntry p)
  fetched := w.fetched.map fun f => (f.1.toggledFor p, f.2)
  outcomes := w.outcomes.map (Outcome.toggled p)

end

variable {p : AssignedId}

theorem Request.toggled_toggled (r : Request) : r.toggled.toggled = r := by
  unfold Request.toggled
  rw [Bool.not_not]

@[simp] theorem Request.owner?_toggledFor (r : Request) : (r.toggledFor p).owner? = r.owner? := by
  unfold Request.toggledFor
  split <;> rfl

theorem Work.jobs_toggled {work : Work} (h : ∀ j ∈ work.jobs, j.owner? = some p) :
    work.toggled.jobs = work.jobs.map (Job.toggled p) := by
  cases work with
  | serve id => rfl
  | fetch slot requests =>
      simp only [Work.toggled, Work.jobs, List.map_map]
      refine List.map_congr_left fun r hr => ?_
      have howner : r.owner? = some p := h (.fetch r) (List.mem_map_of_mem hr)
      simp only [Function.comp_apply, Job.toggled, Request.toggledFor, if_pos howner]

theorem Request.toggledFor_toggledFor (r : Request) : (r.toggledFor p).toggledFor p = r := by
  unfold Request.toggledFor
  by_cases h : r.owner? = some p
  · rw [if_pos h, if_pos (show r.toggled.owner? = some p from h), Request.toggled_toggled]
  · rw [if_neg h, if_neg h]

theorem Job.toggled_toggled (j : Job) : (j.toggled p).toggled p = j := by
  cases j with
  | fetch r => exact congrArg Job.fetch r.toggledFor_toggledFor
  | serve id => rfl

theorem Job.toggled_injective : Function.Injective (Job.toggled p) :=
  Function.LeftInverse.injective Job.toggled_toggled

@[simp] theorem Job.owner?_toggled (j : Job) : (j.toggled p).owner? = j.owner? := by
  cases j with
  | fetch r => exact r.owner?_toggledFor
  | serve id => rfl

theorem Job.toggled_of_ne {j : Job} (h : j.owner? ≠ some p) : j.toggled p = j := by
  cases j with
  | fetch r => exact congrArg Job.fetch (if_neg h)
  | serve id => rfl

/-! ### The table -/

namespace Inflight

variable (t : Inflight) (q c : AssignedId)

theorem find?_toggled :
    (t.toggled p).waiting.find? q = (t.waiting.find? q).map (Waiting.toggledAt p q) :=
  Table.find?_adapt _ _ q

/-- A table is as it is with the other wish of a request that does not wait. -/
theorem adapt_of_none {t : Inflight} (h : t.waiting.find? p = none) :
    t.waiting.adapt (Waiting.toggledAt p) = t.waiting :=
  Table.adapt_eq_self h fun _ _ hj => if_neg hj

theorem contains_toggled : (t.toggled p).contains q = t.contains q := by
  unfold Inflight.contains Table.contains
  rw [find?_toggled, Option.isSome_map]

theorem toggled_insertRequest (hq : q ≠ p) (r : Request) :
    (t.insertRequest q r).toggled p = (t.toggled p).insertRequest q r := by
  unfold Inflight.toggled Inflight.insertRequest
  rw [Table.adapt_insert, Waiting.toggledAt, if_neg hq]

theorem take?_toggled : (t.toggled p).take? q =
    (t.take? q).map fun x => (x.1.toggledAt p q, x.2.toggled p) := by
  unfold Inflight.take?
  rw [find?_toggled, Option.map_map, Option.map_map]
  refine congrArg (fun f => (t.waiting.find? q).map f) (funext fun x => ?_)
  simp only [Function.comp_apply, Inflight.toggled, Table.adapt_erase]

theorem retire?_toggled : (t.toggled p).retire? q c = (t.retire? q c).map (Inflight.toggled p) := by
  unfold Inflight.retire?
  rw [Option.map_map]
  refine congrArg (fun f => (t.aborted.find? q).map f) (funext fun cs => ?_)
  simp only [Function.comp_apply]
  cases without c cs <;> rfl

theorem abort?_toggled : (t.toggled p).abort? q c =
    (t.abort? q c).map fun x => (x.1.toggledAt p q, x.2.toggled p) := by
  unfold Inflight.abort?
  rw [take?_toggled]
  cases t.take? q with
  | none => rfl
  | some x =>
      obtain ⟨x, t'⟩ := x
      have hparts : (t'.toggled p).parts = t'.parts := rfl
      simp only [Option.map_some, hparts]
      cases t'.parts.find? q with
      | none => rfl
      | some cs => cases hrest : without c cs <;> simp only [hrest] <;> rfl

theorem toggled_addToStash (bars : List Bar) :
    (t.addToStash q bars).toggled p = (t.toggled p).addToStash q bars := by
  unfold Inflight.toggled Inflight.addToStash
  rw [Table.adapt_modify]
  intro x
  unfold Waiting.toggledAt
  split <;> rfl

theorem complete_toggled : (t.toggled p).complete q c =
    ((t.complete q c).1.map (Waiting.toggledAt p q), (t.complete q c).2.toggled p) := by
  have hparts : (t.toggled p).parts = t.parts := rfl
  unfold Inflight.complete
  rw [hparts]
  cases without c ((t.parts.find? q).getD []) with
  | nil =>
      have htake := take?_toggled (p := p) { t with parts := t.parts.erase q } q
      have hleft : { t.toggled p with parts := t.parts.erase q } =
          Inflight.toggled p { t with parts := t.parts.erase q } := rfl
      simp only [hleft, htake]
      cases Inflight.take? { t with parts := t.parts.erase q } q <;> rfl
  | cons d ds => rfl

end Inflight

/-! ### The steps -/

/-- The request `p` wants all bars, if it waits. -/
def Broker.ShowsAll (b : Broker) (p : AssignedId) : Prop :=
  ∀ x, b.inflight.waiting.find? p = some x → x.request.regularHoursOnly = false

theorem Broker.ShowsAll.mono {b b' : Broker} (h : b.ShowsAll p)
    (hin : b'.inflight.RequestsIn b.inflight) : b'.ShowsAll p := by
  intro x' hx'
  obtain ⟨x, hx, hrequest⟩ := hin p x' hx'
  rw [hrequest]
  exact h x hx

namespace Broker

variable {b : Broker}

theorem inflight_toggled (b : Broker) : (b.toggled p).inflight = b.inflight.toggled p := rfl

/-- A request that wants all bars is presented with all bars. -/
theorem presented_all {r : Request} (h : r.regularHoursOnly = false) (bars : List Bar) :
    presented r bars = bars := by
  unfold presented
  rw [h]
  rfl

theorem answer_toggled {q : AssignedId} {x : Waiting}
    (h : q = p → x.request.regularHoursOnly = false) (result : Except BrokerError (List Bar)) :
    answer q (x.toggledAt p q) result = (answer q x result).toggled p := by
  unfold answer Outcome.toggled Waiting.toggledAt
  by_cases hq : q = p
  · rw [if_pos hq]
    simp only [if_pos hq]
    cases result with
    | error e => rfl
    | ok bars =>
        simp only [Except.map, Reply.toggled, Waiting.toggled, presented_all (h hq)]
  · simp only [if_neg hq]

theorem stored_toggledAt (b : Broker) (q : AssignedId) (x : Waiting) :
    (b.toggled p).stored (x.toggledAt p q).request = b.stored x.request := by
  unfold Waiting.toggledAt
  split <;> rfl

/-- An answer to a request that was taken out of the table. -/
theorem answered_toggled {q : AssignedId} {x : Waiting} (h : b.ShowsAll p)
    (hx : b.inflight.waiting.find? q = some x) (t : Inflight)
    (result : Except BrokerError (List Bar)) :
    ({ b.toggled p with inflight := t.toggled p }, answer q (x.toggledAt p q) result) =
      toggledStep p ({ b with inflight := t }, answer q x result) :=
  congrArg (Prod.mk _) (answer_toggled (fun hq => h x (by rw [← hq]; exact hx)) result)

theorem finish_toggled (h : b.ShowsAll p) (q : AssignedId) (result : Except BrokerError (List Bar)) :
    (b.toggled p).finish q result = toggledStep p (b.finish q result) := by
  have htake := Inflight.take?_toggled (p := p) b.inflight q
  unfold finish
  rw [inflight_toggled, htake]
  cases htaken : b.inflight.take? q with
  | none => rfl
  | some x => exact answered_toggled h (Inflight.take?_eq_some htaken).1 x.2 result

theorem abort_toggled (h : b.ShowsAll p) (q c : AssignedId) (e : BrokerError) :
    (b.toggled p).abort q c e = toggledStep p (b.abort q c e) := by
  have habort := Inflight.abort?_toggled (p := p) b.inflight q c
  unfold abort
  rw [inflight_toggled, habort]
  cases haborted : b.inflight.abort? q c with
  | none => rfl
  | some x => exact answered_toggled h (Inflight.abort?_eq_some haborted).1 x.2 _

theorem serve_toggled (h : b.ShowsAll p) (q : AssignedId) :
    (b.toggled p).serve q = toggledStep p (b.serve q) := by
  have htake := Inflight.take?_toggled (p := p) b.inflight q
  unfold serve
  rw [inflight_toggled, htake]
  cases htaken : b.inflight.take? q with
  | none => rfl
  | some x =>
      simp only [Option.map_some, stored_toggledAt]
      exact answered_toggled h (Inflight.take?_eq_some htaken).1 x.2 _

theorem completePart_toggled (h : b.ShowsAll p) (q c : AssignedId) :
    (b.toggled p).completePart q c = toggledStep p (b.completePart q c) := by
  have hcomplete := Inflight.complete_toggled (p := p) b.inflight q c
  unfold completePart
  rw [inflight_toggled, hcomplete]
  rcases b.inflight.complete_cases q c with ⟨x, t, heq, hx, -⟩ | ⟨t, heq, -⟩
  · have hstash : (x.toggledAt p q).stash = x.stash := by
      unfold Waiting.toggledAt
      split <;> rfl
    have hmerge : ∀ bars stash, merge bars stash (x.toggledAt p q).request =
        merge bars stash x.request := by
      intro bars stash
      unfold Waiting.toggledAt
      split <;> rfl
    rw [heq]
    simp only [Option.map_some, stored_toggledAt, hstash, hmerge]
    exact answered_toggled h hx t _
  · rw [heq]
    rfl

theorem keep_toggled (r : Request) (bars : List Bar) :
    (b.toggled p).keep r bars = ((b.keep r bars).1.toggled p, (b.keep r bars).2) := by
  unfold keep
  split <;> rfl

theorem arrive_toggled (h : b.ShowsAll p) (q : AssignedId) (r : Request) (bars : List Bar) :
    (b.toggled p).arrive q r bars = toggledStep p (b.arrive q r bars) := by
  unfold arrive
  rw [inflight_toggled, Inflight.contains_toggled, keep_toggled]
  split
  · rfl
  · split
    · exact finish_toggled h q _
    · have hkept : (b.keep r bars).1.ShowsAll p :=
        h.mono (Inflight.requestsIn_of_eq (congrArg Inflight.waiting (inflight_keep b r bars)))
      generalize b.keep r bars = s at hkept
      obtain ⟨b', result⟩ := s
      cases result with
      | ok n => exact finish_toggled hkept q _
      | error e =>
          cases e with
          | refused cause => exact finish_toggled hkept q _
          | overflow => rfl

theorem arrivePart_toggled (h : b.ShowsAll p) (q c : AssignedId) (r : Request) (bars : List Bar) :
    (b.toggled p).arrivePart q c r bars = toggledStep p (b.arrivePart q c r bars) := by
  unfold arrivePart
  rw [inflight_toggled, Inflight.retire?_toggled, Inflight.contains_toggled, keep_toggled]
  cases b.inflight.retire? q c with
  | some t => rfl
  | none =>
      simp only [Option.map_none]
      split
      · rfl
      · split
        · rw [← Inflight.toggled_addToStash]
          exact completePart_toggled (b := { b with inflight := b.inflight.addToStash q bars })
            (h.mono (Inflight.requestsIn_addToStash b.inflight q bars)) q c
        · have hkept : (b.keep r bars).1.ShowsAll p :=
            h.mono (Inflight.requestsIn_of_eq (congrArg Inflight.waiting (inflight_keep b r bars)))
          generalize b.keep r bars = s at hkept
          obtain ⟨b', result⟩ := s
          cases result with
          | ok n => exact completePart_toggled hkept q c
          | error e =>
              cases e with
              | refused cause => exact abort_toggled hkept q c _
              | overflow => rfl

theorem fail_toggled (h : b.ShowsAll p) (c : AssignedId) (parent : Option AssignedId)
    (e : MarketError) : (b.toggled p).fail c parent e = toggledStep p (b.fail c parent e) := by
  unfold fail
  cases parent with
  | none => exact finish_toggled h c _
  | some q =>
      simp only [inflight_toggled, Inflight.retire?_toggled]
      cases b.inflight.retire? q c with
      | some t => rfl
      | none => exact abort_toggled h q c _

/-- What a source delivers comes to the same, and the wish of the fetch does not matter. -/
theorem deliver_toggled (h : b.ShowsAll p) (r : Request) (result : Except MarketError (List Bar)) :
    (b.toggled p).deliver (r.toggledFor p) result = toggledStep p (b.deliver r result) := by
  have hwish : (b.toggled p).deliver (r.toggledFor p) result = (b.toggled p).deliver r result := by
    unfold Request.toggledFor
    split <;> rfl
  rw [hwish]
  unfold deliver
  cases r.assignedId with
  | none => cases result <;> rfl
  | some id =>
      cases result with
      | error e => exact fail_toggled h id r.parentId e
      | ok bars =>
          cases r.parentId with
          | none => exact arrive_toggled h id r bars
          | some q => exact arrivePart_toggled h q id r bars

theorem addData_toggled (b : Broker) (a : Addition) :
    (b.toggled p).addData a = ((b.addData a).1.toggled p, (b.addData a).2) := by
  have hcache : (b.toggled p).cache = b.cache := rfl
  unfold addData
  rw [hcache]
  split
  · rfl
  · split
    · rfl
    · simp only
      split <;> rfl

/-! ### Requests that are accepted -/

/-- A request is filed in the same way whatever another one wishes. -/
theorem accept_other (hnew : b.ids.next.1 ≠ p) (r : Request) (route : Route) (slot : Option Slot) :
    (b.toggled p).accept r route slot =
      ((b.accept r route slot).1, (b.accept r route slot).2.toggled p) := by
  have hfiled := fun q : Request =>
    Inflight.toggled_insertRequest b.inflight b.ids.next.1 hnew q
  have hparts : ∀ (t : Inflight) (cs : List AssignedId),
      (t.insertParts b.ids.next.1 cs).toggled p = (t.toggled p).insertParts b.ids.next.1 cs :=
    fun _ _ => rfl
  unfold accept
  cases slot with
  | none => cases route <;> simp only [toggled, hfiled]
  | some slot => cases route <;> simp only [toggled, hparts, hfiled]

/-- The parts of a request with the other wish have the other wish. -/
theorem partsFor_toggled (r : Request) : ∀ (gaps : List Gap) (ids : Allocator),
    partsFor r.toggled gaps ids =
      ((partsFor r gaps ids).1.map Request.toggled, (partsFor r gaps ids).2) := by
  intro gaps
  induction gaps with
  | nil => intro ids; rfl
  | cons g gaps ih =>
      intro ids
      unfold partsFor
      simp only [ih]
      rfl

/-- A request with the other wish is filed with it, and so is what is left to do for it. -/
theorem accept_self (hnone : b.inflight.waiting.find? b.ids.next.1 = none) (r : Request)
    (route : Route) (slot : Option Slot) : b.accept r.toggled route slot =
      ({ (b.accept r route slot).1 with work := (b.accept r route slot).1.work.toggled },
        (b.accept r route slot).2.toggled b.ids.next.1) := by
  have hfiled : ∀ q : Request, b.inflight.insertRequest b.ids.next.1 q.toggled =
      (b.inflight.insertRequest b.ids.next.1 q).toggled b.ids.next.1 := by
    intro q
    have hold := Inflight.adapt_of_none hnone
    unfold Inflight.insertRequest Inflight.toggled
    rw [Table.adapt_insert, hold, Waiting.toggledAt, if_pos rfl]
    rfl
  have hparts : ∀ (t : Inflight) (cs : List AssignedId), (t.insertParts b.ids.next.1 cs).toggled
      b.ids.next.1 = (t.toggled b.ids.next.1).insertParts b.ids.next.1 cs := fun _ _ => rfl
  have hnumbers : ∀ requests : List Request,
      (requests.map Request.toggled).filterMap (·.assignedId) =
        requests.filterMap (·.assignedId) := by
    intro requests
    rw [List.filterMap_map]
    rfl
  have hpartsFor := partsFor_toggled { r with assignedId := some b.ids.next.1, parentId := none }
  have htoggled : ({ r.toggled with assignedId := some b.ids.next.1, parentId := none } : Request) =
    Request.toggled { r with assignedId := some b.ids.next.1, parentId := none } := rfl
  unfold accept
  cases slot with
  | none => cases route <;> simp only [toggled, Work.toggled, htoggled, hfiled] <;> rfl
  | some slot =>
      cases route <;> simp only [toggled, Work.toggled, htoggled, hparts, hpartsFor, hnumbers,
        hfiled] <;> rfl

end Broker

/-! ### Worlds -/

namespace World

variable {w w' : World}

theorem take_toggled (w : World) (j : Job)
    (fetched : Option (Request × Except MarketError (List Bar))) :
    (w.take j fetched).toggled p = (w.toggled p).take (j.toggled p)
      (fetched.map fun f => (f.1.toggledFor p, f.2)) := by
  unfold World.take World.toggled
  simp only [List.map_erase Job.toggled_injective, List.map_append]
  cases fetched <;> rfl

theorem after_toggled (w : World) (owner : Option AssignedId) (step : Broker × Outcome) :
    (w.after owner step).toggled p = (w.toggled p).after owner (toggledStep p step) := by
  have hoverflow : (toggledStep p step).2.isOverflow = step.2.isOverflow := by
    show (step.2.toggled p).isOverflow = _
    cases step.2 <;> rfl
  have habandon : ∀ v : World, (v.abandon owner).toggled p = (v.toggled p).abandon owner := by
    intro v
    unfold World.abandon World.toggled
    simp only [List.filter_map, Function.comp_def, Job.owner?_toggled]
  unfold World.after
  rw [hoverflow]
  split
  · rw [habandon]
    rfl
  · rfl

/-- Work for a request is left in the same way whatever another one wishes. -/
theorem enroll_other {r : Request} {a : Accepted} {b : Broker} (hid : a.assignedId ≠ p)
    (howned : ∀ j ∈ a.work.jobs, j.owner? = some a.assignedId) :
    (w.enroll r a b).toggled p = (w.toggled p).enroll r a (b.toggled p) := by
  have hjobs : a.work.jobs.map (Job.toggled p) = a.work.jobs.map id := by
    refine List.map_congr_left fun j hj => Job.toggled_of_ne ?_
    rw [howned j hj]
    exact fun h => hid (Option.some.inj h)
  unfold World.enroll World.toggled
  simp only [List.map_append, hjobs, List.map_id, List.map_cons, toggledEntry, if_neg hid]

/-- A move comes to the same with the other wish of a request that was accepted before. -/
theorem step_toggled (hall : w.broker.ShowsAll p) (m : Move)
    (hnew : ∀ now r x, m = .submit now r → w.broker.submit now r = .ok x →
      w.broker.ids.next.1 ≠ p) :
    (w.toggled p).step? (m.toggled p) = (w.step? m).map (World.toggled p) := by
  have hpending : ∀ j, j.toggled p ∈ (w.toggled p).pending ↔ j ∈ w.pending := fun j =>
    List.mem_map_of_injective Job.toggled_injective
  cases m with
  | submit now r =>
      have halike := Broker.submit_alike (b := w.broker) (c := w.broker.toggled p) (r := r) now rfl
        (fun k _ => rfl) (fun route => rfl)
      simp only [step?, Move.toggled]
      rcases halike with ⟨e, hsubmit, hsubmit'⟩ | ⟨route, slot, hsubmit, hsubmit'⟩
      · rw [show (w.toggled p).broker = w.broker.toggled p from rfl, hsubmit, hsubmit']
        rfl
      · have hid := hnew now r _ rfl hsubmit
        rw [show (w.toggled p).broker = w.broker.toggled p from rfl, hsubmit, hsubmit',
          Broker.accept_other hid]
        have howned := admission_owned (Broker.submit_cases hsubmit)
        rw [← Broker.assignedId_accept w.broker r route slot] at hid
        exact congrArg some (enroll_other hid howned).symm
  | fetched r result =>
      have hfetch : .fetch (r.toggledFor p) ∈ (w.toggled p).pending ↔ .fetch r ∈ w.pending :=
        hpending (.fetch r)
      simp only [step?, Move.toggled, hfetch]
      split
      · rw [Option.map_some, after_toggled, take_toggled, Request.owner?_toggledFor,
          ← Broker.deliver_toggled hall]
        rfl
      · rfl
  | served id =>
      have hserve : .serve id ∈ (w.toggled p).pending ↔ .serve id ∈ w.pending :=
        hpending (.serve id)
      simp only [step?, Move.toggled, hserve]
      split
      · rw [Option.map_some, after_toggled, take_toggled, ← Broker.serve_toggled hall]
        rfl
      · rfl
  | added a =>
      have hadded : (w.toggled p).broker.addData a =
          ((w.broker.addData a).1.toggled p, (w.broker.addData a).2) :=
        Broker.addData_toggled w.broker a
      simp only [step?, Move.toggled, hadded]
      cases (w.broker.addData a).2 <;> rfl
  | refused refusals => rfl
  | connected slot up => rfl

/-- A request that is accepted wants what it wanted, and so do those that wait already. -/
theorem showsAll_step {m : Move} (h : w.broker.ShowsAll p) (hstep : w.step? m = some w')
    (hnew : ∀ now r x, m = .submit now r → w.broker.submit now r = .ok x →
      w.broker.ids.next.1 ≠ p) : w'.broker.ShowsAll p := by
  cases makes_of_step hstep with
  | @accepted now r a b hsubmit =>
      have hid : a.assignedId ≠ p := by
        obtain ⟨k, route, slot, -, -, -, haccept⟩ := Broker.submit_eq_ok.mp hsubmit
        have hfirst := Broker.assignedId_accept w.broker r route slot
        rw [haccept] at hfirst
        rw [hfirst]
        exact hnew now r _ rfl hsubmit
      intro x hx
      have hwaiting : (w.enroll r a b).broker.inflight.waiting.find? p = _ :=
        Broker.waiting_of_submit hsubmit p
      rw [if_neg hid.symm] at hwaiting
      exact h x (hwaiting.symm.trans hx)
  | declined => exact h
  | @fetched r result _ =>
      rw [broker_after]
      exact h.mono (Broker.settles_deliver w.broker r result).kept
  | @served id _ =>
      rw [broker_after]
      exact h.mono (Broker.settles_serve w.broker id).kept
  | @added a =>
      refine h.mono (Inflight.requestsIn_of_eq ?_)
      show (w.broker.addData a).1.inflight.waiting = _
      rw [Broker.addData_fst]
  | refused => exact h
  | connected => exact h

theorem issued_toggled (w : World) : (w.toggled p).issued = w.issued := by
  have hnumbers : ∀ requests : List Request,
      ((requests.map Request.toggled).filter Request.isPart).filterMap (·.assignedId) =
        (requests.filter Request.isPart).filterMap (·.assignedId) := by
    intro requests
    rw [List.filter_map, List.filterMap_map]
    rfl
  have hids : ∀ e : Request × Accepted, (toggledEntry p e).2.ids = e.2.ids := by
    intro e
    unfold toggledEntry
    split
    · unfold Accepted.ids
      cases e.2.work with
      | fetch slot requests => exact congrArg (e.2.assignedId :: ·) (hnumbers requests)
      | serve id => rfl
    · rfl
  unfold World.issued World.toggled
  simp only [List.flatMap_map, hids]

/-- The number of a request that is accepted was not given out before. -/
theorem next_ne {now : Instant} {r : Request} {x : Accepted × Broker} (hp : p ∈ w.issued)
    (hsubmit : w.broker.submit now r = .ok x) (hstep : w.step? (.submit now r) = some w')
    (hids : w'.issued.Nodup) : w.broker.ids.next.1 ≠ p := by
  obtain ⟨a, b⟩ := x
  obtain ⟨k, route, slot, -, -, -, haccept⟩ := Broker.submit_eq_ok.mp hsubmit
  have hfirst := Broker.assignedId_accept w.broker r route slot
  rw [haccept] at hfirst
  obtain rfl := Option.some.inj ((step_enroll hsubmit).symm.trans hstep)
  rw [issued_enroll] at hids
  rintro rfl
  exact (List.nodup_append.mp hids).2.2 _ List.mem_cons_self _ hp hfirst

/--
A run comes to the same with the other wish of a request that was accepted before, and every
run with the other wish is one of those.
-/
theorem run_toggled {moves : List Move} : ∀ {w v' : World}, w.broker.ShowsAll p → p ∈ w.issued →
    v'.issued.Nodup → ((w.toggled p).run? (moves.map (Move.toggled p)) = some v' ↔
      ∃ v, w.run? moves = some v ∧ v.toggled p = v') := by
  induction moves with
  | nil =>
      intro w v' _ _ _
      simp [World.run?]
  | cons m moves ih =>
      intro w v' hall hp hids
      have hlater : ∀ {u}, w.step? m = some u → p ∈ u.issued := fun hstep => by
        obtain ⟨e, he, hmem⟩ := List.mem_flatMap.mp hp
        exact List.mem_flatMap.mpr ⟨e, accepted_step hstep he, hmem⟩
      rw [List.map_cons, run?_cons]
      constructor
      · rintro ⟨u', hstep', hrest'⟩
        have hnew : ∀ now r x, m = .submit now r → w.broker.submit now r = .ok x →
            w.broker.ids.next.1 ≠ p := by
          rintro now r x rfl hsubmit
          rw [← issued_toggled (p := p) w] at hp
          obtain ⟨x', hsubmit'⟩ : ∃ x', (w.toggled p).broker.submit now r = .ok x' := by
            rcases Broker.submit_alike (b := w.broker) (c := (w.toggled p).broker) (r := r) now rfl
              (fun _ _ => rfl) (fun _ => rfl) with ⟨e, herror, -⟩ | ⟨route, slot, -, hok⟩
            · rw [hsubmit] at herror
              cases herror
            · exact ⟨_, hok⟩
          exact next_ne (w := w.toggled p) hp hsubmit' hstep' (nodup_issued_of_run hrest' hids)
        rw [step_toggled hall m hnew] at hstep'
        obtain ⟨u, hstep, rfl⟩ := Option.map_eq_some_iff.mp hstep'
        obtain ⟨v, hrest, heq⟩ :=
          (ih (showsAll_step hall hstep hnew) (hlater hstep) hids).mp hrest'
        exact ⟨v, run?_cons.mpr ⟨u, hstep, hrest⟩, heq⟩
      · rintro ⟨v, hrun, rfl⟩
        obtain ⟨u, hstep, hrest⟩ := run?_cons.mp hrun
        have hids' : v.issued.Nodup := by rwa [issued_toggled] at hids
        have hnew : ∀ now r x, m = .submit now r → w.broker.submit now r = .ok x →
            w.broker.ids.next.1 ≠ p := by
          rintro now r x rfl hsubmit
          exact next_ne hp hsubmit hstep (nodup_issued_of_run hrest hids')
        refine ⟨u.toggled p, ?_, ?_⟩
        · rw [step_toggled hall m hnew, hstep]
          rfl
        · exact (ih (showsAll_step hall hstep hnew) (hlater hstep) hids).mpr ⟨v, hrest, rfl⟩

/-- Nothing changes with the other wish of a request that was never made. -/
theorem toggled_blank (hblank : w.view p = {}) (hnew : p ∉ w.acceptedIds) :
    w.pending.map (Job.toggled p) = w.pending ∧ w.accepted.map (toggledEntry p) = w.accepted ∧
      w.fetched.map (fun f => (f.1.toggledFor p, f.2)) = w.fetched ∧
      w.outcomes.map (Outcome.toggled p) = w.outcomes := by
  have hjobs : w.jobs p = [] := congrArg View.jobs hblank
  have hfetches : w.fetches p = [] := congrArg View.fetches hblank
  have hanswers : w.answers p = [] := congrArg View.answers hblank
  have hself : ∀ {α : Type} {f : α → α} {l : List α}, (∀ a ∈ l, f a = a) → l.map f = l :=
    fun h => (List.map_congr_left h).trans (List.map_id _)
  refine ⟨hself fun j hj => Job.toggled_of_ne fun howner => ?_, hself fun e he => ?_,
    hself fun f hf => ?_, hself fun o ho => ?_⟩
  · have hmem : j ∈ w.jobs p := List.mem_filter.mpr ⟨hj, by simp [howner]⟩
    rw [hjobs] at hmem
    cases hmem
  · exact if_neg fun hid => hnew (List.mem_map.mpr ⟨e, he, hid⟩)
  · have hne : f.1.owner? ≠ some p := fun howner => by
      have hmem : f ∈ w.fetches p := List.mem_filter.mpr ⟨hf, by simp [howner]⟩
      rw [hfetches] at hmem
      cases hmem
    show (f.1.toggledFor p, f.2) = f
    rw [Request.toggledFor, if_neg hne]
  · cases o with
    | answer id result =>
        have hne : id ≠ p := fun hid => by
          have hmem : result ∈ w.answers p :=
            List.mem_filterMap.mpr ⟨_, ho, by simp [Outcome.answerTo?, hid]⟩
          rw [hanswers] at hmem
          cases hmem
        simp only [Outcome.toggled, if_neg hne]
    | silent => rfl
    | violation cause => rfl
    | overflow => rfl

/-- A request with the other wish leaves the world that it leaves but for the wish. -/
theorem enroll_self {r : Request} {a : Accepted} {b : Broker} (hblank : w.view a.assignedId = {})
    (hnew : a.assignedId ∉ w.acceptedIds)
    (howned : ∀ j ∈ a.work.jobs, j.owner? = some a.assignedId) :
    w.enroll r.toggled { a with work := a.work.toggled } (b.toggled a.assignedId) =
      (w.enroll r a b).toggled a.assignedId := by
  obtain ⟨hpending, haccepted, hfetched, houtcomes⟩ := toggled_blank hblank hnew
  have hjobs := Work.jobs_toggled howned
  unfold World.enroll World.toggled
  simp only [List.map_append, List.map_cons, hpending, haccepted, hfetched, houtcomes, hjobs,
    toggledEntry, if_true]
  rfl

/--
A request and the same one with the other wish are turned down alike, or both are accepted.
Then the worlds are the same but for the wish.
-/
theorem submit_toggled (horder : w.Orderly) {now : Instant} {r : Request}
    (hnew : ∀ a b, w.broker.submit now r = .ok (a, b) → a.assignedId ∉ w.acceptedIds) :
    (∃ e, w.broker.submit now r = .error e ∧ w.broker.submit now r.toggled = .error e) ∨
      ∃ a b, w.broker.submit now r = .ok (a, b) ∧
        w.broker.submit now r.toggled = .ok ({ a with work := a.work.toggled },
          b.toggled a.assignedId) ∧
        w.enroll r.toggled { a with work := a.work.toggled } (b.toggled a.assignedId) =
          (w.enroll r a b).toggled a.assignedId := by
  have hvalid : Broker.validate r.toggled = Broker.validate r := rfl
  rcases Broker.submit_alike (b := w.broker) (c := w.broker) now hvalid (fun _ _ => rfl)
    (fun _ => rfl) with herror | ⟨route, slot, hsubmit, hsubmit'⟩
  · exact Or.inl herror
  · have hid := Broker.assignedId_accept w.broker r route slot
    have howned := admission_owned (Broker.submit_cases hsubmit)
    have hfresh := hnew _ _ hsubmit
    have hblank := horder.blank _ hfresh
    have hnone : w.broker.inflight.waiting.find? w.broker.ids.next.1 = none := by
      rw [← hid]
      exact congrArg (fun v => v.entry.waiting) hblank
    rw [Broker.accept_self hnone r route slot, ← hid] at hsubmit'
    exact Or.inr ⟨_, _, hsubmit, hsubmit', enroll_self hblank hfresh howned⟩

end World

end BarArchive
