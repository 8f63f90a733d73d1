/-
Numbers are only names.

A step that the broker takes for a request looks at that request's entry, at the stored
series of its key and at the refusals in force. It compares numbers but does not compute
with them. So if another broker has the same entry under other numbers, the same series and
the same refusals, then the same step, made under those numbers, leaves the two alike again
and gives the same answer. Which other requests there are, which other series and which
numbers come next makes no difference.
-/
import BarArchive.Proofs.Adjusting
import BarArchive.Proofs.Dispatch
import BarArchive.Proofs.Settling
import Mathlib.Algebra.Group.End

namespace BarArchive

/-! ### Other names -/

section Names

variable (ρ : Equiv.Perm AssignedId)

/-- The request under other numbers. -/
def Request.rename (r : Request) : Request :=
  { r with assignedId := r.assignedId.map ρ, parentId := r.parentId.map ρ }

/-- The waiting request under other numbers. -/
def Waiting.rename (x : Waiting) : Waiting := { x with request := x.request.rename ρ }

/-- The entry of a request under other numbers. -/
def Entry.rename (e : Entry) : Entry :=
  ⟨e.waiting.map (·.rename ρ), e.parts.map (·.map ρ), e.aborted.map (·.map ρ)⟩

/-- The piece of work under other numbers. -/
def Job.rename : Job → Job
  | .fetch r => .fetch (r.rename ρ)
  | .serve id => .serve (ρ id)

/-- What is left to do, under other numbers. -/
def Work.rename : Work → Work
  | .fetch slot requests => .fetch slot (requests.map (·.rename ρ))
  | .serve id => .serve (ρ id)

/-- The accepted request under other numbers. -/
def Accepted.rename (a : Accepted) : Accepted := ⟨a.requestId, ρ a.assignedId, a.work.rename ρ⟩

/-- The answer for a request under other numbers. -/
def renamedAnswer (answer : Except BrokerError Reply) : Except BrokerError Reply :=
  answer.map fun reply => { reply with request := reply.request.rename ρ }

/-- The fetch under other numbers, with its answer. -/
def renamedFetch (f : Request × Except MarketError (List Bar)) :
    Request × Except MarketError (List Bar) := (f.1.rename ρ, f.2)

/-- What a world holds for a request, under other numbers. -/
def View.rename (v : View) : View :=
  ⟨v.entry.rename ρ, v.jobs.map (·.rename ρ), v.fetches.map (renamedFetch ρ),
    v.answers.map (renamedAnswer ρ)⟩

/-- The move under other numbers. -/
def Move.rename : Move → Move
  | .fetched r result => .fetched (r.rename ρ) result
  | .served id => .served (ρ id)
  | m => m

variable {ρ}

theorem Request.rename_injective : Function.Injective (Request.rename ρ) := by
  intro r r' h
  have hids := Option.map_injective ρ.injective (congrArg Request.assignedId h)
  have hparents := Option.map_injective ρ.injective (congrArg Request.parentId h)
  have hrest : { r.rename ρ with assignedId := r.assignedId, parentId := r.parentId } =
      { r'.rename ρ with assignedId := r'.assignedId, parentId := r'.parentId } := by
    rw [h, hids, hparents]
  exact hrest

theorem Job.rename_injective : Function.Injective (Job.rename ρ) := by
  intro j j' h
  cases j with
  | fetch r =>
      cases j' with
      | fetch r' => exact congrArg Job.fetch (Request.rename_injective (Job.fetch.inj h))
      | serve id => cases h
  | serve id =>
      cases j' with
      | fetch r => cases h
      | serve id' => exact congrArg Job.serve (ρ.injective (Job.serve.inj h))

theorem Request.owner?_rename (r : Request) : (r.rename ρ).owner? = r.owner?.map ρ := by
  unfold Request.owner? Request.rename
  cases r.parentId <;> rfl

theorem Accepted.ids_rename (a : Accepted) : (a.rename ρ).ids = a.ids.map ρ := by
  have hparts : ∀ requests : List Request,
      ((requests.map (Request.rename ρ)).filter Request.isPart).filterMap (·.assignedId) =
        ((requests.filter Request.isPart).filterMap (·.assignedId)).map ρ := by
    intro requests
    have hpart : Request.isPart ∘ Request.rename ρ = Request.isPart :=
      funext fun r => Option.isSome_map
    rw [List.filter_map, hpart, List.filterMap_map, List.map_filterMap]
    rfl
  cases hwork : a.work with
  | fetch slot requests =>
      simp only [Accepted.ids, Accepted.rename, Work.rename, hwork, Work.requests, hparts,
        List.map_cons]
  | serve id => simp [Accepted.ids, Accepted.rename, Work.rename, hwork, Work.requests]

theorem Work.jobs_rename (work : Work) :
    (work.rename ρ).jobs = work.jobs.map (Job.rename ρ) := by
  cases work with
  | fetch slot requests => simp only [Work.rename, Work.jobs, List.map_map]; rfl
  | serve id => rfl

theorem without_rename (c : AssignedId) (cs : List AssignedId) :
    Inflight.without (ρ c) (cs.map ρ) = (Inflight.without c cs).map ρ := by
  unfold Inflight.without
  rw [List.filter_map]
  refine congrArg (List.map ρ) (List.filter_congr fun d _ => ?_)
  simp

end Names

/-! ### The table -/

/-- The entry of `p` in one table is that of `ρ p` in the other one, under other numbers. -/
structure Inflight.Alike (ρ : Equiv.Perm AssignedId) (p : AssignedId) (t u : Inflight) : Prop where
  waiting : u.waiting.find? (ρ p) = (t.waiting.find? p).map (·.rename ρ)
  parts : u.parts.find? (ρ p) = (t.parts.find? p).map (·.map ρ)
  aborted : u.aborted.find? (ρ p) = (t.aborted.find? p).map (·.map ρ)

namespace Inflight

variable {ρ : Equiv.Perm AssignedId} {p : AssignedId} {t u : Inflight}

theorem alike_iff : Alike ρ p t u ↔ u.entry (ρ p) = (t.entry p).rename ρ := by
  constructor
  · exact fun h => by simp only [entry, Entry.rename, h.waiting, h.parts, h.aborted]
  · exact fun h => ⟨congrArg Entry.waiting h, congrArg Entry.parts h, congrArg Entry.aborted h⟩

theorem Alike.contains (h : Alike ρ p t u) : u.contains (ρ p) = t.contains p := by
  unfold Inflight.contains Table.contains
  rw [h.waiting, Option.isSome_map]

theorem Alike.insertRequest (h : Alike ρ p t u) (r : Request) :
    Alike ρ p (t.insertRequest p r) (u.insertRequest (ρ p) (r.rename ρ)) where
  waiting := by
    simp only [Inflight.insertRequest, Table.find?_insert, if_true]
    rfl
  parts := h.parts
  aborted := h.aborted

theorem Alike.insertParts (h : Alike ρ p t u) (cs : List AssignedId) :
    Alike ρ p (t.insertParts p cs) (u.insertParts (ρ p) (cs.map ρ)) where
  waiting := h.waiting
  parts := by simp only [Inflight.insertParts, Table.find?_insert, if_true, Option.map_some]
  aborted := h.aborted

theorem Alike.take? (h : Alike ρ p t u) :
    Option.Rel (fun x y => y.1 = x.1.rename ρ ∧ Alike ρ p x.2 y.2) (t.take? p) (u.take? (ρ p)) := by
  unfold Inflight.take?
  rw [h.waiting]
  cases t.waiting.find? p with
  | none => exact .none
  | some x => exact .some ⟨rfl, by simp [Table.find?_erase], h.parts, h.aborted⟩

theorem Alike.retire? (h : Alike ρ p t u) (c : AssignedId) :
    Option.Rel (Alike ρ p) (t.retire? p c) (u.retire? (ρ p) (ρ c)) := by
  unfold Inflight.retire?
  rw [h.aborted]
  cases t.aborted.find? p with
  | none => exact .none
  | some cs =>
      simp only [Option.map_some, without_rename]
      cases hrest : without c cs with
      | nil => exact .some ⟨h.waiting, h.parts, by simp [Table.find?_erase]⟩
      | cons d ds => exact .some ⟨h.waiting, h.parts, by simp [Table.find?_insert]⟩

theorem Alike.abort? (h : Alike ρ p t u) (c : AssignedId) :
    Option.Rel (fun x y => y.1 = x.1.rename ρ ∧ Alike ρ p x.2 y.2) (t.abort? p c)
      (u.abort? (ρ p) (ρ c)) := by
  have htake := h.take?
  unfold Inflight.abort?
  generalize t.take? p = x at htake
  generalize u.take? (ρ p) = y at htake
  cases htake with
  | none => exact .none
  | @some x y hxy =>
      obtain ⟨x, t'⟩ := x
      obtain ⟨y, u'⟩ := y
      obtain ⟨rfl, htable⟩ : y = x.rename ρ ∧ Alike ρ p t' u' := hxy
      simp only [Option.map_some, htable.parts]
      cases t'.parts.find? p with
      | none => exact .some ⟨rfl, htable⟩
      | some cs =>
          simp only [Option.map_some, without_rename]
          cases without c cs with
          | nil => exact .some ⟨rfl, htable.waiting, by simp [Table.find?_erase], htable.aborted⟩
          | cons d ds =>
              exact .some ⟨rfl, htable.waiting, by simp [Table.find?_erase],
                by simp [Table.find?_insert]⟩

theorem Alike.addToStash (h : Alike ρ p t u) (bars : List Bar) :
    Alike ρ p (t.addToStash p bars) (u.addToStash (ρ p) bars) where
  waiting := by
    simp only [Inflight.addToStash, Table.find?_modify, if_true, h.waiting, Option.map_map]
    rfl
  parts := h.parts
  aborted := h.aborted

theorem Alike.complete (h : Alike ρ p t u) (c : AssignedId) :
    (u.complete (ρ p) (ρ c)).1 = (t.complete p c).1.map (·.rename ρ) ∧
      Alike ρ p (t.complete p c).2 (u.complete (ρ p) (ρ c)).2 := by
  have hparts : ((t.parts.find? p).map (List.map ρ)).getD [] =
      ((t.parts.find? p).getD []).map ρ := by
    cases t.parts.find? p <;> rfl
  unfold Inflight.complete
  rw [h.parts, hparts, without_rename]
  cases without c ((t.parts.find? p).getD []) with
  | nil =>
      have hleft : Alike ρ p { t with parts := t.parts.erase p }
          { u with parts := u.parts.erase (ρ p) } :=
        ⟨h.waiting, by simp [Table.find?_erase], h.aborted⟩
      have htake := hleft.take?
      simp only [List.map_nil]
      generalize Inflight.take? { t with parts := t.parts.erase p } p = x at htake
      generalize Inflight.take? { u with parts := u.parts.erase (ρ p) } (ρ p) = y at htake
      cases htake with
      | none => exact ⟨rfl, hleft⟩
      | some hxy => exact ⟨congrArg some hxy.1, hxy.2⟩
  | cons d ds => exact ⟨rfl, h.waiting, by simp [Table.find?_insert], h.aborted⟩

end Inflight

/-! ### The store -/

/-- Two caches have the same series under a key, and the same refusals in force. -/
structure Cache.Agree (k : SeriesKey) (c d : Cache) : Prop where
  refusals : d.refusals = c.refusals
  series : d.store.get k = c.store.get k

namespace Cache.Agree

variable {k : SeriesKey} {c d : Cache}

theorem coverage (h : Agree k c d) : d.coverage k = c.coverage k := by
  unfold Cache.coverage Store.coverage
  rw [h.refusals, h.series]

theorem query (h : Agree k c d) {r : Request} (hkey : r.key? = some k) : d.query r = c.query r := by
  obtain ⟨id, hid, rfl⟩ := Option.map_eq_some_iff.mp hkey
  have hstore : d.store.query r.instrument r.start r.stop r.frequency =
      c.store.query r.instrument r.start r.stop r.frequency := by
    unfold Store.query Store.instrumentId
    rw [hid]
    simp only [bind, Except.bind, h.series]
  unfold Cache.query
  rw [h.refusals, hstore]

/-- Adding to the series does the same in both, and leaves them in agreement. -/
theorem add (h : Agree k c d) {i : Instrument} {f : Frequency}
    (hkey : i.id.map (fun id => (⟨id, f⟩ : SeriesKey)) = some k) (bars : List Bar)
    (overwrite : Bool) : (d.add bars i f overwrite).2 = (c.add bars i f overwrite).2 ∧
      Agree k (c.add bars i f overwrite).1 (d.add bars i f overwrite).1 := by
  obtain ⟨id, hid, rfl⟩ := Option.map_eq_some_iff.mp hkey
  have hstore : ∀ adjust, (d.store.add bars i f overwrite adjust).2 =
      (c.store.add bars i f overwrite adjust).2 ∧
        (d.store.add bars i f overwrite adjust).1.get ⟨id, f⟩ =
          (c.store.add bars i f overwrite adjust).1.get ⟨id, f⟩ := by
    intro adjust
    unfold Store.add Store.instrumentId
    rw [hid]
    simp only [h.series]
    cases adjust with
    | false => exact ⟨rfl, by simp only [Bool.false_eq_true, if_false, Store.get_insert, if_true]⟩
    | true =>
        simp only [if_true]
        split <;> exact ⟨rfl, by simp only [Store.get_insert, if_true]⟩
  unfold Cache.add
  rw [h.refusals]
  cases c.refusals.add with
  | some reason => exact ⟨rfl, h⟩
  | none => exact ⟨(hstore _).1, rfl, (hstore _).2⟩

end Cache.Agree

/-! ### The steps -/

/-- Two brokers are alike for one request: in its entry, under other numbers in the second one,
and in the series of its key. -/
structure Broker.Alike (k : SeriesKey) (ρ : Equiv.Perm AssignedId) (p : AssignedId)
    (b c : Broker) : Prop where
  table : Inflight.Alike ρ p b.inflight c.inflight
  cache : Cache.Agree k b.cache c.cache

/-- Two steps for one request: afterwards the brokers are alike, both overflowed or none, and both
gave the request the same answer or none. -/
structure StepsAlike (k : SeriesKey) (ρ : Equiv.Perm AssignedId) (p : AssignedId)
    (s t : Broker × Outcome) : Prop where
  broker : s.1.Alike k ρ p t.1
  answer : t.2.answerTo? (ρ p) = (s.2.answerTo? p).map (renamedAnswer ρ)
  overflow : t.2.isOverflow = s.2.isOverflow

namespace Broker.Alike

variable {k : SeriesKey} {ρ : Equiv.Perm AssignedId} {p : AssignedId} {b c : Broker}

theorem silent (h : b.Alike k ρ p c) : StepsAlike k ρ p (b, .silent) (c, .silent) := ⟨h, rfl, rfl⟩

/-- The answer to a request that was taken out is the same under other numbers. -/
theorem answered (h : b.Alike k ρ p c) (x : Waiting) (result : Except BrokerError (List Bar)) :
    StepsAlike k ρ p (b, Broker.answer p x result)
      (c, Broker.answer (ρ p) (x.rename ρ) result) where
  broker := h
  answer := by
    simp only [Broker.answer, Outcome.answerTo?, if_true, Option.map_some]
    cases result <;> rfl
  overflow := rfl

theorem stored (h : b.Alike k ρ p c) {r : Request} (hkey : r.key? = some k) :
    c.stored (r.rename ρ) = b.stored r := by
  unfold Broker.stored
  rw [h.cache.query (r := r.rename ρ) hkey]
  rfl

theorem finish (h : b.Alike k ρ p c) (result : Except BrokerError (List Bar)) :
    StepsAlike k ρ p (b.finish p result) (c.finish (ρ p) result) := by
  have htake := h.table.take?
  unfold Broker.finish
  generalize b.inflight.take? p = x at htake
  generalize c.inflight.take? (ρ p) = y at htake
  cases htake with
  | none => exact h.silent
  | @some x y hxy =>
      obtain ⟨x, t⟩ := x
      obtain ⟨y, u⟩ := y
      obtain ⟨rfl, htable⟩ : y = x.rename ρ ∧ Inflight.Alike ρ p t u := hxy
      have halike : Broker.Alike k ρ p { b with inflight := t } { c with inflight := u } :=
        ⟨htable, h.cache⟩
      exact halike.answered x result

theorem abort (h : b.Alike k ρ p c) (child : AssignedId) (e : BrokerError) :
    StepsAlike k ρ p (b.abort p child e) (c.abort (ρ p) (ρ child) e) := by
  have habort := h.table.abort? child
  unfold Broker.abort
  generalize b.inflight.abort? p child = x at habort
  generalize c.inflight.abort? (ρ p) (ρ child) = y at habort
  cases habort with
  | none => exact h.silent
  | @some x y hxy =>
      obtain ⟨x, t⟩ := x
      obtain ⟨y, u⟩ := y
      obtain ⟨rfl, htable⟩ : y = x.rename ρ ∧ Inflight.Alike ρ p t u := hxy
      have halike : Broker.Alike k ρ p { b with inflight := t } { c with inflight := u } :=
        ⟨htable, h.cache⟩
      exact halike.answered x (.error e)

theorem serve (h : b.Alike k ρ p c)
    (hkey : ∀ x, b.inflight.waiting.find? p = some x → x.request.key? = some k) :
    StepsAlike k ρ p (b.serve p) (c.serve (ρ p)) := by
  have htake := h.table.take?
  have hwaits : ∀ x t, b.inflight.take? p = some (x, t) → x.request.key? = some k :=
    fun x t hx => hkey x (Inflight.take?_eq_some hx).1
  unfold Broker.serve
  generalize b.inflight.take? p = x at htake hwaits
  generalize c.inflight.take? (ρ p) = y at htake
  cases htake with
  | none => exact h.silent
  | @some x y hxy =>
      obtain ⟨x, t⟩ := x
      obtain ⟨y, u⟩ := y
      obtain ⟨rfl, htable⟩ : y = x.rename ρ ∧ Inflight.Alike ρ p t u := hxy
      have halike : Broker.Alike k ρ p { b with inflight := t } { c with inflight := u } :=
        ⟨htable, h.cache⟩
      have hstored : c.stored (x.rename ρ).request = b.stored x.request :=
        h.stored (hwaits x t rfl)
      simp only [hstored]
      exact halike.answered x _

theorem completePart (h : b.Alike k ρ p c) (child : AssignedId)
    (hkey : ∀ x, b.inflight.waiting.find? p = some x → x.request.key? = some k) :
    StepsAlike k ρ p (b.completePart p child) (c.completePart (ρ p) (ρ child)) := by
  obtain ⟨hwaiting, htable⟩ := h.table.complete child
  have hwaits : ∀ x, (b.inflight.complete p child).1 = some x → x.request.key? = some k := by
    intro x hx
    rcases b.inflight.complete_cases p child with ⟨x', t, heq, hx', -⟩ | ⟨t, heq, -⟩
    · rw [heq] at hx
      exact hkey x (hx' ▸ hx)
    · rw [heq] at hx
      cases hx
  unfold Broker.completePart
  generalize b.inflight.complete p child = x at hwaiting htable hwaits
  generalize c.inflight.complete (ρ p) (ρ child) = y at hwaiting htable
  obtain ⟨x, t⟩ := x
  obtain ⟨y, u⟩ := y
  obtain rfl : y = x.map (·.rename ρ) := hwaiting
  have halike : Broker.Alike k ρ p { b with inflight := t } { c with inflight := u } :=
    ⟨htable, h.cache⟩
  cases x with
  | none => exact halike.silent
  | some x =>
      have hstored : c.stored (x.rename ρ).request = b.stored x.request :=
        h.stored (hwaits x rfl)
      simp only [Option.map_some, hstored]
      exact halike.answered x _

/-- Bars are kept in the same way, and come to the same. -/
theorem keep (h : b.Alike k ρ p c) {r : Request} (hkey : r.key? = some k) (bars : List Bar) :
    (c.keep (r.rename ρ) bars).2 = (b.keep r bars).2 ∧
      Broker.Alike k ρ p (b.keep r bars).1 (c.keep (r.rename ρ) bars).1 := by
  unfold Broker.keep
  split
  · exact ⟨rfl, h⟩
  · obtain ⟨hresult, hcache⟩ := h.cache.add (i := r.instrument) (f := r.frequency) hkey bars true
    exact ⟨hresult, h.table, hcache⟩

theorem arrive (h : b.Alike k ρ p c) {r : Request} (hkey : r.key? = some k) (bars : List Bar) :
    StepsAlike k ρ p (b.arrive p r bars) (c.arrive (ρ p) (r.rename ρ) bars) := by
  have hsave : (r.rename ρ).save = r.save := rfl
  unfold Broker.arrive
  rw [h.table.contains, hsave]
  split
  · exact h.silent
  · split
    · exact h.finish _
    · obtain ⟨hresult, hkept⟩ := h.keep hkey bars
      generalize b.keep r bars = s at hresult hkept
      generalize c.keep (r.rename ρ) bars = t at hresult hkept
      obtain ⟨b', result⟩ := s
      obtain ⟨c', result'⟩ := t
      obtain rfl : result' = result := hresult
      cases result' with
      | ok n => exact hkept.finish _
      | error e =>
          cases e with
          | refused cause => exact hkept.finish _
          | overflow => exact ⟨hkept, rfl, rfl⟩

theorem arrivePart (h : b.Alike k ρ p c) (child : AssignedId) {r : Request}
    (hkey : r.key? = some k)
    (hwaits : ∀ x, b.inflight.waiting.find? p = some x → x.request.key? = some k)
    (bars : List Bar) :
    StepsAlike k ρ p (b.arrivePart p child r bars)
      (c.arrivePart (ρ p) (ρ child) (r.rename ρ) bars) := by
  have hsave : (r.rename ρ).save = r.save := rfl
  have hretire := h.table.retire? child
  unfold Broker.arrivePart
  generalize b.inflight.retire? p child = x at hretire
  generalize c.inflight.retire? (ρ p) (ρ child) = y at hretire
  cases hretire with
  | @some t u htable =>
      have halike : Broker.Alike k ρ p { b with inflight := t } { c with inflight := u } :=
        ⟨htable, h.cache⟩
      exact halike.silent
  | none =>
      simp only [h.table.contains, hsave]
      split
      · exact ⟨h, rfl, rfl⟩
      · split
        · -- the bars join the stash of a request that is still the same
          have hstashed : Broker.Alike k ρ p
              { b with inflight := b.inflight.addToStash p bars }
              { c with inflight := c.inflight.addToStash (ρ p) bars } :=
            ⟨h.table.addToStash bars, h.cache⟩
          refine hstashed.completePart child fun x hx => ?_
          obtain ⟨x', hx', rfl⟩ : ∃ x', b.inflight.waiting.find? p = some x' ∧
              { x' with stash := x'.stash ++ bars } = x := by
            simpa [Inflight.addToStash, Table.find?_modify] using hx
          exact hwaits x' hx'
        · obtain ⟨hresult, hkept⟩ := h.keep hkey bars
          have hinflight := Broker.inflight_keep b r bars
          generalize b.keep r bars = s at hresult hkept hinflight
          generalize c.keep (r.rename ρ) bars = t at hresult hkept
          obtain ⟨b', result⟩ := s
          obtain ⟨c', result'⟩ := t
          obtain rfl : result' = result := hresult
          cases result' with
          | ok n => exact hkept.completePart child (by rw [hinflight]; exact hwaits)
          | error e =>
              cases e with
              | refused cause => exact hkept.abort child _
              | overflow => exact ⟨hkept, rfl, rfl⟩

theorem fail (h : b.Alike k ρ p c) {r : Request} {id : AssignedId} (hid : r.assignedId = some id)
    (howner : r.owner? = some p) (e : MarketError) :
    StepsAlike k ρ p (b.fail id r.parentId e) (c.fail (ρ id) (r.rename ρ).parentId e) := by
  unfold Broker.fail Request.rename
  cases hparent : r.parentId with
  | none =>
      obtain rfl : id = p := by simpa [Request.owner?, hparent, hid] using howner
      exact h.finish _
  | some parent =>
      obtain rfl : parent = p := by simpa [Request.owner?, hparent] using howner
      have hretire := h.table.retire? id
      simp only [Option.map_some]
      generalize b.inflight.retire? parent id = x at hretire
      generalize c.inflight.retire? (ρ parent) (ρ id) = y at hretire
      cases hretire with
      | none => exact h.abort id _
      | @some t u htable =>
          have halike : Broker.Alike k ρ parent { b with inflight := t }
              { c with inflight := u } := ⟨htable, h.cache⟩
          exact halike.silent

/-- What a source delivers for a request comes to the same. -/
theorem deliver (h : b.Alike k ρ p c) {r : Request} (hkey : r.key? = some k)
    (howner : r.owner? = some p) (hid : r.assignedId.isSome)
    (hwaits : ∀ x, b.inflight.waiting.find? p = some x → x.request.key? = some k)
    (result : Except MarketError (List Bar)) :
    StepsAlike k ρ p (b.deliver r result) (c.deliver (r.rename ρ) result) := by
  obtain ⟨id, hid⟩ := Option.isSome_iff_exists.mp hid
  have hid' : (r.rename ρ).assignedId = some (ρ id) := congrArg (Option.map ρ) hid
  unfold Broker.deliver
  rw [hid, hid']
  cases result with
  | error e => exact h.fail hid howner e
  | ok bars =>
      have hparent' : (r.rename ρ).parentId = r.parentId.map ρ := rfl
      rw [hparent']
      cases hparent : r.parentId with
      | none =>
          obtain rfl : id = p := by simpa [Request.owner?, hparent, hid] using howner
          exact h.arrive hkey bars
      | some parent =>
          obtain rfl : parent = p := by simpa [Request.owner?, hparent] using howner
          exact h.arrivePart id hkey hwaits bars

end Broker.Alike

/-! ### Requests that are accepted -/

namespace Broker

variable {k : SeriesKey} {ρ : Equiv.Perm AssignedId} {b c : Broker} {r : Request} {route : Route}
  {slot : Option Slot}

theorem assignedId_accept (b : Broker) (r : Request) (route : Route) (slot : Option Slot) :
    (b.accept r route slot).1.assignedId = b.ids.next.1 := by
  cases slot <;> cases route <;> rfl

/-- How many numbers a request takes does not depend on the broker. -/
theorem accept_ids (r : Request) (route : Route) (slot : Option Slot) : ∃ n, ∀ b : Broker,
    ((b.accept r route slot).1.ids, (b.accept r route slot).2.ids) = b.ids.take n := by
  have hone : ∀ b : Broker, ([b.ids.next.1], b.ids.next.2) = b.ids.take 1 := fun b => rfl
  cases slot with
  | none => exact ⟨1, fun b => by cases route <;> exact hone b⟩
  | some slot =>
      cases route with
      | stored => exact ⟨1, hone⟩
      | external => exact ⟨1, hone⟩
      | split gaps =>
          refine ⟨gaps.length + 1, fun b => ?_⟩
          have hparts := partsFor_take (r.filed b.ids.next.1) gaps b.ids.next.2
          have hall := partsFor_all (r := r) b.ids.next.1 gaps b.ids.next.2
          calc ((b.accept r (.split gaps) (some slot)).1.ids,
                (b.accept r (.split gaps) (some slot)).2.ids)
            _ = (b.ids.next.1 :: numbers (partsFor (r.filed b.ids.next.1) gaps b.ids.next.2).1,
                (partsFor (r.filed b.ids.next.1) gaps b.ids.next.2).2) :=
              congrArg (fun l => (b.ids.next.1 :: numbers l,
                (partsFor (r.filed b.ids.next.1) gaps b.ids.next.2).2)) hall
            _ = b.ids.take (gaps.length + 1) :=
              congrArg (fun x : List AssignedId × Allocator => (b.ids.next.1 :: x.1, x.2)) hparts

/-- Parts for the same gaps are the same ones under the numbers that they get. -/
theorem partsFor_rename {gaps : List Gap} {ids ids' : Allocator}
    (h : (numbers (partsFor r gaps ids).1).map ρ = numbers (partsFor (r.rename ρ) gaps ids').1) :
    (partsFor (r.rename ρ) gaps ids').1 = (partsFor r gaps ids).1.map (Request.rename ρ) := by
  have hpart : ∀ (g : Gap) (c : AssignedId),
      (r.rename ρ).part g.start g.stop (ρ c) = (r.part g.start g.stop c).rename ρ := fun g c => rfl
  calc (partsFor (r.rename ρ) gaps ids').1
    _ = List.zipWith (fun g c => (r.rename ρ).part g.start g.stop c) gaps
        ((numbers (partsFor r gaps ids).1).map ρ) := h ▸ partsFor_eq_zipWith (r.rename ρ) gaps ids'
    _ = (List.zipWith (fun g c => r.part g.start g.stop c) gaps
        (numbers (partsFor r gaps ids).1)).map (Request.rename ρ) := by
      rw [List.zipWith_map_right, List.map_zipWith]
      simp only [hpart]
    _ = (partsFor r gaps ids).1.map (Request.rename ρ) := by rw [← partsFor_eq_zipWith]

/-- A request that is accepted is filed, and the work for it left, in the same way under other
numbers, if nothing else is filed there. -/
theorem accept_rename (h : (b.accept r route slot).1.ids.map ρ = (c.accept r route slot).1.ids)
    (hold : Inflight.Alike ρ (b.accept r route slot).1.assignedId b.inflight c.inflight) :
    (c.accept r route slot).1 = (b.accept r route slot).1.rename ρ ∧
      Inflight.Alike ρ (b.accept r route slot).1.assignedId (b.accept r route slot).2.inflight
        (c.accept r route slot).2.inflight := by
  have hrenamed : ρ (b.accept r route slot).1.assignedId = (c.accept r route slot).1.assignedId :=
    (List.cons.inj h).1
  rw [assignedId_accept, assignedId_accept] at hrenamed
  rw [assignedId_accept] at hold ⊢
  rcases hnext : b.ids.next with ⟨p, ids⟩
  rcases hnext' : c.ids.next with ⟨q, ids'⟩
  rw [hnext, hnext'] at hrenamed
  rw [hnext] at hold
  obtain rfl : ρ p = q := hrenamed
  have hfiled : Inflight.Alike ρ p (b.inflight.insertRequest p (r.filed p))
      (c.inflight.insertRequest (ρ p) (r.filed (ρ p))) := hold.insertRequest (r.filed p)
  unfold accept at h ⊢
  rw [hnext, hnext'] at h ⊢
  cases slot with
  | none => cases route <;> exact ⟨rfl, hfiled⟩
  | some slot =>
      cases route with
      | stored => exact ⟨rfl, hfiled⟩
      | external => exact ⟨rfl, hfiled⟩
      | split gaps =>
          have hnumbers : (numbers ((partsFor (r.filed p) gaps ids).1.filter Request.isPart)).map ρ =
              numbers ((partsFor (r.filed (ρ p)) gaps ids').1.filter Request.isPart) :=
            (List.cons.inj h).2
          rw [partsFor_all, partsFor_all] at hnumbers
          have hparts : (partsFor (r.filed (ρ p)) gaps ids').1 =
              (partsFor (r.filed p) gaps ids).1.map (Request.rename ρ) :=
            partsFor_rename (r := r.filed p) hnumbers
          refine ⟨congrArg (fun parts => (⟨r.requestId, ρ p, .fetch slot parts⟩ : Accepted)) hparts, ?_⟩
          have hsplit := hfiled.insertParts (numbers (partsFor (r.filed p) gaps ids).1)
          rw [hnumbers] at hsplit
          exact hsplit

/-- Brokers that agree on a series and on the sources treat the requests for it in the same way. -/
theorem submit_agree (now : Instant) (hcache : Cache.Agree k b.cache c.cache)
    (hregistry : c.registry = b.registry) (hkey : r.key? = some k) :
    (∃ e, b.submit now r = .error e ∧ c.submit now r = .error e) ∨
      ∃ route slot, b.submit now r = .ok (b.accept r route slot) ∧
        c.submit now r = .ok (c.accept r route slot) := by
  have hslot : ∀ route, c.slotFor r route = b.slotFor r route := fun route => by
    unfold slotFor
    rw [hregistry]
  have hroute : c.route now k r = b.route now k r := by
    unfold Broker.route
    rw [hcache.coverage]
  refine submit_alike now rfl (fun k' hvalid => ?_) hslot
  obtain rfl : k' = k := Option.some.inj ((validate_eq_ok.mp hvalid).1.symm.trans hkey)
  exact hroute

/-- Requests for the series are turned down by both brokers or accepted by both. Then they take as
many numbers in both, and are filed in the same way. -/
theorem submit_rename (now : Instant) (hcache : Cache.Agree k b.cache c.cache)
    (hregistry : c.registry = b.registry) (hkey : r.key? = some k) :
    (∃ e, b.submit now r = .error e ∧ c.submit now r = .error e) ∨
      ∃ n a b' a' c', b.submit now r = .ok (a, b') ∧ c.submit now r = .ok (a', c') ∧
        (a.ids, b'.ids) = b.ids.take n ∧ (a'.ids, c'.ids) = c.ids.take n ∧
        (a.ids.map ρ = a'.ids → Inflight.Alike ρ a.assignedId b.inflight c.inflight →
          a' = a.rename ρ ∧ Inflight.Alike ρ a.assignedId b'.inflight c'.inflight) := by
  rcases submit_agree now hcache hregistry hkey with herror | ⟨route, slot, hb, hc⟩
  · exact Or.inl herror
  · obtain ⟨n, htaken⟩ := accept_ids r route slot
    exact Or.inr ⟨n, _, _, _, _, hb, hc, htaken b, htaken c, accept_rename⟩

/-- Bars from elsewhere for the series come to the same. -/
theorem addData_agree {a : Addition} (h : Cache.Agree k b.cache c.cache) (hkey : a.key? = some k) :
    (c.addData a).2 = (b.addData a).2 ∧
      Cache.Agree k (b.addData a).1.cache (c.addData a).1.cache := by
  obtain ⟨hresult, hcache⟩ := h.add hkey a.bars a.overwrite
  unfold addData
  cases a.instrument.id with
  | none => exact ⟨rfl, h⟩
  | some id =>
      simp only
      split
      · exact ⟨rfl, h⟩
      · rw [hresult]
        cases (b.cache.add a.bars a.instrument a.frequency a.overwrite).2 with
        | ok n => exact ⟨rfl, hcache⟩
        | error e => cases e <;> exact ⟨rfl, hcache⟩

end Broker

/-! ### Views -/

/-- A view changes in the same way under other numbers. -/
theorem View.after_rename {k : SeriesKey} {ρ : Equiv.Perm AssignedId} {p : AssignedId}
    {s t : Broker × Outcome} (h : StepsAlike k ρ p s t) (v : View) (j : Job)
    (fetched : Option (Request × Except MarketError (List Bar))) :
    (v.rename ρ).after (ρ p) (j.rename ρ) (fetched.map (renamedFetch ρ)) t =
      (v.after p j fetched s).rename ρ := by
  have hentry := Inflight.alike_iff.mp h.broker.table
  have hjobs : (v.jobs.map (Job.rename ρ)).erase (j.rename ρ) = (v.jobs.erase j).map (Job.rename ρ) :=
    (List.map_erase (fun _ _ heq => Job.rename_injective heq) v.jobs).symm
  unfold View.after View.rename
  simp only [hentry, hjobs, h.overflow, h.answer, List.map_append]
  congr 1
  · split <;> rfl
  · cases fetched <;> rfl
  · cases s.2.answerTo? p <;> rfl

end BarArchive
