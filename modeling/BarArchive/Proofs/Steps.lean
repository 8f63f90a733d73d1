/-
What each step of the broker can do.

A step is made for one accepted request and looks at nothing that the table holds for
others. What the table holds for one request is its entry, and every step either leaves
the table alone or sets the entry of its own request. The statements here say, for
each kind of step and each entry that it can meet, all that can come of it: the entry
afterwards, the store afterwards and the outcome. Nothing about runs needs to look into
the steps again.
-/
import BarArchive.Proofs.World

namespace BarArchive

/-- What the table holds for one request. -/
structure Entry where
  waiting : Option Waiting := none
  parts : Option (List AssignedId) := none
  aborted : Option (List AssignedId) := none

namespace Inflight

/-- The entry of a request. -/
def entry (t : Inflight) (p : AssignedId) : Entry :=
  ⟨t.waiting.find? p, t.parts.find? p, t.aborted.find? p⟩

/-- The parts that remain of `children` without `child`, if any do. -/
def remaining (child : AssignedId) (children : List AssignedId) : Option (List AssignedId) :=
  match without child children with
  | [] => none
  | rest => some rest

/-- `t'` is `t` with the entry `e` for the request `p`. -/
structure Sets (t : Inflight) (p : AssignedId) (e : Entry) (t' : Inflight) : Prop where
  here : t'.entry p = e
  elsewhere : ∀ q, q ≠ p → t'.entry q = t.entry q

theorem Sets.trans {t t' t'' : Inflight} {p : AssignedId} {e e' : Entry} (h : t.Sets p e t')
    (h' : t'.Sets p e' t'') : t.Sets p e' t'' :=
  ⟨h'.here, fun q hq => (h'.elsewhere q hq).trans (h.elsewhere q hq)⟩

theorem sets_refl (t : Inflight) (p : AssignedId) : t.Sets p (t.entry p) t :=
  ⟨rfl, fun _ _ => rfl⟩

/-! ### What the operations of the table set -/

theorem sets_insertRequest (t : Inflight) (p : AssignedId) (r : Request) :
    t.Sets p { t.entry p with waiting := some { request := r } } (t.insertRequest p r) := by
  constructor
  · simp [entry, insertRequest, Table.find?_insert]
  · intro q hq
    simp [entry, insertRequest, Table.find?_insert, hq.symm]

theorem sets_insertParts (t : Inflight) (p : AssignedId) (children : List AssignedId) :
    t.Sets p { t.entry p with parts := some children } (t.insertParts p children) := by
  constructor
  · simp [entry, insertParts, Table.find?_insert]
  · intro q hq
    simp [entry, insertParts, Table.find?_insert, hq.symm]

theorem sets_addToStash {t : Inflight} {p : AssignedId} {x : Waiting} (bars : List Bar)
    (h : t.waiting.find? p = some x) :
    t.Sets p { t.entry p with waiting := some { x with stash := x.stash ++ bars } }
      (t.addToStash p bars) := by
  constructor
  · simp [entry, addToStash, Table.find?_modify, h]
  · intro q hq
    simp [entry, addToStash, Table.find?_modify, hq.symm]

/-- A request that waits can be taken out. -/
theorem take?_waiting {t : Inflight} {p : AssignedId} {x : Waiting}
    (h : t.waiting.find? p = some x) :
    ∃ t', t.take? p = some (x, t') ∧ t.Sets p { t.entry p with waiting := none } t' := by
  refine ⟨{ t with waiting := t.waiting.erase p }, by simp [take?, h], ?_, ?_⟩
  · simp [entry, Table.find?_erase]
  · intro q hq
    simp [entry, Table.find?_erase, hq.symm]

/-- A part of a failed request is crossed off. -/
theorem retire?_aborted {t : Inflight} {p c : AssignedId} {cs : List AssignedId}
    (h : t.aborted.find? p = some cs) :
    ∃ t', t.retire? p c = some t' ∧ t.Sets p { t.entry p with aborted := remaining c cs } t' := by
  cases hrest : without c cs with
  | nil =>
    refine ⟨{ t with aborted := t.aborted.erase p }, by simp [retire?, h, hrest], ?_, ?_⟩
    · simp [entry, Table.find?_erase, remaining, hrest]
    · intro q hq
      simp [entry, Table.find?_erase, hq.symm]
  | cons d ds =>
    refine ⟨{ t with aborted := t.aborted.insert p (d :: ds) }, by simp [retire?, h, hrest], ?_, ?_⟩
    · simp [entry, Table.find?_insert, remaining, hrest]
    · intro q hq
      simp [entry, Table.find?_insert, hq.symm]

theorem retire?_none {t : Inflight} {p : AssignedId} (c : AssignedId)
    (h : t.aborted.find? p = none) : t.retire? p c = none := by
  simp [retire?, h]

/-- A request with parts fails: it comes out, and the other parts are aborted. -/
theorem abort?_waiting {t : Inflight} {p c : AssignedId} {x : Waiting} {cs : List AssignedId}
    (hx : t.waiting.find? p = some x) (hcs : t.parts.find? p = some cs)
    (hab : t.aborted.find? p = none) :
    ∃ t', t.abort? p c = some (x, t') ∧ t.Sets p { aborted := remaining c cs } t' := by
  cases hrest : without c cs with
  | nil =>
    refine ⟨{ t with waiting := t.waiting.erase p, parts := t.parts.erase p },
      by simp [abort?, take?, hx, hcs, hrest], ?_, ?_⟩
    · simp [entry, Table.find?_erase, remaining, hrest, hab]
    · intro q hq
      simp [entry, Table.find?_erase, hq.symm]
  | cons d ds =>
    refine ⟨⟨t.waiting.erase p, t.parts.erase p, t.aborted.insert p (d :: ds)⟩,
      by simp [abort?, take?, hx, hcs, hrest], ?_, ?_⟩
    · simp [entry, Table.find?_erase, Table.find?_insert, remaining, hrest]
    · intro q hq
      simp [entry, Table.find?_erase, Table.find?_insert, hq.symm]

/-- A part is crossed off while others are missing. -/
theorem complete_more {t : Inflight} {p c : AssignedId} {cs : List AssignedId}
    (hcs : t.parts.find? p = some cs) (hmore : without c cs ≠ []) :
    ∃ t', t.complete p c = (none, t') ∧
      t.Sets p { t.entry p with parts := some (without c cs) } t' := by
  cases hrest : without c cs with
  | nil => exact absurd hrest hmore
  | cons d ds =>
    refine ⟨{ t with parts := t.parts.insert p (d :: ds) }, by simp [complete, hcs, hrest], ?_, ?_⟩
    · simp [entry, Table.find?_insert]
    · intro q hq
      simp [entry, Table.find?_insert, hq.symm]

/-- The last part is crossed off, and its request comes out. -/
theorem complete_last {t : Inflight} {p c : AssignedId} {x : Waiting} {cs : List AssignedId}
    (hx : t.waiting.find? p = some x) (hcs : t.parts.find? p = some cs)
    (hlast : without c cs = []) :
    ∃ t', t.complete p c = (some x, t') ∧
      t.Sets p { t.entry p with waiting := none, parts := none } t' := by
  refine ⟨{ t with waiting := t.waiting.erase p, parts := t.parts.erase p },
    by simp [complete, take?, hx, hcs, hlast], ?_, ?_⟩
  · simp [entry, Table.find?_erase]
  · intro q hq
    simp [entry, Table.find?_erase, hq.symm]

end Inflight

namespace Broker

/-! ### Requests that are accepted -/

/-- The request can be routed under the key `k`, and this is its route. -/
structure Routed (b : Broker) (now : Instant) (r : Request) (k : SeriesKey) (route : Route) :
    Prop where
  key : r.key? = some k
  range : r.start ≤ r.stop
  route : b.route now k r = .ok route

/-- A route that does not follow from the flags of the request is the plan for what is stored. -/
theorem Routed.plan {b : Broker} {now : Instant} {r : Request} {k : SeriesKey} {route : Route}
    (h : b.Routed now r k route) (hfresh : r.forceFresh = false) (hlocal : r.localOnly = false) :
    route = Route.plan r (b.cache.store.coverage k) now := by
  have hroute := h.route
  simp only [Broker.route, hfresh, hlocal, Bool.or_self, Bool.false_eq_true, if_false,
    Cache.coverage] at hroute
  cases hrefusal : b.cache.refusals.coverage with
  | some reason => simp [hrefusal] at hroute
  | none =>
    simp only [hrefusal, Route.plan?] at hroute
    split at hroute
    · rename_i planned hplan
      split at hplan
      · cases hplan
        cases hroute
        rfl
      · cases hplan
    · cases hroute

/-- A request is only split if there are gaps. -/
theorem plan_gaps {r : Request} {coverage : Option Coverage} {now : Instant} {gaps : List Gap}
    (h : Route.plan r coverage now = .split gaps) :
    r.forceFresh = false ∧ r.localOnly = false ∧ gaps ≠ [] ∧ ∃ c, coverage = some c ∧
      c.contains r.start r.stop = false ∧
      gaps = (Route.backfill? r c).toList ++ (Route.forwardFill? r c now).toList := by
  unfold Route.plan at h
  split at h
  · cases h
  · rename_i hfresh
    split at h
    · cases h
    · rename_i hlocal
      cases coverage with
      | none => cases h
      | some c =>
        simp only at h
        split at h
        · cases h
        · split at h
          · cases h
          · rename_i hcontains
            cases hgaps : (Route.backfill? r c).toList ++ (Route.forwardFill? r c now).toList with
            | nil => simp [hgaps] at h
            | cons g gs =>
              simp only [hgaps, Route.split.injEq] at h
              subst h
              exact ⟨by simpa using hfresh, by simpa using hlocal, by simp, c, rfl,
                by simpa using hcontains, by rw [hgaps]⟩

theorem Routed.gaps {b : Broker} {now : Instant} {r : Request} {k : SeriesKey} {gaps : List Gap}
    (h : b.Routed now r k (.split gaps)) :
    Route.plan r (b.cache.store.coverage k) now = .split gaps := by
  have hroute := h.route
  by_cases hflags : (r.forceFresh || r.localOnly) = true
  · simp only [Broker.route, hflags, if_true, Except.ok.injEq] at hroute
    obtain ⟨-, -, -, c, hc, -⟩ := plan_gaps hroute
    cases hc
  · simp only [Bool.or_eq_true, not_or, Bool.not_eq_true] at hflags
    exact (h.plan hflags.1 hflags.2).symm

theorem partsFor_mem {r : Request} : ∀ {gaps : List Gap} {ids : Allocator} {q : Request},
    q ∈ (partsFor r gaps ids).1 → ∃ g ∈ gaps, ∃ id, q = r.part g.start g.stop id := by
  intro gaps
  induction gaps with
  | nil => intro ids q h; cases h
  | cons g gaps ih =>
    intro ids q h
    rcases List.mem_cons.mp h with rfl | h
    · exact ⟨g, List.mem_cons_self, _, rfl⟩
    · obtain ⟨g', hg', id, hq⟩ := ih h
      exact ⟨g', List.mem_cons_of_mem g hg', id, hq⟩

/-- All of them are parts. -/
theorem partsFor_all {r : Request} (p : AssignedId) (gaps : List Gap) (ids : Allocator) :
    (partsFor (r.filed p) gaps ids).1.filter Request.isPart = (partsFor (r.filed p) gaps ids).1 := by
  refine List.filter_eq_self.mpr fun q hq => ?_
  obtain ⟨g, -, c, rfl⟩ := partsFor_mem hq
  rfl

/-- The parts have the ranges of the gaps. -/
theorem partsFor_ranges (r : Request) : ∀ (gaps : List Gap) (ids : Allocator),
    (partsFor r gaps ids).1.map (fun q => (q.start, q.stop)) = gaps.map fun g => (g.start, g.stop) := by
  intro gaps
  induction gaps with
  | nil => intro ids; rfl
  | cons g gaps ih =>
    intro ids
    exact congrArg ((g.start, g.stop) :: ·) (ih _)

/-- There is a part for every gap. -/
theorem exists_partFor {r : Request} {gaps : List Gap} {g : Gap} (hg : g ∈ gaps)
    (ids : Allocator) : ∃ q ∈ (partsFor r gaps ids).1, q.start = g.start ∧ q.stop = g.stop := by
  have hrange : (g.start, g.stop) ∈ gaps.map fun g => (g.start, g.stop) :=
    List.mem_map.mpr ⟨g, hg, rfl⟩
  rw [← partsFor_ranges r gaps ids] at hrange
  obtain ⟨q, hq, heq⟩ := List.mem_map.mp hrange
  exact ⟨q, hq, Prod.mk.inj heq⟩

theorem partsFor_eq_nil {r : Request} {gaps : List Gap} {ids : Allocator} :
    (partsFor r gaps ids).1 = [] ↔ gaps = [] := by
  cases gaps with
  | nil => simp [partsFor]
  | cons g gaps => simp [partsFor]

/-- How a request can be accepted: as the number `p`, with what is left to do for it. -/
inductive Admission (b : Broker) (now : Instant) (r : Request) : Accepted × Broker → Prop
  | stored {k p ids t'} (next : b.ids.next = (p, ids)) (routed : b.Routed now r k .stored)
      (table : b.inflight.Sets p
        { b.inflight.entry p with waiting := some { request := r.filed p } } t') :
      Admission b now r (⟨r.requestId, p, .serve p⟩, { b with ids, inflight := t' })
  | external {k p ids slot t'} (next : b.ids.next = (p, ids))
      (routed : b.Routed now r k .external)
      (table : b.inflight.Sets p
        { b.inflight.entry p with waiting := some { request := r.filed p } } t') :
      Admission b now r (⟨r.requestId, p, .fetch slot [r.filed p]⟩, { b with ids, inflight := t' })
  | split {k p ids gaps slot t'} (next : b.ids.next = (p, ids))
      (routed : b.Routed now r k (.split gaps))
      (table : b.inflight.Sets p
        ⟨some { request := r.filed p },
          some ((partsFor (r.filed p) gaps ids).1.filterMap (·.assignedId)),
          (b.inflight.entry p).aborted⟩ t') :
      Admission b now r (⟨r.requestId, p, .fetch slot (partsFor (r.filed p) gaps ids).1⟩,
        { b with ids := (partsFor (r.filed p) gaps ids).2, inflight := t' })

/-- A request can be routed if it has a key and its range is not upside down. -/
theorem validate_eq_ok {r : Request} {k : SeriesKey} :
    validate r = .ok k ↔ r.key? = some k ∧ r.start ≤ r.stop := by
  unfold validate
  cases r.key? with
  | none => simp
  | some k' =>
    by_cases hrange : r.stop < r.start
    · simp [hrange, Int.not_le.mpr hrange]
    · simp [hrange, Int.not_lt.mp hrange]

/-- A request is accepted if it can be routed, and if its route leads to a source or to the store. -/
theorem submit_eq_ok {b : Broker} {now : Instant} {r : Request} {x : Accepted × Broker} :
    b.submit now r = .ok x ↔ ∃ k route slot, validate r = .ok k ∧ b.route now k r = .ok route ∧
      b.slotFor r route = .ok slot ∧ b.accept r route slot = x := by
  unfold submit
  cases hk : validate r with
  | error e => simp [bind, Except.bind]
  | ok k =>
    cases hroute : b.route now k r with
    | error e => simp [hroute, bind, Except.bind]
    | ok route =>
      cases hslot : b.slotFor r route with
      | error e => simp [hroute, hslot, bind, Except.bind]
      | ok slot => simp [hroute, hslot, bind, Except.bind, pure, Except.pure]

/-- Requests that are judged alike are turned down alike, or accepted by the same route. -/
theorem submit_alike {b c : Broker} {r r' : Request} (now : Instant)
    (hvalid : validate r' = validate r)
    (hroute : ∀ k, validate r = .ok k → c.route now k r' = b.route now k r)
    (hslot : ∀ route, c.slotFor r' route = b.slotFor r route) :
    (∃ e, b.submit now r = .error e ∧ c.submit now r' = .error e) ∨
      ∃ route slot, b.submit now r = .ok (b.accept r route slot) ∧
        c.submit now r' = .ok (c.accept r' route slot) := by
  unfold submit
  rw [hvalid]
  cases hk : validate r with
  | error e => exact Or.inl ⟨e, rfl, rfl⟩
  | ok k =>
    simp only [bind, Except.bind, hroute k hk, hslot]
    cases b.route now k r with
    | error e => exact Or.inl ⟨e, rfl, rfl⟩
    | ok route =>
      simp only
      cases b.slotFor r route with
      | error e => exact Or.inl ⟨e, rfl, rfl⟩
      | ok slot => exact Or.inr ⟨route, slot, rfl, rfl⟩

theorem submit_cases {b b' : Broker} {now : Instant} {r : Request} {a : Accepted}
    (h : b.submit now r = .ok (a, b')) : Admission b now r (a, b') := by
  obtain ⟨k, route, slot, hk, hroute, hslot, haccept⟩ := submit_eq_ok.mp h
  obtain ⟨hkey, hrange⟩ := validate_eq_ok.mp hk
  have hrouted : b.Routed now r k route := ⟨hkey, hrange, hroute⟩
  rw [← haccept]
  cases hnext : b.ids.next with
  | mk p ids =>
    have hset := Inflight.sets_insertRequest b.inflight p (r.filed p)
    cases route with
    | stored =>
      cases hslot
      simp only [accept, hnext]
      exact .stored hnext hrouted hset
    | external =>
      simp only [slotFor] at hslot
      split at hslot
      · cases hslot
        simp only [accept, hnext]
        exact .external hnext hrouted hset
      · cases hslot
    | split gaps =>
      simp only [slotFor] at hslot
      split at hslot
      · cases hslot
        simp only [accept, hnext]
        have hparts := Inflight.sets_insertParts (b.inflight.insertRequest p (r.filed p)) p
          ((partsFor (r.filed p) gaps ids).1.filterMap (·.assignedId))
        rw [hset.here] at hparts
        exact .split hnext hrouted (hset.trans hparts)
      · cases hslot

/-! ### What is stored, what is stashed -/

/-- The store after bars were delivered for a request, if nothing goes wrong. -/
def cacheAfter (b : Broker) (r : Request) (bars : List Bar) : Cache :=
  if r.save then (b.keep r bars).1.cache else b.cache

/-- The stash of a waiting request after bars were delivered for a part of it. -/
def stashAfter (x : Waiting) (r : Request) (bars : List Bar) : List Bar :=
  if r.save then x.stash else x.stash ++ bars

/-- The store does not refuse the bars, should it be asked to store them. -/
def Keeps (b : Broker) (r : Request) (bars : List Bar) : Prop :=
  r.save = true → bars ≠ [] → b.cache.refusals.add = none

/-- Bars to be stored are stored, or refused by the store, or overflow when they are adjusted. -/
theorem keep_cases (b : Broker) {r : Request} (bars : List Bar) (hsave : r.save = true) :
    (b.Keeps r bars ∧ ∃ n, b.keep r bars = ({ b with cache := b.cacheAfter r bars }, .ok n)) ∨
      (∃ e, b.keep r bars = (b, .error (.refused e))) ∨
      b.keep r bars = ({ b with cache := b.cacheAfter r bars }, .error .overflow) := by
  simp only [cacheAfter, hsave, if_true, keep]
  by_cases hemp : bars.isEmpty
  · exact Or.inl ⟨fun _ hne => absurd (List.isEmpty_iff.mp hemp) hne, 0, by simp [hemp]⟩
  · simp only [hemp, Bool.false_eq_true, if_false]
    unfold Cache.add
    cases hrefusal : b.cache.refusals.add with
    | some reason => exact Or.inr (Or.inl ⟨.write reason, rfl⟩)
    | none =>
      have hkeeps : b.Keeps r bars := fun _ _ => hrefusal
      unfold Store.add
      cases Store.instrumentId r.instrument with
      | error e => exact Or.inr (Or.inl ⟨e, rfl⟩)
      | ok id =>
        simp only
        split
        · split
          · exact Or.inl ⟨hkeeps, _, rfl⟩
          · exact Or.inr (Or.inr rfl)
        · exact Or.inl ⟨hkeeps, _, rfl⟩

/-! ### Whole requests -/

theorem finish_waiting {b : Broker} {p : AssignedId} {x : Waiting}
    (hx : b.inflight.waiting.find? p = some x) (result : Except BrokerError (List Bar)) :
    ∃ t', b.finish p result = ({ b with inflight := t' }, answer p x result) ∧
      b.inflight.Sets p { b.inflight.entry p with waiting := none } t' := by
  obtain ⟨t', htake, hset⟩ := Inflight.take?_waiting hx
  exact ⟨t', by simp [finish, htake], hset⟩

/-- Serving a request that waits answers it with what is stored. -/
theorem serve_waiting {b : Broker} {p : AssignedId} {x : Waiting}
    (hx : b.inflight.waiting.find? p = some x) :
    ∃ t', b.serve p = ({ b with inflight := t' }, answer p x (b.stored x.request)) ∧
      b.inflight.Sets p { b.inflight.entry p with waiting := none } t' := by
  obtain ⟨t', htake, hset⟩ := Inflight.take?_waiting hx
  exact ⟨t', by simp [serve, htake], hset⟩

/-- What can come of an answer to the fetch of a whole request that waits. -/
inductive WholeStep (b : Broker) (p : AssignedId) (r : Request) (x : Waiting) :
    Except MarketError (List Bar) → Broker × Outcome → Prop
  | failed {result t' e} (table : b.inflight.Sets p { b.inflight.entry p with waiting := none } t') :
      WholeStep b p r x result ({ b with inflight := t' }, answer p x (.error e))
  | overflowed {bars} :
      WholeStep b p r x (.ok bars) ({ b with cache := b.cacheAfter r bars }, .overflow)
  | done {bars t'} (table : b.inflight.Sets p { b.inflight.entry p with waiting := none } t') :
      WholeStep b p r x (.ok bars)
        ({ b with cache := b.cacheAfter r bars, inflight := t' }, answer p x (.ok bars))

theorem deliver_whole {b : Broker} {p : AssignedId} {r : Request} {x : Waiting}
    (hid : r.assignedId = some p) (hparent : r.parentId = none)
    (hx : b.inflight.waiting.find? p = some x) (result : Except MarketError (List Bar)) :
    WholeStep b p r x result (b.deliver r result) := by
  cases result with
  | error e =>
    obtain ⟨t', heq, hset⟩ := finish_waiting hx (.error (.source e))
    have hstep : b.deliver r (.error e) = b.finish p (.error (.source e)) := by
      simp [deliver, hid, hparent, fail]
    rw [hstep, heq]
    exact .failed hset
  | ok bars =>
    have hstep : b.deliver r (.ok bars) = b.arrive p r bars := by simp [deliver, hid, hparent]
    have hin : b.inflight.contains p = true := by simp [Inflight.contains, Table.contains, hx]
    rw [hstep, arrive, hin]
    cases hsave : r.save with
    | false =>
      obtain ⟨t', heq, hset⟩ := finish_waiting hx (.ok bars)
      have hdone : WholeStep b p r x (.ok bars) _ := .done hset
      simpa [cacheAfter, hsave, heq] using hdone
    | true =>
      simp only [Bool.not_true, Bool.false_eq_true, if_false]
      rcases keep_cases b bars hsave with ⟨hkeeps, n, hk⟩ | ⟨e, hk⟩ | hk
      · obtain ⟨t', heq, hset⟩ :=
          finish_waiting (b := { b with cache := b.cacheAfter r bars }) hx (.ok bars)
        simp only [hk, heq]
        exact .done hset
      · obtain ⟨t', heq, hset⟩ := finish_waiting hx (.error (.store e))
        simp only [hk, heq]
        exact .failed hset
      · simp only [hk]
        exact .overflowed

/-! ### Parts -/

/-- A late part of a failed request is crossed off and changes nothing else. -/
theorem deliver_late {b : Broker} {p c : AssignedId} {r : Request} {cs : List AssignedId}
    (hid : r.assignedId = some c) (hparent : r.parentId = some p)
    (hab : b.inflight.aborted.find? p = some cs) (result : Except MarketError (List Bar)) :
    ∃ t', b.deliver r result = ({ b with inflight := t' }, .silent) ∧
      b.inflight.Sets p { b.inflight.entry p with aborted := Inflight.remaining c cs } t' := by
  obtain ⟨t', hretire, hset⟩ := Inflight.retire?_aborted (c := c) hab
  refine ⟨t', ?_, hset⟩
  cases result <;> simp [deliver, hid, hparent, fail, arrivePart, hretire]

/-- What can come of an answer for a part of a request that waits. -/
inductive PartStep (b : Broker) (p c : AssignedId) (r : Request) (x : Waiting)
    (cs : List AssignedId) : Except MarketError (List Bar) → Broker × Outcome → Prop
  | failed {result t' e} (table : b.inflight.Sets p { aborted := Inflight.remaining c cs } t') :
      PartStep b p c r x cs result ({ b with inflight := t' }, answer p x (.error e))
  | overflowed {bars} :
      PartStep b p c r x cs (.ok bars) ({ b with cache := b.cacheAfter r bars }, .overflow)
  | more {bars t'} (kept : b.Keeps r bars) (left : Inflight.without c cs ≠ [])
      (table : b.inflight.Sets p
        ⟨some { x with stash := stashAfter x r bars }, some (Inflight.without c cs), none⟩ t') :
      PartStep b p c r x cs (.ok bars)
        ({ b with cache := b.cacheAfter r bars, inflight := t' }, .silent)
  | last {bars t'} (kept : b.Keeps r bars) (left : Inflight.without c cs = []) (table : b.inflight.Sets p {} t') :
      PartStep b p c r x cs (.ok bars)
        ({ b with cache := b.cacheAfter r bars, inflight := t' },
          answer p x (({ b with cache := b.cacheAfter r bars }.stored x.request).map fun stored =>
            if (stashAfter x r bars).isEmpty then stored
            else merge stored (stashAfter x r bars) x.request))

theorem abort_waiting {b : Broker} {p c : AssignedId} {x : Waiting} {cs : List AssignedId}
    (he : b.inflight.entry p = ⟨some x, some cs, none⟩) (e : BrokerError) :
    ∃ t', b.abort p c e = ({ b with inflight := t' }, answer p x (.error e)) ∧
      b.inflight.Sets p { aborted := Inflight.remaining c cs } t' := by
  simp only [Inflight.entry, Entry.mk.injEq] at he
  obtain ⟨t', habort, hset⟩ := Inflight.abort?_waiting (c := c) he.1 he.2.1 he.2.2
  exact ⟨t', by simp [abort, habort], hset⟩

theorem completePart_more {b : Broker} {p c : AssignedId} {x : Waiting} {cs : List AssignedId}
    (he : b.inflight.entry p = ⟨some x, some cs, none⟩) (hmore : Inflight.without c cs ≠ []) :
    ∃ t', b.completePart p c = ({ b with inflight := t' }, .silent) ∧
      b.inflight.Sets p ⟨some x, some (Inflight.without c cs), none⟩ t' := by
  have hcs : b.inflight.parts.find? p = some cs := congrArg Entry.parts he
  obtain ⟨t', hcomplete, hset⟩ := Inflight.complete_more hcs hmore
  rw [he] at hset
  exact ⟨t', by simp [completePart, hcomplete], hset⟩

theorem completePart_last {b : Broker} {p c : AssignedId} {x : Waiting} {cs : List AssignedId}
    (he : b.inflight.entry p = ⟨some x, some cs, none⟩) (hlast : Inflight.without c cs = []) :
    ∃ t', b.completePart p c = ({ b with inflight := t' },
        answer p x ((b.stored x.request).map fun stored =>
          if x.stash.isEmpty then stored else merge stored x.stash x.request)) ∧
      b.inflight.Sets p {} t' := by
  have hx : b.inflight.waiting.find? p = some x := congrArg Entry.waiting he
  have hcs : b.inflight.parts.find? p = some cs := congrArg Entry.parts he
  obtain ⟨t', hcomplete, hset⟩ := Inflight.complete_last hx hcs hlast
  rw [he] at hset
  exact ⟨t', by simp [completePart, hcomplete, stored], hset⟩

/-- Bars that are there, stored or stashed, let the part be crossed off. -/
theorem partStep_of_kept {b : Broker} {p c : AssignedId} {r : Request} {x : Waiting}
    {cs : List AssignedId} {bars : List Bar} {t : Inflight} (hkept : b.Keeps r bars)
    (hset : b.inflight.Sets p ⟨some { x with stash := stashAfter x r bars }, some cs, none⟩ t) :
    PartStep b p c r x cs (.ok bars)
      ({ b with cache := b.cacheAfter r bars, inflight := t }.completePart p c) := by
  by_cases hleft : Inflight.without c cs = []
  · obtain ⟨t', heq, hset'⟩ := completePart_last (b := { b with
      cache := b.cacheAfter r bars, inflight := t }) hset.here hleft
    rw [heq]
    exact .last hkept hleft (hset.trans hset')
  · obtain ⟨t', heq, hset'⟩ := completePart_more (b := { b with
      cache := b.cacheAfter r bars, inflight := t }) hset.here hleft
    rw [heq]
    exact .more hkept hleft (hset.trans hset')

/-- Bars that are stashed, or that the store takes, are there before their part is crossed off. -/
theorem deliver_kept {b : Broker} {p c : AssignedId} {r : Request} {x : Waiting}
    {cs : List AssignedId} {bars : List Bar} (hid : r.assignedId = some c)
    (hparent : r.parentId = some p) (he : b.inflight.entry p = ⟨some x, some cs, none⟩)
    (hkeep : r.save = true → ∃ n, b.keep r bars = ({ b with cache := b.cacheAfter r bars }, .ok n)) :
    ∃ t', b.deliver r (.ok bars)
        = { b with cache := b.cacheAfter r bars, inflight := t' }.completePart p c ∧
      b.inflight.Sets p ⟨some { x with stash := stashAfter x r bars }, some cs, none⟩ t' := by
  have hx : b.inflight.waiting.find? p = some x := congrArg Entry.waiting he
  have hretire := Inflight.retire?_none c (congrArg Entry.aborted he)
  have hin : b.inflight.contains p = true := by simp [Inflight.contains, Table.contains, hx]
  have hstep : b.deliver r (.ok bars) = b.arrivePart p c r bars := by simp [deliver, hid, hparent]
  rw [hstep, arrivePart, hretire]
  simp only [hin, Bool.not_true, Bool.false_eq_true, if_false]
  cases hsave : r.save with
  | false =>
    -- the bars join the stash, and the store is left alone
    have hset := Inflight.sets_addToStash bars hx
    rw [he] at hset
    exact ⟨b.inflight.addToStash p bars, by simp [cacheAfter, hsave],
      by simpa [stashAfter, hsave] using hset⟩
  | true =>
    obtain ⟨n, hk⟩ := hkeep hsave
    have hset := Inflight.sets_refl b.inflight p
    rw [he] at hset
    exact ⟨b.inflight, by simp [hk], by simpa [stashAfter, hsave] using hset⟩

theorem deliver_part {b : Broker} {p c : AssignedId} {r : Request} {x : Waiting}
    {cs : List AssignedId} (hid : r.assignedId = some c) (hparent : r.parentId = some p)
    (he : b.inflight.entry p = ⟨some x, some cs, none⟩) (result : Except MarketError (List Bar)) :
    PartStep b p c r x cs result (b.deliver r result) := by
  have hx : b.inflight.waiting.find? p = some x := congrArg Entry.waiting he
  have hretire := Inflight.retire?_none c (congrArg Entry.aborted he)
  cases result with
  | error e =>
    obtain ⟨t', heq, hset⟩ := abort_waiting (c := c) he (.source e)
    have hstep : b.deliver r (.error e) = b.abort p c (.source e) := by
      simp [deliver, hid, hparent, fail, hretire]
    rw [hstep, heq]
    exact .failed hset
  | ok bars =>
    have hkept : b.Keeps r bars →
        (r.save = true → ∃ n, b.keep r bars = ({ b with cache := b.cacheAfter r bars }, .ok n)) →
        PartStep b p c r x cs (.ok bars) (b.deliver r (.ok bars)) := by
      intro hkeeps hkeep
      obtain ⟨t', heq, hset⟩ := deliver_kept hid hparent he hkeep
      rw [heq]
      exact partStep_of_kept hkeeps hset
    cases hsave : r.save with
    | false => exact hkept (fun h => by simp [hsave] at h) fun h => by simp [hsave] at h
    | true =>
      rcases keep_cases b bars hsave with ⟨hkeeps, hk⟩ | hfailed
      · exact hkept hkeeps fun _ => hk
      · have hin : b.inflight.contains p = true := by simp [Inflight.contains, Table.contains, hx]
        have hstep : b.deliver r (.ok bars) = b.arrivePart p c r bars := by
          simp [deliver, hid, hparent]
        rw [hstep, arrivePart, hretire]
        simp only [hin, hsave, Bool.not_true, Bool.false_eq_true, if_false]
        rcases hfailed with ⟨e, hk⟩ | hk
        · obtain ⟨t', heq, hset⟩ := abort_waiting (c := c) he (.store e)
          simp only [hk, heq]
          exact .failed hset
        · simp only [hk]
          exact .overflowed

/-! ### What becomes of the rest -/

/-- The same store, numbers and sources: only the table may differ. -/
structure Quiet (b b' : Broker) : Prop where
  cache : b'.cache = b.cache
  ids : b'.ids = b.ids
  registry : b'.registry = b.registry

theorem quiet_finish (b : Broker) (p : AssignedId) (result : Except BrokerError (List Bar)) :
    Quiet b (b.finish p result).1 := by
  unfold finish
  split <;> exact ⟨rfl, rfl, rfl⟩

theorem quiet_abort (b : Broker) (p c : AssignedId) (e : BrokerError) :
    Quiet b (b.abort p c e).1 := by
  unfold abort
  split <;> exact ⟨rfl, rfl, rfl⟩

theorem quiet_completePart (b : Broker) (p c : AssignedId) : Quiet b (b.completePart p c).1 := by
  unfold completePart
  split <;> exact ⟨rfl, rfl, rfl⟩

theorem quiet_serve (b : Broker) (p : AssignedId) : Quiet b (b.serve p).1 := by
  unfold serve
  split <;> exact ⟨rfl, rfl, rfl⟩

theorem quiet_fail (b : Broker) (c : AssignedId) (parent : Option AssignedId) (e : MarketError) :
    Quiet b (b.fail c parent e).1 := by
  unfold fail
  cases parent with
  | none => exact quiet_finish b c _
  | some p =>
    simp only
    cases b.inflight.retire? p c with
    | some t => exact ⟨rfl, rfl, rfl⟩
    | none => exact quiet_abort b p c _

/-- The same numbers and sources: only the table and the store may differ. -/
structure Steady (b b' : Broker) : Prop where
  ids : b'.ids = b.ids
  registry : b'.registry = b.registry

theorem Quiet.steady {b b' : Broker} (h : Quiet b b') : Steady b b' := ⟨h.ids, h.registry⟩

theorem Steady.trans {b b' b'' : Broker} (h : Steady b b') (h' : Steady b' b'') : Steady b b'' :=
  ⟨h'.ids.trans h.ids, h'.registry.trans h.registry⟩

/-- Bars that are kept change nothing but the store. -/
theorem steady_keep (b : Broker) (r : Request) (bars : List Bar) : Steady b (b.keep r bars).1 := by
  unfold keep
  split <;> exact ⟨rfl, rfl⟩

theorem steady_arrive (b : Broker) (c : AssignedId) (r : Request) (bars : List Bar) :
    Steady b (b.arrive c r bars).1 := by
  have hkeep := steady_keep b r bars
  unfold arrive
  split
  · exact ⟨rfl, rfl⟩
  · split
    · exact (quiet_finish b c _).steady
    · rcases hb : b.keep r bars with ⟨b', kept⟩
      rw [hb] at hkeep
      cases kept with
      | ok n => exact hkeep.trans (quiet_finish b' c _).steady
      | error e => cases e <;> first | exact hkeep.trans (quiet_finish b' c _).steady | exact hkeep

theorem steady_arrivePart (b : Broker) (p c : AssignedId) (r : Request) (bars : List Bar) :
    Steady b (b.arrivePart p c r bars).1 := by
  have hkeep := steady_keep b r bars
  unfold arrivePart
  split
  · exact ⟨rfl, rfl⟩
  · split
    · exact ⟨rfl, rfl⟩
    · split
      · have hstash : Steady b { b with inflight := b.inflight.addToStash p bars } := ⟨rfl, rfl⟩
        exact hstash.trans (quiet_completePart _ p c).steady
      · rcases hb : b.keep r bars with ⟨b', kept⟩
        rw [hb] at hkeep
        cases kept with
        | ok n => exact hkeep.trans (quiet_completePart b' p c).steady
        | error e => cases e <;> first | exact hkeep.trans (quiet_abort b' p c _).steady | exact hkeep

/-- What a source delivers changes nothing but the table and the store. -/
theorem steady_deliver (b : Broker) (r : Request) (result : Except MarketError (List Bar)) :
    Steady b (b.deliver r result).1 := by
  unfold deliver
  cases r.assignedId with
  | none => cases result <;> exact ⟨rfl, rfl⟩
  | some c =>
    cases result with
    | error e => exact (quiet_fail b c r.parentId e).steady
    | ok bars =>
      cases r.parentId with
      | none => exact steady_arrive b c r bars
      | some p => exact steady_arrivePart b p c r bars

/-- A fetch that failed leaves the store alone. -/
theorem cache_deliver_error (b : Broker) (r : Request) (e : MarketError) :
    (b.deliver r (.error e)).1.cache = b.cache := by
  unfold deliver
  cases r.assignedId with
  | none => rfl
  | some c => exact (quiet_fail b c r.parentId e).cache

/-- The bars of a fetch reach the store if the request that they were fetched for waits. -/
theorem cache_deliver_ok {b : Broker} {r : Request} {p : AssignedId} (hid : r.assignedId.isSome)
    (howner : r.owner? = some p) (haborted : b.inflight.contains p = true →
      b.inflight.aborted.find? p = none) (bars : List Bar) :
    (b.deliver r (.ok bars)).1.cache
      = if b.inflight.contains p then b.cacheAfter r bars else b.cache := by
  obtain ⟨c, hc⟩ := Option.isSome_iff_exists.mp hid
  have hcache : r.save = true → (b.keep r bars).1.cache = b.cacheAfter r bars := fun hsave => by
    rw [cacheAfter, if_pos hsave]
  have hsame : r.save = false → b.cacheAfter r bars = b.cache := fun hsave => by
    rw [cacheAfter, if_neg (by simp [hsave])]
  unfold deliver
  rw [hc]
  cases hparent : r.parentId with
  | none =>
    have hp : c = p := by simpa [Request.owner?, hparent, hc] using howner
    subst hp
    simp only
    unfold arrive
    cases b.inflight.contains c with
    | false => rfl
    | true =>
      cases hsave : r.save with
      | false =>
        simp only [Bool.not_true, Bool.not_false, Bool.false_eq_true, if_false, if_true]
        rw [hsame hsave]
        exact (quiet_finish b c _).cache
      | true =>
        simp only [Bool.not_true, Bool.false_eq_true, if_false, if_true]
        rw [← hcache hsave]
        rcases hkeep : b.keep r bars with ⟨b', result⟩
        cases result with
        | ok n => exact (quiet_finish b' c _).cache
        | error e => cases e <;> first | exact (quiet_finish b' c _).cache | rfl
  | some q =>
    have hp : q = p := by simpa [Request.owner?, hparent] using howner
    subst hp
    simp only
    unfold arrivePart
    cases hin : b.inflight.contains q with
    | false =>
      cases b.inflight.retire? q c with
      | some t => rfl
      | none => rfl
    | true =>
      rw [Inflight.retire?_none c (haborted hin)]
      cases hsave : r.save with
      | false =>
        simp only [Bool.not_true, Bool.not_false, Bool.false_eq_true, if_false, if_true]
        rw [hsame hsave]
        exact (quiet_completePart _ q c).cache
      | true =>
        simp only [Bool.not_true, Bool.false_eq_true, if_false, if_true]
        rw [← hcache hsave]
        rcases hkeep : b.keep r bars with ⟨b', result⟩
        cases result with
        | ok n => exact (quiet_completePart b' q c).cache
        | error e => cases e <;> first | exact (quiet_abort b' q c _).cache | rfl

/-- Bars of a fetch that overflow on their way to the store end the step that keeps them. -/
theorem deliver_overflow {b b' : Broker} {r : Request} {p : AssignedId} {bars : List Bar}
    (hid : r.assignedId.isSome) (howner : r.owner? = some p)
    (hin : b.inflight.contains p = true) (haborted : b.inflight.aborted.find? p = none)
    (hsave : r.save = true) (hkeep : b.keep r bars = (b', .error .overflow)) :
    (b.deliver r (.ok bars)).2 = .overflow := by
  obtain ⟨c, hc⟩ := Option.isSome_iff_exists.mp hid
  cases hparent : r.parentId with
  | none =>
    obtain rfl : c = p := by simpa [Request.owner?, hparent, hc] using howner
    simp [deliver, hc, hparent, arrive, hin, hsave, hkeep]
  | some q =>
    obtain rfl : q = p := by simpa [Request.owner?, hparent] using howner
    simp [deliver, hc, hparent, arrivePart, Inflight.retire?_none c haborted, hin, hsave, hkeep]

/-! ### Bars from elsewhere -/

/-- Bars that nobody asked for change nothing but the store. -/
theorem addData_fst (b : Broker) (a : Addition) :
    (b.addData a).1 = { b with cache := (b.addData a).1.cache } := by
  unfold addData
  split
  · rfl
  · split
    · rfl
    · simp only
      split <;> rfl

end Broker

end BarArchive
