/-
Asking again.

A request that is split sends for what lies beyond the stored range, and its parts bring
what a source has there. The source need not have a bar near either end, so the range that
is stored afterwards may still end before the request does, and the same request may be
split again. But the stored range has only grown: each gap that is left lies within one
that was filled, and no bar of the source lies in a gap that was filled and is left.

**So a request that is answered and then submitted again fetches no bar, leaves the cache
as it is, and gets the same bars.** It is not even accepted, though, if it goes beyond the
stored range by now at the edge of the calendar, because the planner looks half a bar
further out before it finds that no gap is left there.
-/
import BarArchive.Proofs.Gathering
import BarArchive.Proofs.Planning

namespace BarArchive

open Series
open Tape (gapsOf)

variable {tape : List Bar} {k : SeriesKey}

/-! ### The second plan -/

namespace Route

variable {r : Request} {c c' : Coverage} {now now' : Instant}

theorem Finished.later (h : Finished r c now) (hlater : now ≤ now')
    (hlatest : c.latest ≤ c'.latest) : Finished r c' now' := by
  obtain ⟨expiration, hexpiration, hnow, hreaches⟩ := h
  exact ⟨expiration, hexpiration, Int.le_trans hnow hlater, Int.le_trans hreaches hlatest⟩

/-- The gaps around a stored range that has grown lie within those that were there before. -/
theorem gap_of_grown {g' : Gap} (hearliest : c'.earliest ≤ c.earliest)
    (hlatest : c.latest ≤ c'.latest) (hlater : now ≤ now') (hg : g' ∈ gapsOf r c' now') :
    ∃ g ∈ gapsOf r c now, ∀ t, g'.Spans t → g.Spans t := by
  rcases mem_gapsOf_iff.mp hg with hback | hforward
  · obtain ⟨rfl, hwide⟩ := backfill?_eq_some.mp hback
    have hstop : c'.earliest - r.frequency.halfBar ≤ c.earliest - r.frequency.halfBar :=
      Int.sub_le_sub_right hearliest _
    refine ⟨⟨.backfill, r.start, c.earliest - r.frequency.halfBar⟩, ?_, ?_⟩
    · apply mem_gapsOf_iff.mpr
      exact Or.inl (backfill?_eq_some.mpr ⟨rfl, Int.le_trans hwide hstop⟩)
    · rintro t ⟨hfrom, hto⟩
      exact ⟨hfrom, Int.le_trans hto hstop⟩
  · obtain ⟨rfl, hwide, hopen⟩ := forwardFill?_eq_some.mp hforward
    have hstart : c.latest + r.frequency.halfBar ≤ c'.latest + r.frequency.halfBar :=
      Int.add_le_add_right hlatest _
    refine ⟨⟨.forwardFill, c.latest + r.frequency.halfBar, r.stop⟩, ?_, ?_⟩
    · apply mem_gapsOf_iff.mpr
      refine Or.inr (forwardFill?_eq_some.mpr ⟨rfl, Int.le_trans hstart hwide, ?_⟩)
      intro hfinished
      exact hopen (hfinished.later hlater hlatest)
    · rintro t ⟨hfrom, hto⟩
      exact ⟨Int.le_trans hstart hfrom, hto⟩

/-- A request that is split is not told where to go, and its bars may be joined. -/
theorem of_plan_split {coverage : Option Coverage} {gaps : List Gap}
    (h : plan r coverage now = .split gaps) :
    (r.forceFresh = false ∧ r.localOnly = false ∧ r.instrument.allowsPartialFill = true) ∧
      ∃ c, coverage = some c ∧ gaps = gapsOf r c now := by
  obtain ⟨hfresh, hlocal, -, c, rfl, -, hgaps⟩ := Broker.plan_gaps h
  refine ⟨⟨hfresh, hlocal, ?_⟩, c, rfl, hgaps⟩
  cases hpartial : r.instrument.allowsPartialFill with
  | true => rfl
  | false => simp [plan, hfresh, hlocal, hpartial] at h

end Route

namespace Broker

variable {b b' : Broker} {now : Instant} {r : Request} {a : Accepted} {c : Coverage}

/-- What is sent for a request that is split: a part for each gap, and nothing else. -/
theorem work_of_split {gaps : List Gap} (hsubmit : b.submit now r = .ok (a, b'))
    (hkey : r.key? = some k) (hsplit : b.route now k r = .ok (.split gaps)) :
    ∃ slot parts, a.work = .fetch slot parts ∧
      (∀ q ∈ parts, q.isPart = true ∧ q.key? = some k ∧ q.save = r.save) ∧
      ∀ g ∈ gaps, ∃ q ∈ parts, q.start = g.start ∧ q.stop = g.stop := by
  have hroute : ∀ {k' route}, b.Routed now r k' route → route = .split gaps := by
    intro k' route hrouted
    obtain rfl : k' = k := Option.some.inj (hrouted.key.symm.trans hkey)
    exact Except.ok.inj (hrouted.route.symm.trans hsplit)
  cases submit_cases hsubmit with
  | stored next routed => cases hroute routed
  | external next routed => cases hroute routed
  | @split k' p ids gaps' slot t' next routed table =>
      obtain rfl := Route.split.inj (hroute routed)
      refine ⟨slot, _, rfl, fun q hq => ?_, fun g hg => exists_partFor hg ids⟩
      obtain ⟨g, -, id, rfl⟩ := partsFor_mem hq
      exact ⟨rfl, hkey, rfl⟩

/-- Next to what is stored, a request that is not told where to go is sent for gaps only. -/
theorem gap_of_request (hsubmit : b.submit now r = .ok (a, b')) (hkey : r.key? = some k)
    (hfresh : r.forceFresh = false) (hlocal : r.localOnly = false)
    (hpartial : r.instrument.allowsPartialFill = true)
    (hc : b.cache.store.coverage k = some c) : ∀ q ∈ a.work.requests,
      q.isPart = true ∧ ∃ g ∈ gapsOf r c now, q.start = g.start ∧ q.stop = g.stop := by
  have hroute := fun {k' route} (hrouted : b.Routed now r k' route) =>
    Tape.stored_or_split hrouted hkey hc hfresh hlocal hpartial
  intro q hq
  cases submit_cases hsubmit with
  | stored => cases hq
  | external next routed => rcases hroute routed with ⟨hstored, -⟩ | hsplit <;> contradiction
  | split next routed =>
      obtain ⟨g, hg, id, rfl⟩ := partsFor_mem hq
      rcases hroute routed with ⟨hstored, -⟩ | hsplit
      · cases hstored
      · obtain rfl := Route.split.inj hsplit
        exact ⟨rfl, g, hg, rfl, rfl⟩

/-- A request that has a source is accepted if a plan can be made. -/
theorem submit_of_canPlan (now : Instant) {slot : Slot} (hkey : r.key? = some k)
    (hrange : r.start ≤ r.stop) (hfresh : r.forceFresh = false) (hlocal : r.localOnly = false)
    (hreads : b.cache.refusals.coverage = none) (hresolves : b.registry.resolve r = .ok slot) :
    if Route.canPlan r (b.cache.store.coverage k) now then
      ∃ a b', b.submit now r = .ok (a, b')
    else b.submit now r = .error .outsideCalendar := by
  have hvalid : validate r = .ok k := validate_eq_ok.mpr ⟨hkey, hrange⟩
  have hroute : b.route now k r = if Route.canPlan r (b.cache.store.coverage k) now
      then .ok (Route.plan r (b.cache.store.coverage k) now) else .error .outsideCalendar := by
    unfold Broker.route Cache.coverage Route.plan?
    rw [hfresh, hlocal, hreads]
    simp only [Bool.or_self, Bool.false_eq_true, if_false]
    cases Route.canPlan r (b.cache.store.coverage k) now <;> rfl
  have hslot : ∀ route, ∃ slot', b.slotFor r route = .ok slot' := by
    intro route
    unfold slotFor
    rw [hresolves]
    cases route with
    | stored => exact ⟨none, rfl⟩
    | external => exact ⟨some slot, rfl⟩
    | split => exact ⟨some slot, rfl⟩
  by_cases hcan : Route.canPlan r (b.cache.store.coverage k) now = true
  · rw [if_pos hcan] at hroute ⊢
    obtain ⟨slot', hslot⟩ := hslot (Route.plan r (b.cache.store.coverage k) now)
    exact ⟨_, _, submit_eq_ok.mpr ⟨k, _, slot', hvalid, hroute, hslot, rfl⟩⟩
  · rw [if_neg hcan] at hroute ⊢
    unfold submit
    rw [hvalid]
    simp only [bind, Except.bind, hroute]

end Broker

namespace Gathers

variable {w : World} {e : Request × Accepted} {store : Store} {r : Request} {c c' : Coverage}
  {now now' : Instant} {reply : Reply}

/-- No bar of the tape lies in a gap that was filled and is left. -/
theorem nothing_left {since : Series} (h : Gathers tape k e since w)
    (hreply : .ok reply ∈ w.answers e.2.assignedId)
    (hparts : ∀ g ∈ gapsOf r c now, ∃ q ∈ e.2.work.requests, q.start = g.start ∧ q.stop = g.stop)
    (hearliest : c'.earliest ≤ c.earliest) (hlatest : c.latest ≤ c'.latest) (hlater : now ≤ now')
    (hc' : w.broker.cache.store.coverage k = some c') {g : Gap} (hg : g ∈ gapsOf r c' now')
    {b : Bar} (hb : b ∈ tape) : ¬ g.Spans b.time := by
  intro hspans
  obtain ⟨g₁, hg₁, hwithin⟩ := Route.gap_of_grown hearliest hlatest hlater hg
  obtain ⟨q, hq, hstart, hstop⟩ := hparts g₁ hg₁
  have hspans₁ := hwithin b.time hspans
  have hexcerpt : b ∈ q.excerpt tape :=
    Request.mem_excerpt.mpr ⟨hb, hstart ▸ hspans₁.1, hstop ▸ hspans₁.2⟩
  have hstored : groupAt (w.series k) b.time ≠ [] :=
    (h.gathered.replied reply hreply).2 q hq b hexcerpt
  obtain ⟨-, -, hbounds⟩ := Store.coverage_spec (h.shaped.2 k) hc'
  exact (Route.extends_of_mem_gapsOf hg).beyond b.time hspans (hbounds b.time hstored)

/-- When its gaps were filled, a request is sent for nothing that the tape has. -/
theorem nothing_sent {a : Accepted} {b : Broker} (h : Gathers tape k e (store.get k) w)
    (hreply : .ok reply ∈ w.answers e.2.assignedId)
    (hparts : ∀ g ∈ gapsOf r c now, ∃ q ∈ e.2.work.requests, q.start = g.start ∧ q.stop = g.stop)
    (hgrouped : Grouped k.frequency (store.get k)) (hc : store.coverage k = some c)
    (hkey : r.key? = some k) (hfresh : r.forceFresh = false) (hlocal : r.localOnly = false)
    (hpartial : r.instrument.allowsPartialFill = true) (hlater : now ≤ now')
    (hsubmit : w.broker.submit now' r = .ok (a, b)) :
    ∀ q ∈ a.work.requests, q.isPart = true ∧ q.excerpt tape = [] := by
  obtain ⟨c', hc'⟩ : ∃ c', w.broker.cache.store.coverage k = some c' := by
    refine Option.ne_none_iff_exists'.mp fun hnone => ?_
    have hstored := h.grown _ (Store.coverage_spec hgrouped hc).1
    rw [show w.series k = [] from Store.coverage_eq_none.mp hnone] at hstored
    exact hstored (groupAt_nil _)
  obtain ⟨hearliest, hlatest⟩ := Store.coverage_grows hgrouped (h.shaped.2 k) h.grown hc hc'
  intro q hq
  obtain ⟨hpart, g, hg, hstart, hstop⟩ :=
    Broker.gap_of_request hsubmit hkey hfresh hlocal hpartial hc' q hq
  refine ⟨hpart, List.eq_nil_iff_forall_not_mem.mpr fun x hx => ?_⟩
  obtain ⟨hx, hspans⟩ := Request.mem_excerpt.mp hx
  rw [hstart, hstop] at hspans
  exact h.nothing_left hreply hparts hearliest hlatest hlater hc' hg hx hspans

end Gathers

/-! ### Fetches without bars -/

/-- A part without bars is crossed off, and after the last one the request is answered. -/
theorem Broker.deliver_nothing {b : Broker} {p c : AssignedId} {q : Request} {x : Waiting}
    {cs : List AssignedId} (hid : q.assignedId = some c) (hparent : q.parentId = some p)
    (hentry : b.inflight.entry p = ⟨some x, some cs, none⟩) (hstash : x.stash = []) :
    ∃ t', (Inflight.without c cs ≠ [] ∧
        b.deliver q (.ok []) = ({ b with inflight := t' }, .silent) ∧
        b.inflight.Sets p ⟨some x, some (Inflight.without c cs), none⟩ t') ∨
      (Inflight.without c cs = [] ∧
        b.deliver q (.ok []) = ({ b with inflight := t' }, answer p x (b.stored x.request)) ∧
        b.inflight.Sets p {} t') := by
  have hcache : b.cacheAfter q [] = b.cache :=
    cacheAfter_of_not_writes fun hwrites => hwrites.2.1 rfl
  have hkeep : q.save = true →
      ∃ n, b.keep q [] = ({ b with cache := b.cacheAfter q [] }, .ok n) := by
    intro _
    rw [hcache]
    exact ⟨0, rfl⟩
  obtain ⟨t, hdeliver, hset⟩ := deliver_kept hid hparent hentry hkeep
  have hwaiting : { x with stash := stashAfter x q [] } = x := by
    unfold stashAfter
    cases q.save <;> simp
  rw [hcache] at hdeliver
  rw [hwaiting] at hset
  by_cases hleft : Inflight.without c cs = []
  · obtain ⟨t', hlast, hset'⟩ := completePart_last (b := { b with inflight := t }) hset.here hleft
    refine ⟨t', Or.inr ⟨hleft, ?_, hset.trans hset'⟩⟩
    rw [hdeliver, hlast]
    exact congrArg (fun result => (_, answer p x result))
      (stored_unstashed { b with inflight := t } x.request hstash)
  · obtain ⟨t', hmore, hset'⟩ := completePart_more (b := { b with inflight := t }) hset.here hleft
    exact ⟨t', Or.inl ⟨hleft, hdeliver.trans hmore, hset.trans hset'⟩⟩

/--
What a world holds for a request that finds all its bars in the store: what is out for it are
parts in whose ranges the tape has no bars, and what it is answered with is stored.
-/
structure Provided (tape : List Bar) (r : Request) (s : Series) (v : View) : Prop where
  parts : ∀ q, .fetch q ∈ v.jobs → q.isPart = true ∧ q.excerpt tape = []
  waiting : ∀ x, v.entry.waiting = some x → v.jobs ≠ [] ∧ x.stash = []
  answered : ∀ result ∈ v.answers, ∃ reply, result = .ok reply ∧ reply.bars = (r.replyFrom s).bars

namespace Provided

variable {r : Request} {a : Accepted} {s : Series} {v : View} {b : Broker} {o : Bool}

/-- An answer from the store is what the request is to be answered with. -/
theorem of_stored {t' : Inflight} {p : AssignedId} {j : Job} {x : Waiting}
    {fetched : Option (Request × Except MarketError (List Bar))}
    (hentry : t'.entry p = {}) (hjobs : v.jobs.erase j = []) (hanswers : v.answers = [])
    (hx : x.request = r) (hstored : b.stored r = .ok (within r.start r.stop s).bars) :
    Provided tape r s (v.after p j fetched
      ({ b with inflight := t' }, Broker.answer p x (b.stored x.request))) := by
  have hnone : (v.after p j fetched
      ({ b with inflight := t' }, Broker.answer p x (b.stored x.request))).jobs = [] := by
    simpa [View.after, Broker.answer, Outcome.isOverflow] using hjobs
  refine ⟨fun q hq => ?_, fun y hy => ?_, fun result hresult => ?_⟩
  · rw [hnone] at hq
    cases hq
  · have hwaiting : (t'.entry p).waiting = some y := hy
    rw [hentry] at hwaiting
    cases hwaiting
  · rw [View.answers_of_answer, hanswers, hx, hstored] at hresult
    obtain rfl := List.mem_singleton.mp hresult
    exact ⟨_, rfl, rfl⟩

/-- A request that is served is answered from the store. -/
theorem served (h : Provided tape r s v) (hlife : Life o r a v)
    (hentry : b.inflight.entry a.assignedId = v.entry) (hjob : .serve a.assignedId ∈ v.jobs)
    (hstored : b.stored r = .ok (within r.start r.stop s).bars) :
    Provided tape r s
      (v.after a.assignedId (.serve a.assignedId) none (b.serve a.assignedId)) := by
  cases hlife with
  | serving work =>
      obtain ⟨t', heq, hset⟩ := Broker.serve_waiting (congrArg Entry.waiting hentry)
      rw [heq]
      refine of_stored ?_ (by simp) rfl rfl hstored
      rw [hset.here, hentry]
  | fetching => simp at hjob
  | filling => simp at hjob
  | failed => simp at hjob
  | closed => simp at hjob
  | stranded => simp at hjob

/-- A part comes back without bars. -/
theorem fetched_part {left : List Request} {stash : List Bar} {q : Request}
    {done : List (Request × Except MarketError (List Bar))}
    (h : Provided tape r s
      ⟨⟨some { request := r, stash }, some (numbers left), none⟩, left.map .fetch, done, []⟩)
    (parts : PartsOf a.assignedId left) (hq : q ∈ left)
    (hentry : b.inflight.entry a.assignedId
      = ⟨some { request := r, stash }, some (numbers left), none⟩)
    (hstored : b.stored r = .ok (within r.start r.stop s).bars) :
    Provided tape r s
      (View.after ⟨⟨some { request := r, stash }, some (numbers left), none⟩, left.map .fetch,
        done, []⟩ a.assignedId (.fetch q) (some (q, .ok [])) (b.deliver q (.ok []))) := by
  obtain ⟨c, hc⟩ := Option.isSome_iff_exists.mp (parts.numbered q hq)
  have hstash : stash = [] := (h.waiting _ rfl).2
  have herased := PartsOf.jobs_erase left q
  have hnil := (parts.erase q).numbers_eq_nil
  rw [numbers_erase hq hc parts.distinct] at hnil
  obtain ⟨t', ⟨hleft, heq, hset⟩ | ⟨hleft, heq, hset⟩⟩ :=
    Broker.deliver_nothing hc (parts.parent q hq) hentry hstash
  · rw [heq]
    refine ⟨fun p hp => h.parts p (List.mem_of_mem_erase hp), fun x hx => ?_, fun _ hr => ?_⟩
    · have hwaiting : some x = some { request := r, stash } :=
        hx.symm.trans (congrArg Entry.waiting hset.here)
      obtain rfl := Option.some.inj hwaiting
      refine ⟨?_, hstash⟩
      show (left.map Job.fetch).erase (.fetch q) ≠ []
      rw [herased]
      intro hnone
      exact hleft (hnil.mpr (List.map_eq_nil_iff.mp hnone))
    · cases hr
  · rw [heq]
    refine of_stored hset.here ?_ rfl rfl hstored
    show (left.map Job.fetch).erase (.fetch q) = []
    rw [herased, hnil.mp hleft]
    rfl

/-- A fetch that comes back as the tape has it leaves its request provided. -/
theorem fetched {q : Request} {result : Except MarketError (List Bar)}
    (h : Provided tape r s v) (hlife : Life o r a v)
    (hentry : b.inflight.entry a.assignedId = v.entry) (hjob : .fetch q ∈ v.jobs)
    (hstored : b.stored r = .ok (within r.start r.stop s).bars) (hnothing : result = .ok []) :
    Provided tape r s
      (v.after a.assignedId (.fetch q) (some (q, result)) (b.deliver q result)) := by
  subst hnothing
  cases hlife with
  | serving => simp at hjob
  | fetching work whole numbered =>
      -- a part is no whole request
      have hpart := (h.parts q hjob).1
      obtain rfl : q = r := by simpa using hjob
      rw [Request.isPart, whole] at hpart
      cases hpart
  | filling parts some_left sent ok =>
      exact h.fetched_part parts (by simpa using hjob) hentry hstored
  | failed =>
      obtain ⟨reply, herror, -⟩ := h.answered _ List.mem_cons_self
      cases herror
  | closed => simp at hjob
  | stranded => simp at hjob

/-- A request that is provided has work left, or it was answered. -/
theorem answers (h : Provided tape r s v) (hlife : Life o r a v) :
    (v.answers = [] ∧ v.jobs ≠ []) ∨
      ∃ reply, v.answers = [.ok reply] ∧ reply.bars = (r.replyFrom s).bars := by
  cases hlife with
  | serving => exact Or.inl ⟨rfl, List.cons_ne_nil _ _⟩
  | fetching => exact Or.inl ⟨rfl, List.cons_ne_nil _ _⟩
  | filling => exact Or.inl ⟨rfl, (h.waiting _ rfl).1⟩
  | failed =>
      obtain ⟨reply, herror, -⟩ := h.answered _ List.mem_cons_self
      cases herror
  | closed =>
      obtain ⟨reply, rfl, hbars⟩ := h.answered _ List.mem_cons_self
      exact Or.inr ⟨reply, rfl, hbars⟩
  | stranded => exact absurd rfl (h.waiting _ rfl).1

end Provided

/-- A run from the submission of a request that finds all its bars in the store. -/
structure Provides (tape : List Bar) (k : SeriesKey) (e : Request × Accepted) (s : Series)
    (w : World) : Prop where
  shaped : w.Shaped
  known : e ∈ w.accepted
  readable : w.broker.cache.refusals.query = none
  series : w.series k = s
  provided : Provided tape e.1 s (w.view e.2.assignedId)

namespace Provides

variable {w w' : World} {m : Move} {e : Request × Accepted} {s : Series}

theorem fetched_nothing (h : Provides tape k e s w) {q : Request}
    {result : Except MarketError (List Bar)} (hjob : .fetch q ∈ w.jobs e.2.assignedId)
    (hplays : Move.Plays tape e.2.assignedId (.fetched q result)) : result = .ok [] := by
  obtain ⟨bars, rfl, hbars⟩ := hplays (of_decide_eq_true (List.mem_filter.mp hjob).2)
  rw [(h.provided.parts q hjob).2] at hbars
  rw [hbars.eq_nil]

theorem step (h : Provides tape k e s w) (hkey : e.1.key? = some k)
    (hrange : e.1.start ≤ e.1.stop) (hstep : w.step? m = some w') (hids : w'.issued.Nodup)
    (hplays : m.Plays tape e.2.assignedId) (hrefused : ∀ x, m = .refused x → x.query = none)
    (hleaves : w.LeavesTo k e.2.assignedId m) : Provides tape k e s w' := by
  have hsame : w'.series k = w.series k := by
    rcases World.series_of_leavesTo h.shaped hstep hleaves with
      ⟨q, bars, rfl, hjob, hstores, -⟩ | hsame
    · exact absurd (Except.ok.inj (h.fetched_nothing hjob hplays)) hstores.2.1.2.1
    · exact hsame
  have hstored : w.broker.stored e.1 = .ok (within e.1.start e.1.stop s).bars := by
    rw [Broker.stored_eq hkey hrange, h.readable, ← h.series]
    rfl
  refine ⟨⟨h.shaped.1.step hstep hids, World.inShape_step h.shaped.1 hstep h.shaped.2⟩,
    World.accepted_step hstep h.known, World.readable_step h.shaped.1 hstep hrefused h.readable,
    hsame.trans h.series, ?_⟩
  have hlife := h.shaped.1.life e h.known
  rcases World.view_step h.shaped.1 hstep hids h.known with
    hview | ⟨-, hjob, hview⟩ | ⟨q, result, rfl, hjob, hview⟩
  · rw [hview]
    exact h.provided
  · rw [hview]
    exact h.provided.served hlife rfl hjob hstored
  · rw [hview]
    exact h.provided.fetched hlife rfl hjob hstored (h.fetched_nothing hjob hplays)

/-- Work for a request that is provided leaves the cache as it is. -/
theorem keepsCache (h : Provides tape k e s w) (hplays : m.Plays tape e.2.assignedId) :
    w.KeepsCache e.2.assignedId m := by
  intro howner w' hstep
  cases m with
  | fetched q result =>
      obtain ⟨hpending, hbroker⟩ := World.fetched_of_step hstep
      obtain rfl := h.fetched_nothing (World.mem_jobs hpending howner) hplays
      obtain ⟨hid, d, -, hd, haborted⟩ := h.shaped.1.fetch_owned hpending
      rw [hbroker, Broker.cache_deliver_ok hid hd haborted,
        Broker.cacheAfter_of_not_writes fun hwrites => hwrites.2.1 rfl, ite_self]
  | served id =>
      cases World.makes_of_step hstep with
      | served => rw [World.broker_after, (Broker.quiet_serve _ _).cache]
  | submit => cases howner
  | added => cases howner
  | refused => cases howner
  | connected => cases howner

end Provides

/-! ### The result -/

namespace World

variable {u v w : World} {r : Request} {a : Accepted} {b : Broker} {now now' : Instant}

/-- A request that is accepted leaves work. -/
theorem admission_busy {b b' : Broker} (h : Broker.Admission b now r (a, b')) :
    a.work.jobs ≠ [] := by
  cases h with
  | stored => exact List.cons_ne_nil _ _
  | external => exact List.cons_ne_nil _ _
  | split next routed =>
      intro hnone
      have hparts := Broker.partsFor_eq_nil.mp (List.map_eq_nil_iff.mp hnone)
      exact (Broker.plan_gaps routed.gaps).2.2.1 hparts

/-- A request that is only sent for parts without bars is provided from its submission on. -/
theorem provides_of_submit (h : u.Shaped) (hsubmit : u.broker.submit now r = .ok (a, b))
    (hids : (u.enroll r a b).issued.Nodup) (hreads : u.broker.cache.refusals.query = none)
    (hparts : ∀ q ∈ a.work.requests, q.isPart = true ∧ q.excerpt tape = []) :
    Provides tape k (r.filed a.assignedId, a) (u.series k) (u.enroll r a b) := by
  have hadmission := Broker.submit_cases hsubmit
  have hview := view_enroll_self hsubmit (h.1.blank _ (not_mem_acceptedIds hids))
  have hcache : (u.enroll r a b).broker.cache = u.broker.cache := cache_of_submit hsubmit
  refine ⟨h.enroll hsubmit hids, List.mem_cons_self, ?_, ?_, ?_⟩
  · rw [hcache]
    exact hreads
  · exact congrArg (·.store.get k) hcache
  · show Provided tape _ _ ((u.enroll r a b).view a.assignedId)
    rw [hview]
    refine ⟨fun q hq => hparts q ?_, fun x hx => ?_, fun result hr => ?_⟩
    · rw [← Tape.requests_of_work]
      exact List.mem_filterMap.mpr ⟨_, hq, rfl⟩
    · obtain rfl := Option.some.inj (hx.symm.trans (admission_waiting hadmission))
      exact ⟨admission_busy hadmission, rfl⟩
    · cases hr

/--
What comes of a request that is submitted again: no work for it changes the cache, its series
is as it was, and it has work left or a reply with the bars that there were before.
-/
structure Repeats (k : SeriesKey) (p : AssignedId) (bars : List Bar) (v : World)
    (moves : List Move) (w : World) : Prop where
  untouched : v.AtEachMove (KeepsCache p) moves
  series : w.series k = v.series k
  answers : (w.answers p = [] ∧ w.jobs p ≠ []) ∨
    ∃ reply, w.answers p = [.ok reply] ∧ reply.bars = bars

theorem Repeats.of_provides {e : Request × Accepted} {after : List Move}
    (h : Provides tape k e (v.series k) v) (hkey : e.1.key? = some k)
    (hrange : e.1.start ≤ e.1.stop) (hafter : v.run? after = some w) (hids : w.issued.Nodup)
    (hplays : ∀ m ∈ after, m.Plays tape e.2.assignedId)
    (hrefused : ∀ x, .refused x ∈ after → x.query = none)
    (hleaves : v.AtEachMove (LeavesTo k e.2.assignedId) after) :
    Repeats k e.2.assignedId (e.1.replyFrom (v.series k)).bars v after w := by
  have hstep : ∀ x m x', m ∈ after → x.step? m = some x' → x'.issued.Nodup →
      Provides tape k e (v.series k) x → x.LeavesTo k e.2.assignedId m →
        Provides tape k e (v.series k) x' ∧ x.KeepsCache e.2.assignedId m := by
    intro x m x' hm hstep hids' hx hleaves'
    have hserved : ∀ y, m = .refused y → y.query = none := fun y hy => hrefused y (hy ▸ hm)
    exact ⟨hx.step hkey hrange hstep hids' (hplays m hm) hserved hleaves',
      hx.keepsCache (hplays m hm)⟩
  obtain ⟨hend, huntouched⟩ := AtEachMove.induction (fun _ _ _ => nodup_issued_of_step)
    hstep hleaves h hafter hids
  exact ⟨huntouched, hend.series, hend.provided.answers (hend.shaped.1.life e hend.known)⟩

/--
**Asking again changes nothing.** Let a request be split and its bars be saved, and let a source
answer each of its fetches with the bars that the tape has in the range of the fetch, in
whatever order they come. If the request is answered with bars, and nothing else writes to its
series from its submission on, then the same request may be submitted again at any later time.

It is turned down only if the planner would have to look beyond the edge of the calendar. If it
is accepted, the tape has no bar in the range of any fetch for it, no work for it changes the
cache, and it is answered with the very same bars as soon as no work for it is left.
-/
theorem repeating_changes_nothing {cache : Cache} {ids : Allocator} {registry : Registry}
    {before between : List Move} {gaps : List Gap} {slot : Slot} {reply : Reply}
    (hshape : cache.store.InShape)
    (hbefore : (start cache ids registry).run? before = some u)
    (hsubmit : u.broker.submit now r = .ok (a, b)) (hkey : r.key? = some k)
    (hsplit : u.broker.route now k r = .ok (.split gaps)) (hsave : r.save = true)
    (hbetween : (u.enroll r a b).run? between = some v)
    (hplays : ∀ m ∈ between, m.Plays tape a.assignedId)
    (hleaves : (u.enroll r a b).AtEachMove (LeavesTo k a.assignedId) between)
    (hreply : v.answers a.assignedId = [.ok reply]) (hlength : v.issued.length ≤ 2 ^ 64)
    (hlater : now ≤ now') (hreads : v.broker.cache.refusals.coverage = none)
    (hresolves : v.broker.registry.resolve r = .ok slot) :
    (Route.canPlan r (v.broker.cache.store.coverage k) now' = false →
      v.broker.submit now' r = .error .outsideCalendar) ∧
    (Route.canPlan r (v.broker.cache.store.coverage k) now' = true →
      ∃ a' b', v.broker.submit now' r = .ok (a', b') ∧ b'.cache = v.broker.cache ∧
        (∀ q ∈ a'.work.requests, q.excerpt tape = []) ∧
        ∀ after w, (v.enroll r a' b').run? after = some w → w.issued.length ≤ 2 ^ 64 →
          v.broker.cache.refusals.query = none →
          (∀ m ∈ after, m.Plays tape a'.assignedId) →
          (∀ x, .refused x ∈ after → x.query = none) →
          (v.enroll r a' b').AtEachMove (LeavesTo k a'.assignedId) after →
            Repeats k a'.assignedId reply.bars (v.enroll r a' b') after w) := by
  have hrange : r.start ≤ r.stop := admission_range (Broker.submit_cases hsubmit)
  have hrouted : u.broker.Routed now r k (.split gaps) := ⟨hkey, hrange, hsplit⟩
  obtain ⟨⟨hfresh, hlocal, hpartial⟩, c, hc, rfl⟩ := Route.of_plan_split hrouted.gaps
  obtain ⟨_, parts, hwork, hparts, hgaps⟩ := Broker.work_of_split hsubmit hkey hsplit
  -- the first time
  have hrun := run?_submit hbefore hsubmit hbetween
  have hnodup : v.issued.Nodup := nodup_of_length hrun hlength
  have hnodup' := nodup_issued_of_run hbetween hnodup
  have hshaped : u.Shaped := by
    have hids := nodup_issued_of_step (step_enroll hsubmit) hnodup'
    exact ⟨orderly_of_run hbefore hids, inShape_of_run hbefore hids hshape⟩
  have hgathers := (gathers_of_submit tape hshaped hsubmit hnodup' hwork fun q hq =>
    ⟨(hparts q hq).1, (hparts q hq).2.1, (hparts q hq).2.2.trans hsave⟩).run
      hkey hrange hwork hbetween hnodup hplays hleaves
  have hok : .ok reply ∈ v.answers a.assignedId := hreply ▸ List.mem_singleton_self _
  -- the second time
  have hagain := Broker.submit_of_canPlan now' hkey hrange hfresh hlocal hreads hresolves
  refine ⟨fun hcan => ?_, fun hcan => ?_⟩
  · rwa [if_neg (by simp [hcan])] at hagain
  rw [if_pos hcan] at hagain
  obtain ⟨a', b', hsubmit'⟩ := hagain
  have hnothing := hgathers.nothing_sent hok (by rw [hwork]; exact hgaps) (hshaped.2 k) hc hkey
    hfresh hlocal hpartial hlater hsubmit'
  refine ⟨a', b', hsubmit', cache_of_submit hsubmit', fun q hq => (hnothing q hq).2, ?_⟩
  intro after w hafter hlength' hquery hplays' hrefused hleaves'
  have hids : w.issued.Nodup := nodup_of_length (run?_submit hrun hsubmit' hafter) hlength'
  have hprovides := provides_of_submit (k := k) hgathers.shaped hsubmit'
    (nodup_issued_of_run hafter hids) hquery hnothing
  have hsame : (v.enroll r a' b').series k = v.series k :=
    congrArg (·.store.get k) (cache_of_submit hsubmit')
  rw [← hsame] at hprovides
  have hrepeats := Repeats.of_provides hprovides hkey hrange hafter hids hplays' hrefused hleaves'
  rw [hsame] at hrepeats
  rw [(hgathers.gathered.replied reply hok).1]
  exact hrepeats

end World

namespace Sample

/-- A world at its beginning, with three days in the store. -/
def opening : World := World.start (cacheOf [4, 5, 6]) .fresh registry

/-- A tape that has no bars on some days. -/
def sparseTape : List Bar := [2, 4, 5, 6, 8].map bar

/-- Both gaps around the stored days are filled. -/
def sparseFills : List Move :=
  [.fetched (partAfter (request 1 9) 6 3) (.ok [bar 8]),
    .fetched (partBefore (request 1 9) 4 2) (.ok [bar 2])]

/-- A part of the request when it is submitted again. -/
def partAgain (start stop : Instant) (n : UInt64) : Request :=
  ((request 1 9).filed (number 4)).part start stop (number n)

/-- Nothing comes for the gaps that are left. -/
def sparseRefills : List Move :=
  [.fetched (partAgain (midnight 1) (midnight 2 - Frequency.oneDay.halfBar) 5) (.ok []),
    .fetched (partAgain (midnight 8 + Frequency.oneDay.halfBar) (midnight 9) 6) (.ok [])]

/-- Hours of the first day of the calendar. -/
def dawn (h : Int) : Instant := Instant.earliest + hour h

/-- A bar of the first day of the calendar. -/
def dawnBar (h : Int) : Bar := { bar 0 with time := dawn h }

/-- A request for the whole of the first day of the calendar. -/
def dawnRequest : Request := { request 0 0 with start := dawn 0, stop := dawn 24 }

/-- A world at its beginning, with the end of the first day of the calendar in the store. -/
def dawnOpening : World :=
  World.start { store := ⟨⟨[(key, [(dawn 24, [dawnBar 24])])]⟩⟩ } .fresh registry

/-- The gap before it is filled, with a bar of the early morning. -/
def dawnFill : Move :=
  .fetched ((dawnRequest.filed (number 1)).part (dawn 0) (dawn 24 - Frequency.oneDay.halfBar)
    (number 2)) (.ok [dawnBar 6])

end Sample

namespace World

/-- When a source has no bars on the outermost days, these are asked for again, and in vain. -/
theorem repeats_over_sparse_days : ∃ a b v reply a' b' w,
    Sample.opening.broker.submit 0 (Sample.request 1 9) = .ok (a, b) ∧
    (Sample.opening.enroll (Sample.request 1 9) a b).run? Sample.sparseFills = some v ∧
    v.answers a.assignedId = [.ok reply] ∧
    v.broker.submit 0 (Sample.request 1 9) = .ok (a', b') ∧ a'.work.requests.length = 2 ∧
    (v.enroll (Sample.request 1 9) a' b').run? Sample.sparseRefills = some w ∧
    Repeats Sample.key a'.assignedId reply.bars (v.enroll (Sample.request 1 9) a' b')
      Sample.sparseRefills w := by
  obtain ⟨a, b, gaps, v, reply, slot, hsubmit, hid, hsplit, hrun, hreply, hlength, hrefusals,
      hresolves, hcan, x, w, hagain, hid', htwo, hrun', hlength'⟩ : ∃ a b gaps v reply slot,
      Sample.opening.broker.submit 0 (Sample.request 1 9) = .ok (a, b) ∧
      a.assignedId = Sample.number 1 ∧
      Sample.opening.broker.route 0 Sample.key (Sample.request 1 9) = .ok (.split gaps) ∧
      (Sample.opening.enroll (Sample.request 1 9) a b).run? Sample.sparseFills = some v ∧
      v.answers a.assignedId = [.ok reply] ∧ v.issued.length ≤ 2 ^ 64 ∧
      v.broker.cache.refusals = {} ∧
      v.broker.registry.resolve (Sample.request 1 9) = .ok slot ∧
      Route.canPlan (Sample.request 1 9) (v.broker.cache.store.coverage Sample.key) 0 = true ∧
      ∃ x w, v.broker.submit 0 (Sample.request 1 9) = .ok x ∧
        x.1.assignedId = Sample.number 4 ∧ x.1.work.requests.length = 2 ∧
        (v.enroll (Sample.request 1 9) x.1 x.2).run? Sample.sparseRefills = some w ∧
        w.issued.length ≤ 2 ^ 64 :=
    ⟨_, _, _, _, _, _, rfl, rfl, rfl, rfl, rfl, by decide, rfl, rfl, rfl, _, _, rfl, rfl, rfl, rfl,
      by decide⟩
  have hplays : ∀ m ∈ Sample.sparseFills, m.Plays Sample.sparseTape a.assignedId :=
    List.forall_mem_cons.mpr ⟨fun _ => ⟨_, rfl, by decide⟩,
      List.forall_mem_singleton.mpr fun _ => ⟨_, rfl, by decide⟩⟩
  have hplays' : ∀ m ∈ Sample.sparseRefills, m.Plays Sample.sparseTape x.1.assignedId :=
    List.forall_mem_cons.mpr ⟨fun _ => ⟨_, rfl, by decide⟩,
      List.forall_mem_singleton.mpr fun _ => ⟨_, rfl, by decide⟩⟩
  have hleaves : (Sample.opening.enroll (Sample.request 1 9) a b).AtEachMove
      (LeavesTo Sample.key a.assignedId) Sample.sparseFills := by
    rw [hid]
    exact ⟨fun _ _ _ => rfl, fun _ _ => ⟨fun _ _ _ => rfl, fun _ _ => trivial⟩⟩
  have hleaves' : (v.enroll (Sample.request 1 9) x.1 x.2).AtEachMove
      (LeavesTo Sample.key x.1.assignedId) Sample.sparseRefills := by
    rw [hid']
    exact ⟨fun _ _ _ => rfl, fun _ _ => ⟨fun _ _ _ => rfl, fun _ _ => trivial⟩⟩
  have hopening : Sample.opening.run? [] = some Sample.opening := rfl
  obtain ⟨-, haccepts⟩ := repeating_changes_nothing Sample.inShape_cacheOf hopening hsubmit
    rfl hsplit rfl hrun hplays hleaves hreply hlength (Int.le_refl 0)
    (congrArg Refusals.coverage hrefusals) hresolves
  obtain ⟨a', b', hsubmit', -, -, hrepeats⟩ := haccepts hcan
  obtain rfl : x = (a', b') := Except.ok.inj (hagain.symm.trans hsubmit')
  refine ⟨a, b, v, reply, a', b', w, hsubmit, hrun, hreply, hsubmit', htwo, hrun', ?_⟩
  exact hrepeats _ w hrun' hlength' (congrArg Refusals.query hrefusals) hplays'
    (fun y hy => by simp [Sample.sparseRefills] at hy) hleaves'

/-- A request that was answered, with nobody else to write, is turned down when it comes again. -/
theorem turned_down_at_dawn : ∃ a b v reply gaps slot,
    Sample.dawnOpening.broker.submit 0 Sample.dawnRequest = .ok (a, b) ∧
    Sample.dawnOpening.broker.route 0 Sample.key Sample.dawnRequest = .ok (.split gaps) ∧
    (Sample.dawnOpening.enroll Sample.dawnRequest a b).run? [Sample.dawnFill] = some v ∧
    Sample.dawnFill.Plays [Sample.dawnBar 6, Sample.dawnBar 24] a.assignedId ∧
    (Sample.dawnOpening.enroll Sample.dawnRequest a b).AtEachMove
      (LeavesTo Sample.key a.assignedId) [Sample.dawnFill] ∧
    v.answers a.assignedId = [.ok reply] ∧
    v.broker.cache.refusals = {} ∧ v.broker.registry.resolve Sample.dawnRequest = .ok slot ∧
    v.broker.submit 0 Sample.dawnRequest = .error .outsideCalendar := by
  refine ⟨_, _, _, _, _, _, rfl, rfl, rfl, ?_, ⟨fun _ _ _ => rfl, fun _ _ => trivial⟩, rfl, rfl,
    rfl, rfl⟩
  intro _
  exact ⟨_, rfl, by decide⟩

end World

end BarArchive
