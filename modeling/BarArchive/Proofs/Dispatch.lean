/-
What a request may touch.

The route of a request fixes, when it is accepted, all that is ever sent to a source for it:
nothing if it is answered from the store, the request itself if it is fetched whole, and one
part for each gap if it is split. Each of these is answered or out, once, for as long as the
request lives; only a task that ends in an overflow leaves some of them behind.

The store is another matter, since all requests share it. It changes when bars come from
elsewhere, and otherwise only when a source answers for a request that wants its bars saved
and still waits. Bars that are not to be saved and bars that come too late never get there.
-/
import BarArchive.Proofs.Completeness

namespace BarArchive

/-! ### Where requests are sent -/

/-- The source in a slot is the one that a request is meant for, and it can take the request. -/
structure Registry.Reaches (registry : Registry) (r : Request) (slot : Slot) (s : Source) :
    Prop where
  there : registry.find? slot = some s
  connected : s.connected = true
  supports : s.capabilities.supports r.frequency = true
  resolver : slot = .resolver ↔ r.instrument.isContinuousFuture = true
  named : r.instrument.isContinuousFuture = false →
    s.capabilities.historical = true ∧ s.id = r.instrument.datasource

namespace Registry

/-- The slot of a name has a source of that name with historical bars. -/
theorem lastSlot?_spec {id : SourceId} : ∀ {sources : List Source} {n m : Nat},
    lastSlot? id n sources = some m →
      ∃ s, n ≤ m ∧ sources[m - n]? = some s ∧ s.capabilities.historical = true ∧ s.id = id := by
  intro sources
  induction sources with
  | nil => intro n m h; cases h
  | cons s rest ih =>
      intro n m h
      unfold lastSlot? at h
      cases hrest : lastSlot? id (n + 1) rest with
      | some m' =>
          rw [hrest] at h
          obtain rfl : m' = m := Option.some.inj h
          obtain ⟨t, hle, hat, ht⟩ := ih hrest
          refine ⟨t, by omega, ?_, ht⟩
          rw [show m' - n = m' - (n + 1) + 1 by omega]
          exact hat
      | none =>
          rw [hrest] at h
          simp only [Option.orElse_none] at h
          split at h
          next hs =>
            obtain rfl : n = m := Option.some.inj h
            rw [Bool.and_eq_true, beq_iff_eq] at hs
            exact ⟨s, Nat.le_refl n, by simp, hs.1, hs.2⟩
          next => cases h

/-- Continuous futures are meant for the resolver, other instruments for a source of that name. -/
theorem target_spec {registry : Registry} {r : Request} {slot : Slot}
    (h : registry.target r = .ok slot) :
    (slot = .resolver ↔ r.instrument.isContinuousFuture = true) ∧
      (r.instrument.isContinuousFuture = false → ∃ s, registry.find? slot = some s ∧
        s.capabilities.historical = true ∧ s.id = r.instrument.datasource) := by
  unfold target at h
  cases hfuture : r.instrument.isContinuousFuture with
  | true =>
      simp only [hfuture, if_true] at h
      split at h
      · obtain rfl : Slot.resolver = slot := Except.ok.inj h
        exact ⟨⟨fun _ => rfl, fun _ => rfl⟩, fun hf => by cases hf⟩
      · cases h
  | false =>
      simp only [hfuture, Bool.false_eq_true, if_false] at h
      cases hslot : registry.slotOf? r.instrument.datasource with
      | none => simp [hslot] at h
      | some n =>
          rw [hslot] at h
          obtain rfl : Slot.listed n = slot := Except.ok.inj h
          obtain ⟨s, -, hat, hs⟩ := lastSlot?_spec hslot
          exact ⟨⟨(nomatch ·), (nomatch ·)⟩, fun _ => ⟨s, hat, hs⟩⟩

theorem reaches_of_resolve {registry : Registry} {r : Request} {slot : Slot}
    (h : registry.resolve r = .ok slot) : ∃ s, registry.Reaches r slot s := by
  unfold resolve at h
  cases htarget : registry.target r with
  | error e => simp [htarget, bind, Except.bind] at h
  | ok slot' =>
      simp only [htarget, bind, Except.bind] at h
      cases hfind : registry.find? slot' with
      | none => simp [hfind] at h
      | some s =>
          simp only [hfind] at h
          split at h
          · cases h
          next hconnected =>
            split at h
            · cases h
            next hsupports =>
              obtain rfl : slot' = slot := Except.ok.inj h
              obtain ⟨hresolver, hnamed⟩ := target_spec htarget
              refine ⟨s, hfind, by simpa using hconnected, by simpa using hsupports, hresolver,
                fun hf => ?_⟩
              obtain ⟨s', hfind', hs'⟩ := hnamed hf
              obtain rfl : s = s' := Option.some.inj (hfind.symm.trans hfind')
              exact hs'

end Registry

/-! ### What a request is sent for -/

/-- What is sent for an accepted request, and what numbers it has, by its route. -/
inductive Dispatched (registry : Registry) (r : Request) (a : Accepted) : Route → Prop
  /-- It is answered from the store, and nothing is sent. -/
  | stored (work : a.work = .serve a.assignedId) (numbers : a.ids = [a.assignedId]) :
      Dispatched registry r a .stored
  /-- It is sent as it is, under its own number and as no part of another one. -/
  | external {slot s} (reaches : registry.Reaches r slot s)
      (work : a.work = .fetch slot
        [{ r with assignedId := some a.assignedId, parentId := none }])
      (numbers : a.ids = [a.assignedId]) : Dispatched registry r a .external
  /-- A part is sent for each gap, which differs from it in the range and in its number. -/
  | split {gaps slot s parts} (reaches : registry.Reaches r slot s)
      (work : a.work = .fetch slot (List.zipWith (fun (g : Gap) c => { r with
        start := g.start
        stop := g.stop
        assignedId := some c
        parentId := some a.assignedId }) gaps parts))
      (each : parts.length = gaps.length) (numbers : a.ids = a.assignedId :: parts) :
      Dispatched registry r a (.split gaps)

namespace Broker

variable {b b' : Broker} {now : Instant} {r : Request} {a : Accepted}

/-- The parts of a request, with the numbers that they get. -/
theorem partsFor_eq_zipWith (r : Request) : ∀ (gaps : List Gap) (ids : Allocator),
    (partsFor r gaps ids).1 = List.zipWith (fun g c => r.part g.start g.stop c) gaps
      (numbers (partsFor r gaps ids).1) := by
  intro gaps
  induction gaps with
  | nil => exact fun ids => rfl
  | cons g gaps ih =>
      intro ids
      have hcons : (partsFor r (g :: gaps) ids).1 =
          r.part g.start g.stop ids.next.1 :: (partsFor r gaps ids.next.2).1 := rfl
      have hnumbers : numbers (r.part g.start g.stop ids.next.1 :: (partsFor r gaps ids.next.2).1) =
          ids.next.1 :: numbers (partsFor r gaps ids.next.2).1 := rfl
      rw [hcons, hnumbers, List.zipWith_cons_cons, ← ih]

/-- The route of a request decides what is sent for it. -/
theorem dispatched_of_submit (h : b.submit now r = .ok (a, b')) : ∃ k route,
    r.key? = some k ∧ b.route now k r = .ok route ∧ Dispatched b.registry r a route := by
  obtain ⟨k, route, slot, hk, hroute, hslot, haccept⟩ := submit_eq_ok.mp h
  have hkey : r.key? = some k := (validate_eq_ok.mp hk).1
  obtain rfl : (b.accept r route slot).1 = a := congrArg Prod.fst haccept
  refine ⟨k, route, hkey, hroute, ?_⟩
  have hreaches : ∀ {slot'}, b.registry.resolve r = .ok slot' →
      ∃ s, b.registry.Reaches r slot' s := Registry.reaches_of_resolve
  cases route with
  | stored =>
      cases hslot
      exact .stored rfl rfl
  | external =>
      unfold slotFor at hslot
      cases hresolve : b.registry.resolve r with
      | error e => simp [hresolve] at hslot
      | ok slot' =>
          simp only [hresolve] at hslot
          cases hslot
          obtain ⟨s, hs⟩ := hreaches hresolve
          exact .external hs rfl rfl
  | split gaps =>
      unfold slotFor at hslot
      cases hresolve : b.registry.resolve r with
      | error e => simp [hresolve] at hslot
      | ok slot' =>
          simp only [hresolve] at hslot
          cases hslot
          obtain ⟨s, hs⟩ := hreaches hresolve
          have hzip := partsFor_eq_zipWith (r.filed b.ids.next.1) gaps b.ids.next.2
          have htake := congrArg Prod.fst
            (partsFor_take (r.filed b.ids.next.1) gaps b.ids.next.2)
          refine .split hs (congrArg (Work.fetch slot') hzip) ?_ ?_
          · rw [show numbers (partsFor (r.filed b.ids.next.1) gaps b.ids.next.2).1 = _ from htake]
            exact Allocator.length_take _ _
          · exact congrArg (fun l => b.ids.next.1 :: numbers l)
              (partsFor_all b.ids.next.1 gaps b.ids.next.2)

/-- Only local data is asked for: the request is not sent anywhere. -/
theorem route_of_local {k : SeriesKey} {route : Route} (h : b.route now k r = .ok route)
    (hlocal : r.localOnly = true) (hfresh : r.forceFresh = false) : route = .stored := by
  unfold Broker.route Route.plan at h
  rw [hlocal, hfresh] at h
  exact (Except.ok.inj h).symm

end Broker

/-! ### What was sent for a request -/

/-- Parts whose numbers differ are different. -/
theorem PartsOf.nodup {p : AssignedId} {left : List Request} (h : PartsOf p left) : left.Nodup := by
  refine (List.pairwise_filterMap.mp h.distinct).imp_of_mem fun {q q'} hq _ hne heq => ?_
  obtain ⟨c, hc⟩ := Option.isSome_iff_exists.mp (h.numbered q hq)
  exact hne c hc c (heq ▸ hc) rfl

/-- The fetches that were answered, and those that are out. -/
def View.sent (v : View) : List Request := v.fetches.map (·.1) ++ v.jobs.filterMap Job.request?

/-- All that is to be sent for a request was sent, and once; or the task that worked for it ended,
without an answer and with some of it left behind. -/
def View.SentOnce (v : View) (a : Accepted) : Prop :=
  v.sent.Perm a.work.requests ∨
    (v.jobs = [] ∧ v.answers = [] ∧ v.sent.Subperm a.work.requests)

namespace Life

variable {o : Bool} {r : Request} {a : Accepted} {v : View} {b : Broker}

/-- Only a request without an answer can end in an overflow. -/
theorem unanswered_of_overflow {q : Request} {result : Except MarketError (List Bar)}
    (h : Life o r a v) (hentry : b.inflight.entry a.assignedId = v.entry)
    (hjob : .fetch q ∈ v.jobs) (hover : (b.deliver q result).2.isOverflow = true) :
    v.answers = [] := by
  cases h with
  | serving => rfl
  | fetching => rfl
  | filling => rfl
  | failed parts =>
      have hmem := by simpa using hjob
      obtain ⟨c, hc⟩ := Option.isSome_iff_exists.mp (parts.numbered q hmem)
      obtain ⟨t', heq, -⟩ := Broker.deliver_late hc (parts.parent q hmem)
        (congrArg Entry.aborted hentry) result
      rw [heq] at hover
      cases hover
  | closed => cases hjob
  | stranded => rfl

theorem sentOnce_fetched {q : Request} {result : Except MarketError (List Bar)}
    (h : Life o r a v) (hentry : b.inflight.entry a.assignedId = v.entry)
    (hjob : .fetch q ∈ v.jobs) (hsent : v.SentOnce a) :
    (v.after a.assignedId (.fetch q) (some (q, result)) (b.deliver q result)).SentOnce a := by
  have hperm : v.sent.Perm a.work.requests :=
    hsent.resolve_right fun hnone => List.ne_nil_of_mem hjob hnone.1
  have hout : (v.jobs.filterMap Job.request?).Perm
      (q :: (v.jobs.erase (.fetch q)).filterMap Job.request?) :=
    (List.perm_cons_erase hjob).filterMap Job.request?
  -- the fetch that was out is answered now
  have hmoved : (q :: v.fetches.map (·.1) ++
      (v.jobs.erase (.fetch q)).filterMap Job.request?).Perm a.work.requests :=
    (List.perm_middle.symm.trans (hout.symm.append_left _)).trans hperm
  cases hover : (b.deliver q result).2.isOverflow with
  | false =>
      refine Or.inl ?_
      simpa only [View.sent, View.after, hover, Bool.false_eq_true, if_false,
        Option.toList_some, List.singleton_append, List.map_cons] using hmoved
  | true =>
      have hanswers : (b.deliver q result).2.answerTo? a.assignedId = none := by
        cases hstep : (b.deliver q result).2 <;> simp_all [Outcome.isOverflow, Outcome.answerTo?]
      refine Or.inr ⟨by simp [View.after, hover], ?_, ?_⟩
      · simp [View.after, hanswers, h.unanswered_of_overflow hentry hjob hover]
      · have hsub := (List.sublist_append_left (q :: v.fetches.map (·.1))
          ((v.jobs.erase (.fetch q)).filterMap Job.request?)).subperm
        simpa [View.sent, View.after, hover] using hsub.trans hmoved.subperm

theorem sentOnce_served (hjob : .serve a.assignedId ∈ v.jobs) (hsent : v.SentOnce a) :
    (v.after a.assignedId (.serve a.assignedId) none (b.serve a.assignedId)).SentOnce a := by
  have hperm : v.sent.Perm a.work.requests :=
    hsent.resolve_right fun hnone => List.ne_nil_of_mem hjob hnone.1
  have hout : (v.jobs.filterMap Job.request?).Perm
      ((v.jobs.erase (.serve a.assignedId)).filterMap Job.request?) :=
    (List.perm_cons_erase hjob).filterMap Job.request?
  have hover : (b.serve a.assignedId).2.isOverflow = false := by
    unfold Broker.serve
    split <;> rfl
  refine Or.inl ?_
  simpa [View.sent, View.after, hover] using (hout.symm.append_left _).trans hperm

end Life

namespace World

variable {w w' : World} {m : Move}

/-- The fetches of a request that were answered, and those that are out. -/
def sent (w : World) (p : AssignedId) : List Request := (w.view p).sent

/-- All fetches that were answered, and all that are out. -/
def allSent (w : World) : List Request :=
  w.fetched.map (·.1) ++ w.pending.filterMap Job.request?

theorem filter_allSent (w : World) (p : AssignedId) :
    (w.allSent.filter fun q => q.owner? = some p) = w.sent p := by
  have hjobs : (w.pending.filterMap Job.request?).filter (fun q => q.owner? = some p) =
      (w.jobs p).filterMap Job.request? := by
    unfold jobs
    rw [List.filter_filterMap, List.filterMap_filter]
    refine List.filterMap_congr fun j _ => ?_
    cases j with
    | serve id => simp [Job.request?]
    | fetch q => by_cases hq : q.owner? = some p <;> simp [Job.request?, Job.owner?, hq]
  have hfetches : (w.fetched.map (·.1)).filter (fun q => q.owner? = some p) =
      (w.fetches p).map (·.1) := by
    unfold fetches
    rw [List.filter_map]
    rfl
  rw [allSent, List.filter_append, hjobs, hfetches]
  rfl

/-- Nothing is sent but what is to be sent for a request that was accepted. -/
structure Sends (w : World) : Prop where
  distinct : ∀ e ∈ w.accepted, e.2.work.requests.Nodup
  owned : ∀ e ∈ w.accepted, ∀ q ∈ e.2.work.requests,
    q.owner? = some e.2.assignedId ∧ q.save = e.1.save ∧ q.key? = e.1.key?
  once : ∀ e ∈ w.accepted, (w.view e.2.assignedId).SentOnce e.2
  known : ∀ q ∈ w.allSent, ∃ e ∈ w.accepted, q.owner? = some e.2.assignedId

theorem sends_start (cache : Cache) (ids : Allocator) (registry : Registry) :
    (start cache ids registry).Sends where
  distinct _ he := nomatch he
  owned _ he := nomatch he
  once _ he := nomatch he
  known _ hq := nomatch hq

/-- What is sent for a request that is accepted. -/
theorem requests_of_submit {b b' : Broker} {now : Instant} {r : Request} {a : Accepted}
    (h : b.submit now r = .ok (a, b')) (hids : a.ids.Nodup) : a.work.requests.Nodup ∧
      ∀ q ∈ a.work.requests, q.owner? = some a.assignedId ∧ q.save = r.save ∧ q.key? = r.key? := by
  have howned : ∀ q ∈ a.work.requests, q.owner? = some a.assignedId := fun q hq => by
    refine admission_owned (Broker.submit_cases h) (.fetch q) ?_
    cases hwork : a.work with
    | serve id =>
        rw [hwork] at hq
        cases hq
    | fetch slot requests =>
        rw [hwork] at hq
        exact List.mem_map_of_mem hq
  cases Broker.submit_cases h with
  | stored => exact ⟨List.nodup_nil, fun q hq => nomatch hq⟩
  | external =>
      refine ⟨List.pairwise_singleton _ _, fun q hq => ⟨howned q hq, ?_⟩⟩
      obtain rfl := List.mem_singleton.mp hq
      exact ⟨rfl, rfl⟩
  | split =>
      refine ⟨?_, fun q hq => ⟨howned q hq, ?_⟩⟩
      · rw [Accepted.ids, Work.requests, Broker.partsFor_all] at hids
        exact (partsOf_partsFor (List.nodup_cons.mp hids).2).nodup
      · obtain ⟨g, -, c, rfl⟩ := Broker.partsFor_mem hq
        exact ⟨rfl, rfl⟩

/-- Nothing is sent but for a request when it is accepted. -/
theorem allSent_step (h : w.step? m = some w') (haccepted : w'.accepted = w.accepted) :
    ∀ q ∈ w'.allSent, q ∈ w.allSent := by
  have hafter : ∀ (v : World) (owner : Option AssignedId) (step : Broker × Outcome),
      ∀ q ∈ (v.after owner step).allSent, q ∈ v.allSent := by
    intro v owner step q hq
    have hfetched : (v.after owner step).fetched = v.fetched := by
      unfold after
      simp only
      split <;> rfl
    rw [allSent, hfetched] at hq
    rcases List.mem_append.mp hq with hq | hq
    · exact List.mem_append_left _ hq
    · obtain ⟨j, hj, hjq⟩ := List.mem_filterMap.mp hq
      exact List.mem_append_right _ (List.mem_filterMap.mpr ⟨j, pending_after hj, hjq⟩)
  have hout : ∀ (j : Job) (q : Request), q ∈ (w.pending.erase j).filterMap Job.request? →
      q ∈ w.allSent := by
    intro j q hq
    obtain ⟨i, hi, hiq⟩ := List.mem_filterMap.mp hq
    exact List.mem_append_right _ (List.mem_filterMap.mpr ⟨i, List.mem_of_mem_erase hi, hiq⟩)
  cases makes_of_step h with
  | accepted => exact absurd haccepted (List.cons_ne_self _ _)
  | declined => exact fun q hq => hq
  | fetched hmem =>
      intro q hq
      rcases List.mem_append.mp (hafter _ _ _ q hq) with hq | hq
      · rcases List.mem_cons.mp hq with rfl | hq
        · exact List.mem_append_right _ (List.mem_filterMap.mpr ⟨_, hmem, rfl⟩)
        · exact List.mem_append_left _ hq
      · exact hout _ q hq
  | served =>
      intro q hq
      rcases List.mem_append.mp (hafter _ _ _ q hq) with hq | hq
      · exact List.mem_append_left _ hq
      · exact hout _ q hq
  | added => exact fun q hq => hq
  | refused => exact fun q hq => hq
  | connected => exact fun q hq => hq

theorem Sends.enroll {now : Instant} {r : Request} {a : Accepted} {b : Broker} (h : w.Sends)
    (horder : w.Orderly) (hsubmit : w.broker.submit now r = .ok (a, b))
    (hids : (w.enroll r a b).issued.Nodup) : (w.enroll r a b).Sends := by
  have hnew := not_mem_acceptedIds hids
  rw [issued_enroll] at hids
  obtain ⟨hdistinct, howned⟩ := requests_of_submit hsubmit (List.nodup_append.mp hids).1
  refine ⟨List.forall_mem_cons.mpr ⟨hdistinct, h.distinct⟩,
    List.forall_mem_cons.mpr ⟨howned, h.owned⟩, List.forall_mem_cons.mpr ⟨?_, fun e he => ?_⟩,
    fun q hq => ?_⟩
  · rw [view_enroll_self hsubmit (horder.blank _ hnew)]
    exact Or.inl (List.Perm.of_eq (Tape.requests_of_work a.work))
  · rw [view_enroll_other hsubmit fun hid => hnew (List.mem_map.mpr ⟨e, he, hid⟩)]
    exact h.once e he
  · rw [allSent, World.enroll, List.filterMap_append, ← List.append_assoc] at hq
    rcases List.mem_append.mp hq with hq | hq
    · obtain ⟨e, he, howner⟩ := h.known q hq
      exact ⟨e, List.mem_cons_of_mem _ he, howner⟩
    · rw [Tape.requests_of_work] at hq
      exact ⟨_, List.mem_cons_self, (howned q hq).1⟩

theorem Sends.step (h : w.Sends) (horder : w.Orderly) (hstep : w.step? m = some w')
    (hids : w'.issued.Nodup) : w'.Sends := by
  rcases step_cases hstep with ⟨now, r, a, b, -, hsubmit, rfl⟩ | ⟨haccepted, -⟩
  · exact h.enroll horder hsubmit hids
  have honce : ∀ e ∈ w.accepted, (w'.view e.2.assignedId).SentOnce e.2 := by
    intro e he
    rcases view_step horder hstep hids he with hview | ⟨-, hjob, hview⟩ | ⟨q, result, -, hjob, hview⟩
    · rw [hview]
      exact h.once e he
    · rw [hview]
      exact Life.sentOnce_served hjob (h.once e he)
    · rw [hview]
      exact (horder.life e he).sentOnce_fetched rfl hjob (h.once e he)
  refine ⟨?_, ?_, ?_, fun q hq => ?_⟩
  · exact haccepted ▸ h.distinct
  · exact haccepted ▸ h.owned
  · exact haccepted ▸ honce
  · exact haccepted ▸ h.known q (allSent_step hstep haccepted q hq)

/-- In every world that a run reaches, nothing was sent but what had to be. -/
theorem sends_of_run {cache : Cache} {ids : Allocator} {registry : Registry} {moves : List Move}
    (hrun : (start cache ids registry).run? moves = some w) (hids : w.issued.Nodup) : w.Sends := by
  refine (run?_induction_of_nodup (P := fun v => v.Orderly ∧ v.Sends) ?_
    ⟨orderly_start cache ids registry, sends_start cache ids registry⟩ hrun hids).2
  rintro v m v' - ⟨horder, hsends⟩ hstep hids'
  exact ⟨horder.step hstep hids', hsends.step horder hstep hids'⟩

/-- What was sent for a request is among what was to be sent for it. -/
theorem Sends.subperm (h : w.Sends) {e : Request × Accepted} (he : e ∈ w.accepted) :
    (w.sent e.2.assignedId).Subperm e.2.work.requests :=
  (h.once e he).elim List.Perm.subperm fun hleft => hleft.2.2

/-- What was sent is among what was to be sent for some request. -/
theorem Sends.mem_requests (h : w.Sends) {q : Request} (hq : q ∈ w.allSent) :
    ∃ e ∈ w.accepted, q.owner? = some e.2.assignedId ∧ q ∈ e.2.work.requests := by
  obtain ⟨e, he, howner⟩ := h.known q hq
  have hmem : q ∈ w.sent e.2.assignedId := by
    rw [← filter_allSent]
    exact List.mem_filter.mpr ⟨hq, by simpa using howner⟩
  exact ⟨e, he, howner, (h.subperm he).subset hmem⟩

/-- Nothing is sent twice. -/
theorem Sends.nodup (h : w.Sends) : w.allSent.Nodup := by
  refine List.nodup_iff_count.mpr fun q => ?_
  by_cases hq : q ∈ w.allSent
  · obtain ⟨e, he, howner⟩ := h.known q hq
    calc w.allSent.count q
      _ = (w.sent e.2.assignedId).count q := by
          rw [← filter_allSent, List.count_filter (by simpa using howner)]
      _ ≤ e.2.work.requests.count q := (h.subperm he).count_le q
      _ ≤ 1 := List.nodup_iff_count.mp (h.distinct e he) q
  · rw [List.count_eq_zero_of_not_mem hq]
    exact Nat.zero_le 1

/-! ### What changes the store -/

/-- What a move may do to the store. Bars from elsewhere may change it, and so may the bars of a
fetch if the request that they are for wants them saved and waits; nothing else does. -/
def Touches (w : World) (m : Move) (w' : World) : Prop :=
  match m with
  | .added _ => True
  | .fetched q result => ∃ e ∈ w.accepted, q.owner? = some e.2.assignedId ∧
      q ∈ e.2.work.requests ∧ (w'.broker.cache.store = w.broker.cache.store ∨
        (result.isOk ∧ e.1.save = true ∧ w.broker.inflight.contains e.2.assignedId = true))
  | _ => w'.broker.cache.store = w.broker.cache.store

theorem Sends.touches (h : w.Sends) (horder : w.Orderly) (hstep : w.step? m = some w') :
    w.Touches m w' := by
  have hfetch : ∀ {q result}, m = .fetched q result →
      ∃ e ∈ w.accepted, q.owner? = some e.2.assignedId ∧ q ∈ e.2.work.requests := by
    rintro q result rfl
    cases makes_of_step hstep with
    | fetched hmem =>
        exact h.mem_requests (List.mem_append_right _ (List.mem_filterMap.mpr ⟨_, hmem, rfl⟩))
  by_cases hadded : ∃ a, m = .added a
  · obtain ⟨a, rfl⟩ := hadded
    trivial
  have hcache := cache_step horder hstep fun a ha => hadded ⟨a, ha⟩
  unfold Touches
  generalize w'.broker.cache = cache at hcache ⊢
  cases hcache with
  | @written r bars p owner waits =>
      obtain ⟨e, he, howner, hmem⟩ := hfetch rfl
      obtain rfl : e.2.assignedId = p := Option.some.inj (howner.symm.trans owner)
      refine ⟨e, he, howner, hmem, ?_⟩
      cases hsave : e.1.save with
      | true => exact Or.inr ⟨rfl, rfl, waits⟩
      | false =>
          have hr : r.save = false := (h.owned e he r hmem).2.1.trans hsave
          exact Or.inl (by rw [Broker.cacheAfter, if_neg (by simp [hr])])
  | late =>
      obtain ⟨e, he, howner, hmem⟩ := hfetch rfl
      exact ⟨e, he, howner, hmem, Or.inl rfl⟩
  | failed =>
      obtain ⟨e, he, howner, hmem⟩ := hfetch rfl
      exact ⟨e, he, howner, hmem, Or.inl rfl⟩
  | submitted => rfl
  | served => rfl
  | refused => rfl
  | connected => rfl

/-! ### The result -/

/-- The requests that were accepted before are the first ones later. -/
theorem accepted_suffix {moves : List Move} (hrun : w.run? moves = some w') :
    w.accepted <:+ w'.accepted := by
  refine run?_induction (P := fun v => w.accepted <:+ v.accepted) ?_ (List.suffix_refl _) hrun
  intro v m v' _ hv hstep
  rcases step_cases hstep with ⟨now, r, a, b, -, -, rfl⟩ | ⟨haccepted, -⟩
  · exact hv.trans (List.suffix_cons _ _)
  · rw [haccepted]
    exact hv

/-- The numbers that were given out before are the first ones later. -/
theorem issued_suffix {moves : List Move} (hrun : w.run? moves = some w') :
    w.issued <:+ w'.issued := by
  obtain ⟨before, hbefore⟩ := accepted_suffix hrun
  refine ⟨before.flatMap fun e => e.2.ids, ?_⟩
  unfold issued
  rw [← hbefore, List.flatMap_append]

/-- A request for which nothing more happens though it was not answered ended in an overflow. -/
theorem Orderly.overflowed (h : w.Orderly) {e : Request × Accepted} (he : e ∈ w.accepted)
    (hjobs : w.jobs e.2.assignedId = []) (hanswers : w.answers e.2.assignedId = []) :
    w.hasOverflowed = true := by
  cases hover : w.hasOverflowed with
  | true => rfl
  | false =>
      rcases open_or_answered rfl hover (h.life e he) with hopen | ⟨result, hans⟩
      · exact absurd hjobs hopen.busy
      · rw [hans.answers] at hanswers
        cases hanswers

/-- What was sent for a request that was accepted along a run. -/
theorem sent_of_submit {cache : Cache} {ids : Allocator} {registry : Registry}
    {before later : List Move} {now : Instant} {r : Request} {a : Accepted} {b : Broker}
    {v : World} (hbefore : (start cache ids registry).run? before = some v)
    (hsubmit : v.broker.submit now r = .ok (a, b))
    (hlater : v.run? (.submit now r :: later) = some w) (hids : w.issued.Nodup) :
    (a.ids ++ v.issued) <:+ w.issued ∧ ((w.sent a.assignedId).Perm a.work.requests ∨
      (w.hasOverflowed = true ∧ w.jobs a.assignedId = [] ∧ w.answers a.assignedId = [] ∧
        (w.sent a.assignedId).Subperm a.work.requests)) := by
  obtain ⟨u, hstep, hrest⟩ := run?_cons.mp hlater
  rw [step_enroll hsubmit] at hstep
  obtain rfl := Option.some.inj hstep
  have hrun : (start cache ids registry).run? (before ++ .submit now r :: later) = some w :=
    run?_append.mpr ⟨v, hbefore, hlater⟩
  have he : (r.filed a.assignedId, a) ∈ w.accepted :=
    (accepted_suffix hrest).subset List.mem_cons_self
  refine ⟨issued_enroll v r a b ▸ issued_suffix hrest, ?_⟩
  rcases (sends_of_run hrun hids).once _ he with hperm | ⟨hjobs, hanswers, hsub⟩
  · exact Or.inl hperm
  · exact Or.inr ⟨(orderly_of_run hrun hids).overflowed he hjobs hanswers, hjobs, hanswers, hsub⟩

/-- **A request touches only what its flags and its plan allow.** Whenever a request is accepted in
a run, its route decides what is sent for it, and to which source: to one that was connected
then and has bars of that frequency. All of that and nothing else is sent, each fetch once and
with numbers that nothing else has. And no move changes the store but one that brings bars from
elsewhere, or bars to be saved for a request that waits. -/
theorem requests_touch_what_they_may {cache : Cache} {ids : Allocator} {registry : Registry}
    {moves : List Move} {w : World} (hrun : (start cache ids registry).run? moves = some w)
    (hlength : w.issued.length ≤ 2 ^ 64) :
    (∀ before now r later v a b, moves = before ++ .submit now r :: later →
      (start cache ids registry).run? before = some v → v.broker.submit now r = .ok (a, b) →
      (∃ k route, r.key? = some k ∧ v.broker.route now k r = .ok route ∧
        Dispatched v.broker.registry r a route ∧
        (r.localOnly = true → r.forceFresh = false → route = .stored)) ∧
      (a.ids ++ v.issued) <:+ w.issued ∧
      ((w.sent a.assignedId).Perm a.work.requests ∨
        (w.hasOverflowed = true ∧ w.jobs a.assignedId = [] ∧ w.answers a.assignedId = [] ∧
          (w.sent a.assignedId).Subperm a.work.requests))) ∧
    w.issued.Nodup ∧ w.allSent.Nodup ∧
    (∀ q ∈ w.allSent, ∃ e ∈ w.accepted, q ∈ e.2.work.requests) ∧
    ∀ before m later v v', moves = before ++ m :: later →
      (start cache ids registry).run? before = some v → v.step? m = some v' → v.Touches m v' := by
  have hids : w.issued.Nodup := nodup_of_length hrun hlength
  have hsends := sends_of_run hrun hids
  refine ⟨?_, hids, hsends.nodup, fun q hq => ?_, ?_⟩
  · rintro before now r later v a b rfl hbefore hsubmit
    obtain ⟨v', hv', hlater⟩ := run?_append.mp hrun
    obtain rfl : v = v' := Option.some.inj (hbefore.symm.trans hv')
    obtain ⟨k, route, hkey, hroute, hdispatched⟩ := Broker.dispatched_of_submit hsubmit
    exact ⟨⟨k, route, hkey, hroute, hdispatched, Broker.route_of_local hroute⟩,
      sent_of_submit hbefore hsubmit hlater hids⟩
  · obtain ⟨e, he, -, hmem⟩ := hsends.mem_requests hq
    exact ⟨e, he, hmem⟩
  · rintro before m later v v' rfl hbefore hstep
    obtain ⟨u, hu, hlater⟩ := run?_append.mp hrun
    obtain rfl : v = u := Option.some.inj (hbefore.symm.trans hu)
    have hids' : v.issued.Nodup := nodup_issued_of_run hlater hids
    exact (sends_of_run hbefore hids').touches (orderly_of_run hbefore hids') hstep

/-- Two gaps are sent out, one fails, and the bars of the other one are not stored any more. -/
theorem late_part_touches_nothing :
    ∃ w, (start (Sample.cacheOf [4, 5, 6]) .fresh Sample.registry).run? Sample.lateRun = some w ∧
      w.issued.length ≤ 2 ^ 64 ∧ w.allSent.Nodup ∧
      w.sent (Sample.number 1) = [Sample.partBefore (Sample.request 1 9) 4 2,
        Sample.partAfter (Sample.request 1 9) 6 3] ∧
      w.broker.cache.store = (Sample.cacheOf [4, 5, 6]).store ∧
      ∃ v v', (start (Sample.cacheOf [4, 5, 6]) .fresh Sample.registry).run?
          (Sample.lateRun.take 2) = some v ∧
        v.step? (.fetched (Sample.partBefore (Sample.request 1 9) 4 2) (.ok [Sample.bar 2])) =
          some v' ∧
        v.Touches (.fetched (Sample.partBefore (Sample.request 1 9) 4 2) (.ok [Sample.bar 2])) v' := by
  obtain ⟨w, hrun, hlength, hsent, hstore⟩ :
      ∃ w, (start (Sample.cacheOf [4, 5, 6]) .fresh Sample.registry).run? Sample.lateRun = some w ∧
        w.issued.length ≤ 2 ^ 64 ∧
        w.sent (Sample.number 1) = [Sample.partBefore (Sample.request 1 9) 4 2,
          Sample.partAfter (Sample.request 1 9) 6 3] ∧
        w.broker.cache.store = (Sample.cacheOf [4, 5, 6]).store :=
    ⟨_, rfl, by decide, by decide, rfl⟩
  obtain ⟨v, v', hbefore, hstep⟩ :
      ∃ v v', (start (Sample.cacheOf [4, 5, 6]) .fresh Sample.registry).run?
          (Sample.lateRun.take 2) = some v ∧
        v.step? (.fetched (Sample.partBefore (Sample.request 1 9) 4 2) (.ok [Sample.bar 2])) =
          some v' := ⟨_, _, rfl, rfl⟩
  obtain ⟨-, -, hnodup, -, htouches⟩ := requests_touch_what_they_may hrun hlength
  exact ⟨w, hrun, hlength, hnodup, hsent, hstore, v, v', hbefore, hstep,
    htouches _ _ [] v v' rfl hbefore hstep⟩

end World
end BarArchive
