/-
When the stored range has no holes.

All that the planner knows of a stored series is its first and its last instant, and it
takes everything in between to be there. Whether it is depends on what was stored: a
range that is written next to the stored one leaves no hole, and a range that is written
further away leaves one, with bars of the tape in it that nobody will ask for again.

**A run leaves no holes if and only if every fetch that it stores adjoins the stored
range at that time.** Parts adjoin by their plan, if the bars of the tape are not closer to
each other than half a bar. Whole requests need not: an instrument without stored bars,
or a request for fresh data, sends any range to the source.

As long as there are no holes, the planner is right: a request that it sends to the store
since its range is covered is answered with all bars of that range.
-/
import BarArchive.Proofs.Numbers
import BarArchive.Proofs.Supply

namespace BarArchive

open Series

namespace Tape

variable {T : Tape} {s s' : Series}

/-! ### Holes -/

/-- Every bar of the tape from the first to the last stored instant is stored. -/
def Unbroken (T : Tape) (w : World) : Prop :=
  ∀ c, w.broker.cache.store.coverage T.key = some c →
    ∀ b ∈ T.bars, c.earliest ≤ b.time → b.time ≤ c.latest →
      b.raw ∈ (w.series T.key).bars.map Bar.raw

/-- No bar of the tape lies between a range and the stored one. -/
def Touches (T : Tape) (c : Coverage) (start stop : Instant) : Prop :=
  ∀ b ∈ T.bars, ¬ (stop < b.time ∧ b.time < c.earliest) ∧ ¬ (c.latest < b.time ∧ b.time < start)

/-- If a move stores the bars of a fetch, then their range adjoins the stored one. -/
def Adjoins (T : Tape) (w : World) (m : Move) : Prop :=
  ∀ r bars, m = .fetched r (.ok bars) → w.Stores T.key r bars →
    ∀ c, w.broker.cache.store.coverage T.key = some c → T.Touches c r.start r.stop

/-- Between two stored instants, every bar of the tape is stored. -/
def Convex (T : Tape) (s : Series) : Prop :=
  ∀ t u, groupAt s t ≠ [] → groupAt s u ≠ [] →
    ∀ b ∈ T.bars, t ≤ b.time → b.time ≤ u → groupAt s b.time ≠ []

/-- A mirror has a bar of the tape if and only if it has a group at its instant. -/
theorem Mirrors.mem_raw (h : T.Mirrors s) {b : Bar} (hb : b ∈ T.bars) :
    b.raw ∈ s.bars.map Bar.raw ↔ groupAt s b.time ≠ [] := by
  constructor
  · intro hmem
    obtain ⟨c, hc, hraw⟩ := List.mem_map.mp hmem
    have htime : c.raw.time = b.raw.time := congrArg Bar.time hraw
    exact h.grouped.groupAt_ne_nil.mpr ⟨c, hc, htime⟩
  · intro hne
    have hat : b ∈ T.barsAt b.time := List.mem_filter.mpr ⟨hb, by simp⟩
    have hmem := (h.faithful b.time hne).symm.subset (List.mem_map_of_mem hat)
    obtain ⟨c, hc, hraw⟩ := List.mem_map.mp hmem
    rw [← hraw]
    refine List.mem_map_of_mem (h.grouped.mem_bars.mpr ?_)
    rw [h.grouped.time_eq hc]
    exact hc

theorem unbroken_iff_convex {w : World} (h : T.Mirrors (w.series T.key)) :
    T.Unbroken w ↔ T.Convex (w.series T.key) := by
  constructor
  · intro hunbroken t u ht hu b hb htb hbu
    cases hc : w.broker.cache.store.coverage T.key with
    | none =>
        have hnil : w.series T.key = [] := Store.coverage_eq_none.mp hc
        rw [hnil] at ht
        exact absurd rfl ht
    | some c =>
        obtain ⟨-, -, hbounds⟩ := Store.coverage_spec h.grouped hc
        refine (h.mem_raw hb).mp (hunbroken c hc b hb ?_ ?_)
        · exact Int.le_trans (hbounds t ht).1 htb
        · exact Int.le_trans hbu (hbounds u hu).2
  · intro hconvex c hc b hb hfirst hlast
    obtain ⟨hearliest, hlatest, -⟩ := Store.coverage_spec h.grouped hc
    exact (h.mem_raw hb).mpr (hconvex _ _ hearliest hlatest b hb hfirst hlast)

/-! ### Ranges that adjoin -/

/--
Bars of a range that are written over a series without holes leave none, if the range
touches the series, or if the series has no bars.
-/
theorem Convex.union {start stop : Instant} (h : T.Convex s)
    (hthere : ∀ t, groupAt s' t ≠ [] ↔
      groupAt s t ≠ [] ∨ (start ≤ t ∧ t ≤ stop ∧ T.barsAt t ≠ []))
    (hbelow : ∀ u, groupAt s u ≠ [] → ∀ b ∈ T.bars, stop < b.time → b.time < u →
      ∃ t, groupAt s t ≠ [] ∧ t ≤ b.time)
    (habove : ∀ t, groupAt s t ≠ [] → ∀ b ∈ T.bars, b.time < start → t < b.time →
      ∃ u, groupAt s u ≠ [] ∧ b.time ≤ u) : T.Convex s' := by
  intro t u ht hu b hb htb hbu
  rw [hthere]
  by_cases hin : start ≤ b.time ∧ b.time ≤ stop
  · exact Or.inr ⟨hin.1, hin.2, barsAt_ne_nil hb⟩
  · refine Or.inl ?_
    -- an old instant lies below `b`, and one above it
    have hlow : ∃ t, groupAt s t ≠ [] ∧ t ≤ b.time := by
      rcases (hthere t).mp ht with hold | hnew
      · exact ⟨t, hold, htb⟩
      · have hstop : stop < b.time := by grind
        rcases (hthere u).mp hu with hold | hnew'
        · by_cases heq : b.time = u
          · exact ⟨u, hold, Int.le_of_eq heq.symm⟩
          · exact hbelow u hold b hb hstop (by grind)
        · grind
    have hhigh : ∃ u, groupAt s u ≠ [] ∧ b.time ≤ u := by
      rcases (hthere u).mp hu with hold | hnew
      · exact ⟨u, hold, hbu⟩
      · have hstart : b.time < start := by grind
        rcases (hthere t).mp ht with hold | hnew'
        · by_cases heq : t = b.time
          · exact ⟨t, hold, Int.le_of_eq heq.symm⟩
          · exact habove t hold b hb hstart (by grind)
        · grind
    obtain ⟨t', ht', hle⟩ := hlow
    obtain ⟨u', hu', hle'⟩ := hhigh
    exact h t' u' ht' hu' b hb hle hle'

/-- A range with bars that is written over a series leaves no holes just if it touches it. -/
theorem convex_written_iff {store : Store} {start stop : Instant} {y : Bar}
    (h : T.Convex (store.get T.key)) (hgrouped : Grouped T.frequency (store.get T.key))
    (hy : y ∈ T.within start stop) (hthere : ∀ t, groupAt s' t ≠ [] ↔
      groupAt (store.get T.key) t ≠ [] ∨ (start ≤ t ∧ t ≤ stop ∧ T.barsAt t ≠ [])) :
    T.Convex s' ↔ ∀ c, store.coverage T.key = some c → T.Touches c start stop := by
  obtain ⟨hmem, hstart, hstop⟩ := mem_within.mp hy
  constructor
  · intro hconvex c hc b hb
    obtain ⟨hearliest, hlatest, hbounds⟩ := Store.coverage_spec hgrouped hc
    have hnew := (hthere y.time).mpr (Or.inr ⟨hstart, hstop, barsAt_ne_nil hmem⟩)
    have hfirst := (hthere c.earliest).mpr (Or.inl hearliest)
    have hlast := (hthere c.latest).mpr (Or.inl hlatest)
    constructor
    · rintro ⟨hafter, hbefore⟩
      have hin := hconvex y.time c.earliest hnew hfirst b hb (by grind) (Int.le_of_lt hbefore)
      rcases (hthere b.time).mp hin with hold | hrange
      · have hle := (hbounds b.time hold).1
        grind
      · grind
    · rintro ⟨hafter, hbefore⟩
      have hin := hconvex c.latest y.time hlast hnew b hb (Int.le_of_lt hafter) (by grind)
      rcases (hthere b.time).mp hin with hold | hrange
      · have hle := (hbounds b.time hold).2
        grind
      · grind
  · intro htouches
    have hcovered : ∀ t, groupAt (store.get T.key) t ≠ [] →
        ∃ c, store.coverage T.key = some c := by
      intro t ht
      cases hc : store.coverage T.key with
      | none =>
          rw [Store.coverage_eq_none.mp hc] at ht
          exact absurd rfl ht
      | some c => exact ⟨c, rfl⟩
    refine h.union hthere (fun u hu b hb hafter hbefore => ?_) fun t ht b hb hbefore hafter => ?_
    · obtain ⟨c, hc⟩ := hcovered u hu
      obtain ⟨hearliest, -, -⟩ := Store.coverage_spec hgrouped hc
      have houtside := (htouches c hc b hb).1
      exact ⟨c.earliest, hearliest, by grind⟩
    · obtain ⟨c, hc⟩ := hcovered t ht
      obtain ⟨-, hlatest, -⟩ := Store.coverage_spec hgrouped hc
      have houtside := (htouches c hc b hb).2
      exact ⟨c.latest, hlatest, by grind⟩

/-- A move from a world without holes leads to one without holes just if it adjoins. -/
theorem unbroken_step_iff {w w' : World} {m : Move} (h : T.Behind w) (hstep : w.step? m = some w')
    (hallows : T.Allows m) (hunbroken : T.Unbroken w) : T.Unbroken w' ↔ T.Adjoins w m := by
  have hmirrors' := (mirrors_step h.orderly hstep hallows h.mirrors).1
  have hconvex := (unbroken_iff_convex h.mirrors).mp hunbroken
  rw [unbroken_iff_convex hmirrors']
  rcases World.series_step (k := T.key) h.orderly h.mirrors.grouped hstep
      hallows.not_added with
    ⟨r, bars, rfl, hstores, hwritten⟩ | ⟨hnone, hsame⟩
  · have hbars : bars.Perm (T.within r.start r.stop) := hallows hstores.1
    obtain ⟨y, hy⟩ := List.exists_mem_of_ne_nil bars hstores.2.1.2.1
    have hthere := (h.mirrors.written hbars hwritten).2
    rw [convex_written_iff hconvex h.mirrors.grouped (hbars.subset hy) hthere]
    constructor
    · intro htouches r' bars' heq _ c hc
      cases heq
      exact htouches c hc
    · intro hadjoins c hc
      exact hadjoins r bars rfl hstores c hc
  · rw [hsame]
    exact ⟨fun _ r bars heq hstores => absurd hstores (hnone r bars heq), fun _ => hconvex⟩

/-! ### Runs without holes -/

theorem unbroken_start {cache : Cache} (hempty : cache.store.get T.key = []) (ids : Allocator)
    (registry : Registry) : T.Behind (World.start cache ids registry) ∧
      T.Unbroken (World.start cache ids registry) := by
  have hmirrors : T.Mirrors ((World.start cache ids registry).series T.key) := by
    show T.Mirrors (cache.store.get T.key)
    rw [hempty]
    exact T.mirrors_nil
  refine ⟨⟨World.orderly_start cache ids registry, hmirrors⟩, fun c hc => ?_⟩
  have hnone : cache.store.coverage T.key = none := Store.coverage_eq_none.mpr hempty
  rw [show (World.start cache ids registry).broker.cache.store.coverage T.key
    = cache.store.coverage T.key from rfl, hnone] at hc
  cases hc

/-- From a world without holes, a run passes no holes just if each of its moves adjoins. -/
theorem always_unbroken_iff {moves : List Move} {w w' : World} (h : T.Behind w)
    (hunbroken : T.Unbroken w) (hrun : w.run? moves = some w') (hids : w'.issued.Nodup)
    (hallows : ∀ m ∈ moves, T.Allows m) :
    w.Always T.Unbroken moves ↔ w.AtEachMove T.Adjoins moves := by
  refine World.always_iff_atEachMove (fun v m v' hstep => World.nodup_issued_of_step hstep) ?_
    h hunbroken hrun hids
  intro v m v' hm hstep hids' hbehind
  exact ⟨hbehind.step hstep hids' (hallows m hm), unbroken_step_iff hbehind hstep (hallows m hm)⟩

/-! ### Requests that are covered -/

/--
A request that was sent to the store with its range covered: it waits for its turn and
the stock is there, or it had its turn and was answered with bars.
-/
structure Due (T : Tape) (e : Request × Accepted) (w : World) : Prop where
  behind : T.Behind w
  known : e ∈ w.accepted
  supplied : T.Supplied (w.series T.key) e.1 (w.view e.2.assignedId)
  readable : w.broker.cache.refusals.query = none
  turn : w.view e.2.assignedId
      = ⟨⟨some { request := e.1 }, none, none⟩, [.serve e.2.assignedId], [], []⟩ ∨
    (w.jobs e.2.assignedId = [] ∧ ∃ reply, w.answers e.2.assignedId = [.ok reply])

/-- A request whose range is covered is due as soon as it is accepted. -/
theorem due_of_covered {w : World} {now : Instant} {r : Request} {a : Accepted} {b : Broker}
    {c : Coverage} (h : T.Behind w) (hunbroken : T.Unbroken w)
    (hreads : w.broker.cache.refusals.query = none)
    (hsubmit : w.broker.submit now r = .ok (a, b)) (hids : (w.enroll r a b).issued.Nodup)
    (hkey : r.key? = some T.key) (hwork : a.work = .serve a.assignedId)
    (hc : w.broker.cache.store.coverage T.key = some c)
    (hcontains : c.contains r.start r.stop = true) :
    T.Due (r.filed a.assignedId, a) (w.enroll r a b) := by
  have hstep := World.step_enroll hsubmit
  have hbehind : T.Behind (w.enroll r a b) := h.step hstep hids trivial
  have hcache : b.cache = w.broker.cache := World.cache_of_submit hsubmit
  have hseries : (w.enroll r a b).series T.key = w.series T.key := by
    show b.cache.store.get T.key = _
    rw [hcache]
    rfl
  have hblank : w.view a.assignedId = {} :=
    h.orderly.blank _ (World.not_mem_acceptedIds hids)
  have hentry : b.inflight.entry a.assignedId
      = ⟨some { request := r.filed a.assignedId }, none, none⟩ := by
    have hempty : w.broker.inflight.entry a.assignedId = {} := congrArg View.entry hblank
    cases Broker.submit_cases hsubmit with
    | stored next routed table => rw [table.here, hempty]
    | external => cases hwork
    | split => cases hwork
  have hturn : (w.enroll r a b).view a.assignedId
      = ⟨⟨some { request := r.filed a.assignedId }, none, none⟩, [.serve a.assignedId], [], []⟩ := by
    rw [World.view_enroll_self hsubmit hblank, hentry, hwork]
    rfl
  have hrange := World.admission_range (Broker.submit_cases hsubmit)
  refine ⟨hbehind, List.mem_cons_self, ?_, ?_, Or.inl hturn⟩
  · rw [hseries, hturn]
    refine ⟨hkey, hrange, fun q hq => ?_, fun x hx _ => ?_, fun reply hreply => ?_⟩
    · simp at hq
    · obtain rfl := Option.some.inj hx
      have hcovers : c.earliest ≤ r.start ∧ r.stop ≤ c.latest := by
        simpa [Coverage.contains] using hcontains
      refine stocked_nil List.Pairwise.nil fun y hy hstart hstop => ?_
      refine Or.inl ((h.mirrors.mem_raw hy).mp (hunbroken c hc y hy ?_ ?_))
      · exact Int.le_trans hcovers.1 hstart
      · exact Int.le_trans hstop hcovers.2
    · cases hreply
  · show b.cache.refusals.query = none
    rw [hcache]
    exact hreads

theorem Due.step {w w' : World} {m : Move} {e : Request × Accepted} (h : T.Due e w)
    (hstep : w.step? m = some w') (hids : w'.issued.Nodup) (hallows : T.Allows m)
    (hrefused : ∀ x, m = .refused x → x.query = none) : T.Due e w' where
  behind := h.behind.step hstep hids hallows
  known := World.accepted_step hstep h.known
  supplied := h.supplied.step h.behind.orderly hstep hids hallows h.behind.mirrors h.known
  readable := World.readable_step h.behind.orderly hstep hrefused h.readable
  turn := by
    rcases World.view_step h.behind.orderly hstep hids h.known with
      hview | ⟨rfl, hjob, hview⟩ | ⟨q, result, rfl, hjob, hview⟩
    · rcases h.turn with hturn | ⟨hjobs, reply, hreply⟩
      · exact Or.inl (hview.trans hturn)
      · exact Or.inr ⟨(congrArg View.jobs hview).trans hjobs, reply,
          (congrArg View.answers hview).trans hreply⟩
    · rcases h.turn with hturn | ⟨hjobs, -⟩
      · -- the turn of the request has come, and the store can be read
        have hx : w.broker.inflight.waiting.find? e.2.assignedId = some { request := e.1 } :=
          congrArg (·.entry.waiting) hturn
        obtain ⟨t', heq, -⟩ := Broker.serve_waiting hx
        rw [Broker.stored_eq h.supplied.key h.supplied.range, h.readable] at heq
        rw [hturn, heq] at hview
        have hanswers := (congrArg View.answers hview).trans (View.answers_of_answer ..)
        refine Or.inr ⟨(congrArg View.jobs hview).trans ?_, _, hanswers⟩
        simp [View.after, Broker.answer, Outcome.isOverflow]
      · rw [hjobs] at hjob
        cases hjob
    · rcases h.turn with hturn | ⟨hjobs, -⟩
      · have hjobs : w.jobs e.2.assignedId = [.serve e.2.assignedId] := congrArg View.jobs hturn
        rw [hjobs] at hjob
        simp at hjob
      · rw [hjobs] at hjob
        cases hjob

/-- A request that is due is still to be served, or was answered with all bars of its range. -/
theorem Due.answered {w : World} {e : Request × Accepted} (h : T.Due e w) :
    (.serve e.2.assignedId ∈ w.pending ∧ w.answers e.2.assignedId = []) ∨
      ∃ reply, w.answers e.2.assignedId = [.ok reply] ∧ T.Answers e.1 reply := by
  rcases h.turn with hturn | ⟨-, reply, hreply⟩
  · have hjobs : w.jobs e.2.assignedId = [.serve e.2.assignedId] := congrArg View.jobs hturn
    have hmem : .serve e.2.assignedId ∈ w.jobs e.2.assignedId := by simp [hjobs]
    exact Or.inl ⟨(List.mem_filter.mp hmem).1, congrArg View.answers hturn⟩
  · refine Or.inr ⟨reply, hreply, h.supplied.replies reply ?_⟩
    show .ok reply ∈ w.answers e.2.assignedId
    rw [hreply]
    exact List.mem_cons_self

/-! ### The result -/

/-- The run of `moves` from `w` sent a request to the store while its range was covered. -/
def SentCovered (T : Tape) (w : World) (moves : List Move) (r : Request) (a : Accepted) : Prop :=
  ∃ before now later v b c, moves = before ++ .submit now r :: later ∧
    w.run? before = some v ∧ v.broker.submit now r = .ok (a, b) ∧ r.key? = some T.key ∧
    a.work = .serve a.assignedId ∧ v.broker.cache.store.coverage T.key = some c ∧
    c.contains r.start r.stop = true

/-- What holds after every move that a run makes is preserved along it. -/
theorem Due.run {moves : List Move} {e : Request × Accepted} {w w' : World} (h : T.Due e w)
    (hrun : w.run? moves = some w') (hids : w'.issued.Nodup)
    (hallows : ∀ m ∈ moves, T.Allows m)
    (hrefused : ∀ x, .refused x ∈ moves → x.query = none) : T.Due e w' := by
  refine World.run?_induction_of_nodup ?_ h hrun hids
  intro v m v' hm hv hstep hids'
  exact hv.step hstep hids' (hallows m hm) fun x hx => hrefused x (hx ▸ hm)

/--
**A run leaves no holes if and only if every fetch that it stores adjoins the stored range.**
As long as it leaves none, and the store can be read, every request that was sent to the
store with its range covered is answered with all bars of the range, once it is served.
-/
theorem unbroken_iff_adjoins (T : Tape) {cache : Cache} {ids : Allocator} {registry : Registry}
    {moves : List Move} {w : World} (hempty : cache.store.get T.key = [])
    (hrun : (World.start cache ids registry).run? moves = some w)
    (hlength : w.issued.length ≤ 2 ^ 64) (hallows : ∀ m ∈ moves, T.Allows m) :
    ((World.start cache ids registry).Always T.Unbroken moves ↔
      (World.start cache ids registry).AtEachMove T.Adjoins moves) ∧
    ((World.start cache ids registry).Always T.Unbroken moves →
      cache.refusals.query = none → (∀ x, .refused x ∈ moves → x.query = none) →
      ∀ r a, T.SentCovered (World.start cache ids registry) moves r a →
        (.serve a.assignedId ∈ w.pending ∧ w.answers a.assignedId = []) ∨
          ∃ reply, w.answers a.assignedId = [.ok reply] ∧ T.Answers r reply) := by
  have hids : w.issued.Nodup := World.nodup_of_length hrun hlength
  obtain ⟨hbehind, hunbroken⟩ := unbroken_start hempty ids registry
  refine ⟨always_unbroken_iff hbehind hunbroken hrun hids hallows, ?_⟩
  rintro halways hreads hrefused r a
    ⟨before, now, later, v, b, c, rfl, hbefore, hsubmit, hkey, hwork, hc, hcontains⟩
  obtain ⟨v', hbefore', hlater⟩ := World.run?_append.mp hrun
  obtain rfl : v = v' := Option.some.inj (hbefore.symm.trans hbefore')
  obtain ⟨u, hstep, hrest⟩ := World.run?_cons.mp hlater
  obtain rfl : v.enroll r a b = u :=
    Option.some.inj ((World.step_enroll hsubmit).symm.trans hstep)
  have hids' : (v.enroll r a b).issued.Nodup := World.nodup_issued_of_run hrest hids
  have hidsv : v.issued.Nodup := World.nodup_issued_of_step hstep hids'
  have hbefore' : ∀ m ∈ before, T.Allows m := fun m hm =>
    hallows m (List.mem_append.mpr (Or.inl hm))
  have hlater' : ∀ m ∈ later, T.Allows m := fun m hm =>
    hallows m (List.mem_append.mpr (Or.inr (List.mem_cons_of_mem _ hm)))
  have hreadsv : v.broker.cache.refusals.query = none :=
    hbehind.readable hbefore hidsv hbefore'
      (fun x hx => hrefused x (List.mem_append.mpr (Or.inl hx))) hreads
  -- without a hole, the bars are there when the request is sent, and no later move removes one
  have hunbrokenv : T.Unbroken v := (halways.after hbefore).head
  have hdue := due_of_covered (hbehind.run hbefore hidsv hbefore') hunbrokenv hreadsv hsubmit
    hids' hkey hwork hc hcontains
  exact (hdue.run hrest hids hlater' fun x hx =>
    hrefused x (List.mem_append.mpr (Or.inr (List.mem_cons_of_mem _ hx)))).answered

/-- In the run, every fetch is answered with the bars of the tape in its range. -/
theorem allows_apartRun : ∀ m ∈ Sample.apartRun, Sample.tape.Allows m := by
  unfold Sample.apartRun
  simp only [List.forall_mem_cons]
  refine ⟨trivial, fun _ => ?_, trivial, fun _ => ?_, trivial, trivial, fun m hm => ?_⟩
  · exact List.Perm.refl [Sample.bar 1, Sample.bar 2]
  · exact List.Perm.refl [Sample.bar 5, Sample.bar 6]
  · cases hm

/-- The run ends with a hole, which the last request is not told of. -/
theorem run_apartRun : ∃ w, (World.start {} .fresh Sample.registry).run? Sample.apartRun = some w ∧
    w.issued.length ≤ 2 ^ 64 ∧ ¬ Sample.tape.Unbroken w ∧
    w.answers (Sample.number 3) = [.ok ⟨(Sample.request 1 6).filed (Sample.number 3),
      [Sample.bar 1, Sample.bar 2, Sample.bar 5, Sample.bar 6]⟩] := by
  refine ⟨_, rfl, by decide, fun hunbroken => ?_, rfl⟩
  have hmem := hunbroken ⟨1, .oneDay, Sample.midnight 1, Sample.midnight 6⟩ rfl (Sample.bar 3)
    (by decide) (by decide) (by decide)
  revert hmem
  decide

/-- Two fetches with days between them leave a hole, so not every reachable world is unbroken. -/
theorem broken_by_fetches_apart : Sample.tape.instrument.allowsPartialFill = true ∧
    ¬ ∀ moves w, (World.start {} .fresh Sample.registry).run? moves = some w →
      w.issued.length ≤ 2 ^ 64 → (∀ m ∈ moves, Sample.tape.Allows m) →
      Sample.tape.Unbroken w := by
  refine ⟨rfl, fun hall => ?_⟩
  obtain ⟨w, hrun, hlength, hbroken, -⟩ := run_apartRun
  exact hbroken (hall Sample.apartRun w hrun hlength allows_apartRun)

/-- Since the run ends with a hole, not every fetch that it stores adjoins. -/
theorem not_adjoining_apartRun :
    ¬ (World.start {} .fresh Sample.registry).AtEachMove Sample.tape.Adjoins Sample.apartRun := by
  obtain ⟨w, hrun, hlength, hbroken, -⟩ := run_apartRun
  intro hadjoins
  have halways :=
    (unbroken_iff_adjoins Sample.tape rfl hrun hlength allows_apartRun).1.mpr hadjoins
  exact hbroken (halways.last hrun)

end Tape

end BarArchive
