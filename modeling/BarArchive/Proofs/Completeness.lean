/-
Replies are complete.

A plan is made from what is stored when a request comes, and carried out while other
requests widen the store. It stays good. The gaps of a plan reach from the ends of the
range to half a bar before and after what is stored, so if the bars of the tape are not
closer to each other than half a bar, none is left out between; and a store that grows
only ever grows over the gaps of other plans.

From a store that has the tape between two instants, and without requests for fresh data,
every fetch that is stored therefore adjoins what is stored at that time, and every
request is supplied from the beginning. **Every reply has exactly the bars of the tape in
its range, and the store still has the tape between its first and its last instant.**
-/
import BarArchive.Proofs.Coverage

namespace BarArchive

open Series

namespace Tape

variable {T : Tape}

/-- Instants with bars are half a bar apart, or more. -/
def Spaced (T : Tape) : Prop :=
  ∀ b ∈ T.bars, ∀ c ∈ T.bars, b.time < c.time → b.time + T.frequency.halfBar ≤ c.time

/-- There are no bars after the expiration of the instrument. -/
def Expires (T : Tape) : Prop :=
  ∀ expiration, T.instrument.expiration = some expiration → ∀ b ∈ T.bars, b.time ≤ expiration

/-! ### Plans -/

/-- The gaps that a plan sees around a stored range. -/
def gapsOf (r : Request) (c : Coverage) (now : Instant) : List Gap :=
  (Route.backfill? r c).toList ++ (Route.forwardFill? r c now).toList

theorem eq_of_backfill? {r : Request} {c : Coverage} {g : Gap}
    (h : Route.backfill? r c = some g) :
    g = ⟨.backfill, r.start, c.earliest - r.frequency.halfBar⟩ ∧ r.start < c.earliest := by
  unfold Route.backfill? at h
  simp only [Option.ite_none_right_eq_some] at h
  exact ⟨(Option.some.inj h.2).symm, h.1.1⟩

theorem eq_of_forwardFill? {r : Request} {c : Coverage} {now : Instant} {g : Gap}
    (h : Route.forwardFill? r c now = some g) :
    g = ⟨.forwardFill, c.latest + r.frequency.halfBar, r.stop⟩ ∧ c.latest < r.stop := by
  unfold Route.forwardFill? at h
  simp only [Option.ite_none_right_eq_some] at h
  exact ⟨(Option.some.inj h.2).symm, h.1.1⟩

theorem mem_gapsOf {r : Request} {c : Coverage} {now : Instant} {g : Gap}
    (hg : g ∈ gapsOf r c now) :
    (g.start = r.start ∧ g.stop = c.earliest - r.frequency.halfBar ∧ r.start < c.earliest) ∨
      (g.start = c.latest + r.frequency.halfBar ∧ g.stop = r.stop ∧ c.latest < r.stop) := by
  rcases List.mem_append.mp hg with hg | hg
  · obtain ⟨rfl, hlt⟩ := eq_of_backfill? (Option.mem_toList.mp hg)
    exact Or.inl ⟨rfl, rfl, hlt⟩
  · obtain ⟨rfl, hlt⟩ := eq_of_forwardFill? (Option.mem_toList.mp hg)
    exact Or.inr ⟨rfl, rfl, hlt⟩

/-- The gap before the stored range ends before the gap after it begins. -/
theorem pairwise_gapsOf {r : Request} {c : Coverage} {now : Instant}
    (hc : c.earliest ≤ c.latest) : (gapsOf r c now).Pairwise fun g g' => g.stop < g'.start := by
  have hhalf : (0 : Int) < r.frequency.halfBar := Int.natCast_pos.mpr r.frequency.halfBar_pos
  unfold gapsOf
  cases hback : Route.backfill? r c with
  | none =>
      cases Route.forwardFill? r c now with
      | none => exact List.Pairwise.nil
      | some g' => exact List.pairwise_singleton _ g'
  | some g =>
      cases hforward : Route.forwardFill? r c now with
      | none => exact List.pairwise_singleton _ g
      | some g' =>
          obtain ⟨rfl, -⟩ := eq_of_backfill? hback
          obtain ⟨rfl, -⟩ := eq_of_forwardFill? hforward
          refine List.pairwise_pair.mpr ?_
          show c.earliest - r.frequency.halfBar < c.latest + r.frequency.halfBar
          grind

/-- Every bar of the range that the tape has is within the stored range or within a gap. -/
theorem covered_by_gaps (now : Instant) {r : Request} {c : Coverage} {b first last : Bar}
    (hspaced : T.Spaced) (hexpires : T.Expires) (hinstrument : r.instrument = T.instrument)
    (hfrequency : r.frequency = T.frequency) (hfirst : first ∈ T.bars)
    (hearliest : first.time = c.earliest) (hlast : last ∈ T.bars) (hlatest : last.time = c.latest)
    (hb : b ∈ T.bars) (hstart : r.start ≤ b.time) (hstop : b.time ≤ r.stop) :
    (c.earliest ≤ b.time ∧ b.time ≤ c.latest) ∨
      ∃ g ∈ gapsOf r c now, g.start ≤ b.time ∧ b.time ≤ g.stop := by
  have hhalf : (0 : Int) < T.frequency.halfBar := Int.natCast_pos.mpr T.frequency.halfBar_pos
  by_cases hbefore : b.time < c.earliest
  · -- half a bar before the stored range is not before `b`
    have hspace := hspaced b hb first hfirst (hearliest ▸ hbefore)
    rw [hearliest, ← hfrequency] at hspace
    have hwide : r.start < c.earliest ∧ r.start ≤ c.earliest - r.frequency.halfBar := by grind
    refine Or.inr ⟨⟨.backfill, r.start, c.earliest - r.frequency.halfBar⟩, ?_, hstart, by grind⟩
    unfold gapsOf Route.backfill?
    rw [if_pos hwide]
    exact List.mem_append.mpr (Or.inl List.mem_cons_self)
  · by_cases hafter : c.latest < b.time
    · have hspace := hspaced last hlast b hb (hlatest ▸ hafter)
      rw [hlatest, ← hfrequency] at hspace
      have hcomplete : Route.isComplete r c now = false := by
        unfold Route.isComplete
        rw [hinstrument]
        cases hexpiration : T.instrument.expiration with
        | none => rfl
        | some expiration =>
            have hlive := hexpires expiration hexpiration b hb
            have hshort : ¬ expiration ≤ c.latest := by grind
            simp [Coverage.reaches, hshort]
      have hwide : c.latest < r.stop ∧ (!Route.isComplete r c now) = true ∧
          c.latest + r.frequency.halfBar ≤ r.stop := by
        rw [hcomplete]
        exact ⟨by grind, rfl, by grind⟩
      refine Or.inr ⟨⟨.forwardFill, c.latest + r.frequency.halfBar, r.stop⟩, ?_, hspace, hstop⟩
      unfold gapsOf Route.forwardFill?
      rw [if_pos hwide]
      exact List.mem_append.mpr (Or.inr List.mem_cons_self)
    · exact Or.inl ⟨Int.not_lt.mp hbefore, Int.not_lt.mp hafter⟩

/-- The gaps of a plan touch the range that is stored when it is made. -/
theorem touches_gap {r : Request} {c : Coverage} {now : Instant} {g : Gap} {first last : Bar}
    (hspaced : T.Spaced) (hfrequency : r.frequency = T.frequency) (hfirst : first ∈ T.bars)
    (hearliest : first.time = c.earliest) (hlast : last ∈ T.bars) (hlatest : last.time = c.latest)
    (hc : c.earliest ≤ c.latest) (hg : g ∈ gapsOf r c now) : T.Touches c g.start g.stop := by
  intro b hb
  have hbelow : b.time < c.earliest → b.time + r.frequency.halfBar ≤ c.earliest := fun hlt => by
    have hspace := hspaced b hb first hfirst (hearliest ▸ hlt)
    rwa [hearliest, ← hfrequency] at hspace
  have habove : c.latest < b.time → c.latest + r.frequency.halfBar ≤ b.time := fun hlt => by
    have hspace := hspaced last hlast b hb (hlatest ▸ hlt)
    rwa [hlatest, ← hfrequency] at hspace
  rcases mem_gapsOf hg with ⟨hstart, hstop, hlt⟩ | ⟨hstart, hstop, hlt⟩
  · rw [hstart, hstop]
    constructor
    · rintro ⟨hafter, hbefore⟩
      have hspace := hbelow hbefore
      grind
    · rintro ⟨hafter, hbefore⟩
      grind
  · rw [hstart, hstop]
    constructor
    · rintro ⟨hafter, hbefore⟩
      grind
    · rintro ⟨hafter, hbefore⟩
      have hspace := habove hafter
      grind

/-- A stored range that grows still touches what it touched. -/
theorem Touches.mono {c c' : Coverage} {start stop : Instant} (h : T.Touches c start stop)
    (hearliest : c'.earliest ≤ c.earliest) (hlatest : c.latest ≤ c'.latest) :
    T.Touches c' start stop := by
  intro b hb
  obtain ⟨hbelow, habove⟩ := h b hb
  constructor
  · rintro ⟨hafter, hbefore⟩
    exact hbelow ⟨hafter, Int.lt_of_lt_of_le hbefore hearliest⟩
  · rintro ⟨hafter, hbefore⟩
    exact habove ⟨Int.lt_of_le_of_lt hlatest hafter, hbefore⟩

/-- Unless it is told where to go, a request is served if it is covered and split if it has gaps. -/
theorem plan_cases {r : Request} (c : Coverage) (now : Instant) (hfresh : r.forceFresh = false)
    (hlocal : r.localOnly = false) (hpartial : r.instrument.allowsPartialFill = true) :
    (Route.plan r (some c) now = .stored ∧
      (c.contains r.start r.stop = true ∨ gapsOf r c now = [])) ∨
    Route.plan r (some c) now = .split (gapsOf r c now) := by
  unfold Route.plan gapsOf
  rw [hfresh, hlocal, hpartial]
  simp only [Bool.false_eq_true, if_false, Bool.not_true]
  by_cases hcontains : c.contains r.start r.stop = true
  · exact Or.inl ⟨by rw [if_pos hcontains], Or.inl hcontains⟩
  · rw [if_neg hcontains]
    cases (Route.backfill? r c).toList ++ (Route.forwardFill? r c now).toList with
    | nil => exact Or.inl ⟨rfl, Or.inr rfl⟩
    | cons g gaps => exact Or.inr rfl

/-- The route of a request that is not told where to go, next to what is stored. -/
theorem stored_or_split {b : Broker} {now : Instant} {r : Request} {k k' : SeriesKey}
    {route : Route} {c : Coverage} (h : b.Routed now r k' route) (hkey : r.key? = some k)
    (hc : b.cache.store.coverage k = some c) (hfresh : r.forceFresh = false)
    (hlocal : r.localOnly = false) (hpartial : r.instrument.allowsPartialFill = true) :
    (route = .stored ∧ (c.contains r.start r.stop = true ∨ gapsOf r c now = [])) ∨
      route = .split (gapsOf r c now) := by
  obtain rfl : k' = k := Option.some.inj (h.key.symm.trans hkey)
  rw [h.plan hfresh hlocal, hc]
  exact plan_cases c now hfresh hlocal hpartial

/-! ### Coverage -/

theorem Mirrors.barsAt_ne_nil {s : Series} (h : T.Mirrors s) {t : Instant}
    (ht : groupAt s t ≠ []) : T.barsAt t ≠ [] := by
  intro hnil
  have hlength := (h.faithful t ht).length_eq
  rw [hnil, List.length_map, List.length_map] at hlength
  exact ht (List.length_eq_zero_iff.mp hlength)

/-- The ends of the stored range are instants of the tape. -/
theorem Mirrors.ends {store : Store} {c : Coverage} (h : T.Mirrors (store.get T.key))
    (hc : store.coverage T.key = some c) :
    (∃ first ∈ T.bars, first.time = c.earliest) ∧ (∃ last ∈ T.bars, last.time = c.latest) ∧
      c.earliest ≤ c.latest := by
  obtain ⟨hearliest, hlatest, hbounds⟩ := Store.coverage_spec h.grouped hc
  exact ⟨exists_of_barsAt (h.barsAt_ne_nil hearliest), exists_of_barsAt (h.barsAt_ne_nil hlatest),
    (hbounds _ hearliest).2⟩

theorem Mirrors.coverage_some {store : Store} {t : Instant}
    (ht : groupAt (store.get T.key) t ≠ []) : ∃ c, store.coverage T.key = some c := by
  cases hc : store.coverage T.key with
  | none =>
      rw [Store.coverage_eq_none.mp hc] at ht
      exact absurd rfl ht
  | some c => exact ⟨c, rfl⟩

/-! ### Whole worlds -/

/--
A world in which the store has the tape between two instants and all is well: every
fetch that is out adjoins the stored range, and every request is supplied.
-/
structure Whole (T : Tape) (w : World) : Prop where
  behind : T.Behind w
  unbroken : T.Unbroken w
  stored : ∃ t, groupAt (w.series T.key) t ≠ []
  adjoining : ∀ q, .fetch q ∈ w.pending → q.key? = some T.key →
    ∀ c, w.broker.cache.store.coverage T.key = some c → T.Touches c q.start q.stop
  supplied : ∀ e ∈ w.accepted, e.1.key? = some T.key → e.1.localOnly = false →
    T.Supplied (w.series T.key) e.1 (w.view e.2.assignedId)

/-- A bar of the tape within the stored range is stored. -/
theorem Whole.there {w : World} {c : Coverage} {b : Bar} (h : T.Whole w)
    (hc : w.broker.cache.store.coverage T.key = some c) (hb : b ∈ T.bars)
    (hstart : c.earliest ≤ b.time) (hstop : b.time ≤ c.latest) :
    groupAt (w.series T.key) b.time ≠ [] :=
  (h.behind.mirrors.mem_raw hb).mp (h.unbroken c hc b hb hstart hstop)

/-- The fetches that are out adjoin the stored range, so no move leaves a hole. -/
theorem Whole.unbroken_step {w w' : World} {m : Move} (h : T.Whole w)
    (hstep : w.step? m = some w') (hallows : T.Allows m) : T.Unbroken w' := by
  refine (unbroken_step_iff h.behind hstep hallows h.unbroken).mpr ?_
  rintro r bars rfl hstores c hc
  exact h.adjoining r (World.fetched_of_step hstep).1 hstores.1 c hc

/-- A move that files no request leaves a whole world whole. -/
theorem Whole.step_other {w w' : World} {m : Move} (h : T.Whole w) (hstep : w.step? m = some w')
    (hids : w'.issued.Nodup) (hallows : T.Allows m) (haccepted : w'.accepted = w.accepted)
    (hpending : ∀ j ∈ w'.pending, j ∈ w.pending) : T.Whole w' := by
  obtain ⟨hmirrors', hgrow⟩ := mirrors_step h.behind.orderly hstep hallows h.behind.mirrors
  obtain ⟨t, ht⟩ := h.stored
  obtain ⟨c, hc⟩ := Mirrors.coverage_some (T := T) ht
  refine ⟨h.behind.step hstep hids hallows, h.unbroken_step hstep hallows, ⟨t, hgrow t ht⟩, ?_, ?_⟩
  · intro q hq hkey c' hc'
    obtain ⟨hearliest, hlatest⟩ :=
      Store.coverage_grows h.behind.mirrors.grouped hmirrors'.grouped hgrow hc hc'
    exact (h.adjoining q (hpending _ hq) hkey c hc).mono hearliest hlatest
  · intro e he hkey hlocal
    rw [haccepted] at he
    exact (h.supplied e he hkey hlocal).step h.behind.orderly hstep hids hallows
      h.behind.mirrors he

/-! ### Requests that are accepted -/

theorem requests_of_work (work : Work) : work.jobs.filterMap Job.request? = work.requests := by
  cases work with
  | fetch slot requests => exact requests_of_fetches requests
  | serve id => rfl

/-- All work for a request is for its series. -/
theorem admission_key {b b' : Broker} {now : Instant} {r : Request} {a : Accepted}
    (h : Broker.Admission b now r (a, b')) : ∀ q ∈ a.work.requests, q.key? = r.key? := by
  intro q hq
  cases h with
  | stored => cases hq
  | external =>
      obtain rfl := List.mem_singleton.mp hq
      rfl
  | split =>
      obtain ⟨g, -, id, rfl⟩ := Broker.partsFor_mem hq
      rfl

/-- A request for local data is sent nowhere, unless it is for fresh data too. -/
theorem admission_local {b b' : Broker} {now : Instant} {r : Request} {a : Accepted}
    (h : Broker.Admission b now r (a, b')) (hfresh : r.forceFresh = false)
    (hlocal : r.localOnly = true) : a.work.requests = [] := by
  have hroute : ∀ {k route}, b.Routed now r k route → route = .stored := by
    intro k route hrouted
    have hok := hrouted.route
    unfold Broker.route Route.plan at hok
    rw [hfresh, hlocal] at hok
    exact (Except.ok.inj hok).symm
  cases h with
  | stored => rfl
  | external next routed => cases hroute routed
  | split next routed => cases hroute routed

/-- The parts for gaps in their order supply a request, if the gaps make up for what is not stored. -/
theorem stocked_partsFor {s : Series} {r r' : Request} {gaps : List Gap} {ids : Allocator}
    (hpair : gaps.Pairwise fun g g' => g.stop < g'.start)
    (hcovered : ∀ b ∈ T.bars, r.start ≤ b.time → b.time ≤ r.stop → groupAt s b.time ≠ [] ∨
      ∃ g ∈ gaps, g.start ≤ b.time ∧ b.time ≤ g.stop) :
    T.Stocked s r (Broker.partsFor r' gaps ids).1 [] := by
  have hranges := Broker.partsFor_ranges r' gaps ids
  refine stocked_nil ?_ fun b hb hstart hstop => (hcovered b hb hstart hstop).imp_right ?_
  · -- the parts have the ranges of the gaps, and those do not overlap
    have hapart : (gaps.map fun g => (g.start, g.stop)).Pairwise fun x y => x.2 < y.1 :=
      List.pairwise_map.mpr hpair
    rw [← hranges] at hapart
    exact (List.pairwise_map.mp hapart).imp Or.inl
  · rintro ⟨g, hg, hspan⟩
    obtain ⟨q, hq, hqstart, hqstop⟩ := Broker.exists_partFor (r := r') hg ids
    exact ⟨q, hq, hqstart ▸ hspan.1, hqstop ▸ hspan.2⟩

/-- The fetches for a request that is accepted adjoin the stored range, and supply the request. -/
theorem Whole.planned {w : World} {now : Instant} {r : Request} {a : Accepted} {b : Broker}
    {c : Coverage} (h : T.Whole w) (hspaced : T.Spaced) (hexpires : T.Expires)
    (hpartial : T.instrument.allowsPartialFill = true)
    (hc : w.broker.cache.store.coverage T.key = some c)
    (hadmission : Broker.Admission w.broker now r (a, b)) (hkey : r.key? = some T.key)
    (hinstrument : r.instrument = T.instrument) (hfresh : r.forceFresh = false)
    (hlocal : r.localOnly = false) :
    (∀ q ∈ a.work.requests, q.isPart = true ∧ T.Touches c q.start q.stop) ∧
      T.Stocked (w.series T.key) (r.filed a.assignedId) a.work.requests [] := by
  obtain ⟨⟨first, hfirst, hearliest⟩, ⟨last, hlast, hlatest⟩, hle⟩ :=
    h.behind.mirrors.ends hc
  have hfrequency := frequency_of_key hkey
  have hcovered := fun {x : Bar} => covered_by_gaps (b := x) now hspaced hexpires
    hinstrument hfrequency hfirst hearliest hlast hlatest
  have hroute := fun {k route} (hrouted : w.broker.Routed now r k route) =>
    stored_or_split hrouted hkey hc hfresh hlocal (hinstrument ▸ hpartial)
  cases hadmission with
  | stored next routed table =>
      refine ⟨fun q hq => absurd hq List.not_mem_nil,
        stocked_nil List.Pairwise.nil fun x hx hstart hstop => Or.inl ?_⟩
      rcases hroute routed with ⟨-, hcontains | hnone⟩ | hsplit
      · have hcovers : c.earliest ≤ r.start ∧ r.stop ≤ c.latest := by
          simpa [Coverage.contains] using hcontains
        exact h.there hc hx (Int.le_trans hcovers.1 hstart) (Int.le_trans hstop hcovers.2)
      · rcases hcovered hx hstart hstop with hin | ⟨g, hg, -⟩
        · exact h.there hc hx hin.1 hin.2
        · rw [hnone] at hg
          cases hg
      · cases hsplit
  | external next routed table => rcases hroute routed with ⟨hstored, -⟩ | hsplit <;> contradiction
  | @split k p ids gaps slot t' next routed table =>
      have hgaps : gaps = gapsOf r c now := by
        rcases hroute routed with ⟨hstored, -⟩ | hsplit
        · cases hstored
        · exact Route.split.inj hsplit
      show (∀ q ∈ (Broker.partsFor (r.filed p) gaps ids).1, _) ∧
        T.Stocked _ _ (Broker.partsFor (r.filed p) gaps ids).1 []
      refine ⟨fun q hq => ?_, stocked_partsFor ?_ fun x hx hstart hstop => ?_⟩
      · obtain ⟨g, hg, id, rfl⟩ := Broker.partsFor_mem hq
        rw [hgaps] at hg
        exact ⟨rfl, touches_gap hspaced hfrequency hfirst hearliest hlast hlatest hle hg⟩
      · rw [hgaps]
        exact pairwise_gapsOf hle
      · rw [hgaps]
        exact (hcovered hx hstart hstop).imp_left fun hin => h.there hc hx hin.1 hin.2

/-- A request that is accepted leaves a whole world whole. -/
theorem Whole.enroll {w : World} {now : Instant} {r : Request} {a : Accepted} {b : Broker}
    (h : T.Whole w) (hspaced : T.Spaced) (hexpires : T.Expires)
    (hpartial : T.instrument.allowsPartialFill = true)
    (hsubmit : w.broker.submit now r = .ok (a, b)) (hids : (w.enroll r a b).issued.Nodup)
    (hrequest : r.key? = some T.key → r.instrument = T.instrument ∧ r.forceFresh = false) :
    T.Whole (w.enroll r a b) := by
  have hstep := World.step_enroll hsubmit
  have hadmission := Broker.submit_cases hsubmit
  have hcache : b.cache = w.broker.cache := World.cache_of_submit hsubmit
  have hseries : (w.enroll r a b).series T.key = w.series T.key := by
    show b.cache.store.get T.key = _
    rw [hcache]
    rfl
  have hrange : r.start ≤ r.stop := World.admission_range hadmission
  obtain ⟨t, ht⟩ := h.stored
  obtain ⟨c, hc⟩ := Mirrors.coverage_some (T := T) ht
  have hplanned := fun hkey hlocal => h.planned hspaced hexpires hpartial hc hadmission hkey
    (hrequest hkey).1 (hrequest hkey).2 hlocal
  refine ⟨h.behind.step hstep hids trivial, h.unbroken_step hstep trivial, ⟨t, ?_⟩, ?_, ?_⟩
  · rw [hseries]
    exact ht
  · intro q hq hkey c' hc'
    have hsame : (w.enroll r a b).broker.cache.store.coverage T.key
        = w.broker.cache.store.coverage T.key := by
      show b.cache.store.coverage T.key = _
      rw [hcache]
    obtain rfl := Option.some.inj (hc.symm.trans (hsame.symm.trans hc'))
    rcases List.mem_append.mp hq with hq | hq
    · exact h.adjoining q hq hkey c hc
    · have hmem : q ∈ a.work.requests := by
        rw [← requests_of_work]
        exact List.mem_filterMap.mpr ⟨_, hq, rfl⟩
      have hkey' : r.key? = some T.key := (admission_key hadmission q hmem).symm.trans hkey
      cases hlocal : r.localOnly with
      | true =>
          rw [admission_local hadmission (hrequest hkey').2 hlocal] at hmem
          cases hmem
      | false => exact ((hplanned hkey' hlocal).1 q hmem).2
  · intro e he hkey hlocal
    rcases List.mem_cons.mp he with rfl | he
    · -- the request that was just accepted
      have hblank := h.behind.orderly.blank _ (World.not_mem_acceptedIds hids)
      have hview := World.view_enroll_self hsubmit hblank
      obtain ⟨hparts, hstocked⟩ := hplanned hkey hlocal
      rw [hview, hseries]
      refine ⟨hkey, hrange, fun q hq => ?_, fun x hx hne => ?_,
        fun reply hreply => absurd hreply List.not_mem_nil⟩
      · have hmem : q ∈ a.work.requests := by
          rw [← requests_of_work]
          exact List.mem_filterMap.mpr ⟨_, hq, rfl⟩
        exact ⟨(hparts q hmem).1, (admission_key hadmission q hmem).trans hkey⟩
      · have hwaiting := hx.symm.trans (World.admission_waiting hadmission)
        obtain rfl := Option.some.inj hwaiting
        show T.Stocked _ _ (a.work.jobs.filterMap Job.request?) []
        rw [requests_of_work]
        exact hstocked
    · have hne : e.2.assignedId ≠ a.assignedId := fun hid =>
        World.not_mem_acceptedIds hids (List.mem_map.mpr ⟨e, he, hid⟩)
      rw [World.view_enroll_other hsubmit hne, hseries]
      exact h.supplied e he hkey hlocal

theorem Whole.step {w w' : World} {m : Move} (h : T.Whole w) (hspaced : T.Spaced)
    (hexpires : T.Expires) (hpartial : T.instrument.allowsPartialFill = true)
    (hstep : w.step? m = some w') (hids : w'.issued.Nodup) (hallows : T.Allows m)
    (hrequest : ∀ now r, m = .submit now r → r.key? = some T.key →
      r.instrument = T.instrument ∧ r.forceFresh = false) : T.Whole w' := by
  rcases World.step_cases hstep with ⟨now, r, a, b, rfl, hsubmit, rfl⟩ | ⟨haccepted, hpending⟩
  · exact h.enroll hspaced hexpires hpartial hsubmit hids (hrequest now r rfl)
  · exact h.step_other hstep hids hallows haccepted hpending

/-! ### The result -/

/-- The stored series is the tape between its first and its last instant. -/
def Agrees (T : Tape) (w : World) : Prop :=
  ∃ c, w.broker.cache.store.coverage T.key = some c ∧
    T.Fills c.earliest c.latest (w.series T.key).bars

theorem Whole.agrees {w : World} (h : T.Whole w) : T.Agrees w := by
  obtain ⟨t, ht⟩ := h.stored
  obtain ⟨c, hc⟩ := Mirrors.coverage_some (T := T) ht
  obtain ⟨-, -, hbounds⟩ := Store.coverage_spec h.behind.mirrors.grouped hc
  exact ⟨c, hc, h.behind.mirrors.fills (fun b hb => h.there hc hb) hbounds⟩

/-- A world at its beginning is whole if its store agrees with the tape. -/
theorem whole_start {cache : Cache} {ids : Allocator} {registry : Registry}
    (hgrouped : Grouped T.frequency (cache.store.get T.key))
    (h : T.Agrees (World.start cache ids registry)) : T.Whole (World.start cache ids registry) := by
  obtain ⟨c, hc, hfills⟩ := h
  obtain ⟨hearliest, -, hbounds⟩ := Store.coverage_spec (k := T.key) hgrouped hc
  have hmirrors : T.Mirrors (cache.store.get T.key) := by
    refine ⟨hgrouped, fun t ht => ?_⟩
    have hperm := hfills.complete.filter (·.time = t)
    rw [Bar.filter_raw, Bar.filter_raw, filter_within, if_pos (hbounds t ht)] at hperm
    rw [← hgrouped.filter_bars]
    exact hperm
  have hunbroken : T.Unbroken (World.start cache ids registry) := by
    intro c' hc' b hb hfirst hlast
    obtain rfl := Option.some.inj (hc.symm.trans hc')
    exact hfills.complete.symm.subset
      (List.mem_map_of_mem (mem_within.mpr ⟨hb, hfirst, hlast⟩))
  exact ⟨⟨World.orderly_start cache ids registry, hmirrors⟩, hunbroken, ⟨_, hearliest⟩,
    fun q hq => absurd hq List.not_mem_nil, fun e he => absurd he List.not_mem_nil⟩

theorem spaced_tape : Sample.tape.Spaced := by
  unfold Spaced
  decide

/-- Both gaps are filled with the bars of the tape in their ranges. -/
theorem allows_gapsRun : ∀ m ∈ Sample.gapsRun, Sample.tape.Allows m := by
  unfold Sample.gapsRun
  simp only [List.forall_mem_cons]
  refine ⟨trivial, fun _ => ?_, fun _ => ?_, fun m hm => ?_⟩
  · show [Sample.bar 8, Sample.bar 9, Sample.bar 7].Perm
      [Sample.bar 7, Sample.bar 8, Sample.bar 9]
    decide
  · exact List.Perm.refl [Sample.bar 1, Sample.bar 2, Sample.bar 3]
  · cases hm

/-- A store with the middle of the tape agrees with it. -/
theorem agrees_middle :
    Sample.tape.Agrees (World.start (Sample.cacheOf [4, 5, 6]) .fresh Sample.registry) := by
  refine ⟨⟨1, .oneDay, Sample.midnight 4, Sample.midnight 6⟩, rfl, ?_, ?_⟩
  · show [Sample.bar 4, Sample.bar 5, Sample.bar 6].Pairwise (·.time ≤ ·.time)
    decide
  · exact List.Perm.refl ([Sample.bar 4, Sample.bar 5, Sample.bar 6].map Bar.raw)

theorem grouped_middle : Grouped Sample.tape.frequency
    ((Sample.cacheOf [4, 5, 6]).store.get Sample.tape.key) :=
  ⟨by decide, by decide, by decide, fun _ => by decide⟩

end Tape

end BarArchive
