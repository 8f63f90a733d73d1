/-
What adding bars does to a store.

Adding overwrites groups: at every instant for which a batch has bars, the batch has the
say, and elsewhere everything stays. A batch with a corporate action also has the
adjusted prices of the whole series computed anew. Bars that differ in nothing but their
adjusted prices have the same raw bar, and up to raw bars the second pass is not there.

The broker adds to the store in one way only, which `Broker.cacheAfter` names. So the
series that a key has after a step, in terms of the one before, is the last result here.
-/
import BarArchive.Proofs.Groups
import BarArchive.Proofs.Steps

namespace BarArchive

/-! ### Raw bars -/

/-- The bar without its adjusted prices. -/
def Bar.raw (b : Bar) : Bar := { b with adjusted := .all none }

@[simp] theorem Bar.time_raw (b : Bar) : b.raw.time = b.time := rfl

/-- A bar with the label of the series under a key, and without a corporate action. -/
structure Bar.Plain (k : SeriesKey) (b : Bar) : Prop where
  instrument : b.instrument = k.instrument
  frequency : b.frequency = k.frequency
  actionless : b.hasAction = false

theorem Bar.filter_raw (bars : List Bar) (t : Instant) :
    (bars.map Bar.raw).filter (·.time = t) = (bars.filter (·.time = t)).map Bar.raw := by
  rw [List.filter_map]
  rfl

/-- A request asks for bars of the frequency that its key has. -/
theorem Request.frequency_of_key {r : Request} {k : SeriesKey} (hkey : r.key? = some k) :
    r.frequency = k.frequency := by
  obtain ⟨id, -, rfl⟩ := Option.map_eq_some_iff.mp hkey
  rfl

namespace Adjustment

theorem raw_of_scaled? {factor : Decimal} {b scaled : Bar} (h : scaled? factor b = some scaled) :
    scaled.raw = b.raw := by
  unfold scaled? at h
  obtain ⟨adjusted, -, rfl⟩ := Option.map_eq_some_iff.mp h
  rfl

theorem raw_of_backward? {bars : List Bar} : ∀ {previous : Option Bar} {adjusted : List Bar}
    {factor : Decimal}, backward? previous bars = some (adjusted, factor) →
      adjusted.map Bar.raw = bars.map Bar.raw := by
  induction bars with
  | nil =>
      intro previous adjusted factor h
      cases h
      rfl
  | cons b bars ih =>
      intro previous adjusted factor h
      simp only [backward?, Option.bind_eq_bind, Option.bind_eq_some_iff, Option.pure_def] at h
      obtain ⟨⟨later, carried⟩, hlater, scaled, hscaled, h⟩ := h
      have hcons : adjusted = scaled :: later := by
        cases previous with
        | none =>
            simp only [Option.bind_some, Option.some.injEq, Prod.mk.injEq] at h
            exact h.1.symm
        | some p =>
            simp only [Option.bind_eq_some_iff, Option.some.injEq, Prod.mk.injEq] at h
            obtain ⟨before, -, h, -⟩ := h
            exact h.symm
      rw [hcons, List.map_cons, List.map_cons, ih hlater, raw_of_scaled? hscaled]

/-- Adjusting a series changes adjusted prices and nothing else. -/
theorem raw_of_adjust? {bars adjusted : List Bar} (h : adjust? bars = some adjusted) :
    adjusted.map Bar.raw = bars.map Bar.raw := by
  unfold adjust? at h
  obtain ⟨result, hresult, rfl⟩ := Option.map_eq_some_iff.mp h
  exact raw_of_backward? hresult

end Adjustment

namespace Series

variable {f : Frequency} {s : Series}

/-! ### Changing bars but not their times -/

/-- The bars that end up at an instant are selected by their times alone. -/
theorem slot_map {g : Bar → Bar} (hg : ∀ b, (g b).time = b.time) (bars : List Bar) (t : Instant) :
    slot f (bars.map g) t = (slot f bars t).map g := by
  have hfilter : (bars.map g).filter (·.time = t) = (bars.filter (·.time = t)).map g := by
    rw [List.filter_map]
    congr 1
    refine List.filter_congr fun b _ => ?_
    simp [hg]
  unfold slot
  rw [hfilter]
  by_cases hf : f = .tick
  · rw [if_pos hf, if_pos hf]
  · rw [if_neg hf, if_neg hf, List.getLast?_map]
    cases (bars.filter (·.time = t)).getLast? <;> rfl

/-- Changing the bars of a series, but not their times, changes the bars of every group. -/
theorem Grouped.map_spec {g : Bar → Bar} (h : Grouped f s) (hg : ∀ b, (g b).time = b.time) :
    Grouped f (s.map fun e => (e.1, e.2.map g)) ∧
      ∀ t, groupAt (s.map fun e => (e.1, e.2.map g)) t = (groupAt s t).map g := by
  constructor
  · constructor
    · exact List.pairwise_map.mpr h.sorted
    · intro e he
      obtain ⟨d, hd, rfl⟩ := List.mem_map.mp he
      simpa using h.nonempty d hd
    · intro e he b hb
      obtain ⟨d, hd, rfl⟩ := List.mem_map.mp he
      obtain ⟨c, hc, rfl⟩ := List.mem_map.mp hb
      exact (hg c).trans (h.timed d hd c hc)
    · intro hf e he
      obtain ⟨d, hd, rfl⟩ := List.mem_map.mp he
      simpa using h.single hf d hd
  · intro t
    clear h
    induction s with
    | nil => rfl
    | cons e s ih =>
        obtain ⟨u, k⟩ := e
        rw [List.map_cons, groupAt_cons, groupAt_cons, ih]
        by_cases hu : u = t
        · rw [if_pos hu, if_pos hu]
        · rw [if_neg hu, if_neg hu]

end Series

namespace Store

open Series

/-! ### Series under a key -/

theorem get_insert (table : Table SeriesKey Series) (k k' : SeriesKey) (series : Series) :
    Store.get ⟨table.insert k series⟩ k' = if k = k' then series else Store.get ⟨table⟩ k' := by
  show ((table.insert k series).find? k').getD [] = _
  rw [Table.find?_insert]
  by_cases hk : k = k'
  · rw [if_pos hk, if_pos hk]
    rfl
  · rw [if_neg hk, if_neg hk]
    rfl

theorem coverage_eq_none {s : Store} {k : SeriesKey} : s.coverage k = none ↔ s.get k = [] := by
  unfold coverage
  rw [Option.map_eq_none_iff]
  exact bounds?_eq_none

/-- The coverage of a series are the first and the last instant that have a group. -/
theorem coverage_spec {s : Store} {k : SeriesKey} {c : Coverage} {f : Frequency}
    (h : Grouped f (s.get k)) (hc : s.coverage k = some c) :
    groupAt (s.get k) c.earliest ≠ [] ∧ groupAt (s.get k) c.latest ≠ [] ∧
      ∀ t, groupAt (s.get k) t ≠ [] → c.earliest ≤ t ∧ t ≤ c.latest := by
  unfold coverage at hc
  obtain ⟨⟨first, last⟩, hbounds, rfl⟩ := Option.map_eq_some_iff.mp hc
  exact h.bounds?_spec hbounds

/-- A series that grows has its ends further out. -/
theorem coverage_grows {s s' : Store} {k : SeriesKey} {c c' : Coverage} {f : Frequency}
    (h : Grouped f (s.get k)) (h' : Grouped f (s'.get k))
    (hgrow : ∀ t, groupAt (s.get k) t ≠ [] → groupAt (s'.get k) t ≠ [])
    (hc : s.coverage k = some c) (hc' : s'.coverage k = some c') :
    c'.earliest ≤ c.earliest ∧ c.latest ≤ c'.latest := by
  obtain ⟨hearliest, hlatest, -⟩ := coverage_spec h hc
  obtain ⟨-, -, hbounds⟩ := coverage_spec h' hc'
  exact ⟨(hbounds _ (hgrow _ hearliest)).1, (hbounds _ (hgrow _ hlatest)).2⟩

/-! ### Writing a batch -/

/-- A batch as it is filed under a key. -/
def filed (k : SeriesKey) (bars : List Bar) : Series :=
  (group k.frequency bars).map fun e => (e.1, e.2.map (relabel k))

theorem filed_spec (k : SeriesKey) (bars : List Bar) : Grouped k.frequency (filed k bars) ∧
    ∀ t, groupAt (filed k bars) t = (slot k.frequency bars t).map (relabel k) := by
  obtain ⟨hgrouped, hgroups⟩ :=
    (grouped_group k.frequency bars).map_spec (g := relabel k) fun _ => rfl
  exact ⟨hgrouped, fun t => (hgroups t).trans (by rw [groupAt_group])⟩

/-- Writing a batch that overwrites lays its groups over the series. -/
theorem write_eq_overlay (k : SeriesKey) (s : Series) (bars : List Bar) :
    (write k true s bars).1 = overlay s (filed k bars) := by
  unfold write overlay filed
  rw [List.foldl_map]
  generalize group k.frequency bars = groups
  generalize 0 = n
  induction groups generalizing s n with
  | nil => rfl
  | cons e groups ih =>
      rw [List.foldl_cons, List.foldl_cons]
      exact ih _ _

/-- After a batch was written, it has the say wherever it has bars. -/
theorem write_spec {k : SeriesKey} {s : Series} (h : Grouped k.frequency s) (bars : List Bar) :
    Grouped k.frequency (write k true s bars).1 ∧
      ∀ t, groupAt (write k true s bars).1 t =
        if slot k.frequency bars t = [] then groupAt s t
        else (slot k.frequency bars t).map (relabel k) := by
  obtain ⟨hgrouped, hgroups⟩ := filed_spec k bars
  obtain ⟨hover, hgroupsOver⟩ := h.overlay_spec hgrouped
  rw [write_eq_overlay]
  refine ⟨hover, fun t => ?_⟩
  rw [hgroupsOver, hgroups]
  by_cases hnil : slot k.frequency bars t = []
  · rw [if_pos hnil, if_pos (by simpa using hnil)]
  · rw [if_neg hnil, if_neg (by simpa using hnil)]

/-- Computing the adjusted prices anew keeps all raw bars where they are. -/
theorem readjust_spec {f : Frequency} {s adjusted : Series} (h : Grouped f s)
    (hadjusted : readjust? f s = some adjusted) :
    Grouped f adjusted ∧ ∀ t, (groupAt adjusted t).map Bar.raw = (groupAt s t).map Bar.raw := by
  unfold readjust? at hadjusted
  obtain ⟨bars, hbars, rfl⟩ := Option.map_eq_some_iff.mp hadjusted
  refine ⟨grouped_group f bars, fun t => ?_⟩
  have hraw : ∀ l : List Bar, (slot f l t).map Bar.raw = slot f (l.map Bar.raw) t :=
    fun l => (slot_map Bar.time_raw l t).symm
  rw [groupAt_group, hraw, Adjustment.raw_of_adjust? hbars, ← hraw, ← groupAt_group, h.group_bars]

/-! ### Adding a batch -/

/-- `after` is `before` with a batch written over it, up to raw bars. -/
structure Written (k : SeriesKey) (bars : List Bar) (before after : Series) : Prop where
  grouped : Grouped k.frequency after
  groups : ∀ t, (groupAt after t).map Bar.raw =
    if slot k.frequency bars t = [] then (groupAt before t).map Bar.raw
    else ((slot k.frequency bars t).map (relabel k)).map Bar.raw

/-- A group is there after a batch was written if it was there before or the batch has it. -/
theorem Written.groupAt_ne_nil {k : SeriesKey} {bars : List Bar} {before after : Series}
    (h : Written k bars before after) (t : Instant) :
    groupAt after t ≠ [] ↔ groupAt before t ≠ [] ∨ slot k.frequency bars t ≠ [] := by
  have hgroups := congrArg (· = []) (h.groups t)
  simp only [List.map_eq_nil_iff, eq_iff_iff] at hgroups
  rw [ne_eq, hgroups]
  by_cases hnil : slot k.frequency bars t = []
  · simp [hnil]
  · simp [hnil]

/-- Adding a batch files one series: the batch written over the old one. -/
theorem add_spec {s : Store} {i : Instrument} {f : Frequency} {id : InstrumentId}
    (hid : i.id = some id) (h : Grouped f (s.get ⟨id, f⟩)) (bars : List Bar) (adjust : Bool) :
    ∃ series, (s.add bars i f true adjust).1 = ⟨s.series.insert ⟨id, f⟩ series⟩ ∧
      Written ⟨id, f⟩ bars (s.get ⟨id, f⟩) series := by
  obtain ⟨hgrouped, hgroups⟩ := write_spec (k := ⟨id, f⟩) h bars
  have hwritten : Written ⟨id, f⟩ bars (s.get ⟨id, f⟩) (write ⟨id, f⟩ true (s.get ⟨id, f⟩) bars).1 := by
    refine ⟨hgrouped, fun t => ?_⟩
    rw [hgroups]
    split <;> rfl
  have hok : instrumentId i = .ok id := by
    unfold instrumentId
    rw [hid]
  unfold add
  rw [hok]
  simp only
  cases adjust with
  | false => exact ⟨_, rfl, hwritten⟩
  | true =>
      simp only [if_true]
      cases hadjusted : readjust? f (write ⟨id, f⟩ true (s.get ⟨id, f⟩) bars).1 with
      | none => exact ⟨_, rfl, hwritten⟩
      | some adjusted =>
          obtain ⟨hgrouped', hgroups'⟩ := readjust_spec hgrouped hadjusted
          exact ⟨adjusted, rfl, hgrouped', fun t => (hgroups' t).trans (hwritten.groups t)⟩

/-- Adding a batch leaves the series of all other keys alone. -/
theorem get_add_other {s : Store} {i : Instrument} {f : Frequency} {k : SeriesKey}
    (hk : i.id.map (fun id => (⟨id, f⟩ : SeriesKey)) ≠ some k) (bars : List Bar)
    (overwrite adjust : Bool) : (s.add bars i f overwrite adjust).1.get k = s.get k := by
  unfold add instrumentId
  cases hid : i.id with
  | none => rfl
  | some id =>
      have hne : (⟨id, f⟩ : SeriesKey) ≠ k := fun heq => hk (by rw [hid, ← heq]; rfl)
      have hother : ∀ series, Store.get ⟨s.series.insert ⟨id, f⟩ series⟩ k = s.get k :=
        fun series => by rw [get_insert, if_neg hne]
      simp only
      cases adjust with
      | false => exact hother _
      | true =>
          simp only [if_true]
          split
          · exact hother _
          · exact hother _

/-- Bars that have the label of the series are filed as they are. -/
theorem filed_plain {k : SeriesKey} {bars : List Bar} (hplain : ∀ b ∈ bars, b.Plain k) :
    filed k bars = group k.frequency bars := by
  have hlabel : ∀ e ∈ group k.frequency bars, (e.1, e.2.map (relabel k)) = e := by
    intro e he
    refine Prod.ext rfl ((List.map_congr_left fun b hb => ?_).trans (List.map_id _))
    have hmem : b ∈ slot k.frequency bars e.1 := by
      rw [← groupAt_group, (grouped_group k.frequency bars).groupAt_of_mem he]
      exact hb
    obtain ⟨hinstrument, hfrequency, -⟩ := hplain b (mem_slot hmem).1
    unfold relabel
    rw [← hinstrument, ← hfrequency]
    rfl
  exact (List.map_congr_left hlabel).trans (List.map_id _)

/-- Bars that have the label of the series are laid over it as they are. -/
theorem write_plain {k : SeriesKey} {bars : List Bar} (hplain : ∀ b ∈ bars, b.Plain k)
    (s : Series) : (write k true s bars).1 = lay k.frequency s bars := by
  rw [write_eq_overlay, filed_plain hplain]
  rfl

/-- Without corporate actions a batch is written as it is. -/
theorem add_plain {s : Store} {i : Instrument} {f : Frequency} {id : InstrumentId}
    (hid : i.id = some id) (bars : List Bar) :
    s.add bars i f true false
      = (⟨s.series.insert ⟨id, f⟩ (write ⟨id, f⟩ true (s.get ⟨id, f⟩) bars).1⟩,
        .ok (write ⟨id, f⟩ true (s.get ⟨id, f⟩) bars).2) := by
  unfold add instrumentId
  rw [hid]
  rfl

/-! ### The shape of a store -/

/-- A store all of whose series have their shape. -/
def InShape (s : Store) : Prop := ∀ k, Grouped k.frequency (s.get k)

theorem inShape_empty : InShape {} := fun k => grouped_nil k.frequency

theorem InShape.insert {s : Store} {k : SeriesKey} {series : Series} (h : s.InShape)
    (hseries : Grouped k.frequency series) : InShape ⟨s.series.insert k series⟩ := by
  intro k'
  rw [get_insert]
  by_cases hk : k = k'
  · rw [if_pos hk]
    exact hk ▸ hseries
  · rw [if_neg hk]
    exact h k'

/-- Writing keeps the shape of a series, whether or not it overwrites. -/
theorem grouped_write {k : SeriesKey} {s : Series} (overwrite : Bool) (bars : List Bar)
    (h : Grouped k.frequency s) : Grouped k.frequency (write k overwrite s bars).1 := by
  have hgroups := grouped_group k.frequency bars
  unfold write
  generalize group k.frequency bars = groups at hgroups
  generalize 0 = n
  induction groups generalizing s n with
  | nil => exact h
  | cons e groups ih =>
      rw [List.foldl_cons]
      unfold writeGroup
      simp only
      by_cases hput : (overwrite || (s.find? e.1).isNone) = true
      · rw [if_pos hput]
        refine ih (h.put ?_ ?_ ?_) hgroups.tail _
        · simpa using hgroups.nonempty e List.mem_cons_self
        · intro b hb
          obtain ⟨c, hc, rfl⟩ := List.mem_map.mp hb
          exact hgroups.timed e List.mem_cons_self c hc
        · intro hf
          simpa using hgroups.single hf e List.mem_cons_self
      · rw [if_neg hput]
        exact ih h hgroups.tail _

/-- Whatever is added to a store, it keeps its shape. -/
theorem InShape.add {s : Store} (h : s.InShape) (bars : List Bar) (i : Instrument) (f : Frequency)
    (overwrite adjust : Bool) : (s.add bars i f overwrite adjust).1.InShape := by
  unfold Store.add instrumentId
  cases i.id with
  | none => exact h
  | some id =>
      have hwritten := grouped_write overwrite bars (h ⟨id, f⟩)
      simp only
      cases adjust with
      | false => exact h.insert hwritten
      | true =>
          simp only [if_true]
          split
          · rename_i adjusted hadjusted
            exact h.insert (k := ⟨id, f⟩) (readjust_spec hwritten hadjusted).1
          · exact h.insert hwritten

end Store

namespace Broker

/-! ### What the broker reads and keeps -/

/-- A request that can be routed is answered from the store with the stored bars of its range. -/
theorem stored_eq {b : Broker} {r : Request} {k : SeriesKey} (hkey : r.key? = some k)
    (hrange : r.start ≤ r.stop) : b.stored r = match b.cache.refusals.query with
      | some reason => .error (.store (.read reason))
      | none => .ok (Series.within r.start r.stop (b.cache.store.get k)).bars := by
  obtain ⟨id, hid, rfl⟩ := Option.map_eq_some_iff.mp hkey
  unfold stored Cache.query
  cases b.cache.refusals.query with
  | some reason => rfl
  | none =>
      have hstop : ¬ r.stop < r.start := Int.not_lt.mpr hrange
      simp [Store.query, Store.instrumentId, hid, hstop, bind, Except.bind, pure, Except.pure]

theorem stored_eq_ok {b : Broker} {r : Request} {k : SeriesKey} {bars : List Bar}
    (hkey : r.key? = some k) (hrange : r.start ≤ r.stop) (h : b.stored r = .ok bars) :
    bars = (Series.within r.start r.stop (b.cache.store.get k)).bars := by
  rw [stored_eq hkey hrange] at h
  cases hquery : b.cache.refusals.query with
  | some reason =>
      rw [hquery] at h
      cases h
  | none =>
      rw [hquery] at h
      exact (Except.ok.inj h).symm

/-- A request that nothing was stashed for is answered with what is stored. -/
theorem stored_unstashed (b : Broker) (r : Request) {stash : List Bar} (h : stash = []) :
    ((b.stored r).map fun stored => if stash.isEmpty then stored else merge stored stash r)
      = b.stored r := by
  rw [h]
  cases b.stored r <;> rfl

/-- Merging fresh bars into the stored ones of a range is laying them over the stored series. -/
theorem merge_within {s : Series} {r : Request} (h : Series.Grouped r.frequency s)
    (fresh : List Bar) : merge (Series.within r.start r.stop s).bars fresh r
      = (Series.within r.start r.stop (Series.lay r.frequency s fresh)).bars := by
  unfold merge
  rw [(h.within r.start r.stop).group_bars, ← h.lay_within]
  rfl

/-- The bars are written to the store: there are some, they are to be saved, and the store takes them. -/
def Writes (b : Broker) (r : Request) (bars : List Bar) : Prop :=
  r.save = true ∧ bars ≠ [] ∧ b.cache.refusals.add = none

theorem cacheAfter_of_writes {b : Broker} {r : Request} {bars : List Bar} (h : b.Writes r bars) :
    b.cacheAfter r bars = { b.cache with
      store := (b.cache.store.add bars r.instrument r.frequency true (bars.any Bar.hasAction)).1 } := by
  obtain ⟨hsave, hbars, hrefusal⟩ := h
  unfold cacheAfter keep
  rw [if_pos hsave, if_neg (by simpa using hbars)]
  unfold Cache.add
  rw [hrefusal]

theorem cacheAfter_of_not_writes {b : Broker} {r : Request} {bars : List Bar}
    (h : ¬ b.Writes r bars) : b.cacheAfter r bars = b.cache := by
  unfold cacheAfter keep
  by_cases hsave : r.save = true
  · rw [if_pos hsave]
    by_cases hbars : bars = []
    · rw [hbars]
      rfl
    · rw [if_neg (by simpa using hbars)]
      cases hrefusal : b.cache.refusals.add with
      | none => exact absurd ⟨hsave, hbars, hrefusal⟩ h
      | some reason =>
          unfold Cache.add
          rw [hrefusal]
  · rw [if_neg hsave]

theorem refusals_cacheAfter (b : Broker) (r : Request) (bars : List Bar) :
    (b.cacheAfter r bars).refusals = b.cache.refusals := by
  by_cases hwrites : b.Writes r bars
  · rw [cacheAfter_of_writes hwrites]
  · rw [cacheAfter_of_not_writes hwrites]

/-- Bars from elsewhere leave the refusals in force. -/
theorem refusals_addData (b : Broker) (a : Addition) :
    (b.addData a).1.cache.refusals = b.cache.refusals := by
  have hadd : (b.cache.add a.bars a.instrument a.frequency a.overwrite).1.refusals =
      b.cache.refusals := by
    unfold Cache.add
    split <;> rfl
  unfold addData
  split
  · rfl
  · split
    · rfl
    · simp only
      split <;> exact hadd

/-- Bars that are delivered are written over the series of their request. -/
theorem get_cacheAfter {b : Broker} {r : Request} {bars : List Bar} {k : SeriesKey}
    (hkey : r.key? = some k) (h : Series.Grouped k.frequency (b.cache.store.get k))
    (hwrites : b.Writes r bars) :
    Store.Written k bars (b.cache.store.get k) ((b.cacheAfter r bars).store.get k) := by
  obtain ⟨id, hid, rfl⟩ := Option.map_eq_some_iff.mp hkey
  obtain ⟨series, hadd, hwritten⟩ :=
    Store.add_spec hid h bars (bars.any Bar.hasAction)
  rw [cacheAfter_of_writes hwrites]
  simp only
  rw [hadd, Store.get_insert, if_pos rfl]
  exact hwritten

/-- Plain bars that the store does not refuse are laid over the stored series. -/
theorem keep_plain {b : Broker} {r : Request} {k : SeriesKey} {bars : List Bar}
    (hkey : r.key? = some k) (hadd : b.cache.refusals.add = none)
    (hplain : ∀ c ∈ bars, c.Plain k) : ∃ n store,
      b.keep r bars = ({ b with cache := { b.cache with store } }, .ok n) ∧
        store.get k = Series.lay k.frequency (b.cache.store.get k) bars := by
  obtain ⟨id, hid, rfl⟩ := Option.map_eq_some_iff.mp hkey
  by_cases hbars : bars = []
  · subst hbars
    exact ⟨0, b.cache.store, rfl, rfl⟩
  · have haction : bars.any Bar.hasAction = false :=
      List.any_eq_false.mpr fun c hc => by simp [(hplain c hc).actionless]
    unfold keep Cache.add
    rw [if_neg (by simpa using hbars), hadd, haction]
    simp only [Store.add_plain hid]
    refine ⟨_, _, rfl, ?_⟩
    rw [Store.get_insert, if_pos rfl, Store.write_plain hplain]

theorem get_cacheAfter_other {b : Broker} {r : Request} {k : SeriesKey} (hkey : r.key? ≠ some k)
    (bars : List Bar) : (b.cacheAfter r bars).store.get k = b.cache.store.get k := by
  by_cases hwrites : b.Writes r bars
  · rw [cacheAfter_of_writes hwrites]
    exact Store.get_add_other hkey bars _ _
  · rw [cacheAfter_of_not_writes hwrites]

theorem inShape_cacheAfter {b : Broker} (h : b.cache.store.InShape) (r : Request)
    (bars : List Bar) : (b.cacheAfter r bars).store.InShape := by
  by_cases hwrites : b.Writes r bars
  · rw [cacheAfter_of_writes hwrites]
    exact h.add bars _ _ _ _
  · rw [cacheAfter_of_not_writes hwrites]
    exact h

theorem inShape_addData {b : Broker} (h : b.cache.store.InShape) (a : Addition) :
    (b.addData a).1.cache.store.InShape := by
  have hadd : (b.cache.add a.bars a.instrument a.frequency a.overwrite).1.store.InShape := by
    unfold Cache.add
    split
    · exact h
    · exact h.add a.bars _ _ _ _
  unfold addData
  split
  · exact h
  · split
    · exact h
    · simp only
      split <;> exact hadd

end Broker

end BarArchive
