/-
A source with a fixed series, and what a store makes of it.

A tape is the series that a source has for one instrument and frequency. The runs
here are those in which every fetch of that series is answered with the bars that the
tape has in the range of the fetch, in any order, or with an error; fetches of other
series are answered in any way. The stored series then mirrors the tape at all times: at
every instant it has the bars of the tape, up to their adjusted prices, or none at all.

What it does not say is for which instants it has them. The only moves that change this
are fetches that are stored, and such a move adds the instants of its own range.
-/
import BarArchive.Proofs.Order
import BarArchive.Proofs.Storing

namespace BarArchive

open Series

/-! ### What a move does to a stored series -/

namespace World

/-- The stored series of a key. -/
def series (w : World) (k : SeriesKey) : Series := w.broker.cache.store.get k

/-- The bars that answer a fetch are written to the series of the key. -/
def Stores (w : World) (k : SeriesKey) (r : Request) (bars : List Bar) : Prop :=
  r.key? = some k ∧ w.broker.Writes r bars ∧
    ∃ p, r.owner? = some p ∧ w.broker.inflight.contains p = true

theorem cache_of_submit {b b' : Broker} {now : Instant} {r : Request} {a : Accepted}
    (h : b.submit now r = .ok (a, b')) : b'.cache = b.cache := by
  cases Broker.submit_cases h with
  | stored => rfl
  | external => rfl
  | split => rfl

/-- A fetch that is left to do has a number and an accepted request that it is for. -/
theorem Orderly.fetch_owned {w : World} {r : Request} (h : w.Orderly)
    (hmem : .fetch r ∈ w.pending) : r.assignedId.isSome ∧ ∃ e ∈ w.accepted,
      r.owner? = some e.2.assignedId ∧ (w.broker.inflight.contains e.2.assignedId = true →
        w.broker.inflight.aborted.find? e.2.assignedId = none) := by
  obtain ⟨e, he, howner⟩ := h.owned _ hmem
  have hjob : .fetch r ∈ w.jobs e.2.assignedId := mem_jobs hmem howner
  have hlife := h.life e he
  generalize hv : w.view e.2.assignedId = v at hlife
  have hjobs : w.jobs e.2.assignedId = v.jobs := congrArg View.jobs hv
  have haborted : w.broker.inflight.aborted.find? e.2.assignedId = v.entry.aborted :=
    congrArg (·.entry.aborted) hv
  have hcontains : w.broker.inflight.contains e.2.assignedId = v.entry.waiting.isSome := by
    rw [contains_eq, hv]
  rw [hjobs] at hjob
  suffices hfacts : r.assignedId.isSome ∧ (v.entry.waiting.isSome = true → v.entry.aborted = none) by
    refine ⟨hfacts.1, e, he, howner, ?_⟩
    rw [haborted, hcontains]
    exact hfacts.2
  cases hlife with
  | serving => simp at hjob
  | fetching work whole numbered =>
      obtain rfl : r = e.1 := by simpa using hjob
      exact ⟨by simp [numbered], fun _ => rfl⟩
  | filling parts => exact ⟨parts.numbered r (by simpa using hjob), fun _ => rfl⟩
  | failed parts => exact ⟨parts.numbered r (by simpa using hjob), fun hw => by cases hw⟩
  | closed => simp at hjob
  | stranded => simp at hjob

/-- What a move makes of the store and its refusals; bars from elsewhere are not looked at. -/
inductive CacheStep (w : World) : Move → Cache → Prop
  | written {r bars p} (owner : r.owner? = some p)
      (waits : w.broker.inflight.contains p = true) :
      CacheStep w (.fetched r (.ok bars)) (w.broker.cacheAfter r bars)
  | late {r bars p} (owner : r.owner? = some p)
      (waits : w.broker.inflight.contains p = false) :
      CacheStep w (.fetched r (.ok bars)) w.broker.cache
  | failed {r e} : CacheStep w (.fetched r (.error e)) w.broker.cache
  | submitted {now r} : CacheStep w (.submit now r) w.broker.cache
  | served {id} : CacheStep w (.served id) w.broker.cache
  | refused {refusals} : CacheStep w (.refused refusals) { w.broker.cache with refusals }
  | connected {slot up} : CacheStep w (.connected slot up) w.broker.cache

theorem cache_step {w w' : World} {m : Move} (horder : w.Orderly) (hstep : w.step? m = some w')
    (hadded : ∀ a, m ≠ .added a) : CacheStep w m w'.broker.cache := by
  cases makes_of_step hstep with
  | accepted hsubmit =>
      show CacheStep w _ (World.enroll ..).broker.cache
      exact (cache_of_submit hsubmit).symm ▸ .submitted
  | declined => exact .submitted
  | @fetched r result hmem =>
      obtain ⟨hid, e, -, howner, haborted⟩ := horder.fetch_owned hmem
      rw [broker_after]
      cases result with
      | error reason =>
          rw [Broker.cache_deliver_error]
          exact .failed
      | ok bars =>
          rw [Broker.cache_deliver_ok hid howner haborted]
          cases hwaits : w.broker.inflight.contains e.2.assignedId with
          | true => exact .written howner hwaits
          | false => exact .late howner hwaits
  | served =>
      rw [broker_after, (Broker.quiet_serve _ _).cache]
      exact .served
  | added => exact absurd rfl (hadded _)
  | refused => exact .refused
  | connected => exact .connected

/-- A move writes the bars of a fetch over a stored series, or leaves the series alone. -/
theorem series_step {w w' : World} {m : Move} {k : SeriesKey} (horder : w.Orderly)
    (hgrouped : Grouped k.frequency (w.series k)) (hstep : w.step? m = some w')
    (hadded : ∀ a, m ≠ .added a) :
    (∃ r bars, m = .fetched r (.ok bars) ∧ w.Stores k r bars ∧
        Store.Written k bars (w.series k) (w'.series k)) ∨
      ((∀ r bars, m = .fetched r (.ok bars) → ¬ w.Stores k r bars) ∧
        w'.series k = w.series k) := by
  have hcache := cache_step horder hstep hadded
  unfold series
  generalize w'.broker.cache = cache at hcache
  cases hcache with
  | @written r bars p owner waits =>
      by_cases hkey : r.key? = some k
      · by_cases hwrites : w.broker.Writes r bars
        · exact Or.inl ⟨r, bars, rfl, ⟨hkey, hwrites, p, owner, waits⟩,
            Broker.get_cacheAfter hkey hgrouped hwrites⟩
        · refine Or.inr ⟨fun r' bars' heq hstores => ?_, ?_⟩
          · cases heq
            exact hwrites hstores.2.1
          · rw [Broker.cacheAfter_of_not_writes hwrites]
      · refine Or.inr ⟨fun r' bars' heq hstores => ?_, Broker.get_cacheAfter_other hkey bars⟩
        cases heq
        exact hkey hstores.1
  | @late r bars p owner waits =>
      refine Or.inr ⟨fun r' bars' heq hstores => ?_, rfl⟩
      cases heq
      obtain ⟨-, -, q, hq, hwaits⟩ := hstores
      obtain rfl : p = q := Option.some.inj (owner.symm.trans hq)
      rw [waits] at hwaits
      cases hwaits
  | failed => exact Or.inr ⟨fun r bars heq => (by cases heq), rfl⟩
  | submitted => exact Or.inr ⟨fun r bars heq => (by cases heq), rfl⟩
  | served => exact Or.inr ⟨fun r bars heq => (by cases heq), rfl⟩
  | refused => exact Or.inr ⟨fun r bars heq => (by cases heq), rfl⟩
  | connected => exact Or.inr ⟨fun r bars heq => (by cases heq), rfl⟩

/-- The store that a step leaves can be read if it could be before and nobody takes that away. -/
theorem readable_step {w w' : World} {m : Move} (horder : w.Orderly)
    (hstep : w.step? m = some w') (hrefused : ∀ x, m = .refused x → x.query = none)
    (hreads : w.broker.cache.refusals.query = none) :
    w'.broker.cache.refusals.query = none := by
  by_cases hadded : ∃ a, m = .added a
  · obtain ⟨a, rfl⟩ := hadded
    cases hstep
    exact (congrArg Refusals.query (Broker.refusals_addData w.broker a)).trans hreads
  · have hcache := cache_step horder hstep fun a ha => hadded ⟨a, ha⟩
    generalize w'.broker.cache = cache at hcache
    cases hcache with
    | written =>
        exact (congrArg Refusals.query (Broker.refusals_cacheAfter w.broker _ _)).trans hreads
    | late => exact hreads
    | failed => exact hreads
    | submitted => exact hreads
    | served => exact hreads
    | refused => exact hrefused _ rfl
    | connected => exact hreads

/-- Whatever happens, the store keeps its shape. -/
theorem inShape_step {w w' : World} {m : Move} (horder : w.Orderly) (hstep : w.step? m = some w')
    (h : w.broker.cache.store.InShape) : w'.broker.cache.store.InShape := by
  by_cases hadded : ∃ a, m = .added a
  · obtain ⟨a, rfl⟩ := hadded
    cases hstep
    exact Broker.inShape_addData h a
  · have hcache := cache_step horder hstep fun a ha => hadded ⟨a, ha⟩
    generalize w'.broker.cache = cache at hcache
    cases hcache with
    | written => exact Broker.inShape_cacheAfter h _ _
    | late => exact h
    | failed => exact h
    | submitted => exact h
    | served => exact h
    | refused => exact h
    | connected => exact h

/-- In every reachable world the store has its shape. -/
theorem inShape_of_run {cache : Cache} {ids : Allocator} {registry : Registry}
    {moves : List Move} {w : World} (hrun : (start cache ids registry).run? moves = some w)
    (hids : w.issued.Nodup) (h : cache.store.InShape) : w.broker.cache.store.InShape := by
  refine (run?_induction_of_nodup (P := fun v => v.Orderly ∧ v.broker.cache.store.InShape) ?_
    ⟨orderly_start cache ids registry, h⟩ hrun hids).2
  rintro v m v' - ⟨horder, hshape⟩ hstep hids'
  exact ⟨horder.step hstep hids', inShape_step horder hstep hshape⟩

end World

/-! ### Tapes -/

/-- Bars that agree at every instant agree. -/
theorem perm_of_times {bars bars' : List Bar}
    (h : ∀ t, (bars.filter (·.time = t)).Perm (bars'.filter (·.time = t))) : bars.Perm bars' := by
  refine List.perm_iff_count.mpr fun b => ?_
  have hcount : ∀ l : List Bar, (l.filter (·.time = b.time)).count b = l.count b :=
    fun l => List.count_filter (by simp)
  rw [← hcount bars, ← hcount bars']
  exact (h b.time).count_eq b

/-- All bars of one instrument and frequency that a source has. -/
structure Tape where
  instrument : Instrument
  id : InstrumentId
  frequency : Frequency
  bars : List Bar
  id_eq : instrument.id = some id
  labelled : ∀ b ∈ bars, b.instrument = id ∧ b.frequency = frequency
  distinct : frequency ≠ .tick → bars.Pairwise (·.time ≠ ·.time)

namespace Tape

variable {T : Tape}

/-- The key that the bars are stored under. -/
def key (T : Tape) : SeriesKey := ⟨T.id, T.frequency⟩

/-- The bars of a range, both ends included. -/
def within (T : Tape) (start stop : Instant) : List Bar :=
  T.bars.filter fun b => start ≤ b.time && b.time ≤ stop

/-- The bars of one instant. -/
def barsAt (T : Tape) (t : Instant) : List Bar := T.bars.filter (·.time = t)

/-- What may happen in a run in which the tape answers the fetches of its series. -/
def Allows (T : Tape) : Move → Prop
  | .fetched r (.ok bars) => r.key? = some T.key → bars.Perm (T.within r.start r.stop)
  | .added _ => False
  | _ => True

theorem Allows.not_added {m : Move} (h : T.Allows m) : ∀ a, m ≠ .added a := by
  rintro a rfl
  exact h

/-- A series that has the bars of the tape, up to adjusted prices, wherever it has bars. -/
structure Mirrors (T : Tape) (s : Series) : Prop where
  grouped : Grouped T.frequency s
  faithful : ∀ t, groupAt s t ≠ [] → ((groupAt s t).map Bar.raw).Perm ((T.barsAt t).map Bar.raw)

/-- The bars of the tape in a range, ascending, and up to adjusted prices. -/
structure Fills (T : Tape) (start stop : Instant) (bars : List Bar) : Prop where
  ascending : bars.Pairwise (·.time ≤ ·.time)
  complete : (bars.map Bar.raw).Perm ((T.within start stop).map Bar.raw)

theorem mem_within {start stop : Instant} {b : Bar} :
    b ∈ T.within start stop ↔ b ∈ T.bars ∧ start ≤ b.time ∧ b.time ≤ stop := by
  unfold within
  rw [List.mem_filter]
  simp

theorem barsAt_ne_nil {b : Bar} (hb : b ∈ T.bars) : T.barsAt b.time ≠ [] :=
  List.ne_nil_of_mem (List.mem_filter.mpr ⟨hb, by simp⟩)

theorem exists_of_barsAt {t : Instant} (h : T.barsAt t ≠ []) : ∃ b ∈ T.bars, b.time = t := by
  obtain ⟨b, hb⟩ := List.exists_mem_of_ne_nil _ h
  obtain ⟨hmem, ht⟩ := List.mem_filter.mp hb
  exact ⟨b, hmem, by simpa using ht⟩

theorem filter_within (T : Tape) (start stop t : Instant) :
    (T.within start stop).filter (·.time = t)
      = if start ≤ t ∧ t ≤ stop then T.barsAt t else [] := by
  unfold within barsAt
  rw [List.filter_filter]
  by_cases ht : start ≤ t ∧ t ≤ stop
  · rw [if_pos ht]
    refine List.filter_congr fun b _ => ?_
    by_cases hb : b.time = t
    · simp [hb, ht]
    · simp [hb]
  · rw [if_neg ht]
    refine List.filter_eq_nil_iff.mpr fun b _ => ?_
    by_cases hb : b.time = t
    · simpa [hb] using ht
    · simp [hb]

theorem length_barsAt (hf : T.frequency ≠ .tick) (t : Instant) : (T.barsAt t).length ≤ 1 := by
  have hpair : (T.barsAt t).Pairwise (·.time ≠ ·.time) := (T.distinct hf).filter _
  have htime : ∀ b ∈ T.barsAt t, b.time = t := fun b hb => by
    simpa using (List.mem_filter.mp hb).2
  cases hbars : T.barsAt t with
  | nil => exact Nat.zero_le 1
  | cons b rest =>
      cases rest with
      | nil => exact Nat.le_refl 1
      | cons c rest =>
          rw [hbars] at hpair htime
          have hne := (List.pairwise_cons.mp hpair).1 c List.mem_cons_self
          exact absurd ((htime b (by simp)).trans (htime c (by simp)).symm) hne

/-! ### Series that mirror the tape -/

/-- What ends up at an instant when the bars of a range are written: those of the tape. -/
theorem slot_perm {start stop : Instant} {bars : List Bar} (h : bars.Perm (T.within start stop))
    (t : Instant) : (slot T.frequency bars t).Perm
      (if start ≤ t ∧ t ≤ stop then T.barsAt t else []) := by
  have hfilter : (bars.filter (·.time = t)).Perm
      (if start ≤ t ∧ t ≤ stop then T.barsAt t else []) := by
    rw [← filter_within]
    exact h.filter _
  rw [slot_eq_filter]
  · exact hfilter
  · intro hf
    rw [hfilter.length_eq]
    split
    · exact length_barsAt hf t
    · exact Nat.zero_le 1

theorem slot_ne_nil {start stop : Instant} {bars : List Bar} (h : bars.Perm (T.within start stop))
    (t : Instant) : slot T.frequency bars t ≠ [] ↔ start ≤ t ∧ t ≤ stop ∧ T.barsAt t ≠ [] := by
  have hperm := slot_perm h t
  rw [ne_eq, ← List.length_eq_zero_iff, hperm.length_eq, List.length_eq_zero_iff]
  by_cases ht : start ≤ t ∧ t ≤ stop
  · simp [ht]
  · rw [if_neg ht]
    simp only [not_true_eq_false, false_iff]
    exact fun h => ht ⟨h.1, h.2.1⟩

/-- Bars of the tape are filed as they are. -/
theorem relabel_of_mem {b : Bar} (hb : b ∈ T.bars) : Store.relabel T.key b = b := by
  obtain ⟨hid, hf⟩ := T.labelled b hb
  unfold Store.relabel key
  rw [← hid, ← hf]

theorem mirrors_nil (T : Tape) : T.Mirrors [] where
  grouped := grouped_nil T.frequency
  faithful := fun t h => absurd (groupAt_nil t) h

/-- A series that mirrors the tape still does after bars of the tape were written over it. -/
theorem Mirrors.written {before after : Series} {start stop : Instant} {bars : List Bar}
    (h : T.Mirrors before) (hbars : bars.Perm (T.within start stop))
    (hwritten : Store.Written T.key bars before after) :
    T.Mirrors after ∧ ∀ t, groupAt after t ≠ [] ↔
      groupAt before t ≠ [] ∨ (start ≤ t ∧ t ≤ stop ∧ T.barsAt t ≠ []) := by
  have hthere : ∀ t, groupAt after t ≠ [] ↔
      groupAt before t ≠ [] ∨ (start ≤ t ∧ t ≤ stop ∧ T.barsAt t ≠ []) := by
    intro t
    rw [hwritten.groupAt_ne_nil]
    exact or_congr_right (slot_ne_nil hbars t)
  refine ⟨⟨hwritten.grouped, fun t ht => ?_⟩, hthere⟩
  rw [hwritten.groups]
  by_cases hslot : slot T.key.frequency bars t = []
  · rw [if_pos hslot]
    exact h.faithful t (((hwritten.groupAt_ne_nil t).mp ht).resolve_right fun hne => hne hslot)
  · rw [if_neg hslot]
    obtain ⟨hstart, hstop, -⟩ := (slot_ne_nil hbars t).mp hslot
    have hperm := slot_perm hbars t
    rw [if_pos ⟨hstart, hstop⟩] at hperm
    have hsame : (slot T.key.frequency bars t).map (Store.relabel T.key)
        = slot T.key.frequency bars t := by
      refine (List.map_congr_left fun b hb => ?_).trans (List.map_id _)
      exact relabel_of_mem (mem_within.mp (hbars.subset (mem_slot hb).1)).1
    rw [hsame]
    exact hperm.map Bar.raw

/-- A mirror that has every instant of a range, and none outside it, fills the range. -/
theorem Mirrors.fills {s : Series} {start stop : Instant} (h : T.Mirrors s)
    (hthere : ∀ b ∈ T.bars, start ≤ b.time → b.time ≤ stop → groupAt s b.time ≠ [])
    (hinside : ∀ t, groupAt s t ≠ [] → start ≤ t ∧ t ≤ stop) : T.Fills start stop s.bars where
  ascending := h.grouped.ascending.1
  complete := by
    refine perm_of_times fun t => ?_
    rw [Bar.filter_raw, Bar.filter_raw, h.grouped.filter_bars, filter_within]
    by_cases hgroup : groupAt s t = []
    · have hnone : (if start ≤ t ∧ t ≤ stop then T.barsAt t else []) = [] := by
        by_cases ht : start ≤ t ∧ t ≤ stop
        · rw [if_pos ht]
          by_contra hne
          obtain ⟨b, hb, rfl⟩ := exists_of_barsAt hne
          exact hthere b hb ht.1 ht.2 hgroup
        · rw [if_neg ht]
      rw [hgroup, hnone]
    · rw [if_pos (hinside t hgroup)]
      exact h.faithful t hgroup

/-- A range of a mirror is a mirror. -/
theorem Mirrors.within {s : Series} (h : T.Mirrors s) (start stop : Instant) :
    T.Mirrors (Series.within start stop s) where
  grouped := h.grouped.within start stop
  faithful := fun t ht => by
    rw [groupAt_within] at ht ⊢
    by_cases hin : start ≤ t ∧ t ≤ stop
    · rw [if_pos hin] at ht ⊢
      exact h.faithful t ht
    · rw [if_neg hin] at ht
      exact absurd rfl ht

/-- Every move leaves a series that mirrors the tape, and takes nothing out of it. -/
theorem mirrors_step {w w' : World} {m : Move} (horder : w.Orderly)
    (hstep : w.step? m = some w') (hallows : T.Allows m) (h : T.Mirrors (w.series T.key)) :
    T.Mirrors (w'.series T.key) ∧
      ∀ t, groupAt (w.series T.key) t ≠ [] → groupAt (w'.series T.key) t ≠ [] := by
  rcases World.series_step (k := T.key) horder h.grouped hstep hallows.not_added with
    ⟨r, bars, rfl, hstores, hwritten⟩ | ⟨-, hsame⟩
  · obtain ⟨hmirrors, hthere⟩ := h.written (hallows hstores.1) hwritten
    exact ⟨hmirrors, fun t ht => (hthere t).mpr (Or.inl ht)⟩
  · rw [hsame]
    exact ⟨h, fun _ ht => ht⟩

end Tape

/-- The tape of the sample instrument: a bar on each of nine days. -/
def Sample.tape : Tape where
  instrument := instrument
  id := 1
  frequency := .oneDay
  bars := [1, 2, 3, 4, 5, 6, 7, 8, 9].map bar
  id_eq := rfl
  labelled := by decide
  distinct := fun _ => by decide

end BarArchive
