/-
What adjusted prices depend on.

The adjusted prices of a series are a function of its raw bars, so computing them twice
gives what computing them once gives, and it does not matter which adjusted prices were
there before. They are computed from the end of the series, so those of its later bars
are the same whether or not there are earlier ones. Later bars without corporate actions
carry no factor over to the bars before them, so those of the earlier bars are then the
same whether or not there are later ones.

Adding a batch is described here without its count and its failures: the batch is filed
over the series, and if it has an action, the prices of the whole are computed anew.
-/
import BarArchive.Proofs.Storing

namespace BarArchive

namespace Adjustment

/-! ### Raw bars determine adjusted prices -/

theorem backward?_raw (bars : List Bar) : ∀ previous : Option Bar,
    backward? (previous.map Bar.raw) (bars.map Bar.raw) = backward? previous bars := by
  induction bars with
  | nil => intro previous; rfl
  | cons b bars ih =>
      intro previous
      have hlater : backward? (some b.raw) (bars.map Bar.raw) = backward? (some b) bars :=
        ih (some b)
      rw [List.map_cons]
      unfold backward?
      rw [hlater]
      cases previous <;> rfl

theorem adjust?_raw (bars : List Bar) : adjust? (bars.map Bar.raw) = adjust? bars :=
  congrArg (Option.map Prod.fst) (backward?_raw bars none)

/-- Bars that differ in nothing but their adjusted prices are given the same ones. -/
theorem adjust?_congr {bars bars' : List Bar} (h : bars.map Bar.raw = bars'.map Bar.raw) :
    adjust? bars = adjust? bars' := by
  rw [← adjust?_raw bars, h, adjust?_raw]

/-- Computing adjusted prices once more does not change them. -/
theorem adjust?_idempotent {bars adjusted : List Bar} (h : adjust? bars = some adjusted) :
    adjust? adjusted = some adjusted :=
  (adjust?_congr (raw_of_adjust? h)).trans h

/-! ### From the end of a series to its beginning -/

/-- The factor in force before the bar `b`; before the first bar of all it is the one at `b`. -/
def before? (previous : Option Bar) (b : Bar) (factor : Decimal) : Option Decimal :=
  match previous with
  | some p => carried? p b factor
  | none => some factor

/-- The step from the bars after `b` to `b`, which is scaled by the factor in force at it. -/
theorem backward?_cons {previous : Option Bar} {b : Bar} {bars out : List Bar} {before : Decimal} :
    backward? previous (b :: bars) = some (out, before) ↔ ∃ later factor scaled,
      backward? (some b) bars = some (later, factor) ∧ scaled? factor b = some scaled ∧
        before? previous b factor = some before ∧ out = scaled :: later := by
  have hopen : backward? previous (b :: bars) = (backward? (some b) bars).bind fun x =>
      (scaled? x.2 b).bind fun scaled => (before? previous b x.2).map fun before =>
        (scaled :: x.1, before) := by
    simp only [Option.map_eq_bind]
    cases previous <;> rfl
  rw [hopen]
  simp only [Option.bind_eq_some_iff, Option.map_eq_some_iff, Prod.mk.injEq, Prod.exists]
  constructor
  · rintro ⟨later, factor, hlater, scaled, hscaled, before, hbefore, rfl, rfl⟩
    exact ⟨later, factor, scaled, hlater, hscaled, hbefore, rfl⟩
  · rintro ⟨later, factor, scaled, hlater, hscaled, hbefore, rfl⟩
    exact ⟨later, factor, hlater, scaled, hscaled, before, hbefore, rfl, rfl⟩

/-- The bar before a series has a say in the factor before it, and none in its own prices. -/
theorem adjust?_of_backward? {previous : Option Bar} {bars out : List Bar} {before : Decimal}
    (h : backward? previous bars = some (out, before)) : adjust? bars = some out := by
  cases bars with
  | nil =>
      cases h
      rfl
  | cons b bars =>
      obtain ⟨later, factor, scaled, hlater, hscaled, -, rfl⟩ := backward?_cons.mp h
      have hfirst : backward? none (b :: bars) = some (scaled :: later, factor) :=
        backward?_cons.mpr ⟨later, factor, scaled, hlater, hscaled, rfl, rfl⟩
      exact congrArg (Option.map Prod.fst) hfirst

/-- The later bars of a series are adjusted as if there were no earlier ones. -/
theorem adjust?_append (earlier : List Bar) {later : List Bar} :
    ∀ {previous : Option Bar} {out : List Bar} {before : Decimal},
      backward? previous (earlier ++ later) = some (out, before) →
        ∃ out₁ out₂, out = out₁ ++ out₂ ∧ out₁.length = earlier.length ∧
          adjust? later = some out₂ := by
  induction earlier with
  | nil =>
      intro previous out before h
      exact ⟨[], out, rfl, rfl, adjust?_of_backward? h⟩
  | cons b earlier ih =>
      intro previous out before h
      obtain ⟨rest, factor, scaled, hrest, -, -, rfl⟩ := backward?_cons.mp h
      obtain ⟨out₁, out₂, rfl, hlength, hlater⟩ := ih hrest
      exact ⟨scaled :: out₁, out₂, rfl, congrArg (· + 1) hlength, hlater⟩

/-- Without an action, a bar leaves the factor as it is. -/
theorem before?_quiet {b : Bar} (h : b.hasAction = false) (previous : Option Bar)
    (factor : Decimal) : before? previous b factor = some factor := by
  simp only [Bar.hasAction, Bool.or_eq_false_iff, Option.isSome_eq_false_iff,
    Option.isNone_iff_eq_none] at h
  cases previous with
  | none => rfl
  | some p => simp [before?, carried?, afterSplit?, afterDividend?, h.1, h.2]

/-- Bars without actions carry the factor one over to the bars before them. -/
theorem factor_of_quiet {bars : List Bar} : ∀ {previous : Option Bar} {out : List Bar}
    {before : Decimal}, (∀ b ∈ bars, b.hasAction = false) →
      backward? previous bars = some (out, before) → before = .one := by
  induction bars with
  | nil =>
      intro previous out before _ h
      cases h
      rfl
  | cons b bars ih =>
      intro previous out before hquiet h
      obtain ⟨later, factor, -, hlater, -, hbefore, -⟩ := backward?_cons.mp h
      obtain rfl := ih (fun c hc => hquiet c (List.mem_cons_of_mem b hc)) hlater
      rw [before?_quiet (hquiet b List.mem_cons_self)] at hbefore
      exact (Option.some.inj hbefore).symm

/-- The earlier bars of a series are adjusted as if later ones without actions were not there. -/
theorem backward?_append_quiet (earlier : List Bar) {later : List Bar}
    (hquiet : ∀ b ∈ later, b.hasAction = false) : ∀ {previous : Option Bar} {out : List Bar}
    {before : Decimal}, backward? previous (earlier ++ later) = some (out, before) →
      ∃ out₁ out₂, out = out₁ ++ out₂ ∧ out₂.length = later.length ∧
        backward? previous earlier = some (out₁, before) := by
  induction earlier with
  | nil =>
      intro previous out before h
      obtain rfl := factor_of_quiet hquiet h
      refine ⟨[], out, rfl, ?_, rfl⟩
      simpa using congrArg List.length (raw_of_backward? h)
  | cons b earlier ih =>
      intro previous out before h
      obtain ⟨rest, factor, scaled, hrest, hscaled, hbefore, rfl⟩ := backward?_cons.mp h
      obtain ⟨out₁, out₂, rfl, hlength, hearlier⟩ := ih hrest
      exact ⟨scaled :: out₁, out₂, rfl, hlength,
        backward?_cons.mpr ⟨out₁, factor, scaled, hearlier, hscaled, hbefore, rfl⟩⟩

/-- A bar that was scaled has all four adjusted prices. -/
theorem adjusted_of_scaled? {factor : Decimal} {b scaled : Bar}
    (h : scaled? factor b = some scaled) : scaled.adjusted ≠ .all none := by
  unfold scaled? at h
  obtain ⟨adjusted, hadjusted, rfl⟩ := Option.map_eq_some_iff.mp h
  intro hnone
  have hopening : adjusted.opening = none := congrArg Prices.opening hnone
  unfold Prices.mapM? at hadjusted
  obtain ⟨x, hx, hadjusted⟩ := Option.bind_eq_some_iff.mp hadjusted
  obtain ⟨y, -, rfl⟩ := Option.map_eq_some_iff.mp hx
  simp only [Option.bind_eq_bind, Option.bind_eq_some_iff, Option.pure_def] at hadjusted
  obtain ⟨_, -, _, -, _, -, hsome⟩ := hadjusted
  rw [← Option.some.inj hsome] at hopening
  cases hopening

theorem adjusted_of_backward? {bars : List Bar} : ∀ {previous : Option Bar} {out : List Bar}
    {before : Decimal}, backward? previous bars = some (out, before) →
      ∀ b ∈ out, b.adjusted ≠ .all none := by
  induction bars with
  | nil =>
      intro previous out before h b hb
      cases h
      cases hb
  | cons b bars ih =>
      intro previous out before h c hc
      obtain ⟨later, factor, scaled, hlater, hscaled, -, rfl⟩ := backward?_cons.mp h
      rcases List.mem_cons.mp hc with rfl | hc
      · exact adjusted_of_scaled? hscaled
      · exact ih hlater c hc

/-- No bar of an adjusted series lacks its adjusted prices. -/
theorem adjusted_of_adjust? {bars out : List Bar} (h : adjust? bars = some out) :
    ∀ b ∈ out, b.adjusted ≠ .all none := by
  obtain ⟨⟨out', before⟩, hbackward, rfl⟩ := Option.map_eq_some_iff.mp h
  exact adjusted_of_backward? hbackward

end Adjustment

namespace Series

variable {f : Frequency} {s : Series}

/-! ### Adjusted series -/

/-- A corporate action takes effect with some bar of the series. -/
def HasAction (s : Series) : Prop := ∃ b ∈ s.bars, b.hasAction = true

/-- The bars have the adjusted prices that the whole series gives them. -/
def Adjusted (s : Series) : Prop := Adjustment.adjust? s.bars = some s.bars

/-- Series with the same raw groups have the same raw bars. -/
theorem Grouped.raw_bars {s' : Series} (h : Grouped f s) (h' : Grouped f s')
    (heq : ∀ t, (groupAt s t).map Bar.raw = (groupAt s' t).map Bar.raw) :
    s.bars.map Bar.raw = s'.bars.map Bar.raw := by
  have hbars : ∀ s : Series, s.bars.map Bar.raw = bars (s.map fun e => (e.1, e.2.map Bar.raw)) := by
    intro s
    unfold bars
    rw [List.map_flatMap, List.flatMap_map]
  obtain ⟨hgrouped, hgroups⟩ := h.map_spec Bar.time_raw
  obtain ⟨hgrouped', hgroups'⟩ := h'.map_spec Bar.time_raw
  rw [hbars, hbars, hgrouped.ext hgrouped' fun t => by rw [hgroups, hgroups', heq]]

end Series

namespace Store

open Series

variable {f : Frequency} {s : Series}

/-! ### Computing adjusted prices anew -/

/-- Bars that differ from those of a series in their adjusted prices can be grouped as they are. -/
theorem bars_group {out : List Bar} (h : Grouped f s)
    (hraw : out.map Bar.raw = s.bars.map Bar.raw) :
    (group f out).bars = out := by
  have htimes : out.map Bar.time = s.bars.map Bar.time := by
    have hmap : ∀ l : List Bar, l.map Bar.time = (l.map Bar.raw).map Bar.time := fun l => by
      rw [List.map_map]
      rfl
    rw [hmap, hraw, ← hmap]
  have hsorted : out.Pairwise (·.time ≤ ·.time) := by
    have hpair := List.pairwise_map.mpr h.ascending.1
    rw [← htimes] at hpair
    exact List.pairwise_map.mp hpair
  refine eq_of_times (grouped_group f out).ascending.1 hsorted fun t => ?_
  rw [(grouped_group f out).filter_bars, groupAt_group]
  refine slot_eq_filter fun hf => ?_
  have hlength : (out.filter (·.time = t)).length = (s.bars.filter (·.time = t)).length := by
    rw [← List.length_map Bar.raw, ← Bar.filter_raw, hraw, Bar.filter_raw, List.length_map]
  rw [hlength, h.filter_bars]
  exact h.length_groupAt hf t

/-- A series whose prices were computed anew has the adjusted bars of the one before. -/
theorem bars_of_readjust? {adjusted : Series} (h : Grouped f s)
    (hadjusted : readjust? f s = some adjusted) :
    Adjustment.adjust? s.bars = some adjusted.bars := by
  obtain ⟨out, hout, rfl⟩ := Option.map_eq_some_iff.mp hadjusted
  rw [bars_group h (Adjustment.raw_of_adjust? hout), hout]

theorem adjusted_of_readjust? {adjusted : Series} (h : Grouped f s)
    (hadjusted : readjust? f s = some adjusted) : adjusted.Adjusted :=
  Adjustment.adjust?_idempotent (bars_of_readjust? h hadjusted)

/-- What the prices were before they are computed anew does not matter. -/
theorem readjust?_congr {s' : Series} (h : Grouped f s) (h' : Grouped f s')
    (heq : ∀ t, (groupAt s t).map Bar.raw = (groupAt s' t).map Bar.raw) :
    readjust? f s = readjust? f s' := by
  unfold readjust?
  rw [Adjustment.adjust?_congr (h.raw_bars h' heq)]

/-- Bars have no group at an instant at which the bars that they were made of have none. -/
theorem filter_of_raw {out bars : List Bar} {t : Instant}
    (hraw : out.map Bar.raw = bars.map Bar.raw) (hnone : bars.filter (·.time = t) = []) : out.filter (·.time = t) = [] := by
  have hmap := Bar.filter_raw out t
  rw [hraw, Bar.filter_raw, hnone] at hmap
  exact List.map_eq_nil_iff.mp hmap.symm

variable {earlier later whole : Series}

/-- The adjusted bars of two series one after the other are bars for each of them. -/
theorem split_of_readjust? {out₁ out₂ : List Bar} (h : Grouped f (earlier ++ later))
    (hwhole : readjust? f (earlier ++ later) = some whole) (hbars : whole.bars = out₁ ++ out₂)
    (hlength : out₁.length = earlier.bars.length) :
    out₁.map Bar.raw = earlier.bars.map Bar.raw ∧ out₂.map Bar.raw = later.bars.map Bar.raw ∧
      ∀ t, groupAt whole t = out₁.filter (·.time = t) ++ out₂.filter (·.time = t) := by
  have hraw := Adjustment.raw_of_adjust? (bars_of_readjust? h hwhole)
  rw [hbars, show bars (earlier ++ later) = earlier.bars ++ later.bars from List.flatMap_append,
    List.map_append, List.map_append] at hraw
  obtain ⟨hraw₁, hraw₂⟩ := List.append_inj hraw (by simpa using hlength)
  refine ⟨hraw₁, hraw₂, fun t => ?_⟩
  rw [← (readjust_spec h hwhole).1.filter_bars, hbars, List.filter_append]

/-- Earlier groups have no say in the adjusted prices of later ones. -/
theorem readjust?_append (h : Grouped f (earlier ++ later))
    (hwhole : readjust? f (earlier ++ later) = some whole) :
    ∃ adjusted, readjust? f later = some adjusted ∧
      ∀ t, groupAt earlier t = [] → groupAt whole t = groupAt adjusted t := by
  have hearlier : Grouped f earlier := h.sublist (List.sublist_append_left _ _)
  have hlater : Grouped f later := h.sublist (List.sublist_append_right _ _)
  obtain ⟨⟨out, before⟩, hbackward, hout⟩ :=
    Option.map_eq_some_iff.mp (bars_of_readjust? h hwhole)
  rw [show bars (earlier ++ later) = earlier.bars ++ later.bars from List.flatMap_append]
    at hbackward
  obtain ⟨out₁, out₂, rfl, hlength, hadjust⟩ := Adjustment.adjust?_append _ hbackward
  obtain ⟨hraw₁, hraw₂, hgroups⟩ := split_of_readjust? h hwhole hout.symm hlength
  refine ⟨group f out₂, congrArg (Option.map (group f)) hadjust, fun t hnone => ?_⟩
  rw [hgroups, ← (grouped_group f out₂).filter_bars, bars_group hlater hraw₂,
    filter_of_raw hraw₁ ((hearlier.filter_bars t).trans hnone), List.nil_append]

/-- Later groups without actions have no say in the adjusted prices of earlier ones. -/
theorem readjust?_append_quiet (h : Grouped f (earlier ++ later)) (hquiet : ¬ later.HasAction)
    (hwhole : readjust? f (earlier ++ later) = some whole) :
    ∃ adjusted, readjust? f earlier = some adjusted ∧
      ∀ t, groupAt later t = [] → groupAt whole t = groupAt adjusted t := by
  have hearlier : Grouped f earlier := h.sublist (List.sublist_append_left _ _)
  have hlater : Grouped f later := h.sublist (List.sublist_append_right _ _)
  have hactionless : ∀ b ∈ later.bars, b.hasAction = false := fun b hb =>
    Bool.eq_false_iff.mpr fun haction => hquiet ⟨b, hb, haction⟩
  obtain ⟨⟨out, before⟩, hbackward, hout⟩ :=
    Option.map_eq_some_iff.mp (bars_of_readjust? h hwhole)
  rw [show bars (earlier ++ later) = earlier.bars ++ later.bars from List.flatMap_append]
    at hbackward
  obtain ⟨out₁, out₂, rfl, hlength, hadjust⟩ :=
    Adjustment.backward?_append_quiet _ hactionless hbackward
  have hlength₁ : out₁.length = earlier.bars.length := by
    simpa using congrArg List.length (Adjustment.raw_of_backward? hadjust)
  obtain ⟨hraw₁, hraw₂, hgroups⟩ := split_of_readjust? h hwhole hout.symm hlength₁
  have hsome : Adjustment.adjust? earlier.bars = some out₁ :=
    congrArg (Option.map Prod.fst) hadjust
  refine ⟨group f out₁, congrArg (Option.map (group f)) hsome, fun t hnone => ?_⟩
  rw [hgroups, ← (grouped_group f out₁).filter_bars, bars_group hearlier hraw₁,
    filter_of_raw hraw₂ ((hlater.filter_bars t).trans hnone), List.append_nil]

/-! ### Adding a batch -/

/-- A batch without adjusted prices is filed without them. -/
theorem raw_filed {k : SeriesKey} {bars : List Bar} (h : ∀ b ∈ bars, b.adjusted = .all none) :
    ∀ e ∈ filed k bars, ∀ b ∈ e.2, b.adjusted = .all none := by
  obtain ⟨hfiled, hgroups⟩ := filed_spec k bars
  intro e he b hb
  rw [← hfiled.groupAt_of_mem he, hgroups] at hb
  obtain ⟨c, hc, rfl⟩ := List.mem_map.mp hb
  exact h c (mem_slot hc).1

/--
The series after a batch was added to it, unless a decimal overflows: the batch is written,
and the adjusted prices are computed anew if it has a corporate action.
-/
def added? (k : SeriesKey) (overwrite : Bool) (s : Series) (bars : List Bar) : Option Series :=
  if bars.any Bar.hasAction then readjust? k.frequency (write k overwrite s bars).1
  else some (write k overwrite s bars).1

theorem grouped_added? {k : SeriesKey} {s series : Series} {overwrite : Bool} {bars : List Bar}
    (h : Grouped k.frequency s) (hadded : added? k overwrite s bars = some series) :
    Grouped k.frequency series := by
  have hwritten := grouped_write overwrite bars h
  unfold added? at hadded
  split at hadded
  · exact (readjust_spec hwritten hadded).1
  · exact Option.some.inj hadded ▸ hwritten

/-- Adding a batch to a store files the series with the batch, unless a decimal overflows. -/
theorem add_eq_added? {s : Store} {i : Instrument} {f : Frequency} {id : InstrumentId}
    (hid : i.id = some id) (bars : List Bar) (overwrite : Bool) :
    s.add bars i f overwrite (bars.any Bar.hasAction) =
      match added? ⟨id, f⟩ overwrite (s.get ⟨id, f⟩) bars with
      | some series => (⟨s.series.insert ⟨id, f⟩ series⟩,
          .ok (write ⟨id, f⟩ overwrite (s.get ⟨id, f⟩) bars).2)
      | none => (⟨s.series.insert ⟨id, f⟩ (write ⟨id, f⟩ overwrite (s.get ⟨id, f⟩) bars).1⟩,
          .error .overflow) := by
  unfold add added? instrumentId
  rw [hid]
  simp only
  cases readjust? f (write ⟨id, f⟩ overwrite (s.get ⟨id, f⟩) bars).1 with
  | some adjusted => cases bars.any Bar.hasAction <;> rfl
  | none => cases bars.any Bar.hasAction <;> rfl

end Store

/-- The key that bars from elsewhere are to be stored under, if their instrument can be stored. -/
def Addition.key? (a : Addition) : Option SeriesKey :=
  a.instrument.id.map fun id => ⟨id, a.frequency⟩

/-- The cache with a series under a key, in place of what was there. -/
def Cache.file (c : Cache) (k : SeriesKey) (s : Series) : Cache :=
  { c with store := ⟨c.store.series.insert k s⟩ }

namespace Cache

@[simp] theorem find?_file (c : Cache) (k : SeriesKey) (s : Series) :
    (c.file k s).store.series.find? k = some s := by
  unfold file
  rw [Table.find?_insert, if_pos rfl]

@[simp] theorem get_file (c : Cache) (k : SeriesKey) (s : Series) :
    (c.file k s).store.get k = s :=
  congrArg (Option.getD · []) (find?_file c k s)

theorem file_file (c : Cache) (k : SeriesKey) (s s' : Series) :
    (c.file k s).file k s' = c.file k s' := by
  unfold file
  rw [Table.insert_insert]

theorem file_find? {c : Cache} {k : SeriesKey} {s : Series}
    (h : c.store.series.find? k = some s) : c.file k s = c := by
  unfold file
  rw [Table.insert_find? h]

/-- A cache that takes a batch files the series with it, unless a decimal overflows. -/
theorem add_eq_added? {c : Cache} {i : Instrument} {f : Frequency} {k : SeriesKey}
    (hkey : i.id.map (fun id => (⟨id, f⟩ : SeriesKey)) = some k) (hadd : c.refusals.add = none)
    (bars : List Bar) (overwrite : Bool) : c.add bars i f overwrite =
      match Store.added? k overwrite (c.store.get k) bars with
      | some series => (c.file k series, .ok (Store.write k overwrite (c.store.get k) bars).2)
      | none => (c.file k (Store.write k overwrite (c.store.get k) bars).1, .error .overflow) := by
  obtain ⟨id, hid, rfl⟩ := Option.map_eq_some_iff.mp hkey
  unfold add
  rw [hadd]
  simp only [Store.add_eq_added? hid]
  cases Store.added? ⟨id, f⟩ overwrite (c.store.get ⟨id, f⟩) bars <;> rfl

end Cache

namespace Broker

/-- What becomes of the bars of a fetch that the store takes. -/
theorem keep_eq_added? {b : Broker} {r : Request} {k : SeriesKey} {bars : List Bar}
    (hkey : r.key? = some k) (hbars : bars ≠ []) (hadd : b.cache.refusals.add = none) :
    match Store.added? k true (b.cache.store.get k) bars with
    | some series => ∃ n, b.keep r bars = ({ b with cache := b.cache.file k series }, .ok n)
    | none => ∃ b', b.keep r bars = (b', .error .overflow) := by
  unfold keep
  rw [if_neg (by simpa using hbars), Cache.add_eq_added? hkey hadd]
  cases Store.added? k true (b.cache.store.get k) bars with
  | some series => exact ⟨_, rfl⟩
  | none => exact ⟨_, rfl⟩

/-- What becomes of bars from elsewhere that the store takes. -/
theorem addData_eq_added? {b : Broker} {a : Addition} {k : SeriesKey} (hkey : a.key? = some k)
    (hbars : a.bars ≠ []) (hadd : b.cache.refusals.add = none) :
    match Store.added? k a.overwrite (b.cache.store.get k) a.bars with
    | some series => ∃ n, b.addData a = ({ b with cache := b.cache.file k series }, .ok (.ok n))
    | none => ∃ b', b.addData a = (b', .error .overflow) := by
  obtain ⟨id, hid, -⟩ := Option.map_eq_some_iff.mp hkey
  unfold addData
  rw [hid]
  simp only
  rw [if_neg (by simpa using hbars), Cache.add_eq_added? hkey hadd]
  cases Store.added? k a.overwrite (b.cache.store.get k) a.bars with
  | some series => exact ⟨_, rfl⟩
  | none => exact ⟨_, rfl⟩

/-- Bars from elsewhere leave all series alone but the one that they are written to. -/
theorem get_addData_other {b : Broker} {a : Addition} {k : SeriesKey}
    (h : ¬ (a.key? = some k ∧ a.bars ≠ [] ∧ b.cache.refusals.add = none)) :
    (b.addData a).1.cache.store.get k = b.cache.store.get k := by
  have hadd : a.bars ≠ [] →
      (b.cache.add a.bars a.instrument a.frequency a.overwrite).1.store.get k
        = b.cache.store.get k := by
    intro hbars
    unfold Cache.add
    split
    · rfl
    · rename_i hrefusal
      exact Store.get_add_other (fun hkey => h ⟨hkey, hbars, hrefusal⟩) _ _ _
  unfold addData
  split
  · rfl
  · split
    · rfl
    · rename_i hbars
      simp only
      split <;> exact hadd (by simpa using hbars)

end Broker

end BarArchive
