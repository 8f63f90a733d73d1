/-
The store is a set of registers.

There is a register for each key and each instant. It holds a group of bars and is empty
until bars of that instant are added under that key. That is all that the answers of a store
depend on: what is queried, covered and counted is read off the registers in the order of
their instants, and what is added fills registers of one key and leaves all others alone.

The store keeps series for this: tables of lists that are kept in order, written a group at a
time and, when prices are adjusted, taken apart and put together again.
-/
import BarArchive.Proofs.Adjusting
import BarArchive.Proofs.Consistency
import Mathlib.Data.Finset.Max
import Mathlib.Data.Finset.Sort
import Mathlib.Logic.Function.Basic

namespace BarArchive

open Series

namespace Store

/-- What can be asked of a store. -/
inductive Call where
  | add (bars : List Bar) (i : Instrument) (f : Frequency) (overwrite adjust : Bool)
  | query (i : Instrument) (start stop : Instant) (f : Frequency)
  | coverage (k : SeriesKey)
  | size (k : SeriesKey)
  | isEmpty

/-- What a store answers. -/
inductive Answer where
  | added (result : Except AddFailure Nat)
  | queried (result : Except StoreError (List Bar))
  | covered (coverage : Option Coverage)
  | counted (size : Nat)
  | told (empty : Bool)

/-- What a call makes of a store, and the answer. -/
def call (s : Store) : Call → Store × Answer
  | .add bars i f overwrite adjust =>
    ((s.add bars i f overwrite adjust).1, .added (s.add bars i f overwrite adjust).2)
  | .query i start stop f => (s, .queried (s.query i start stop f))
  | .coverage k => (s, .covered (s.coverage k))
  | .size k => (s, .counted (s.size k))
  | .isEmpty => (s, .told s.isEmpty)

end Store

/-! ### Registers -/

/-- For each key and instant a group of bars, and where these are not empty. -/
structure Registers where
  group : SeriesKey → Instant → List Bar
  taken : Finset (SeriesKey × Instant)
  mem_taken : ∀ k t, (k, t) ∈ taken ↔ group k t ≠ []

namespace Registers

variable {m : Registers} {k : SeriesKey} {t : Instant}

/-- No register has bars. -/
def empty : Registers where
  group _ _ := []
  taken := ∅
  mem_taken _ _ := by simp

/-- The instants at which a key has bars. -/
def times (m : Registers) (k : SeriesKey) : Finset Instant :=
  (m.taken.filter fun e => e.1 = k).image (·.2)

theorem mem_times : t ∈ m.times k ↔ m.group k t ≠ [] := by
  rw [← m.mem_taken, times, Finset.mem_image]
  constructor
  · rintro ⟨e, he, rfl⟩
    obtain ⟨hmem, rfl⟩ := Finset.mem_filter.mp he
    exact hmem
  · exact fun h => ⟨(k, t), Finset.mem_filter.mpr ⟨h, rfl⟩, rfl⟩

/-- The registers with other groups under one key. -/
def set (m : Registers) (k : SeriesKey) (groups : Instant → List Bar) (ts : Finset Instant)
    (h : ∀ t, t ∈ ts ↔ groups t ≠ []) : Registers where
  group := Function.update m.group k groups
  taken := (m.taken.filter fun e => e.1 ≠ k) ∪ ts.image fun t => (k, t)
  mem_taken k' t := by
    by_cases hk : k' = k
    · subst hk
      simp [h]
    · simp [hk, Ne.symm hk, m.mem_taken]

theorem group_set {groups : Instant → List Bar} {ts : Finset Instant}
    (h : ∀ t, t ∈ ts ↔ groups t ≠ []) (k' : SeriesKey) (t : Instant) :
    (m.set k groups ts h).group k' t = if k = k' then groups t else m.group k' t := by
  show Function.update m.group k groups k' t = _
  by_cases hk : k = k'
  · rw [if_pos hk, hk, Function.update_self]
  · rw [if_neg hk, Function.update_of_ne (Ne.symm hk)]

/-! ### Adding -/

/-- The bars of a batch that go into the register at an instant: if all is to be overwritten or
nothing is there, then all trades of that instant, and of other bars the last one. -/
def landing (m : Registers) (k : SeriesKey) (overwrite : Bool) (bars : List Bar) (t : Instant) :
    List Bar :=
  if overwrite = true ∨ m.group k t = [] then (slot k.frequency bars t).map (Store.relabel k)
  else []

/-- The instants of a batch. -/
def timesOf (bars : List Bar) : Finset Instant := (bars.map Bar.time).toFinset

/-- Instants in their order. -/
def inOrder (ts : Finset Instant) : List Instant := ts.sort

/-- All bars of a batch that go into registers. -/
def landed (m : Registers) (k : SeriesKey) (overwrite : Bool) (bars : List Bar) : List Bar :=
  (inOrder (timesOf bars)).flatMap (m.landing k overwrite bars)

theorem mem_timesOf {bars : List Bar} {f : Frequency} : t ∈ timesOf bars ↔ slot f bars t ≠ [] := by
  rw [ne_eq, slot_eq_nil, timesOf]
  simp

theorem mem_timesOf_of_landing {overwrite : Bool} {bars : List Bar}
    (h : m.landing k overwrite bars t ≠ []) : t ∈ timesOf bars := by
  refine (mem_timesOf (f := k.frequency)).mpr fun hnil => h ?_
  unfold landing
  rw [hnil, List.map_nil, ite_self]

/-- The registers after a batch was written. -/
def write (m : Registers) (k : SeriesKey) (overwrite : Bool) (bars : List Bar) : Registers :=
  m.set k
    (fun t => if m.landing k overwrite bars t = [] then m.group k t else m.landing k overwrite bars t)
    (m.times k ∪ timesOf bars)
    fun t => by
      rw [Finset.mem_union, mem_times]
      by_cases hold : m.group k t = []
      · by_cases hnew : slot k.frequency bars t = [] <;>
          simp [landing, hold, hnew, mem_timesOf (f := k.frequency)]
      · by_cases hlands : m.landing k overwrite bars t = [] <;> simp [hold, hlands]

/-- The bars under a key, in the order of their instants. -/
def bars (m : Registers) (k : SeriesKey) : List Bar :=
  (inOrder (m.times k)).flatMap (m.group k)

/-- The registers with other bars under one key, each in the register of its time. -/
def refill (m : Registers) (k : SeriesKey) (bars : List Bar) : Registers :=
  m.set k (fun t => bars.filter (·.time = t)) (timesOf bars)
    fun t => by simp [timesOf, List.filter_eq_nil_iff]

/-- Adds bars and says how many were written. Prices are adjusted over all bars of the key. -/
def add (m : Registers) (bars : List Bar) (i : Instrument) (f : Frequency)
    (overwrite adjust : Bool) : Registers × Except AddFailure Nat :=
  match Store.instrumentId i with
  | .error e => (m, .error (.refused e))
  | .ok id =>
    let k : SeriesKey := ⟨id, f⟩
    let written := m.write k overwrite bars
    let count := (m.landed k overwrite bars).length
    if adjust then
      match Adjustment.adjust? (written.bars k) with
      | some adjusted => (written.refill k adjusted, .ok count)
      | none => (written, .error .overflow)
    else (written, .ok count)

/-! ### Asking -/

/-- The bars of a range, in the order of their instants; nothing when it is upside down. -/
def query (m : Registers) (i : Instrument) (start stop : Instant) (f : Frequency) :
    Except StoreError (List Bar) := do
  let id ← Store.instrumentId i
  if stop < start then return []
  return (inOrder ((m.times ⟨id, f⟩).filter fun t => start ≤ t ∧ t ≤ stop)).flatMap
    (m.group ⟨id, f⟩)

/-- The least and the greatest instant with bars under a key. -/
def coverage (m : Registers) (k : SeriesKey) : Option Coverage :=
  if h : (m.times k).Nonempty then
    some ⟨k.instrument, k.frequency, (m.times k).min' h, (m.times k).max' h⟩
  else none

/-- What a call makes of the registers, and the answer. -/
def call (m : Registers) : Store.Call → Registers × Store.Answer
  | .add bars i f overwrite adjust =>
    ((m.add bars i f overwrite adjust).1, .added (m.add bars i f overwrite adjust).2)
  | .query i start stop f => (m, .queried (m.query i start stop f))
  | .coverage k => (m, .covered (m.coverage k))
  | .size k => (m, .counted (m.bars k).length)
  | .isEmpty => (m, .told (decide (m.taken = ∅)))

end Registers

/-! ### Series in the order of their instants -/

namespace Series

variable {f : Frequency} {s : Series}

/-- The bars with a time among groups that each have a time of their own. -/
theorem filter_flatMap {groups : Instant → List Bar} (h : ∀ t, ∀ b ∈ groups t, b.time = t)
    {ts : List Instant} (hts : ts.Nodup) (t : Instant) :
    (ts.flatMap groups).filter (·.time = t) = if t ∈ ts then groups t else [] := by
  induction ts with
  | nil => rfl
  | cons u ts ih =>
      obtain ⟨hu, hrest⟩ := List.nodup_cons.mp hts
      rw [List.flatMap_cons, List.filter_append, ih hrest]
      by_cases hut : u = t
      · subst hut
        have hall : (groups u).filter (·.time = u) = groups u :=
          List.filter_eq_self.mpr fun b hb => by simpa using h u b hb
        rw [hall, if_neg hu, if_pos List.mem_cons_self, List.append_nil]
      · have hnone : (groups u).filter (·.time = t) = [] :=
          List.filter_eq_nil_iff.mpr fun b hb => by simpa [h u b hb] using hut
        simp [hnone, Ne.symm hut]

/-- The bars of a series are its groups one after the other, at any instants that include its
own. -/
theorem Grouped.bars_eq (h : Grouped f s) (ts : Finset Instant)
    (hts : ∀ t, groupAt s t ≠ [] → t ∈ ts) :
    s.bars = (Registers.inOrder ts).flatMap (groupAt s) := by
  have htimed : ∀ t, ∀ b ∈ groupAt s t, b.time = t := fun t b hb => h.time_eq hb
  have hsorted : ((Registers.inOrder ts).flatMap (groupAt s)).Pairwise (·.time ≤ ·.time) := by
    refine List.pairwise_flatMap.mpr ⟨fun t _ => ?_, (ts.pairwise_sort _).imp fun htu b hb c hc => ?_⟩
    · refine List.pairwise_of_forall_mem_list fun b hb c hc => ?_
      exact Int.le_of_eq ((htimed t b hb).trans (htimed t c hc).symm)
    · rw [htimed _ b hb, htimed _ c hc]
      exact htu
  refine eq_of_times h.ascending.1 hsorted fun t => ?_
  rw [h.filter_bars, Registers.inOrder, filter_flatMap htimed (ts.sort_nodup _)]
  by_cases ht : t ∈ ts
  · rw [if_pos ((Finset.mem_sort _).mpr ht)]
  · rw [if_neg (mt (Finset.mem_sort _).mp ht)]
    exact Classical.not_not.mp fun hne => ht (hts t hne)

theorem mem_of_find? {t : Instant} {g : List Bar} (h : s.find? t = some g) : (t, g) ∈ s := by
  induction s with
  | nil => cases h
  | cons e s ih =>
      obtain ⟨u, g'⟩ := e
      unfold Series.find? at h
      by_cases hu : u = t
      · rw [if_pos hu] at h
        obtain rfl := Option.some.inj h
        exact hu ▸ List.mem_cons_self
      · rw [if_neg hu] at h
        exact List.mem_cons_of_mem _ (ih h)

theorem Grouped.find?_isNone (h : Grouped f s) (t : Instant) :
    (s.find? t).isNone = true ↔ groupAt s t = [] := by
  unfold groupAt
  cases hfind : s.find? t with
  | none => simp
  | some g => simp [h.nonempty _ (mem_of_find? hfind)]

/-- Leaving out groups by their instants. -/
theorem groupAt_filter (p : Instant → Bool) (s : Series) (t : Instant) :
    groupAt (s.filter fun e => p e.1) t = if p t = true then groupAt s t else [] := by
  induction s with
  | nil => simp [groupAt_nil]
  | cons e s ih =>
      obtain ⟨u, g⟩ := e
      by_cases hu : u = t
      · subst hu
        by_cases hp : p u = true
        · simp [hp, groupAt_cons]
        · simp [hp, ih]
      · by_cases hp : p u = true <;> simp [hp, groupAt_cons, hu, ih]

end Series

/-! ### A store and its registers -/

/-- The bars of a series have the label of its key. -/
def Labelled (k : SeriesKey) (s : Series) : Prop :=
  ∀ t, ∀ b ∈ groupAt s t, b.instrument = k.instrument ∧ b.frequency = k.frequency

/-- What is so of a store that has its bars in the registers. -/
structure Store.Holds (s : Store) (m : Registers) : Prop where
  shape : s.InShape
  distinct : s.series.Distinct
  labelled : ∀ k, Labelled k (s.get k)
  groups : ∀ k t, groupAt (s.get k) t = m.group k t

namespace Store

variable {s : Store} {m : Registers} {k : SeriesKey}

theorem holds_empty : Holds {} .empty where
  shape := inShape_empty
  distinct := Table.distinct_empty
  labelled _ _ _ hb := nomatch hb
  groups _ _ := rfl

/-- Filing a series under a key is setting the registers of that key. -/
theorem Holds.insert {series : Series} {groups : Instant → List Bar} {ts : Finset Instant}
    (h : s.Holds m) (hgrouped : Grouped k.frequency series) (hlabelled : Labelled k series)
    (hgroups : ∀ t, groupAt series t = groups t) (hts : ∀ t, t ∈ ts ↔ groups t ≠ []) :
    Holds ⟨s.series.insert k series⟩ (m.set k groups ts hts) where
  shape := h.shape.insert hgrouped
  distinct := h.distinct.insert k series
  labelled k' := by
    rw [get_insert]
    by_cases hk : k = k'
    · rw [if_pos hk]
      exact hk ▸ hlabelled
    · rw [if_neg hk]
      exact h.labelled k'
  groups k' t := by
    rw [get_insert, Registers.group_set]
    by_cases hk : k = k'
    · rw [if_pos hk, if_pos hk, hgroups]
    · rw [if_neg hk, if_neg hk]
      exact h.groups k' t

/-- The bars of a series are those of its registers. -/
theorem Holds.bars_eq (h : s.Holds m) (k : SeriesKey) : (s.get k).bars = m.bars k := by
  have hgroups : groupAt (s.get k) = m.group k := funext (h.groups k)
  rw [(h.shape k).bars_eq (m.times k), hgroups, Registers.bars]
  intro t ht
  rw [hgroups] at ht
  exact Registers.mem_times.mpr ht

/-! ### Adding -/

/-- What goes into the registers is what lands on the series. -/
theorem Holds.groupAt_landing (h : s.Holds m) (overwrite : Bool) (bars : List Bar) (t : Instant) :
    groupAt (landing k overwrite (s.get k) bars) t = m.landing k overwrite bars t := by
  have hlands : ((overwrite || ((s.get k).find? t).isNone) = true) ↔
      (overwrite = true ∨ m.group k t = []) := by
    rw [Bool.or_eq_true, (h.shape k).find?_isNone, h.groups]
  unfold landing Registers.landing
  rw [groupAt_filter (fun t => overwrite || ((s.get k).find? t).isNone), (filed_spec k bars).2]
  exact if_congr hlands rfl rfl

theorem count_foldl (overwrite : Bool) {groups : Series} (hgroups : groups.Pairwise (·.1 < ·.1)) :
    ∀ {series : Series} (n : Nat), series.Pairwise (·.1 < ·.1) →
      (groups.foldl (writeGroup k overwrite) (series, n)).2 = n + (Series.bars (groups.filter
        fun e => overwrite || (series.find? e.1).isNone)).length := by
  induction hgroups with
  | nil => exact fun n _ => rfl
  | @cons e groups hlater _ ih =>
      intro series n hseries
      rw [List.foldl_cons, writeGroup]
      by_cases hput : (overwrite || (series.find? e.1).isNone) = true
      · -- the group that was put stands at none of the instants that are still to come
        have hsame : ∀ d ∈ groups, (overwrite || ((put e.1 (e.2.map (relabel k)) series).find?
            d.1).isNone) = (overwrite || (series.find? d.1).isNone) := by
          intro d hd
          rw [find?_put _ _ _ _ hseries, if_neg (Int.ne_of_lt (hlater d hd))]
        rw [if_pos hput, List.filter_cons_of_pos (by simpa using hput), Series.bars,
          List.flatMap_cons, List.length_append, ih _ (sorted_put _ _ hseries),
          List.filter_congr hsame, Nat.add_assoc]
        rfl
      · rw [if_neg hput, List.filter_cons_of_neg (by simpa using hput)]
        exact ih n hseries

/-- As many bars are counted as land on the series. -/
theorem count_write {series : Series} (h : Grouped k.frequency series) (overwrite : Bool)
    (bars : List Bar) :
    (write k overwrite series bars).2 = (landing k overwrite series bars).bars.length := by
  unfold write landing filed
  rw [count_foldl overwrite (grouped_group _ _).sorted 0 h.sorted, Nat.zero_add, List.filter_map]
  simp only [Series.bars, List.flatMap_map, List.length_flatMap, List.length_map,
    Function.comp_def]

theorem Holds.landed_eq (h : s.Holds m) (overwrite : Bool) (bars : List Bar) :
    (landing k overwrite (s.get k) bars).bars = m.landed k overwrite bars := by
  have hgroups : groupAt (landing k overwrite (s.get k) bars) = m.landing k overwrite bars :=
    funext (h.groupAt_landing overwrite bars)
  have hgrouped : Grouped k.frequency (landing k overwrite (s.get k) bars) :=
    (filed_spec k bars).1.sublist List.filter_sublist
  rw [hgrouped.bars_eq (Registers.timesOf bars), hgroups, Registers.landed]
  intro t ht
  rw [hgroups] at ht
  exact Registers.mem_timesOf_of_landing ht

/-- Writing a batch into a series is writing it into the registers. -/
theorem Holds.write (h : s.Holds m) (k : SeriesKey) (overwrite : Bool) (bars : List Bar) :
    Holds ⟨s.series.insert k (Store.write k overwrite (s.get k) bars).1⟩
        (m.write k overwrite bars) ∧
      (Store.write k overwrite (s.get k) bars).2 = (m.landed k overwrite bars).length := by
  have hlanding : Grouped k.frequency (landing k overwrite (s.get k) bars) :=
    (filed_spec k bars).1.sublist List.filter_sublist
  obtain ⟨hgrouped, hgroups⟩ := (h.shape k).overlay_spec hlanding
  rw [← write_eq_landing (h.shape k)] at hgrouped hgroups
  refine ⟨h.insert hgrouped (fun t b hb => ?_) (fun t => ?_) _, ?_⟩
  · rw [hgroups] at hb
    by_cases hnil : groupAt (landing k overwrite (s.get k) bars) t = []
    · rw [if_pos hnil] at hb
      exact h.labelled k t b hb
    · rw [if_neg hnil, h.groupAt_landing, Registers.landing] at hb
      split at hb
      · obtain ⟨c, -, rfl⟩ := List.mem_map.mp hb
        exact ⟨rfl, rfl⟩
      · cases hb
  · rw [hgroups, h.groupAt_landing, h.groups]
  · rw [count_write (h.shape k), h.landed_eq]

theorem Holds.readjust?_eq (h : s.Holds m) (k : SeriesKey) : readjust? k.frequency (s.get k) =
    (Adjustment.adjust? (m.bars k)).map (group k.frequency) := by
  rw [readjust?, h.bars_eq]

/-- Bars whose prices were adjusted go back into the registers that they were in. -/
theorem Holds.refill (h : s.Holds m) {out : List Bar}
    (hout : Adjustment.adjust? (m.bars k) = some out) :
    Holds ⟨s.series.insert k (group k.frequency out)⟩ (m.refill k out) := by
  rw [← h.bars_eq] at hout
  have hraw := Adjustment.raw_of_adjust? hout
  have hgrouped := grouped_group k.frequency out
  have hbars := bars_group (h.shape k) hraw
  refine h.insert hgrouped (fun t b hb => ?_) (fun t => ?_) _
  · -- a bar with adjusted prices has the label of the bar that it was made of
    have hmem : b.raw ∈ (s.get k).bars.map Bar.raw := by
      rw [← hgrouped.time_eq hb, ← hgrouped.mem_bars, hbars] at hb
      exact hraw ▸ List.mem_map_of_mem hb
    obtain ⟨c, hc, hcb⟩ := List.mem_map.mp hmem
    have hlabel := h.labelled k c.time c ((h.shape k).mem_bars.mp hc)
    exact ⟨(congrArg Bar.instrument hcb).symm.trans hlabel.1,
      (congrArg Bar.frequency hcb).symm.trans hlabel.2⟩
  · rw [← hgrouped.filter_bars, hbars]

theorem Holds.add (h : s.Holds m) (bars : List Bar) (i : Instrument) (f : Frequency)
    (overwrite adjust : Bool) : (s.add bars i f overwrite adjust).1.Holds
        (m.add bars i f overwrite adjust).1 ∧
      (s.add bars i f overwrite adjust).2 = (m.add bars i f overwrite adjust).2 := by
  unfold Store.add Registers.add
  cases hid : instrumentId i with
  | error e => exact ⟨h, rfl⟩
  | ok id =>
      obtain ⟨hwritten, hcount⟩ := h.write ⟨id, f⟩ overwrite bars
      simp only [hcount]
      cases adjust with
      | false => exact ⟨hwritten, rfl⟩
      | true =>
          have hadjusted := hwritten.readjust?_eq ⟨id, f⟩
          rw [get_insert, if_pos rfl] at hadjusted
          simp only [if_true, hadjusted]
          cases hout : Adjustment.adjust? ((m.write ⟨id, f⟩ overwrite bars).bars ⟨id, f⟩) with
          | none => exact ⟨hwritten, rfl⟩
          | some out =>
              have hrefilled := hwritten.refill hout
              rw [Table.insert_insert] at hrefilled
              exact ⟨hrefilled, rfl⟩

/-! ### Asking -/

theorem Holds.query (h : s.Holds m) (i : Instrument) (start stop : Instant) (f : Frequency) :
    s.query i start stop f = m.query i start stop f := by
  unfold Store.query Registers.query
  cases instrumentId i with
  | error e => rfl
  | ok id =>
      have hwithin : (Series.within start stop (s.get ⟨id, f⟩)).bars =
          (Registers.inOrder ((m.times ⟨id, f⟩).filter fun t => start ≤ t ∧ t ≤ stop)).flatMap
            (m.group ⟨id, f⟩) := by
        rw [((h.shape ⟨id, f⟩).within start stop).bars_eq
          ((m.times ⟨id, f⟩).filter fun t => start ≤ t ∧ t ≤ stop)]
        · refine List.flatMap_congr fun t ht => ?_
          have hin := (Finset.mem_filter.mp ((Finset.mem_sort _).mp ht)).2
          rw [groupAt_within, if_pos hin, h.groups]
        · intro t ht
          rw [groupAt_within, h.groups] at ht
          split at ht
          next hin => exact Finset.mem_filter.mpr ⟨Registers.mem_times.mpr ht, hin⟩
          next => exact absurd rfl ht
      simp only [bind, Except.bind, hwithin]

theorem Holds.coverage (h : s.Holds m) (k : SeriesKey) : s.coverage k = m.coverage k := by
  have htimes : ∀ t, t ∈ m.times k ↔ groupAt (s.get k) t ≠ [] := fun t => by
    rw [Registers.mem_times, h.groups]
  unfold Registers.coverage
  cases hc : s.coverage k with
  | none =>
      have hnil := coverage_eq_none.mp hc
      have hnone : ¬ (m.times k).Nonempty := by
        rintro ⟨t, ht⟩
        rw [htimes, hnil] at ht
        exact ht rfl
      rw [dif_neg hnone]
  | some c =>
      obtain ⟨hfirst, hlast, hbounds⟩ := coverage_spec (h.shape k) hc
      have hsome : (m.times k).Nonempty := ⟨c.earliest, (htimes _).mpr hfirst⟩
      have hkey : c.instrument = k.instrument ∧ c.frequency = k.frequency := by
        obtain ⟨bounds, -, rfl⟩ := Option.map_eq_some_iff.mp hc
        exact ⟨rfl, rfl⟩
      have hmin : (m.times k).min' hsome = c.earliest :=
        le_antisymm (Finset.min'_le _ _ ((htimes _).mpr hfirst))
          (Finset.le_min' _ _ _ fun t ht => (hbounds t ((htimes t).mp ht)).1)
      have hmax : (m.times k).max' hsome = c.latest :=
        le_antisymm (Finset.max'_le _ _ _ fun t ht => (hbounds t ((htimes t).mp ht)).2)
          (Finset.le_max' _ _ ((htimes _).mpr hlast))
      rw [dif_pos hsome, hmin, hmax, ← hkey.1, ← hkey.2]

theorem Holds.isEmpty (h : s.Holds m) : s.isEmpty = decide (m.taken = ∅) := by
  rw [Bool.eq_iff_iff, decide_eq_true_iff]
  have hempty : s.isEmpty = true ↔ ∀ k, s.get k = [] := by
    unfold Store.isEmpty Table.values
    simp only [List.all_map, List.all_eq_true, Function.comp_apply, List.isEmpty_iff, Prod.forall]
    constructor
    · intro hall k
      unfold Store.get
      cases hfind : s.series.find? k with
      | none => rfl
      | some series => exact hall k series (h.distinct.mem_iff.mpr hfind)
    · intro hall k series hmem
      have hfind := h.distinct.mem_iff.mp hmem
      have hget := hall k
      rwa [Store.get, hfind] at hget
  rw [hempty, Finset.eq_empty_iff_forall_notMem]
  constructor
  · intro hall e he
    obtain ⟨k, t⟩ := e
    rw [m.mem_taken, ← h.groups, hall k] at he
    exact he rfl
  · intro hnone k
    refine (h.shape k).ext (grouped_nil _) fun t => ?_
    rw [h.groups]
    exact Classical.not_not.mp fun hne => hnone (k, t) ((m.mem_taken k t).mpr hne)

/-! ### Whatever is asked -/

theorem Holds.call (h : s.Holds m) (c : Call) :
    (s.call c).1.Holds (m.call c).1 ∧ (s.call c).2 = (m.call c).2 := by
  cases c with
  | add bars i f overwrite adjust =>
      obtain ⟨hheld, hanswer⟩ := h.add bars i f overwrite adjust
      exact ⟨hheld, congrArg Answer.added hanswer⟩
  | query i start stop f => exact ⟨h, congrArg Answer.queried (h.query i start stop f)⟩
  | coverage k => exact ⟨h, congrArg Answer.covered (h.coverage k)⟩
  | size k => exact ⟨h, congrArg (fun l => Answer.counted (List.length l)) (h.bars_eq k)⟩
  | isEmpty => exact ⟨h, congrArg Answer.told h.isEmpty⟩

/-- **A store answers as registers do, whatever it is asked in whatever order.** Its series are
the registers in the order of their instants: the groups of a series ascend strictly, none is
empty, its bars have the instant of the group and the label of the key, and a group of anything
but trades is a single bar. -/
theorem answers_as_registers (calls : List Call) :
    let s := (answered call {} calls).1
    let m := (answered Registers.call .empty calls).1
    (answered call {} calls).2 = (answered Registers.call .empty calls).2 ∧
      (∀ k t, groupAt (s.get k) t = m.group k t) ∧
      ∀ k, (s.get k).Pairwise (·.1 < ·.1) ∧ ∀ e ∈ s.get k,
        e.2 ≠ [] ∧ (k.frequency ≠ .tick → e.2.length = 1) ∧
        ∀ b ∈ e.2, b.time = e.1 ∧ b.instrument = k.instrument ∧ b.frequency = k.frequency := by
  intro s m
  have hcall : ∀ (s : Store) (m : Registers) (c : Call), s.Holds m →
      (s.call c).1.Holds (m.call c).1 ∧ (s.call c).2 = (m.call c).2 := fun s m c h => h.call c
  obtain ⟨hholds, hanswers⟩ := answered_alike hcall calls holds_empty
  refine ⟨hanswers, hholds.groups, fun k => ?_⟩
  have hgrouped := hholds.shape k
  refine ⟨hgrouped.sorted, fun e he => ⟨hgrouped.nonempty e he, fun hf => ?_, fun b hb => ?_⟩⟩
  · have hle := hgrouped.single hf e he
    have hpos := List.length_pos_iff.mpr (hgrouped.nonempty e he)
    omega
  · have hat : b ∈ groupAt (s.get k) e.1 := by
      rw [hgrouped.groupAt_of_mem he]
      exact hb
    exact ⟨hgrouped.timed e he b hb, hholds.labelled k e.1 b hat⟩

end Store
end BarArchive
