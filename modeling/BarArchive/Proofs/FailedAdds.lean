/-
Adding that fails.

Bars are not added for one of two reasons. An instrument without a number is refused before
anything is written. A price that outgrows its decimals stops the adjustment, and by then the
batch has been written: it stays, as if it had been added without adjusting anything, and is
served from then on.

**So a failure goes unnoticed just if there was nothing to write:** if each bar of the batch
found its register taken and was not to overwrite it, or found there just what it would have
put there. If it does not go unnoticed, a query for the instrument shows it; the other keys
are never touched.
-/
import BarArchive.Proofs.LatePrices
import BarArchive.Proofs.Registers

namespace BarArchive

open Series

namespace Sample

/-- The greatest price is stored, and then a bar that doubles it is added. -/
def doubled : List Store.Call :=
  [.add [priced 0 greatest] instrument .oneDay false false,
    .add [doubling] instrument .oneDay false true]

end Sample

namespace Store

variable {s s' : Store} {m : Registers} {k : SeriesKey} {bars : List Bar} {i : Instrument}
  {f : Frequency} {overwrite adjust : Bool} {cause : AddFailure}

/-! ### Batches with nothing to write -/

/--
A batch has nothing to write to some groups: each of its bars has a time that is taken and is
not to be overwritten, or one whose group is already as it would be written.
-/
def Stored (k : SeriesKey) (overwrite : Bool) (group : Instant → List Bar) (bars : List Bar) :
    Prop :=
  ∀ b ∈ bars, (overwrite = false ∧ group b.time ≠ []) ∨
    (slot k.frequency bars b.time).map (relabel k) = group b.time

instance (k : SeriesKey) (overwrite : Bool) (group : Instant → List Bar) (bars : List Bar) :
    Decidable (Stored k overwrite group bars) :=
  inferInstanceAs (Decidable (∀ b ∈ bars, _))

theorem group_write_eq_iff (t : Instant) :
    (m.write k overwrite bars).group k t = m.group k t ↔
      slot k.frequency bars t = [] ∨ (overwrite = false ∧ m.group k t ≠ []) ∨
        (slot k.frequency bars t).map (relabel k) = m.group k t := by
  rw [Registers.write, Registers.group_set, if_pos rfl, Registers.landing]
  by_cases hnone : slot k.frequency bars t = []
  · simp [hnone]
  · cases overwrite <;> by_cases hfree : m.group k t = [] <;> simp [hnone, hfree]

/-- Writing a batch leaves the registers of its key alone just if there is nothing to write. -/
theorem stored_iff : Stored k overwrite (m.group k) bars ↔
    ∀ t, (m.write k overwrite bars).group k t = m.group k t := by
  simp only [group_write_eq_iff, slot_eq_nil]
  constructor
  · intro h t
    by_cases hat : ∃ b ∈ bars, b.time = t
    · obtain ⟨b, hb, rfl⟩ := hat
      exact Or.inr (h b hb)
    · exact Or.inl fun b hb ht => hat ⟨b, hb, ht⟩
  · intro h b hb
    exact (h b.time).resolve_left fun hnone => hnone b hb rfl

/-! ### Stores that answer alike -/

/-- Registers with the same groups are those of the same stores. -/
theorem Holds.of_groups {m' : Registers} (h : s.Holds m')
    (hgroups : ∀ k t, m'.group k t = m.group k t) : s.Holds m :=
  { h with groups := fun k t => (h.groups k t).trans (hgroups k t) }

theorem Holds.groupAt_eq (h : s.Holds m) (k : SeriesKey) : groupAt (s.get k) = m.group k :=
  funext (h.groups k)

/-- Whatever a store is asked, it goes on to have its bars in the registers. -/
theorem holds_answered (h : s.Holds m) (calls : List Call) :
    (answered call s calls).1.Holds (answered Registers.call m calls).1 ∧
      (answered call s calls).2 = (answered Registers.call m calls).2 :=
  answered_alike (fun _ _ c h => h.call c) calls h

/-- Stores with the same registers cannot be told apart. -/
theorem answered_eq_of_holds (h : s.Holds m) (h' : s'.Holds m) (later : List Call) :
    (answered call s' later).2 = (answered call s later).2 :=
  (holds_answered h' later).2.trans (holds_answered h later).2.symm

/-- A query for an instant is answered with the group there. -/
theorem query_instant (h : s.InShape) {id : InstrumentId} (hid : i.id = some id) (f : Frequency)
    (t : Instant) : s.query i t t f = .ok (groupAt (s.get ⟨id, f⟩) t) := by
  have hwithin : (Series.within t t (s.get ⟨id, f⟩)).bars = groupAt (s.get ⟨id, f⟩) t := by
    have honly : ∀ u, groupAt (Series.within t t (s.get ⟨id, f⟩)) u ≠ [] →
        u ∈ ({t} : Finset Instant) := by
      intro u hu
      rw [groupAt_within] at hu
      split at hu
      next hin => exact Finset.mem_singleton.mpr (Int.le_antisymm hin.2 hin.1)
      next => exact absurd rfl hu
    rw [((h ⟨id, f⟩).within t t).bars_eq {t} honly, Registers.inOrder, Finset.sort_singleton,
      List.flatMap_singleton, groupAt_within, if_pos ⟨Int.le_refl t, Int.le_refl t⟩]
  unfold query instrumentId
  simp only [hid, bind, Except.bind, if_neg (Int.lt_irrefl t), hwithin]
  rfl

/-! ### What a failure leaves -/

/-- How adding can fail, and what it leaves. -/
theorem add_eq_error (h : (s.add bars i f overwrite adjust).2 = .error cause) :
    (cause = .refused (.missingInstrumentId i.symbol) ∧ i.id = none ∧
      (s.add bars i f overwrite adjust).1 = s) ∨
    (cause = .overflow ∧ adjust = true ∧ ∃ id n, i.id = some id ∧
      s.add bars i f overwrite false = ((s.add bars i f overwrite adjust).1, .ok n)) := by
  unfold add instrumentId at h ⊢
  cases hid : i.id with
  | none =>
      simp only [hid] at h
      obtain rfl := Except.error.inj h
      exact Or.inl ⟨rfl, rfl, rfl⟩
  | some id =>
      simp only [hid] at h
      cases adjust with
      | false => cases h
      | true =>
          simp only [if_true] at h ⊢
          cases hout : readjust? f (write ⟨id, f⟩ overwrite (s.get ⟨id, f⟩) bars).1 with
          | some adjusted =>
              rw [hout] at h
              cases h
          | none =>
              rw [hout] at h
              obtain rfl := Except.error.inj h
              exact Or.inr ⟨rfl, trivial, id, _, rfl, rfl⟩

/-- A batch that is not adjusted is written into the registers of its key. -/
theorem Holds.written (h : s.Holds m) {id : InstrumentId} (hid : i.id = some id) {n : Nat}
    (hadd : s.add bars i f overwrite false = (s', .ok n)) :
    s'.Holds (m.write ⟨id, f⟩ overwrite bars) := by
  have hheld := (h.add bars i f overwrite false).1
  unfold Registers.add instrumentId at hheld
  simp only [hid, hadd] at hheld
  exact hheld

/-- If there was nothing to write, the registers are those of before. -/
theorem Holds.of_stored (hs : s.Holds m) (hs' : s'.Holds (m.write k overwrite bars))
    (h : Stored k overwrite (groupAt (s.get k)) bars) : s'.Holds m := by
  rw [hs.groupAt_eq, stored_iff] at h
  refine hs'.of_groups fun k' t => ?_
  by_cases hk : k = k'
  · exact hk ▸ h t
  · rw [Registers.write, Registers.group_set, if_neg hk]

/-- If queries do not show that a batch was written, there was nothing to write. -/
theorem Holds.stored_of_query (hs : s.Holds m) {id : InstrumentId} (hid : i.id = some id)
    (hs' : s'.Holds (m.write ⟨id, f⟩ overwrite bars))
    (h : ∀ t, s'.query i t t f = s.query i t t f) :
    Stored ⟨id, f⟩ overwrite (groupAt (s.get ⟨id, f⟩)) bars := by
  rw [hs.groupAt_eq, stored_iff]
  intro t
  have hat := h t
  rw [query_instant hs'.shape hid, query_instant hs.shape hid, hs'.groups, hs.groups] at hat
  exact Except.ok.inj hat

/-- Under other keys nothing is added, whether adding fails or not. -/
theorem get_add {k : SeriesKey} (hk : i.id = some k.instrument → f ≠ k.frequency) :
    (s.add bars i f overwrite adjust).1.get k = s.get k := by
  unfold add instrumentId
  cases hid : i.id with
  | none => rfl
  | some id =>
      have hne : (⟨id, f⟩ : SeriesKey) ≠ k := by
        rintro rfl
        exact hk hid rfl
      have hinsert : ∀ series, (⟨s.series.insert ⟨id, f⟩ series⟩ : Store).get k = s.get k :=
        fun series => (get_insert _ _ _ _).trans (if_neg hne)
      cases adjust with
      | false => exact hinsert _
      | true =>
          simp only [if_true]
          split
          · exact hinsert _
          · exact hinsert _

/--
**A failure to add goes unnoticed just if there was nothing to write.** An instrument without a
number is refused, and the store stays as it was. An overflow leaves the store as it would be
had the batch been added without adjusting anything: then no sequence of calls tells that store
from the one before just if no query for the instrument does, and just if there was nothing to
write. The other keys keep their bars in any case.
-/
theorem failed_add_unnoticed_iff (earlier : List Call) {bars : List Bar} {i : Instrument}
    {f : Frequency} {overwrite adjust : Bool} {cause : AddFailure}
    (h : ((answered call {} earlier).1.add bars i f overwrite adjust).2 = .error cause) :
    let s := (answered call {} earlier).1
    let s' := (s.add bars i f overwrite adjust).1
    let nothing := ∀ id, i.id = some id →
      Stored ⟨id, f⟩ overwrite (groupAt (s.get ⟨id, f⟩)) bars
    ((cause = .refused (.missingInstrumentId i.symbol) ∧ i.id = none ∧ s' = s) ∨
      (cause = .overflow ∧ adjust = true ∧ ∃ id n, i.id = some id ∧
        s.add bars i f overwrite false = (s', .ok n))) ∧
    ((∀ later, (answered call s' later).2 = (answered call s later).2) ↔ nothing) ∧
    ((∀ start stop, s'.query i start stop f = s.query i start stop f) ↔ nothing) ∧
    ∀ k : SeriesKey, (i.id = some k.instrument → f ≠ k.frequency) → s'.get k = s.get k := by
  intro s s' nothing
  have hs : s.Holds (answered Registers.call .empty earlier).1 :=
    (holds_answered holds_empty earlier).1
  have hcauses := add_eq_error h
  have hunseen : nothing → ∀ later, (answered call s' later).2 = (answered call s later).2 := by
    intro hnothing
    rcases hcauses with ⟨-, -, hsame⟩ | ⟨-, -, id, n, hid, hwritten⟩
    · exact fun later => congrArg (fun s => (answered call s later).2) hsame
    · exact answered_eq_of_holds hs (hs.of_stored (hs.written hid hwritten) (hnothing id hid))
  have hqueries : (∀ later, (answered call s' later).2 = (answered call s later).2) →
      ∀ start stop, s'.query i start stop f = s.query i start stop f := by
    intro hlater start stop
    simpa [answered, call] using hlater [.query i start stop f]
  have hshown : (∀ start stop, s'.query i start stop f = s.query i start stop f) → nothing := by
    intro hquery id hid
    rcases hcauses with ⟨-, hnone, -⟩ | ⟨-, -, _, n, hid', hwritten⟩
    · rw [hid] at hnone
      cases hnone
    · obtain rfl := Option.some.inj (hid.symm.trans hid')
      exact hs.stored_of_query hid (hs.written hid hwritten) fun t => hquery t t
  exact ⟨hcauses, ⟨fun h => hshown (hqueries h), hunseen⟩,
    ⟨hshown, fun h => hqueries (hunseen h)⟩, fun k hk => get_add hk⟩

/-- After adding a bar that doubles the greatest price has failed, the bar is counted. -/
theorem not_all_failures_unnoticed : ¬ ∀ (earlier : List Call) (bars : List Bar) (i : Instrument)
    (f : Frequency) (overwrite adjust : Bool) (cause : AddFailure),
    let s := (answered call {} earlier).1
    (s.add bars i f overwrite adjust).2 = .error cause →
      ∀ later, (answered call (s.add bars i f overwrite adjust).1 later).2
        = (answered call s later).2 := by
  intro hall
  have hanswers := hall (Sample.doubled.take 1) [Sample.doubling] Sample.instrument .oneDay false
    true .overflow (by decide +kernel) [.size ⟨1, .oneDay⟩]
  have hcounts := Answer.counted.inj (List.cons.inj hanswers).1
  revert hcounts
  decide +kernel

/-- The same bar is added twice, in vain. What the first attempt leaves, a query shows; the
second one finds the bar stored, and goes unnoticed. -/
theorem noticed_once :
    let s (n : Nat) := (answered call {} (Sample.doubled.take n)).1
    ((s 1).add [Sample.doubling] Sample.instrument .oneDay false true).2 = .error .overflow ∧
    (∃ start stop, (s 2).query Sample.instrument start stop .oneDay
      ≠ (s 1).query Sample.instrument start stop .oneDay) ∧
    ((s 2).add [Sample.doubling] Sample.instrument .oneDay false true).2 = .error .overflow ∧
    ∀ later, (answered call ((s 2).add [Sample.doubling] Sample.instrument .oneDay false true).1
      later).2 = (answered call (s 2) later).2 := by
  intro s
  have hfirst : ((s 1).add [Sample.doubling] Sample.instrument .oneDay false true).2
      = .error .overflow := by decide +kernel
  have hsecond : ((s 2).add [Sample.doubling] Sample.instrument .oneDay false true).2
      = .error .overflow := by decide +kernel
  have hnew : ¬ Stored ⟨1, .oneDay⟩ false (groupAt ((s 1).get ⟨1, .oneDay⟩)) [Sample.doubling] := by
    decide +kernel
  have hold : Stored ⟨1, .oneDay⟩ false (groupAt ((s 2).get ⟨1, .oneDay⟩)) [Sample.doubling] := by
    decide +kernel
  obtain ⟨-, -, hshown, -⟩ := failed_add_unnoticed_iff (Sample.doubled.take 1) hfirst
  obtain ⟨-, hunseen, -, -⟩ := failed_add_unnoticed_iff (Sample.doubled.take 2) hsecond
  refine ⟨hfirst, ?_, hsecond, hunseen.mpr fun id hid => ?_⟩
  · by_contra hnone
    simp only [not_exists, ne_eq, Classical.not_not] at hnone
    exact hnew (hshown.mp hnone 1 rfl)
  · obtain rfl : 1 = id := Option.some.inj hid
    exact hold

end Store

end BarArchive
