/-
When stored adjusted prices are right.

The adjusted prices of a bar depend on all bars after it, but whether they are computed
anew when a batch is added depends on that batch alone: they are if a corporate action is
among its bars. So a batch without one leaves all prices as they are, also where an action
that is stored already asks for others: in the bars that it adds, and in bars before an
action that it replaces.

**From an empty store on, every series with an action has the adjusted prices that it
gives itself, if and only if every batch without an action is right as it is written.**
Sources deliver bars without adjusted prices, and a batch of such bars is right as it is
written only if it writes nothing or the series has no action then. A batch with an action
always puts the whole series right, whatever was wrong with it before.
-/
import BarArchive.Proofs.Adjusting
import BarArchive.Proofs.Numbers
import BarArchive.Proofs.Tape

namespace BarArchive

open Series

namespace Store

variable {k : SeriesKey} {s : Series}

/-! ### The bars of a batch that are written -/

/-- The groups of a batch that are written: all of them, or those that nothing is stored for. -/
def landing (k : SeriesKey) (overwrite : Bool) (s : Series) (bars : List Bar) : Series :=
  (filed k bars).filter fun e => overwrite || (s.find? e.1).isNone

theorem write_eq_landing (h : Grouped k.frequency s) (overwrite : Bool) (bars : List Bar) :
    (write k overwrite s bars).1 = overlay s (landing k overwrite s bars) := by
  have hgroups := grouped_group k.frequency bars
  unfold write landing filed
  rw [List.filter_map]
  generalize group k.frequency bars = groups at hgroups
  generalize 0 = n
  induction groups generalizing s n with
  | nil => rfl
  | cons e groups ih =>
      have hlater : ∀ d ∈ groups, e.1 < d.1 := (List.pairwise_cons.mp hgroups.sorted).1
      rw [List.foldl_cons]
      unfold writeGroup
      by_cases hput : (overwrite || (s.find? e.1).isNone) = true
      · have hgrouped : Grouped k.frequency (Series.put e.1 (e.2.map (relabel k)) s) := by
          refine h.put ?_ ?_ ?_
          · simpa using hgroups.nonempty e List.mem_cons_self
          · intro b hb
            obtain ⟨c, hc, rfl⟩ := List.mem_map.mp hb
            exact hgroups.timed e List.mem_cons_self c hc
          · intro hf
            simpa using hgroups.single hf e List.mem_cons_self
        -- the group that was put stands at none of the instants that are still to come
        have hsame : ∀ d ∈ groups, (overwrite || ((Series.put e.1 (e.2.map (relabel k)) s).find?
            d.1).isNone) = (overwrite || (s.find? d.1).isNone) := by
          intro d hd
          rw [find?_put _ _ _ _ h.sorted, if_neg (Int.ne_of_lt (hlater d hd))]
        simp only [hput, if_true]
        rw [List.filter_cons_of_pos (by simpa using hput), List.map_cons]
        refine (ih hgrouped hgroups.tail _).trans ?_
        show overlay _ _ = overlay (Series.put _ _ s) _
        congr 2
        exact List.filter_congr fun d hd => hsame d hd
      · rw [if_neg hput, List.filter_cons_of_neg (by simpa using hput)]
        exact ih h hgroups.tail _

/-- A batch that lands without adjusted prices does not have the adjusted prices that it is due. -/
theorem not_adjusted_of_landing {overwrite : Bool} {bars : List Bar}
    (h : Grouped k.frequency s) (hraw : ∀ b ∈ bars, b.adjusted = .all none)
    (hlands : landing k overwrite s bars ≠ []) : ¬ (write k overwrite s bars).1.Adjusted := by
  obtain ⟨e, he⟩ := List.exists_mem_of_ne_nil _ hlands
  have hlanding : Grouped k.frequency (landing k overwrite s bars) :=
    (filed_spec k bars).1.sublist List.filter_sublist
  obtain ⟨hgrouped, hwritten⟩ := h.overlay_spec hlanding
  -- a bar of the batch stands in the series as it was filed
  obtain ⟨b, hb⟩ := List.exists_mem_of_ne_nil _ (hlanding.nonempty e he)
  have hbar : b ∈ (write k overwrite s bars).1.bars := by
    rw [write_eq_landing h, hgrouped.mem_bars, hwritten, hlanding.timed e he b hb,
      hlanding.groupAt_of_mem he, if_neg (hlanding.nonempty e he)]
    exact hb
  have hnone : b.adjusted = .all none := raw_filed hraw e (List.mem_filter.mp he).1 b hb
  exact fun hadjusted => Adjustment.adjusted_of_adjust? hadjusted b hbar hnone

end Store

/-- The bars that the move brings, if it brings any, come without adjusted prices. -/
def Move.Raw : Move → Prop
  | .fetched _ (.ok bars) => ∀ b ∈ bars, b.adjusted = .all none
  | .added a => ∀ b ∈ a.bars, b.adjusted = .all none
  | _ => True

namespace World

variable {w w' : World} {m : Move}

/-! ### What a move writes -/

/-- A move adds the bars of a batch to the series of a key, over what is stored or beside it. -/
inductive Batch (w : World) (k : SeriesKey) : Move → (overwrite : Bool) → List Bar → Prop
  | fetched {r bars} (stores : w.Stores k r bars) : Batch w k (.fetched r (.ok bars)) true bars
  | added {a} (key : a.key? = some k) (some_bars : a.bars ≠ [])
      (taken : w.broker.cache.refusals.add = none) : Batch w k (.added a) a.overwrite a.bars

/-- A decimal that has not overflowed after a move had not before. -/
theorem not_overflowed_of_step (hstep : w.step? m = some w') (hover : w'.hasOverflowed = false) :
    w.hasOverflowed = false := by
  have hafter : ∀ (v : World) (owner : Option AssignedId) (step : Broker × Outcome),
      (v.after owner step).hasOverflowed = false → v.hasOverflowed = false := by
    intro v owner step h
    rw [hasOverflowed_after] at h
    exact (Bool.or_eq_false_iff.mp h).2
  cases makes_of_step hstep with
  | accepted => exact hover
  | declined => exact hover
  | fetched => exact hafter (w.take _ _) _ _ hover
  | served => exact hafter (w.take _ _) _ _ hover
  | added outcome =>
      simp only [hasOverflowed, List.any_cons, Bool.or_eq_false_iff] at hover
      exact hover.2
  | refused => exact hover
  | connected => exact hover

/-- Bars of a fetch that are written are added to the series, as nothing overflows. -/
theorem added_of_fetched {k : SeriesKey} {r : Request} {bars : List Bar} (horder : w.Orderly)
    (hstep : w.step? (.fetched r (.ok bars)) = some w') (hover : w'.hasOverflowed = false)
    (hstores : w.Stores k r bars) :
    Store.added? k true (w.series k) bars = some (w'.series k) := by
  obtain ⟨hkey, hwrites, p, howner, hwaits⟩ := hstores
  obtain ⟨hsave, hbars, htaken⟩ := hwrites
  have hkeep := Broker.keep_eq_added? hkey hbars htaken
  cases makes_of_step hstep with
  | fetched hmem =>
      obtain ⟨hid, e, -, howner', haborted⟩ := horder.fetch_owned hmem
      obtain rfl : e.2.assignedId = p := Option.some.inj (howner'.symm.trans howner)
      rw [hasOverflowed_after] at hover
      unfold series
      rw [broker_after, Broker.cache_deliver_ok hid howner haborted, if_pos hwaits,
        Broker.cacheAfter, if_pos hsave]
      cases hadded : Store.added? k true (w.broker.cache.store.get k) bars with
      | some s =>
          rw [hadded] at hkeep
          obtain ⟨n, heq⟩ := hkeep
          rw [heq, Cache.get_file]
      | none =>
          rw [hadded] at hkeep
          obtain ⟨b', heq⟩ := hkeep
          rw [Broker.deliver_overflow hid howner hwaits (haborted hwaits) hsave heq] at hover
          cases hover

/-- Bars from elsewhere that are written are added to the series, as nothing overflows. -/
theorem added_of_added {k : SeriesKey} {a : Addition} (hstep : w.step? (.added a) = some w')
    (hover : w'.hasOverflowed = false) (hkey : a.key? = some k) (hbars : a.bars ≠ [])
    (htaken : w.broker.cache.refusals.add = none) :
    Store.added? k a.overwrite (w.series k) a.bars = some (w'.series k) := by
  have hadd := Broker.addData_eq_added? hkey hbars htaken
  simp only [step?, Option.some.injEq] at hstep
  subst hstep
  unfold series
  cases hadded : Store.added? k a.overwrite (w.broker.cache.store.get k) a.bars with
  | some s =>
      rw [hadded] at hadd
      obtain ⟨n, heq⟩ := hadd
      simp only [heq, Cache.get_file]
  | none =>
      rw [hadded] at hadd
      obtain ⟨b', heq⟩ := hadd
      simp [hasOverflowed, heq, Outcome.isOverflow] at hover

/-- Without a batch a series stays as it is. -/
theorem series_of_no_batch {k : SeriesKey} (horder : w.Orderly)
    (hgrouped : Grouped k.frequency (w.series k)) (hstep : w.step? m = some w')
    (hnone : ∀ overwrite bars, ¬ w.Batch k m overwrite bars) : w'.series k = w.series k := by
  by_cases hadded : ∃ a, m = .added a
  · obtain ⟨a, rfl⟩ := hadded
    cases hstep
    exact Broker.get_addData_other fun ⟨key, some_bars, taken⟩ =>
      hnone _ _ (.added key some_bars taken)
  · rcases series_step horder hgrouped hstep fun a ha => hadded ⟨a, ha⟩ with
      ⟨r, bars, rfl, hstores, -⟩ | ⟨-, hsame⟩
    · exact absurd (.fetched hstores) (hnone true bars)
    · exact hsame

/-- A batch is added to its series, and without a batch a series stays as it is. -/
theorem batch_step (k : SeriesKey) (horder : w.Orderly) (hshape : w.broker.cache.store.InShape)
    (hstep : w.step? m = some w') (hover : w'.hasOverflowed = false) :
    (∀ overwrite bars, w.Batch k m overwrite bars →
      Store.added? k overwrite (w.series k) bars = some (w'.series k)) ∧
    ((∀ overwrite bars, ¬ w.Batch k m overwrite bars) → w'.series k = w.series k) := by
  constructor
  · intro overwrite bars hbatch
    cases hbatch with
    | fetched stores => exact added_of_fetched horder hstep hover stores
    | added key some_bars taken => exact added_of_added hstep hover key some_bars taken
  · exact series_of_no_batch horder (hshape k) hstep

/-! ### Right prices -/

/-- Every series with an action has the adjusted prices that it gives itself. -/
def Consistent (w : World) : Prop := ∀ k, (w.series k).HasAction → (w.series k).Adjusted

/-- The series of a batch without an action, if it has one otherwise, is right as it is written. -/
def RightAsWritten (w : World) (m : Move) : Prop :=
  ∀ k overwrite bars, w.Batch k m overwrite bars → bars.any Bar.hasAction = false →
    (Store.write k overwrite (w.series k) bars).1.HasAction →
      (Store.write k overwrite (w.series k) bars).1.Adjusted

/-- A batch without an action is not written to a series that has one then. -/
def Harmless (w : World) (m : Move) : Prop :=
  ∀ k overwrite bars, w.Batch k m overwrite bars → bars.any Bar.hasAction = false →
    (Store.write k overwrite (w.series k) bars).1.HasAction →
      Store.landing k overwrite (w.series k) bars = []

/-- A batch with an action puts its whole series right. -/
def Mends (w : World) (m : Move) : Prop :=
  ∀ k overwrite bars, w.Batch k m overwrite bars → bars.any Bar.hasAction = true →
    ∀ w', w.step? m = some w' → (w'.series k).Adjusted

theorem consistent_start (ids : Allocator) (registry : Registry) :
    (start {} ids registry).Consistent := by
  rintro k ⟨b, hb, -⟩
  cases hb

theorem mends_of_step (horder : w.Orderly) (hshape : w.broker.cache.store.InShape)
    (hstep : w.step? m = some w') (hover : w'.hasOverflowed = false) : w.Mends m := by
  intro k overwrite bars hbatch haction v hv
  obtain rfl : w' = v := Option.some.inj (hstep.symm.trans hv)
  have hadded := (batch_step k horder hshape hstep hover).1 overwrite bars hbatch
  unfold Store.added? at hadded
  rw [if_pos haction] at hadded
  exact Store.adjusted_of_readjust? (Store.grouped_write overwrite bars (hshape k)) hadded

/-- A move keeps all prices right just if a batch that it writes without computing them is right. -/
theorem consistent_step_iff (horder : w.Orderly) (hshape : w.broker.cache.store.InShape)
    (hstep : w.step? m = some w') (hover : w'.hasOverflowed = false) (h : w.Consistent) :
    w'.Consistent ↔ w.RightAsWritten m := by
  have hwritten : ∀ k overwrite bars, w.Batch k m overwrite bars →
      bars.any Bar.hasAction = false →
      w'.series k = (Store.write k overwrite (w.series k) bars).1 := by
    intro k overwrite bars hbatch hquiet
    have hadded := (batch_step k horder hshape hstep hover).1 overwrite bars hbatch
    unfold Store.added? at hadded
    rw [if_neg (by simp [hquiet])] at hadded
    exact (Option.some.inj hadded).symm
  constructor
  · intro hconsistent k overwrite bars hbatch hquiet
    have hright := hconsistent k
    rw [hwritten k overwrite bars hbatch hquiet] at hright
    exact hright
  · intro hright k
    by_cases hbatch : ∃ overwrite bars, w.Batch k m overwrite bars
    · obtain ⟨overwrite, bars, hbatch⟩ := hbatch
      cases haction : bars.any Bar.hasAction with
      | true =>
          exact fun _ => mends_of_step horder hshape hstep hover k overwrite bars hbatch haction
            w' hstep
      | false =>
          rw [hwritten k overwrite bars hbatch haction]
          exact hright k overwrite bars hbatch haction
    · rw [(batch_step k horder hshape hstep hover).2 fun overwrite bars hb =>
        hbatch ⟨overwrite, bars, hb⟩]
      exact h k

/-- A batch without adjusted prices is right as it is written only if nothing of it lands. -/
theorem rightAsWritten_iff_harmless (hshape : w.broker.cache.store.InShape) (h : w.Consistent)
    (hraw : m.Raw) : w.RightAsWritten m ↔ w.Harmless m := by
  have hnone : ∀ k overwrite bars, w.Batch k m overwrite bars →
      ∀ b ∈ bars, b.adjusted = .all none := by
    intro k overwrite bars hbatch
    cases hbatch with
    | fetched => exact hraw
    | added => exact hraw
  constructor
  · intro hright k overwrite bars hbatch hquiet haction
    by_contra hlands
    exact Store.not_adjusted_of_landing (hshape k) (hnone k overwrite bars hbatch) hlands
      (hright k overwrite bars hbatch hquiet haction)
  · intro hharmless k overwrite bars hbatch hquiet haction
    have hgrouped : Grouped k.frequency (w.series k) := hshape k
    have hsame : (Store.write k overwrite (w.series k) bars).1 = w.series k := by
      rw [Store.write_eq_landing hgrouped, hharmless k overwrite bars hbatch hquiet haction]
      rfl
    rw [hsame] at haction ⊢
    exact h k haction

/-! ### The result -/

/-- Numbers differ and no decimal has overflowed. -/
def Sane (w : World) : Prop := w.issued.Nodup ∧ w.hasOverflowed = false

theorem sane_of_step (hstep : w.step? m = some w') (h : w'.Sane) : w.Sane :=
  ⟨nodup_issued_of_step hstep h.1, not_overflowed_of_step hstep h.2⟩

/-- The world is in good order, and so is its store. -/
def Shaped (w : World) : Prop := w.Orderly ∧ w.broker.cache.store.InShape

theorem Shaped.step (h : w.Shaped) (hstep : w.step? m = some w') (hsane : w'.Sane) : w'.Shaped :=
  ⟨h.1.step hstep hsane.1, inShape_step h.1 hstep h.2⟩

/--
**From an empty store on, every series with an action has the adjusted prices that it gives
itself, if and only if every batch without an action is right as it is written.** If all bars
come without adjusted prices, that is: if and only if no batch without an action is written
to a series that has one then. Every batch with an action puts its whole series right.
-/
theorem consistent_iff_right_as_written {ids : Allocator} {registry : Registry}
    {moves : List Move} (hrun : (start {} ids registry).run? moves = some w)
    (hlength : w.issued.length ≤ 2 ^ 64) (hover : w.hasOverflowed = false) :
    ((start {} ids registry).Always Consistent moves ↔
      (start {} ids registry).AtEachMove RightAsWritten moves) ∧
    ((∀ m ∈ moves, m.Raw) → ((start {} ids registry).Always Consistent moves ↔
      (start {} ids registry).AtEachMove Harmless moves)) ∧
    (start {} ids registry).AtEachMove Mends moves := by
  have hsane : w.Sane := ⟨nodup_of_length hrun hlength, hover⟩
  have hshaped : (start {} ids registry).Shaped :=
    ⟨orderly_start {} ids registry, Store.inShape_empty⟩
  have hearlier : ∀ (v : World) (m : Move) (v' : World), v.step? m = some v' → v'.Sane → v.Sane :=
    fun v m v' hstep => sane_of_step hstep
  refine ⟨?_, fun hraw => ?_, ?_⟩
  · refine always_iff_atEachMove hearlier (fun v m v' _ hstep hsane' hv => ?_) hshaped
      (consistent_start ids registry) hrun hsane
    exact ⟨hv.step hstep hsane', consistent_step_iff hv.1 hv.2 hstep hsane'.2⟩
  · refine always_iff_atEachMove hearlier (fun v m v' hm hstep hsane' hv => ?_) hshaped
      (consistent_start ids registry) hrun hsane
    exact ⟨hv.step hstep hsane', fun h => (consistent_step_iff hv.1 hv.2 hstep hsane'.2 h).trans
      (rightAsWritten_iff_harmless hv.2 h (hraw m hm))⟩
  · refine (always_iff_atEachMove (I := Shaped) (P := fun _ => True) hearlier
      (fun v m v' _ hstep hsane' hv => ?_) hshaped trivial hrun hsane).mp (always_of_forall
        (fun _ => trivial) _ _)
    exact ⟨hv.step hstep hsane', fun _ =>
      ⟨fun _ => mends_of_step hv.1 hv.2 hstep hsane'.2, fun _ => trivial⟩⟩

/-- The run ends with a bar before a split whose prices do not know of the split. -/
theorem run_lateHistory : ∃ w, (start {} .fresh Sample.registry).run? Sample.lateHistory = some w ∧
    w.issued.length ≤ 2 ^ 64 ∧ w.hasOverflowed = false ∧ ¬ w.Consistent := by
  refine ⟨_, rfl, by decide, rfl, fun hconsistent => ?_⟩
  have hright := hconsistent Sample.key ⟨_, List.mem_cons_of_mem _ List.mem_cons_self, rfl⟩
  exact Adjustment.adjusted_of_adjust? hright (Sample.bar 3) List.mem_cons_self rfl

/-- Storing a bar from before a stored split leaves the series with prices that are not right. -/
theorem inconsistent_after_late_history : ¬ ∀ moves w,
    (start {} .fresh Sample.registry).run? moves = some w → w.issued.length ≤ 2 ^ 64 →
      w.hasOverflowed = false → w.Consistent := by
  intro hall
  obtain ⟨w, hrun, hlength, hover, hbroken⟩ := run_lateHistory
  exact hbroken (hall Sample.lateHistory w hrun hlength hover)

/-- In the run, all bars come without adjusted prices. -/
theorem raw_lateHistory : ∀ m ∈ Sample.lateHistory, m.Raw := by
  unfold Sample.lateHistory
  simp only [List.forall_mem_cons]
  refine ⟨fun b hb => ?_, fun b hb => ?_, fun m hm => by cases hm⟩
  · rw [List.mem_singleton.mp hb]
    rfl
  · rw [List.mem_singleton.mp hb]
    rfl

/-- As the run ends with wrong prices, a batch without an action was written to a split series. -/
theorem not_harmless_lateHistory :
    ¬ (start {} .fresh Sample.registry).AtEachMove RightAsWritten Sample.lateHistory ∧
    ¬ (start {} .fresh Sample.registry).AtEachMove Harmless Sample.lateHistory ∧
    (start {} .fresh Sample.registry).AtEachMove Mends Sample.lateHistory := by
  obtain ⟨w, hrun, hlength, hover, hbroken⟩ := run_lateHistory
  obtain ⟨hright, hharmless, hmends⟩ := consistent_iff_right_as_written hrun hlength hover
  refine ⟨fun h => ?_, fun h => ?_, hmends⟩
  · exact hbroken ((hright.mpr h).last hrun)
  · exact hbroken (((hharmless raw_lateHistory).mpr h).last hrun)

end World

end BarArchive
