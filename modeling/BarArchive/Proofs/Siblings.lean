/-
Two gaps that are filled in either order.

A request that is split has at most two gaps, one before the stored range and one after
it. Their bars come in either order, and at instants that have nothing to do with each
other, so it should not matter which of them come first. If they are stashed, it does
not. If they are saved, each batch may have the adjusted prices of all that is stored by
then computed anew, and those prices depend on what has been stored by then.

**The reply and the store are the same in both orders if and only if both batches have a
corporate action, or neither has one, or the one without brings the adjusted prices that
the whole series gives it.** Batches without adjusted prices therefore agree only if both
or neither of them have an action, or the one without has no bars.
-/
import BarArchive.Proofs.Adjusting
import BarArchive.Proofs.Completeness
import BarArchive.Proofs.Merging

namespace BarArchive

open Series

namespace Store

variable {k : SeriesKey} {s : Series} {older newer : List Bar}

/-! ### Adding two batches -/

/-- The series after two batches were added to it, one after the other. -/
def addedBoth? (k : SeriesKey) (s : Series) (first second : List Bar) : Option Series :=
  (added? k true s first).bind fun s => added? k true s second

/-- The older batch lies before the series and the newer one after it. -/
structure Around (k : SeriesKey) (s : Series) (older newer : List Bar) : Prop where
  grouped : Grouped k.frequency s
  before : Precedes (filed k older) s
  after : Precedes s (filed k newer)
  apart : Precedes (filed k older) (filed k newer)

theorem added?_quiet {bars : List Bar} (h : bars.any Bar.hasAction = false) (s : Series) :
    added? k true s bars = some (overlay s (filed k bars)) := by
  unfold added?
  rw [if_neg (by simp [h]), write_eq_overlay]

theorem added?_action {bars : List Bar} (h : bars.any Bar.hasAction = true) (s : Series) :
    added? k true s bars = readjust? k.frequency (overlay s (filed k bars)) := by
  unfold added?
  rw [if_pos h, write_eq_overlay]

/-- A batch without an action is filed without one. -/
theorem not_hasAction_filed {bars : List Bar} (h : bars.any Bar.hasAction = false) :
    ¬ (filed k bars).HasAction := by
  obtain ⟨hfiled, hgroups⟩ := filed_spec k bars
  rintro ⟨b, hb, haction⟩
  rw [hfiled.mem_bars, hgroups] at hb
  obtain ⟨c, hc, rfl⟩ := List.mem_map.mp hb
  exact List.any_eq_false.mp h c (mem_slot hc).1 haction

namespace Around

variable (h : Around k s older newer)
include h

theorem grouped_older : Grouped k.frequency (overlay s (filed k older)) :=
  (h.grouped.overlay_spec (filed_spec k older).1).1

theorem grouped_newer : Grouped k.frequency (overlay s (filed k newer)) :=
  (h.grouped.overlay_spec (filed_spec k newer).1).1

theorem comm : overlay (overlay s (filed k newer)) (filed k older)
    = overlay (overlay s (filed k older)) (filed k newer) :=
  (h.grouped.overlay_comm (filed_spec k older).1 (filed_spec k newer).1
    fun _ ht => h.apart.groupAt_eq_nil ht).symm

/-- Both batches together, as what comes before the newer one and that one, -/
theorem whole_eq_newer_last : overlay (overlay s (filed k older)) (filed k newer)
    = overlay s (filed k older) ++ filed k newer := by
  refine h.grouped_older.overlay_after (filed_spec k newer).1 ?_
  rw [h.grouped.overlay_before (filed_spec k older).1 h.before]
  exact List.forall_mem_append.mpr ⟨h.apart, h.after⟩

/-- or as the older one and what comes after it. -/
theorem whole_eq_older_first : overlay (overlay s (filed k older)) (filed k newer)
    = filed k older ++ overlay s (filed k newer) := by
  rw [← h.comm]
  refine h.grouped_newer.overlay_before (filed_spec k older).1 ?_
  rw [h.grouped.overlay_after (filed_spec k newer).1 h.after]
  exact fun e he => List.forall_mem_append.mpr ⟨h.before e he, h.apart e he⟩

theorem grouped_whole : Grouped k.frequency (overlay (overlay s (filed k older)) (filed k newer)) :=
  (h.grouped_older.overlay_spec (filed_spec k newer).1).1

end Around

/-- A batch that is laid over a series computed anew gives the same prices, once computed anew. -/
theorem readjust?_overlay {f : Frequency} {s adjusted fresh : Series} (h : Grouped f s)
    (hfresh : Grouped f fresh) (hadjusted : readjust? f s = some adjusted) :
    readjust? f (overlay adjusted fresh) = readjust? f (overlay s fresh) := by
  obtain ⟨hgrouped, hraw⟩ := readjust_spec h hadjusted
  obtain ⟨hover, hgroups⟩ := hgrouped.overlay_spec hfresh
  obtain ⟨hover', hgroups'⟩ := h.overlay_spec hfresh
  refine readjust?_congr hover hover' fun t => ?_
  rw [hgroups, hgroups']
  by_cases ht : groupAt fresh t = []
  · rw [if_pos ht, if_pos ht, hraw]
  · rw [if_neg ht, if_neg ht]

/-- When only the older batch has an action, the order matters for the prices of the newer one. -/
theorem agree_iff_of_older {s₁ s₂ : Series} (h : Around k s older newer)
    (holder : older.any Bar.hasAction = true) (hnewer : newer.any Bar.hasAction = false)
    (h₁ : addedBoth? k s older newer = some s₁) (h₂ : addedBoth? k s newer older = some s₂) :
    readjust? k.frequency (overlay (overlay s (filed k older)) (filed k newer)) = some s₂ ∧
      (s₁ = s₂ ↔ filed k newer ⊆ s₂) := by
  unfold addedBoth? at h₁ h₂
  rw [added?_action holder] at h₁
  rw [added?_quiet hnewer, Option.bind_some, added?_action holder, h.comm] at h₂
  obtain ⟨m, hm, h₁⟩ := Option.bind_eq_some_iff.mp h₁
  rw [added?_quiet hnewer] at h₁
  obtain rfl := Option.some.inj h₁
  have hwhole := h₂
  rw [h.whole_eq_newer_last] at hwhole
  obtain ⟨m', hm', helsewhere⟩ :=
    readjust?_append_quiet (h.whole_eq_newer_last ▸ h.grouped_whole) (not_hasAction_filed hnewer)
      hwhole
  obtain rfl : m = m' := Option.some.inj (hm.symm.trans hm')
  exact ⟨h₂, (readjust_spec h.grouped_older hm).1.overlay_eq_iff_subset (filed_spec k newer).1
    (readjust_spec h.grouped_whole h₂).1 helsewhere⟩

/-- When only the newer batch has an action, the order matters for the prices of the older one. -/
theorem agree_iff_of_newer {s₁ s₂ : Series} (h : Around k s older newer)
    (holder : older.any Bar.hasAction = false) (hnewer : newer.any Bar.hasAction = true)
    (h₁ : addedBoth? k s older newer = some s₁) (h₂ : addedBoth? k s newer older = some s₂) :
    readjust? k.frequency (overlay (overlay s (filed k older)) (filed k newer)) = some s₁ ∧
      (s₁ = s₂ ↔ filed k older ⊆ s₁) := by
  unfold addedBoth? at h₁ h₂
  rw [added?_quiet holder, Option.bind_some, added?_action hnewer] at h₁
  rw [added?_action hnewer] at h₂
  obtain ⟨m, hm, h₂⟩ := Option.bind_eq_some_iff.mp h₂
  rw [added?_quiet holder] at h₂
  obtain rfl := Option.some.inj h₂
  have hwhole := h₁
  rw [h.whole_eq_older_first] at hwhole
  obtain ⟨m', hm', helsewhere⟩ :=
    readjust?_append (h.whole_eq_older_first ▸ h.grouped_whole) hwhole
  obtain rfl : m = m' := Option.some.inj (hm.symm.trans hm')
  exact ⟨h₁, eq_comm.trans ((readjust_spec h.grouped_newer hm).1.overlay_eq_iff_subset
    (filed_spec k older).1 (readjust_spec h.grouped_whole h₁).1 helsewhere)⟩

/-- When both batches or none of them have an action, the order does not matter. -/
theorem agree_of_alike {s₁ s₂ : Series} (h : Around k s older newer)
    (halike : older.any Bar.hasAction = newer.any Bar.hasAction)
    (h₁ : addedBoth? k s older newer = some s₁) (h₂ : addedBoth? k s newer older = some s₂) :
    s₁ = s₂ := by
  unfold addedBoth? at h₁ h₂
  cases haction : newer.any Bar.hasAction with
  | false =>
      rw [haction] at halike
      rw [added?_quiet halike, Option.bind_some, added?_quiet haction] at h₁
      rw [added?_quiet haction, Option.bind_some, added?_quiet halike, h.comm] at h₂
      exact Option.some.inj (h₁.symm.trans h₂)
  | true =>
      rw [haction] at halike
      rw [added?_action halike] at h₁
      rw [added?_action haction] at h₂
      obtain ⟨m₁, hm₁, h₁⟩ := Option.bind_eq_some_iff.mp h₁
      obtain ⟨m₂, hm₂, h₂⟩ := Option.bind_eq_some_iff.mp h₂
      rw [added?_action haction, readjust?_overlay h.grouped_older (filed_spec k newer).1 hm₁] at h₁
      rw [added?_action halike, readjust?_overlay h.grouped_newer (filed_spec k older).1 hm₂,
        h.comm] at h₂
      exact Option.some.inj (h₁.symm.trans h₂)

/-- The batch of two that has no action if the other one has one. -/
def quietOf (older newer : List Bar) : List Bar :=
  if older.any Bar.hasAction then newer else older

/-- Two batches around a series agree, or one of them has an action and the other one may differ. -/
theorem addedBoth?_cases {s₁ s₂ : Series} (h : Around k s older newer)
    (h₁ : addedBoth? k s older newer = some s₁) (h₂ : addedBoth? k s newer older = some s₂) :
    (older.any Bar.hasAction = newer.any Bar.hasAction ∧ s₁ = s₂) ∨
      (older.any Bar.hasAction ≠ newer.any Bar.hasAction ∧ ∃ whole,
        readjust? k.frequency (overlay (overlay s (filed k older)) (filed k newer)) = some whole ∧
          (s₁ = s₂ ↔ filed k (quietOf older newer) ⊆ whole)) := by
  unfold quietOf
  by_cases halike : older.any Bar.hasAction = newer.any Bar.hasAction
  · exact Or.inl ⟨halike, agree_of_alike h halike h₁ h₂⟩
  · refine Or.inr ⟨halike, ?_⟩
    cases holder : older.any Bar.hasAction with
    | true =>
        have hnewer : newer.any Bar.hasAction = false := by
          rw [← Bool.not_eq_true]
          exact fun htrue => halike (holder.trans htrue.symm)
        exact ⟨s₂, agree_iff_of_older h holder hnewer h₁ h₂⟩
    | false =>
        have hnewer : newer.any Bar.hasAction = true := by
          rw [← Bool.not_eq_false]
          exact fun hfalse => halike (holder.trans hfalse.symm)
        exact ⟨s₁, agree_iff_of_newer h holder hnewer h₁ h₂⟩

/-- The batch without an action brings the adjusted prices that the whole series gives it. -/
def QuietIsDue (k : SeriesKey) (s : Series) (older newer : List Bar) : Prop :=
  ∃ whole, readjust? k.frequency (write k true (write k true s older).1 newer).1 = some whole ∧
    filed k (quietOf older newer) ⊆ whole

/-- In which cases two batches around a series may be added in either order. -/
theorem addedBoth?_agree_iff {s₁ s₂ : Series} (h : Around k s older newer)
    (h₁ : addedBoth? k s older newer = some s₁) (h₂ : addedBoth? k s newer older = some s₂) :
    s₁ = s₂ ↔ older.any Bar.hasAction = newer.any Bar.hasAction ∨ QuietIsDue k s older newer := by
  rcases addedBoth?_cases h h₁ h₂ with ⟨halike, hsame⟩ | ⟨halike, whole, hwhole, hiff⟩
  · exact ⟨fun _ => Or.inl halike, fun _ => hsame⟩
  · unfold QuietIsDue
    rw [write_eq_overlay, write_eq_overlay, hwhole, hiff]
    simp [halike]

/-- A batch without adjusted prices brings what a series gives it only if it has no bars. -/
theorem filed_subset_iff {s whole : Series} {bars : List Bar} (h : Grouped k.frequency s)
    (hwhole : readjust? k.frequency s = some whole) (hraw : ∀ b ∈ bars, b.adjusted = .all none) :
    filed k bars ⊆ whole ↔ bars = [] := by
  constructor
  · intro hsubset
    by_contra hbars
    obtain ⟨b, hb⟩ := List.exists_mem_of_ne_nil _ hbars
    obtain ⟨hfiled, hgroups⟩ := filed_spec k bars
    have hgroup : groupAt (filed k bars) b.time ≠ [] := by
      rw [hgroups, ne_eq, List.map_eq_nil_iff, slot_eq_nil]
      exact fun hnone => hnone b hb rfl
    obtain ⟨c, hc⟩ := List.exists_mem_of_ne_nil _ hgroup
    have hmem := mem_of_groupAt hgroup
    have hwholeBar : c ∈ whole.bars := List.mem_flatMap.mpr ⟨_, hsubset hmem, hc⟩
    exact Adjustment.adjusted_of_adjust? (bars_of_readjust? h hwhole) c hwholeBar
      (raw_filed hraw _ hmem c hc)
  · rintro rfl
    exact List.nil_subset _

/-- In which cases two batches without adjusted prices may be added in either order. -/
theorem addedBoth?_agree_iff_of_raw {s₁ s₂ : Series} (h : Around k s older newer)
    (h₁ : addedBoth? k s older newer = some s₁) (h₂ : addedBoth? k s newer older = some s₂)
    (hraw : ∀ b ∈ older ++ newer, b.adjusted = .all none) :
    s₁ = s₂ ↔ older.any Bar.hasAction = newer.any Bar.hasAction ∨ quietOf older newer = [] := by
  have hquiet : ∀ b ∈ quietOf older newer, b.adjusted = .all none := by
    intro b hb
    unfold quietOf at hb
    split at hb
    · exact hraw b (List.mem_append_right _ hb)
    · exact hraw b (List.mem_append_left _ hb)
  rcases addedBoth?_cases h h₁ h₂ with ⟨halike, hsame⟩ | ⟨halike, whole, hwhole, hiff⟩
  · exact ⟨fun _ => Or.inl halike, fun _ => hsame⟩
  · rw [hiff, filed_subset_iff h.grouped_whole hwhole hquiet]
    simp [halike]

/-! ### Around what is stored -/

theorem exists_of_mem_filed {bars : List Bar} {e : Instant × List Bar} (he : e ∈ filed k bars) :
    ∃ b ∈ bars, b.time = e.1 := by
  obtain ⟨hfiled, hgroups⟩ := filed_spec k bars
  have hne := hfiled.nonempty e he
  rw [← hfiled.groupAt_of_mem he, hgroups, ne_eq, List.map_eq_nil_iff, slot_eq_nil] at hne
  push Not at hne
  exact hne

theorem find?_of_coverage {store : Store} {c : Coverage} (hc : store.coverage k = some c) :
    store.series.find? k = some (store.get k) := by
  have hne : store.get k ≠ [] := fun hnil => by
    rw [coverage_eq_none.mpr hnil] at hc
    cases hc
  unfold get at hne ⊢
  cases hfound : store.series.find? k with
  | none => exact absurd (by rw [hfound]; rfl) hne
  | some s => rfl

/-- Bars from before the first stored instant and bars from after the last one. -/
theorem around_of_coverage {store : Store} {c : Coverage} (h : Grouped k.frequency (store.get k))
    (hc : store.coverage k = some c) (holder : ∀ b ∈ older, b.time < c.earliest)
    (hnewer : ∀ b ∈ newer, c.latest < b.time) :
    Around k (store.get k) older newer ∧ TimesApart older newer := by
  obtain ⟨hearliest, -, hinside⟩ := coverage_spec h hc
  have hle : c.earliest ≤ c.latest := (hinside _ hearliest).2
  have hstored : ∀ e ∈ store.get k, c.earliest ≤ e.1 ∧ e.1 ≤ c.latest := fun e he =>
    hinside e.1 (by rw [h.groupAt_of_mem he]; exact h.nonempty e he)
  have hbefore : ∀ e ∈ filed k older, e.1 < c.earliest := fun e he => by
    obtain ⟨b, hb, htime⟩ := exists_of_mem_filed he
    exact htime ▸ holder b hb
  have hafter : ∀ e ∈ filed k newer, c.latest < e.1 := fun e he => by
    obtain ⟨b, hb, htime⟩ := exists_of_mem_filed he
    exact htime ▸ hnewer b hb
  refine ⟨⟨h, fun e he d hd => ?_, fun e he d hd => ?_, fun e he d hd => ?_⟩, fun b hb d hd => ?_⟩
  · exact Int.lt_of_lt_of_le (hbefore e he) (hstored d hd).1
  · exact Int.lt_of_le_of_lt (hstored e he).2 (hafter d hd)
  · exact Int.lt_trans (Int.lt_of_lt_of_le (hbefore e he) hle) (hafter d hd)
  · exact Int.ne_of_lt (Int.lt_trans (Int.lt_of_lt_of_le (holder b hb) hle) (hnewer d hd))

end Store

/-- A request that is sent in two parts has a gap before what is stored and one after it. -/
theorem Broker.two_gaps {b b' : Broker} {now : Instant} {r : Request} {a : Accepted} {slot : Slot}
    {back forward : Request} {k : SeriesKey} (h : b.submit now r = .ok (a, b'))
    (hwork : a.work = .fetch slot [back, forward]) (hkey : r.key? = some k) :
    (∀ q ∈ [back, forward], q.isPart = true) ∧ ∃ c, b.cache.store.coverage k = some c ∧
      back.stop < c.earliest ∧ c.latest < forward.start := by
  cases submit_cases h with
  | stored => cases hwork
  | external => cases hwork
  | @split k' p ids gaps slot' t' next routed table =>
      obtain rfl : k' = k := Option.some.inj (routed.key.symm.trans hkey)
      obtain ⟨-, -, -, c, hc, -, hgaps⟩ := plan_gaps routed.gaps
      have hparts : (partsFor (r.filed p) gaps ids).1 = [back, forward] := (Work.fetch.inj hwork).2
      have hranges := partsFor_ranges (r.filed p) gaps ids
      have hhalf : (0 : Int) < r.frequency.halfBar := Int.natCast_pos.mpr r.frequency.halfBar_pos
      constructor
      · intro q hq
        rw [← hparts] at hq
        obtain ⟨g, -, id, rfl⟩ := partsFor_mem hq
        rfl
      · -- two parts have two gaps, one on either side
        refine ⟨c, hc, ?_⟩
        rw [hparts, hgaps] at hranges
        cases hback : Route.backfill? r c with
        | none => cases hforward : Route.forwardFill? r c now <;> simp [hback, hforward] at hranges
        | some g =>
            cases hforward : Route.forwardFill? r c now with
            | none => simp [hback, hforward] at hranges
            | some g' =>
                obtain ⟨rfl, -⟩ := Tape.eq_of_backfill? hback
                obtain ⟨rfl, -⟩ := Tape.eq_of_forwardFill? hforward
                rw [hback, hforward] at hranges
                simp only [List.map_cons, List.map_nil, Option.toList_some, List.cons_append,
                  List.nil_append, List.cons.injEq, Prod.mk.injEq, and_true] at hranges
                obtain ⟨⟨-, hstop⟩, hstart, -⟩ := hranges
                constructor
                · grind
                · grind

/-! ### Two arrivals -/

/-- The reply that shows the range of a request in a series. -/
def Request.replyFrom (r : Request) (s : Series) : Reply :=
  ⟨r, Broker.presented r (within r.start r.stop s).bars⟩

/-- With the bars for a request, which are saved if they are to be, the cache becomes `c'`. -/
def Cache.Takes (c : Cache) (q : Request) (bars : List Bar) (c' : Cache) : Prop :=
  ∀ b : Broker, b.cache = c → b.cacheAfter q bars = c' ∧
    (q.save = true → ∃ n, b.keep q bars = ({ b with cache := b.cacheAfter q bars }, .ok n))

theorem Cache.takes_stashed {q : Request} (hsave : q.save = false) (c : Cache) (bars : List Bar) :
    c.Takes q bars c := by
  rintro b rfl
  unfold Broker.cacheAfter
  simp [hsave]

/-- Bars that are saved are filed with their series, even if there are none. -/
theorem Cache.takes_filed {c : Cache} {q : Request} {k : SeriesKey} {bars : List Bar}
    {old series : Series} (hsave : q.save = true) (hkey : q.key? = some k)
    (hadd : c.refusals.add = none) (hold : c.store.series.find? k = some old)
    (hadded : Store.added? k true old bars = some series) : c.Takes q bars (c.file k series) := by
  rintro b rfl
  have hkeep : ∃ n, b.keep q bars = ({ b with cache := b.cache.file k series }, .ok n) := by
    by_cases hbars : bars = []
    · subst hbars
      obtain rfl : old = series := Option.some.inj hadded
      rw [Cache.file_find? hold]
      exact ⟨0, rfl⟩
    · have hkept := Broker.keep_eq_added? hkey hbars hadd
      rw [show b.cache.store.get k = old from congrArg (Option.getD · []) hold, hadded] at hkept
      exact hkept
  obtain ⟨n, hkeep⟩ := hkeep
  have hafter : b.cacheAfter q bars = b.cache.file k series := by
    unfold Broker.cacheAfter
    rw [if_pos hsave, hkeep]
  exact ⟨hafter, fun _ => ⟨n, hafter ▸ hkeep⟩⟩

/-- Replies and caches that show the same series are the same. -/
theorem Cache.same_iff {r : Request} {c : Cache} {k : SeriesKey} {s s' : Series} :
    r.replyFrom s = r.replyFrom s' ∧ c.file k s = c.file k s' ↔ s = s' := by
  constructor
  · rintro ⟨-, hcache⟩
    have hget := congrArg (·.store.get k) hcache
    simpa using hget
  · rintro rfl
    exact ⟨rfl, rfl⟩

namespace World

/-- A run leads to one answer to the request `p`, and to this cache. -/
def Ends (w : World) (moves : List Move) (p : AssignedId) (reply : Reply) (cache : Cache) : Prop :=
  ∃ w', w.run? moves = some w' ∧ w'.answers p = [.ok reply] ∧ w'.broker.cache = cache

variable {w : World} {k : SeriesKey} {p : AssignedId} {r first second : Request}
  {left : List Request} {x y : List Bar}

/-- When bars for its last two parts came, a request is answered from what is stored and stashed. -/
theorem Awaiting.both {c c' : Cache} (h : Awaiting k p r [] left w)
    (hleft : left.Perm [first, second]) (hfirst : w.broker.cache.Takes first x c)
    (hsecond : c.Takes second y c') (hshape : Grouped k.frequency (c'.store.get k)) :
    w.Ends (arrivals [(first, x), (second, y)]) p
      (r.replyFrom (lay k.frequency (c'.store.get k) (if r.save then [] else x ++ y))) c' := by
  have hmem : first ∈ left := hleft.symm.subset List.mem_cons_self
  have herase : left.erase first = [second] := by
    have hperm := hleft.erase first
    rw [List.erase_cons_head] at hperm
    exact hperm.eq_singleton
  obtain ⟨hcache, hkeep⟩ := hfirst w.broker rfl
  have hsave := (h.alike first hmem).2
  obtain ⟨v, hstep, hawaiting, hv⟩ := h.more hmem (fun hr => hkeep (hsave.trans hr))
    (herase ▸ List.cons_ne_nil _ _)
  rw [herase] at hawaiting
  obtain ⟨hcache', hkeep'⟩ := hsecond v.broker (hv.trans hcache)
  have hsave' := (hawaiting.alike second List.mem_cons_self).2
  obtain ⟨w', hstep', hanswers, hw'⟩ := hawaiting.last List.mem_cons_self
    (fun hr => hkeep' (hsave'.trans hr)) (hcache' ▸ hshape) (List.erase_cons_head _ _)
  refine ⟨w', run?_cons.mpr ⟨v, hstep, run?_cons.mpr ⟨w', hstep', rfl⟩⟩, ?_, hw'.trans hcache'⟩
  rw [hanswers, hcache']
  cases r.save <;> rfl

/-- Bars that are stashed leave the store alone, and the reply has them over what is stored. -/
theorem Awaiting.both_stashed (h : Awaiting k p r [] left w) (hleft : left.Perm [first, second])
    (hsave : r.save = false) (hshape : Grouped k.frequency (w.series k)) :
    w.Ends (arrivals [(first, x), (second, y)]) p
      (r.replyFrom (lay k.frequency (w.series k) (x ++ y))) w.broker.cache := by
  have htakes : ∀ q ∈ left, ∀ bars, w.broker.cache.Takes q bars w.broker.cache :=
    fun q hq bars => Cache.takes_stashed ((h.alike q hq).2.trans hsave) _ _
  have hfirst := htakes first (hleft.symm.subset List.mem_cons_self) x
  have hsecond := htakes second (hleft.symm.subset (List.mem_cons_of_mem _ List.mem_cons_self)) y
  have hends := h.both hleft hfirst hsecond hshape
  rw [hsave] at hends
  exact hends

/-- Bars that are saved are filed one batch after the other, and the reply is read from there. -/
theorem Awaiting.both_saved {old series : Series} (h : Awaiting k p r [] left w)
    (hleft : left.Perm [first, second]) (hsave : r.save = true)
    (hold : w.broker.cache.store.series.find? k = some old) (hshape : Grouped k.frequency old)
    (hadded : Store.addedBoth? k old x y = some series) :
    w.Ends (arrivals [(first, x), (second, y)]) p (r.replyFrom series)
      (w.broker.cache.file k series) := by
  obtain ⟨middle, hmiddle, hseries⟩ := Option.bind_eq_some_iff.mp hadded
  have hgrouped := Store.grouped_added? (Store.grouped_added? hshape hmiddle) hseries
  obtain ⟨hkey, hsaves⟩ := h.alike first (hleft.symm.subset List.mem_cons_self)
  obtain ⟨hkey', hsaves'⟩ :=
    h.alike second (hleft.symm.subset (List.mem_cons_of_mem _ List.mem_cons_self))
  have hfirst := Cache.takes_filed (hsaves.trans hsave) hkey h.writable hold hmiddle
  have hsecond := Cache.takes_filed (c := w.broker.cache.file k middle) (hsaves'.trans hsave) hkey'
    h.writable (Cache.find?_file _ _ _) hseries
  rw [Cache.file_file] at hsecond
  have hends := h.both hleft hfirst hsecond (by rw [Cache.get_file]; exact hgrouped)
  rw [hsave, Cache.get_file] at hends
  exact hends

/-- A request that is split waits for its parts, told to save their bars or not. -/
theorem awaiting_of_submit {cache : Cache} {ids : Allocator} {registry : Registry}
    {before : List Move} {now : Instant} {a : Accepted} {b : Broker} {slot : Slot}
    {parts : List Request} (hshape : cache.store.InShape)
    (hbefore : (start cache ids registry).run? before = some w)
    (hlength : w.issued.length + 3 ≤ 2 ^ 64) (hadd : w.broker.cache.refusals.add = none)
    (hquery : w.broker.cache.refusals.query = none)
    (hsubmit : w.broker.submit now r = .ok (a, b)) (hwork : a.work = .fetch slot parts)
    (hsplit : ∀ q ∈ parts, q.isPart = true) (hkey : r.key? = some k) (save : Bool) :
    ∃ v, w.step? (.submit now (r.saving save)) = some v ∧
      v.broker.cache = w.broker.cache ∧ Awaiting k a.assignedId
        ((r.saving save).filed a.assignedId) [] (parts.map (·.saving save)) v := by
  have hids : w.issued.Nodup := nodup_of_length hbefore (by omega)
  obtain ⟨b', hsubmit'⟩ := Broker.submit_saving hsubmit hwork save
  have hstep := step_enroll hsubmit'
  have hids' := nodup_enroll hbefore hsubmit' hlength
  have hparts : ∀ q ∈ parts.map (·.saving save), q.isPart = true := by
    intro q hq
    obtain ⟨q', hq', rfl⟩ := List.mem_map.mp hq
    exact hsplit q' hq'
  obtain ⟨hfilling, -⟩ := filling_enroll (orderly_of_run hbefore hids)
    (inShape_of_run hbefore hids hshape) hadd hquery hsubmit' hids' rfl hparts hkey
  have hawaiting := hfilling.toAwaiting
  rw [ite_self] at hawaiting
  exact ⟨_, hstep, cache_of_submit hsubmit', hawaiting⟩

theorem Ends.submit {v : World} {m : Move} {moves : List Move} {reply : Reply} {cache : Cache}
    (h : v.Ends moves p reply cache) (hstep : w.step? m = some v) :
    w.Ends (m :: moves) p reply cache := by
  obtain ⟨w', hrun, hend⟩ := h
  exact ⟨w', run?_cons.mpr ⟨v, hstep, hrun⟩, hend⟩

/--
**Two gaps may be filled in either order, if their bars are stashed. If they are saved, they may
if and only if both batches have a corporate action, or none of them has one, or the one
without brings the adjusted prices that it is due.** Without adjusted prices, that is: if and
only if both have an action, or none of them, or the one without has no bars.
-/
theorem siblings_agree_iff {cache : Cache} {ids : Allocator} {registry : Registry}
    {before : List Move} {now : Instant} {a : Accepted} {b : Broker} {slot : Slot}
    {back forward : Request} {older newer : List Bar} (hshape : cache.store.InShape)
    (hbefore : (start cache ids registry).run? before = some w)
    (hlength : w.issued.length + 3 ≤ 2 ^ 64) (hadd : w.broker.cache.refusals.add = none)
    (hquery : w.broker.cache.refusals.query = none)
    (hsubmit : w.broker.submit now r = .ok (a, b))
    (hwork : a.work = .fetch slot [back, forward]) (hkey : r.key? = some k)
    (holder : ∀ c ∈ older, back.start ≤ c.time ∧ c.time ≤ back.stop)
    (hnewer : ∀ c ∈ newer, forward.start ≤ c.time ∧ c.time ≤ forward.stop) :
    (∃ reply,
      w.Ends (fillRun now r [(back, older), (forward, newer)] false) a.assignedId reply
        w.broker.cache ∧
      w.Ends (fillRun now r [(forward, newer), (back, older)] false) a.assignedId reply
        w.broker.cache) ∧
    ∀ s₁ s₂, Store.addedBoth? k (w.series k) older newer = some s₁ →
      Store.addedBoth? k (w.series k) newer older = some s₂ →
      ∃ reply₁ reply₂ cache₁ cache₂,
        w.Ends (fillRun now r [(back, older), (forward, newer)] true) a.assignedId reply₁ cache₁ ∧
        w.Ends (fillRun now r [(forward, newer), (back, older)] true) a.assignedId reply₂ cache₂ ∧
        (reply₁ = reply₂ ∧ cache₁ = cache₂ ↔ older.any Bar.hasAction = newer.any Bar.hasAction ∨
          Store.QuietIsDue k (w.series k) older newer) ∧
        ((∀ c ∈ older ++ newer, c.adjusted = .all none) →
          (reply₁ = reply₂ ∧ cache₁ = cache₂ ↔
            older.any Bar.hasAction = newer.any Bar.hasAction ∨
              Store.quietOf older newer = [])) := by
  obtain ⟨hsplit, c, hc, hback, hforward⟩ := Broker.two_gaps hsubmit hwork hkey
  have hstored : w.broker.cache.store.InShape :=
    inShape_of_run hbefore (nodup_of_length hbefore (by omega)) hshape
  obtain ⟨haround, hapart⟩ := Store.around_of_coverage (hstored k) hc
    (fun d hd => Int.lt_of_le_of_lt (holder d hd).2 hback)
    (fun d hd => Int.lt_of_lt_of_le hforward (hnewer d hd).1)
  have hawaiting := awaiting_of_submit hshape hbefore hlength hadd hquery hsubmit hwork hsplit hkey
  refine ⟨?_, fun s₁ s₂ h₁ h₂ => ?_⟩
  · -- the store stays as it is, and the bars over it are the same in both orders
    obtain ⟨v, hstep, hcache, hv⟩ := hawaiting false
    have hgrouped : Grouped k.frequency (v.series k) := by
      unfold series
      rw [hcache]
      exact hstored k
    have hends := hv.both_stashed (x := older) (y := newer) (List.Perm.refl _) rfl hgrouped
    have hends' := hv.both_stashed (x := newer) (y := older) (List.Perm.swap _ _ _) rfl hgrouped
    rw [hcache] at hends hends'
    rw [← hgrouped.lay_comm hapart] at hends'
    exact ⟨_, hends.submit hstep, hends'.submit hstep⟩
  · obtain ⟨v, hstep, hcache, hv⟩ := hawaiting true
    have hold : v.broker.cache.store.series.find? k = some (w.series k) := by
      rw [hcache]
      exact Store.find?_of_coverage hc
    have hends := hv.both_saved (List.Perm.refl _) rfl hold (hstored k) h₁
    have hends' := hv.both_saved (List.Perm.swap _ _ _) rfl hold (hstored k) h₂
    refine ⟨_, _, _, _, hends.submit hstep, hends'.submit hstep, ?_, fun hraw => ?_⟩
    · exact Cache.same_iff.trans (Store.addedBoth?_agree_iff haround h₁ h₂)
    · exact Cache.same_iff.trans (Store.addedBoth?_agree_iff_of_raw haround h₁ h₂ hraw)

/-- Whether an answer to a request has a bar. -/
def shows (w : World) (p : AssignedId) (b : Bar) : Bool :=
  (w.answers p).any fun
    | .ok reply => b ∈ reply.bars
    | .error _ => false

theorem Ends.shows {moves : List Move} {reply : Reply} {cache : Cache}
    (h : w.Ends moves p reply cache) (b : Bar) :
    (w.run? moves).map (·.shows p b) = some (decide (b ∈ reply.bars)) := by
  obtain ⟨w', hrun, hanswers, -⟩ := h
  rw [hrun]
  unfold World.shows
  simp [hanswers]

/-- The sample request is split around the stored days. -/
theorem submit_sample : ∃ b,
    (start (Sample.cacheOf [4, 5, 6]) .fresh Sample.registry).broker.submit 0 (Sample.request 1 9)
      = .ok (⟨0, Sample.number 1, .fetch (.listed 0) [Sample.partBefore (Sample.request 1 9) 4 2,
          Sample.partAfter (Sample.request 1 9) 6 3]⟩, b) :=
  ⟨_, rfl⟩

/-- If a split is saved before the bars from before it, these are left without adjusted prices. -/
theorem siblings_disagree_over_split : ¬ ∀ (cache : Cache) (registry : Registry) (now : Instant)
    (r : Request) (a : Accepted) (b : Broker) (slot : Slot) (back forward : Request)
    (k : SeriesKey) (older newer : List Bar) (s₁ s₂ : Series), cache.store.InShape →
    (start cache .fresh registry).broker.submit now r = .ok (a, b) →
    a.work = .fetch slot [back, forward] → r.key? = some k →
    (∀ c ∈ older, back.start ≤ c.time ∧ c.time ≤ back.stop) →
    (∀ c ∈ newer, forward.start ≤ c.time ∧ c.time ≤ forward.stop) →
    Store.addedBoth? k (cache.store.get k) older newer = some s₁ →
    Store.addedBoth? k (cache.store.get k) newer older = some s₂ →
    ∃ reply cache', (start cache .fresh registry).Ends
        (fillRun now r [(back, older), (forward, newer)] true) a.assignedId reply cache' ∧
      (start cache .fresh registry).Ends
        (fillRun now r [(forward, newer), (back, older)] true) a.assignedId reply cache' := by
  intro hall
  obtain ⟨b, hsubmit⟩ := submit_sample
  obtain ⟨reply, cache', hends, hends'⟩ := hall (Sample.cacheOf [4, 5, 6]) Sample.registry 0
    (Sample.request 1 9) _ _ _ _ _ Sample.key [Sample.bar 2] [Sample.splitBar 8] _ _
    Sample.inShape_cacheOf hsubmit rfl rfl (by decide) (by decide) rfl rfl
  have hshown := (hends.shows (Sample.bar 2)).trans (hends'.shows (Sample.bar 2)).symm
  revert hshown
  decide

/-- The order of a split and the bars from before it matters if they are saved, and only then. -/
theorem orders_of_splitFills :
    (∃ reply, (start (Sample.cacheOf [4, 5, 6]) .fresh Sample.registry).Ends
        (fillRun 0 (Sample.request 1 9) Sample.splitFills false) (Sample.number 1) reply
        (Sample.cacheOf [4, 5, 6]) ∧
      (start (Sample.cacheOf [4, 5, 6]) .fresh Sample.registry).Ends
        (fillRun 0 (Sample.request 1 9) Sample.splitFills.reverse false) (Sample.number 1) reply
        (Sample.cacheOf [4, 5, 6])) ∧
    ∃ reply₁ reply₂ cache₁ cache₂,
      (start (Sample.cacheOf [4, 5, 6]) .fresh Sample.registry).Ends
        (fillRun 0 (Sample.request 1 9) Sample.splitFills true) (Sample.number 1) reply₁ cache₁ ∧
      (start (Sample.cacheOf [4, 5, 6]) .fresh Sample.registry).Ends
        (fillRun 0 (Sample.request 1 9) Sample.splitFills.reverse true) (Sample.number 1)
        reply₂ cache₂ ∧
      ¬ (reply₁ = reply₂ ∧ cache₁ = cache₂) := by
  obtain ⟨b, hsubmit⟩ := submit_sample
  have hbefore : (start (Sample.cacheOf [4, 5, 6]) .fresh Sample.registry).run? []
      = some (start (Sample.cacheOf [4, 5, 6]) .fresh Sample.registry) := rfl
  have holder : ∀ c ∈ [Sample.bar 2],
      (Sample.partBefore (Sample.request 1 9) 4 2).start ≤ c.time ∧
        c.time ≤ (Sample.partBefore (Sample.request 1 9) 4 2).stop := by decide
  have hnewer : ∀ c ∈ [Sample.splitBar 8],
      (Sample.partAfter (Sample.request 1 9) 6 3).start ≤ c.time ∧
        c.time ≤ (Sample.partAfter (Sample.request 1 9) 6 3).stop := by decide
  obtain ⟨hstashed, hsaved⟩ := siblings_agree_iff Sample.inShape_cacheOf hbefore (by decide) rfl rfl
    hsubmit rfl rfl holder hnewer
  obtain ⟨reply₁, reply₂, cache₁, cache₂, hends₁, hends₂, -, hraw⟩ := hsaved _ _ rfl rfl
  refine ⟨hstashed, reply₁, reply₂, cache₁, cache₂, hends₁, hends₂, fun hsame => ?_⟩
  -- only the newer bar has an action, and the older one comes without adjusted prices
  have hagree := (hraw (by decide)).mp hsame
  revert hagree
  decide

end World

end BarArchive
