/-
Saved or not, a reply is the same.

The bars for the gaps of a request come in any order. If they are to be saved, each batch
overwrites what is stored, and in the end the range is read back. If not, they are
stashed, and in the end laid over the stored bars of the range that were there all along.
Both come to the series before with all batches laid over it, cut to the range.

That holds for whatever the batches contain: bars in any order, many for one instant,
bars that are stored already, bars outside the gap or no bars at all. It needs that they
have the label of the series and no corporate action, and that trades of one instant come
in one batch, since a batch of trades replaces the stored ones and does not join them.
-/
import BarArchive.Proofs.Numbers
import BarArchive.Proofs.Tape

namespace BarArchive

open Series

/-- The request, told whether its bars are to be saved. -/
def Request.saving (r : Request) (save : Bool) : Request := { r with save }

/-! ### Requests that differ in whether to save -/

namespace Broker

theorem partsFor_saving (r : Request) (save : Bool) : ∀ (gaps : List Gap) (ids : Allocator),
    partsFor (r.saving save) gaps ids
      = ((partsFor r gaps ids).1.map (·.saving save), (partsFor r gaps ids).2) := by
  intro gaps
  induction gaps with
  | nil => intro ids; rfl
  | cons g gaps ih =>
      intro ids
      have hrest := ih ids.next.2
      show ((r.saving save).part g.start g.stop ids.next.1 ::
        (partsFor (r.saving save) gaps ids.next.2).1, (partsFor (r.saving save) gaps ids.next.2).2) = _
      rw [hrest]
      rfl

/-- Whether bars are to be saved does not matter for the way that a request is sent. -/
theorem submit_saving {b b' : Broker} {now : Instant} {r : Request} {a : Accepted} {slot : Slot}
    {parts : List Request} (h : b.submit now r = .ok (a, b')) (hwork : a.work = .fetch slot parts)
    (save : Bool) : ∃ b'', b.submit now (r.saving save)
      = .ok (⟨a.requestId, a.assignedId, .fetch slot (parts.map (·.saving save))⟩, b'') := by
  obtain ⟨k, route, slot', hk, hroute, hslot, haccept⟩ := submit_eq_ok.mp h
  obtain rfl : (b.accept r route slot').1 = a := congrArg Prod.fst haccept
  clear haccept
  cases route with
  | stored => cases hwork
  | external =>
      cases slot' with
      | none => cases hwork
      | some s =>
          cases hwork
          exact ⟨_, submit_eq_ok.mpr ⟨k, .external, some slot, hk, hroute, hslot, rfl⟩⟩
  | split gaps =>
      cases slot' with
      | none => cases hwork
      | some s =>
          have hparts := partsFor_saving (r.filed b.ids.next.1) save gaps b.ids.next.2
          cases hwork
          refine ⟨_, submit_eq_ok.mpr ⟨k, .split gaps, some slot, hk, hroute, hslot,
            Prod.ext ?_ rfl⟩⟩
          exact congrArg (fun x => Accepted.mk r.requestId b.ids.next.1
            (.fetch slot (Prod.fst x))) hparts

/-- What a request without missing parts is answered with: the stored range, and the stash over it. -/
theorem stored_stash {b : Broker} {r : Request} {k : SeriesKey} (hkey : r.key? = some k)
    (hrange : r.start ≤ r.stop) (hs : Grouped k.frequency (b.cache.store.get k))
    (hquery : b.cache.refusals.query = none) (stash : List Bar) :
    ((b.stored r).map fun stored => if stash.isEmpty then stored else merge stored stash r)
      = .ok (within r.start r.stop (lay k.frequency (b.cache.store.get k) stash)).bars := by
  have hfrequency := Request.frequency_of_key hkey
  rw [stored_eq hkey hrange, hquery]
  cases stash with
  | nil => rfl
  | cons c stash =>
      exact congrArg Except.ok (hfrequency ▸ merge_within (hfrequency ▸ hs) (c :: stash))

end Broker

/-! ### Filling the gaps one after the other -/

namespace World

/--
The parts `left` of the request `p`, which was filed as `r`, are missing. The bars that came
and are not stored are in the stash, and the store can be read and written to.
-/
structure Awaiting (k : SeriesKey) (p : AssignedId) (r : Request) (stash : List Bar)
    (left : List Request) (w : World) : Prop where
  key : r.key? = some k
  range : r.start ≤ r.stop
  table : w.broker.inflight.entry p
    = ⟨some { request := r, stash }, some (numbers left), none⟩
  jobs : w.jobs p = left.map .fetch
  silent : w.answers p = []
  parts : PartsOf p left
  alike : ∀ q ∈ left, q.key? = some k ∧ q.save = r.save
  writable : w.broker.cache.refusals.add = none
  readable : w.broker.cache.refusals.query = none

/--
The gaps of the request `p`, which was filed as `r`, are being filled: `left` are the parts
that are missing, `done` the bars that came, and `s` is what was stored before they came.
-/
structure Filling (k : SeriesKey) (p : AssignedId) (r : Request) (s : Series) (done : List Bar)
    (left : List Request) (w : World) : Prop
    extends Awaiting k p r (if r.save then [] else done) left w where
  shape : Grouped k.frequency s
  stored : w.broker.cache.store.get k = if r.save then lay k.frequency s done else s

variable {w : World} {k : SeriesKey} {p : AssignedId} {r : Request} {s : Series}
  {stash done bars : List Bar} {left : List Request}

/-- A part may come at any time, and it is the business of its request alone. -/
theorem Awaiting.move {q : Request} (h : Awaiting k p r stash left w) (hq : q ∈ left)
    (result : Except MarketError (List Bar)) :
    w.step? (.fetched q result) = some ((w.take (.fetch q) (some (q, result))).after (some p)
        (w.broker.deliver q result)) ∧
      ((w.take (.fetch q) (some (q, result))).after (some p) (w.broker.deliver q result)).view p
        = (w.view p).after p (.fetch q) (some (q, result)) (w.broker.deliver q result) := by
  have howner : q.owner? = some p := by simp [Request.owner?, h.parts.parent q hq]
  have hmem : .fetch q ∈ w.jobs p := by
    rw [h.jobs]
    exact List.mem_map_of_mem hq
  have hpending : .fetch q ∈ w.pending := (List.mem_filter.mp hmem).1
  constructor
  · simp only [step?]
    rw [if_pos hpending, howner]
  · exact view_done_self (by simp [howner]) _

/-- The bars for a part are there, in the store or in the stash, before it is crossed off. -/
theorem Awaiting.deliver {q : Request} {c : AssignedId} (h : Awaiting k p r stash left w)
    (hq : q ∈ left) (hid : q.assignedId = some c) (hkeep : r.save = true →
      ∃ n, w.broker.keep q bars = ({ w.broker with cache := w.broker.cacheAfter q bars }, .ok n)) :
    ∃ t : Inflight, w.broker.deliver q (.ok bars)
        = { w.broker with cache := w.broker.cacheAfter q bars, inflight := t }.completePart p c ∧
      t.entry p = ⟨some { request := r, stash := if r.save then stash else stash ++ bars },
        some (numbers left), none⟩ := by
  have hsave := (h.alike q hq).2
  rw [← hsave] at hkeep ⊢
  obtain ⟨t, hdeliver, hset⟩ := Broker.deliver_kept hid (h.parts.parent q hq) h.table hkeep
  exact ⟨t, hdeliver, hset.here⟩

/-- A part that is not the last one is crossed off. -/
theorem Awaiting.more {q : Request} (h : Awaiting k p r stash left w) (hq : q ∈ left)
    (hkeep : r.save = true →
      ∃ n, w.broker.keep q bars = ({ w.broker with cache := w.broker.cacheAfter q bars }, .ok n))
    (hmore : left.erase q ≠ []) : ∃ w', w.step? (.fetched q (.ok bars)) = some w' ∧
      Awaiting k p r (if r.save then stash else stash ++ bars) (left.erase q) w' ∧
      w'.broker.cache = w.broker.cacheAfter q bars := by
  obtain ⟨c, hid⟩ := Option.isSome_iff_exists.mp (h.parts.numbered q hq)
  obtain ⟨t, hdeliver, hentry⟩ := h.deliver hq hid hkeep
  have hnumbers := numbers_erase hq hid h.parts.distinct
  have hleft : Inflight.without c (numbers left) ≠ [] := by
    rw [← hnumbers]
    exact fun hnil => hmore ((h.parts.erase q).numbers_eq_nil.mp hnil)
  obtain ⟨t', hstep, hset⟩ := Broker.completePart_more (b := { w.broker with
    cache := w.broker.cacheAfter q bars, inflight := t }) hentry hleft
  rw [hstep] at hdeliver
  obtain ⟨hmove, hview⟩ := h.move hq (.ok bars)
  rw [hdeliver] at hmove hview
  have hbroker := broker_after (w.take (.fetch q) (some (q, .ok bars))) (some p)
    ({ w.broker with cache := w.broker.cacheAfter q bars, inflight := t' }, .silent)
  have hrefusals := Broker.refusals_cacheAfter w.broker q bars
  refine ⟨_, hmove, ?_, congrArg Broker.cache hbroker⟩
  constructor
  · exact h.key
  · exact h.range
  · rw [hbroker, hnumbers]
    exact hset.here
  · refine (congrArg View.jobs hview).trans ?_
    show (w.jobs p).erase (.fetch q) = _
    rw [h.jobs, PartsOf.jobs_erase]
  · exact (congrArg View.answers hview).trans h.silent
  · exact h.parts.erase q
  · exact fun q' hq' => h.alike q' (List.mem_of_mem_erase hq')
  · rw [hbroker]
    exact (congrArg Refusals.add hrefusals).trans h.writable
  · rw [hbroker]
    exact (congrArg Refusals.query hrefusals).trans h.readable

/-- With the last part the request is answered: from what is stored then, with the stash over it. -/
theorem Awaiting.last {q : Request} (h : Awaiting k p r stash left w) (hq : q ∈ left)
    (hkeep : r.save = true →
      ∃ n, w.broker.keep q bars = ({ w.broker with cache := w.broker.cacheAfter q bars }, .ok n))
    (hshape : Grouped k.frequency ((w.broker.cacheAfter q bars).store.get k))
    (hlast : left.erase q = []) : ∃ w', w.step? (.fetched q (.ok bars)) = some w' ∧
      w'.answers p = [.ok ⟨r, Broker.presented r (within r.start r.stop
        (lay k.frequency ((w.broker.cacheAfter q bars).store.get k)
          (if r.save then stash else stash ++ bars))).bars⟩] ∧
      w'.broker.cache = w.broker.cacheAfter q bars := by
  obtain ⟨c, hid⟩ := Option.isSome_iff_exists.mp (h.parts.numbered q hq)
  obtain ⟨t, hdeliver, hentry⟩ := h.deliver hq hid hkeep
  have hleft : Inflight.without c (numbers left) = [] := by
    rw [← numbers_erase hq hid h.parts.distinct, hlast]
    rfl
  obtain ⟨t', hstep, -⟩ := Broker.completePart_last (b := { w.broker with
    cache := w.broker.cacheAfter q bars, inflight := t }) hentry hleft
  rw [hstep] at hdeliver
  obtain ⟨hmove, hview⟩ := h.move hq (.ok bars)
  rw [hdeliver] at hmove hview
  have hquery : (w.broker.cacheAfter q bars).refusals.query = none :=
    (congrArg Refusals.query (Broker.refusals_cacheAfter w.broker q bars)).trans h.readable
  refine ⟨_, hmove, ?_, congrArg Broker.cache (broker_after _ _ _)⟩
  refine (congrArg View.answers hview).trans ((View.answers_of_answer ..).trans ?_)
  rw [Broker.stored_stash h.key h.range hshape hquery]
  exact congrArg (_ :: ·) h.silent

/-- Plain bars for a part are stored, or left to the stash. -/
theorem Filling.keeps {q : Request} (h : Filling k p r s done left w) (hq : q ∈ left)
    (hplain : ∀ b ∈ bars, b.Plain k) (hapart : k.frequency = .tick → TimesApart done bars) :
    (r.save = true →
      ∃ n, w.broker.keep q bars = ({ w.broker with cache := w.broker.cacheAfter q bars }, .ok n)) ∧
    (w.broker.cacheAfter q bars).store.get k
      = if r.save then lay k.frequency s (done ++ bars) else s := by
  obtain ⟨hkey, hsave⟩ := h.alike q hq
  obtain ⟨n, store, hkeep, hstore⟩ := Broker.keep_plain hkey h.writable hplain
  have hstored := h.stored
  unfold Broker.cacheAfter
  rw [hsave, hkeep]
  cases hr : r.save with
  | true =>
      rw [hr] at hstored
      refine ⟨fun _ => ⟨n, rfl⟩, hstore.trans ?_⟩
      rw [hstored]
      exact h.shape.lay_append hapart
  | false =>
      rw [hr] at hstored
      exact ⟨fun hsaves => absurd hsaves Bool.false_ne_true, hstored⟩

/-- What bars for a part that is not the last one come to. -/
theorem Filling.more {q : Request} (h : Filling k p r s done left w) (hq : q ∈ left)
    (hplain : ∀ b ∈ bars, b.Plain k)
    (hapart : k.frequency = .tick → TimesApart done bars)
    (hmore : left.erase q ≠ []) : ∃ w', w.step? (.fetched q (.ok bars)) = some w' ∧
      Filling k p r s (done ++ bars) (left.erase q) w' := by
  obtain ⟨hkeep, hstored⟩ := h.keeps hq hplain hapart
  obtain ⟨w', hstep, hawaiting, hcache⟩ := h.toAwaiting.more hq hkeep hmore
  refine ⟨w', hstep, ?_, h.shape, by rw [hcache, hstored]⟩
  have hstash : (if r.save then (if r.save then [] else done)
      else (if r.save then [] else done) ++ bars) = if r.save then [] else done ++ bars := by
    cases r.save <;> rfl
  exact hstash ▸ hawaiting

/-- With the last part the request is answered, from what was stored with all bars laid over it. -/
theorem Filling.last {q : Request} (h : Filling k p r s done left w) (hq : q ∈ left)
    (hplain : ∀ b ∈ bars, b.Plain k)
    (hapart : k.frequency = .tick → TimesApart done bars)
    (hlast : left.erase q = []) : ∃ w', w.step? (.fetched q (.ok bars)) = some w' ∧
      w'.answers p = [.ok ⟨r, Broker.presented r
        (within r.start r.stop (lay k.frequency s (done ++ bars))).bars⟩] := by
  obtain ⟨hkeep, hstored⟩ := h.keeps hq hplain hapart
  have hshape : Grouped k.frequency ((w.broker.cacheAfter q bars).store.get k) := by
    rw [hstored]
    cases r.save with
    | true => exact (h.shape.lay_spec (done ++ bars)).1
    | false => exact h.shape
  obtain ⟨w', hstep, hanswers, -⟩ := h.toAwaiting.last hq hkeep hshape hlast
  refine ⟨w', hstep, hanswers.trans ?_⟩
  rw [hstored]
  cases r.save <;> rfl

/-- The moves in which bars for parts come, one part after the other. -/
def arrivals (fills : List (Request × List Bar)) : List Move :=
  fills.map fun f => .fetched f.1 (.ok f.2)

/-- When bars for all parts have come, the request is answered, whatever their order. -/
theorem Filling.run {fills : List (Request × List Bar)} : ∀ {w : World} {done : List Bar}
    {left : List Request}, Filling k p r s done left w → left ≠ [] →
    (fills.map Prod.fst).Perm left → (∀ f ∈ fills, ∀ b ∈ f.2, b.Plain k) →
    (k.frequency = .tick → (∀ f ∈ fills, TimesApart done f.2) ∧
      fills.Pairwise fun f g => TimesApart f.2 g.2) →
    ∃ w', w.run? (arrivals fills) = some w' ∧ w'.answers p = [.ok ⟨r, Broker.presented r
      (within r.start r.stop (lay k.frequency s (done ++ fills.flatMap Prod.snd))).bars⟩] := by
  -- the world, the bars that came and the parts that are left change from one arrival to the next
  induction fills with
  | nil =>
      intro w done left h hleft harrival
      exact absurd harrival.nil_eq.symm hleft
  | cons f fills ih =>
      intro w done left h hleft harrival hplain hapart
      have hf : f.1 ∈ left := harrival.subset List.mem_cons_self
      have hrest : (fills.map Prod.fst).Perm (left.erase f.1) :=
        (List.cons_perm_iff_perm_erase.mp harrival).2
      have hplain' := hplain f List.mem_cons_self
      have hapart' := fun htick => (hapart htick).1 f List.mem_cons_self
      rw [List.flatMap_cons, ← List.append_assoc]
      by_cases hlast : left.erase f.1 = []
      · obtain ⟨w', hstep, hanswers⟩ := h.last hf hplain' hapart' hlast
        rw [hlast] at hrest
        obtain rfl : fills = [] := List.map_eq_nil_iff.mp hrest.eq_nil
        refine ⟨w', run?_cons.mpr ⟨w', hstep, rfl⟩, ?_⟩
        rw [List.flatMap_nil, List.append_nil]
        exact hanswers
      · obtain ⟨v, hstep, hfilling⟩ := h.more hf hplain' hapart' hlast
        have hlater : k.frequency = .tick → (∀ g ∈ fills, TimesApart (done ++ f.2) g.2) ∧
            fills.Pairwise fun g g' => TimesApart g.2 g'.2 := by
          intro htick
          obtain ⟨hdone, hpair⟩ := hapart htick
          obtain ⟨hhead, htail⟩ := List.pairwise_cons.mp hpair
          refine ⟨fun g hg b hb => ?_, htail⟩
          rcases List.mem_append.mp hb with hb | hb
          · exact hdone g (List.mem_cons_of_mem _ hg) b hb
          · exact hhead g hg b hb
        obtain ⟨w', hrun, hanswers⟩ := ih hfilling hlast hrest
          (fun g hg => hplain g (List.mem_cons_of_mem _ hg)) hlater
        exact ⟨w', run?_cons.mpr ⟨v, hstep, hrun⟩, hanswers⟩

/-- A request that is split has its gaps filled from then on. -/
theorem filling_enroll {now : Instant} {r : Request} {a : Accepted} {b : Broker} {slot : Slot}
    {parts : List Request} (horder : w.Orderly) (hshape : w.broker.cache.store.InShape)
    (hadd : w.broker.cache.refusals.add = none) (hquery : w.broker.cache.refusals.query = none)
    (hsubmit : w.broker.submit now r = .ok (a, b)) (hids : (w.enroll r a b).issued.Nodup)
    (hwork : a.work = .fetch slot parts) (hsplit : ∀ q ∈ parts, q.isPart = true)
    (hkey : r.key? = some k) : Filling k a.assignedId (r.filed a.assignedId)
      (w.broker.cache.store.get k) [] parts (w.enroll r a b) ∧ parts ≠ [] := by
  have hadmission := Broker.submit_cases hsubmit
  have hrange := admission_range hadmission
  have hview := view_enroll_self hsubmit (horder.blank _ (not_mem_acceptedIds hids))
  have hblank : w.broker.inflight.entry a.assignedId = {} :=
    congrArg View.entry (horder.blank _ (not_mem_acceptedIds hids))
  cases hadmission with
  | stored => cases hwork
  | external =>
      cases hwork
      exact absurd (hsplit _ List.mem_cons_self) Bool.false_ne_true
  | @split k' p ids gaps slot' t' next routed table =>
      cases hwork
      have hall := Broker.partsFor_all (r := r) p gaps ids
      rw [issued_enroll] at hids
      have hdistinct := (List.nodup_append.mp hids).1
      simp only [Accepted.ids, Work.requests, hall] at hdistinct
      refine ⟨⟨⟨hkey, hrange, ?_, congrArg View.jobs hview, congrArg View.answers hview,
        partsOf_partsFor (List.nodup_cons.mp hdistinct).2, fun q hq => ?_, hadd, hquery⟩,
        hshape k, ?_⟩, ?_⟩
      · refine table.here.trans ?_
        rw [hblank, ite_self]
        rfl
      · obtain ⟨g, -, c, rfl⟩ := Broker.partsFor_mem hq
        exact ⟨hkey, rfl⟩
      · exact (ite_self _).symm
      · exact fun hnil =>
          (Broker.plan_gaps routed.gaps).2.2.1 (Broker.partsFor_eq_nil.mp hnil)

end World

/-! ### The reply -/

/-- Whether an answer shows bars of an instant: not outside regular hours, if it is about those. -/
def Request.shows (r : Request) (t : Instant) : Bool :=
  !(r.regularHoursOnly && r.frequency.isIntraday) || r.instrument.isRegular t

theorem Broker.presented_eq (r : Request) (bars : List Bar) :
    presented r bars = bars.filter fun b => r.shows b.time := by
  unfold presented Request.shows
  cases r.regularHoursOnly && r.frequency.isIntraday with
  | true => rfl
  | false => simp

theorem Broker.presented_sublist (r : Request) (bars : List Bar) :
    (presented r bars).Sublist bars := by
  rw [presented_eq]
  exact List.filter_sublist

/--
The bars are what a request is to be answered with when `delivered` came for its gaps, the
latest last, and `s` was stored: at the instants of its range that it shows, the delivered
bars, and the stored ones where there are none.
-/
structure Overlaid (r : Request) (s : Series) (delivered bars : List Bar) : Prop where
  ascending : bars.Pairwise (·.time ≤ ·.time)
  single : r.frequency ≠ .tick → bars.Pairwise (·.time < ·.time)
  ranged : ∀ b ∈ bars, r.start ≤ b.time ∧ b.time ≤ r.stop
  times : ∀ t, (∃ b ∈ bars, b.time = t) ↔ r.start ≤ t ∧ t ≤ r.stop ∧ r.shows t = true ∧
    ((∃ b ∈ s.bars, b.time = t) ∨ ∃ b ∈ delivered, b.time = t)
  fresh : ∀ b ∈ bars, (∃ c ∈ delivered, c.time = b.time) →
    bars.filter (·.time = b.time) = slot r.frequency delivered b.time
  kept : ∀ b ∈ bars, (∀ c ∈ delivered, c.time ≠ b.time) →
    bars.filter (·.time = b.time) = s.bars.filter (·.time = b.time)

/-- An answer has the groups of a series at the instants that it shows, and no others. -/
theorem filter_presented {f : Frequency} {l : Series} (h : Grouped f l) (r : Request) (t : Instant) :
    (Broker.presented r l.bars).filter (·.time = t)
      = if r.shows t = true then groupAt l t else [] := by
  rw [Broker.presented_eq, List.filter_filter]
  by_cases ht : r.shows t = true
  · rw [if_pos ht, ← h.filter_bars]
    refine List.filter_congr fun b _ => ?_
    by_cases hb : b.time = t
    · simp [hb, ht]
    · simp [hb]
  · rw [if_neg ht, List.filter_eq_nil_iff]
    intro b _ hb
    simp only [Bool.and_eq_true, decide_eq_true_eq] at hb
    exact ht (hb.1 ▸ hb.2)

theorem exists_presented {f : Frequency} {l : Series} (h : Grouped f l) {r : Request} {t : Instant} :
    (∃ b ∈ Broker.presented r l.bars, b.time = t) ↔ r.shows t = true ∧ groupAt l t ≠ [] := by
  have hfilter : (∃ b ∈ Broker.presented r l.bars, b.time = t) ↔
      (Broker.presented r l.bars).filter (·.time = t) ≠ [] := by
    rw [ne_eq, List.filter_eq_nil_iff]
    simp
  rw [hfilter, filter_presented h]
  by_cases ht : r.shows t = true
  · simp [ht]
  · simp [ht]

/-- A group in a range with bars laid over it is one that was stored or one that was laid. -/
theorem groupAt_laid_ne_nil {f : Frequency} {s : Series} (h : Grouped f s)
    {start stop t : Instant} {delivered : List Bar} :
    groupAt (within start stop (lay f s delivered)) t ≠ [] ↔ start ≤ t ∧ t ≤ stop ∧
      ((∃ b ∈ s.bars, b.time = t) ∨ ∃ b ∈ delivered, b.time = t) := by
  rw [groupAt_within, (h.lay_spec delivered).2, ← h.groupAt_ne_nil, ← and_assoc]
  by_cases ht : start ≤ t ∧ t ≤ stop
  · rw [if_pos ht]
    by_cases hslot : slot f delivered t = []
    · have hnone := slot_eq_nil.mp hslot
      rw [if_pos hslot]
      exact ⟨fun hne => ⟨ht, Or.inl hne⟩, fun hne => hne.2.resolve_right fun ⟨b, hb, hbt⟩ =>
        hnone b hb hbt⟩
    · have hsome : ∃ b ∈ delivered, b.time = t := by
        rw [slot_eq_nil] at hslot
        push Not at hslot
        exact hslot
      rw [if_neg hslot]
      exact ⟨fun _ => ⟨ht, Or.inr hsome⟩, fun _ => hslot⟩
  · rw [if_neg ht]
    exact ⟨fun hne => absurd rfl hne, fun hin => absurd hin.1 ht⟩

/-- A range of a series with bars laid over it is what a request is to be answered with. -/
theorem overlaid_presented {r : Request} {s : Series} (h : Grouped r.frequency s)
    (delivered : List Bar) : Overlaid r s delivered (Broker.presented r
      (within r.start r.stop (lay r.frequency s delivered)).bars) := by
  obtain ⟨hgrouped, hgroups⟩ := h.lay_spec delivered
  have hcut := hgrouped.within r.start r.stop
  have hsublist := Broker.presented_sublist r (within r.start r.stop
    (lay r.frequency s delivered)).bars
  have htimes := fun t =>
    (exists_presented hcut (r := r) (t := t)).trans (and_congr_right fun _ => groupAt_laid_ne_nil h)
  have hfilter := filter_presented hcut r
  simp only [groupAt_within, hgroups] at hfilter
  constructor
  · exact hcut.ascending.1.sublist hsublist
  · exact fun hf => (hcut.ascending.2 hf).sublist hsublist
  · intro b hb
    obtain ⟨-, hstart, hstop, -⟩ := (htimes b.time).mp ⟨b, hb, rfl⟩
    exact ⟨hstart, hstop⟩
  · intro t
    rw [htimes]
    constructor
    · exact fun ⟨hshows, hstart, hstop, hthere⟩ => ⟨hstart, hstop, hshows, hthere⟩
    · exact fun ⟨hstart, hstop, hshows, hthere⟩ => ⟨hshows, hstart, hstop, hthere⟩
  · rintro b hb ⟨c, hc, hct⟩
    obtain ⟨hshows, hstart, hstop, -⟩ := (htimes b.time).mp ⟨b, hb, rfl⟩
    have hslot : slot r.frequency delivered b.time ≠ [] :=
      fun hnil => slot_eq_nil.mp hnil c hc hct
    rw [hfilter, if_pos hshows, if_pos ⟨hstart, hstop⟩, if_neg hslot]
  · intro b hb hnone
    obtain ⟨hshows, hstart, hstop, -⟩ := (htimes b.time).mp ⟨b, hb, rfl⟩
    rw [hfilter, if_pos hshows, if_pos ⟨hstart, hstop⟩, if_pos (slot_eq_nil.mpr hnone),
      h.filter_bars]

namespace World

/-- A request is submitted, to be saved or not, and bars come for its parts. -/
def fillRun (now : Instant) (r : Request) (fills : List (Request × List Bar)) (save : Bool) :
    List Move :=
  .submit now (r.saving save) :: arrivals (fills.map fun f => (f.1.saving save, f.2))

/--
**A request that is split is answered with the same bars whether they are saved or not.**
In whatever order its gaps are filled, and with whatever plain bars: they are the bars
that are stored, with those that came laid over them, in the range of the request.
-/
theorem merges_agree {cache : Cache} {ids : Allocator} {registry : Registry}
    {before : List Move} {w : World} {now : Instant} {r : Request} {a : Accepted} {b : Broker}
    {slot : Slot} {parts : List Request} {k : SeriesKey} {fills : List (Request × List Bar)}
    (hshape : cache.store.InShape) (hbefore : (start cache ids registry).run? before = some w)
    (hlength : w.issued.length + 3 ≤ 2 ^ 64) (hadd : w.broker.cache.refusals.add = none)
    (hquery : w.broker.cache.refusals.query = none)
    (hsubmit : w.broker.submit now r = .ok (a, b)) (hwork : a.work = .fetch slot parts)
    (hsplit : ∀ q ∈ parts, q.isPart = true) (hkey : r.key? = some k)
    (harrival : (fills.map Prod.fst).Perm parts) (hplain : ∀ f ∈ fills, ∀ b ∈ f.2, b.Plain k)
    (htrades : r.frequency = .tick → fills.Pairwise fun f g => TimesApart f.2 g.2) :
    ∃ bars, Overlaid r (w.series k) (fills.flatMap Prod.snd) bars ∧ ∀ save,
      ∃ w', w.run? (fillRun now r fills save) = some w' ∧
        w'.answers a.assignedId = [.ok ⟨(r.saving save).filed a.assignedId, bars⟩] := by
  have hfrequency := Request.frequency_of_key hkey
  have hids : w.issued.Nodup := nodup_of_length hbefore (by omega)
  have hstored : w.broker.cache.store.InShape := inShape_of_run hbefore hids hshape
  refine ⟨_, overlaid_presented (hfrequency ▸ hstored k) _, fun save => ?_⟩
  obtain ⟨b', hsubmit'⟩ := Broker.submit_saving hsubmit hwork save
  have hrun' : (start cache ids registry).run? (before ++ [.submit now (r.saving save)]) = some _ :=
    run?_append.mpr ⟨w, hbefore, run?_cons.mpr ⟨_, step_enroll hsubmit', rfl⟩⟩
  have hids' := nodup_of_length hrun' (by
    have hfew := length_ids (Broker.submit_cases hsubmit')
    rw [issued_enroll, List.length_append]
    omega)
  -- saved or not, the gaps are the same, and they are filled from here on
  obtain ⟨hfilling, hsome⟩ := filling_enroll (orderly_of_run hbefore hids) hstored hadd hquery
    hsubmit' hids' rfl (fun q hq => by
      obtain ⟨q', hq', rfl⟩ := List.mem_map.mp hq
      exact hsplit q' hq') hkey
  have hfills : ((fills.map fun f => (f.1.saving save, f.2)).map Prod.fst).Perm
      (parts.map (·.saving save)) := by
    have hmap := harrival.map (·.saving save)
    rw [List.map_map] at hmap ⊢
    exact hmap
  obtain ⟨w', hrest, hanswers⟩ := hfilling.run hsome hfills
    (fun f hf => by
      obtain ⟨g, hg, rfl⟩ := List.mem_map.mp hf
      exact hplain g hg)
    (fun htick => ⟨fun f _ c hc => absurd hc List.not_mem_nil,
      List.pairwise_map.mpr (htrades (hfrequency.trans htick))⟩)
  refine ⟨w', run?_cons.mpr ⟨_, step_enroll hsubmit', hrest⟩, hanswers.trans ?_⟩
  rw [List.nil_append, List.flatMap_map, hfrequency]
  rfl

end World

namespace Sample

theorem inShape_cacheOf : (cacheOf [4, 5, 6]).store.InShape := by
  have hgrouped : Grouped key.frequency ([4, 5, 6].map fun day => (midnight day, [bar day])) :=
    ⟨by decide, by decide, by decide, fun _ => by decide⟩
  exact Store.inShape_empty.insert hgrouped

theorem plain_untidyFills : ∀ f ∈ untidyFills, ∀ b ∈ f.2, b.Plain key := by
  have hplain : ∀ days : List Int, ∀ b ∈ days.map bar, b.Plain key := by
    intro days b hb
    obtain ⟨day, -, rfl⟩ := List.mem_map.mp hb
    exact ⟨rfl, rfl, rfl⟩
  intro f hf
  rcases List.mem_cons.mp hf with rfl | hf
  · exact hplain [8, 6, 7, 8, 12]
  · obtain rfl := List.mem_singleton.mp hf
    exact hplain [2, 1]

end Sample

namespace World

/-- A request for regular hours is not answered with all bars of its range: none of the morning. -/
theorem not_all_times_regularRequest : ∃ w reply,
    (start Sample.morningCache .fresh Sample.registry).run?
        (fillRun 0 (Sample.regularRequest 10 13) Sample.afternoonFills true) = some w ∧
      w.answers (Sample.number 1) = [.ok reply] ∧
      ¬ ∀ t, (∃ b ∈ reply.bars, b.time = t) ↔ Sample.hour 10 ≤ t ∧ t ≤ Sample.hour 13 ∧
        ((∃ b ∈ [10, 11].map Sample.hourBar, b.time = t) ∨
          ∃ b ∈ Sample.afternoonFills.flatMap Prod.snd, b.time = t) := by
  refine ⟨_, ⟨(Sample.regularRequest 10 13).filed (Sample.number 1),
    [Sample.hourBar 12, Sample.hourBar 13]⟩, rfl, rfl, fun hall => ?_⟩
  have hmorning := (hall (Sample.hour 10)).mpr
    ⟨by decide, by decide, Or.inl ⟨Sample.hourBar 10, List.mem_cons_self, rfl⟩⟩
  revert hmorning
  decide

theorem merges_untidyFills : ∃ bars,
    Overlaid (Sample.request 1 9) ([4, 5, 6].map fun day => (Sample.midnight day, [Sample.bar day]))
      ([8, 6, 7, 8, 12, 2, 1].map Sample.bar) bars ∧
    ∀ save, ∃ w', (start (Sample.cacheOf [4, 5, 6]) .fresh Sample.registry).run?
        (fillRun 0 (Sample.request 1 9) Sample.untidyFills save) = some w' ∧
      w'.answers (Sample.number 1)
        = [.ok ⟨((Sample.request 1 9).saving save).filed (Sample.number 1), bars⟩] := by
  have hbefore : (start (Sample.cacheOf [4, 5, 6]) .fresh Sample.registry).run? []
      = some (start (Sample.cacheOf [4, 5, 6]) .fresh Sample.registry) := rfl
  have hsubmit : (start (Sample.cacheOf [4, 5, 6]) .fresh Sample.registry).broker.submit 0
      (Sample.request 1 9) = .ok (⟨0, Sample.number 1, .fetch (.listed 0)
        [Sample.partBefore (Sample.request 1 9) 4 2, Sample.partAfter (Sample.request 1 9) 6 3]⟩, _) :=
    rfl
  have harrival : (Sample.untidyFills.map Prod.fst).Perm
      [Sample.partBefore (Sample.request 1 9) 4 2, Sample.partAfter (Sample.request 1 9) 6 3] :=
    List.Perm.swap _ _ _
  exact merges_agree Sample.inShape_cacheOf hbefore (by decide) rfl rfl hsubmit rfl (by decide)
    rfl harrival Sample.plain_untidyFills (fun htick => nomatch htick)

end World

end BarArchive
