/-
What is on its way to a request.

A request is supplied by a tape as long as every bar of its range that the tape has is
stored, or stashed for the request, or within a fetch that is still out for it. Nothing
that happens takes this away: stored bars stay stored, and a fetch that comes back with
bars puts them where the request will find them. When nothing is out any more, all bars
of the range are found, and that is the reply.

Fetches that are out for one request do not overlap, and none overlaps what was stashed.
Otherwise a stash could have some trades of an instant twice.
-/
import BarArchive.Proofs.Tape

namespace BarArchive

open Series

/-- The fetch that a piece of work is, if it is one. -/
def Job.request? : Job → Option Request
  | .fetch r => some r
  | .serve _ => none

/-- Two requests for ranges without a common instant. -/
def Request.Apart (q q' : Request) : Prop := q.stop < q'.start ∨ q'.stop < q.start

namespace Tape

variable {T : Tape} {s s' : Series} {r : Request}

/-! ### Stock -/

/--
The stock of a request: `left` are the fetches that are out for it, `stash` the bars that
were stashed, and with what is stored these make up its range.
-/
structure Stocked (T : Tape) (s : Series) (r : Request) (left : List Request)
    (stash : List Bar) : Prop where
  apart : left.Pairwise Request.Apart
  fresh : ∀ q ∈ left, ∀ b ∈ stash, ¬ (q.start ≤ b.time ∧ b.time ≤ q.stop)
  excerpt : ∀ t, stash.filter (·.time = t) ≠ [] →
    (stash.filter (·.time = t)).Perm (T.barsAt t)
  covered : ∀ b ∈ T.bars, r.start ≤ b.time → b.time ≤ r.stop → groupAt s b.time ≠ [] ∨
    (∃ q ∈ left, q.start ≤ b.time ∧ b.time ≤ q.stop) ∨ ∃ c ∈ stash, c.time = b.time

/-- Without a stash, what is stored and what is out must make up the range. -/
theorem stocked_nil {left : List Request} (hapart : left.Pairwise Request.Apart)
    (hcovered : ∀ b ∈ T.bars, r.start ≤ b.time → b.time ≤ r.stop → groupAt s b.time ≠ [] ∨
      ∃ q ∈ left, q.start ≤ b.time ∧ b.time ≤ q.stop) : T.Stocked s r left [] where
  apart := hapart
  fresh := fun _ _ _ hb => absurd hb List.not_mem_nil
  excerpt := fun _ ht => absurd rfl ht
  covered := fun b hb hstart hstop => (hcovered b hb hstart hstop).imp_right Or.inl

/-- A stock does not suffer from bars that are stored for others. -/
theorem Stocked.mono {left : List Request} {stash : List Bar} (h : T.Stocked s r left stash)
    (hgrow : ∀ t, groupAt s t ≠ [] → groupAt s' t ≠ []) : T.Stocked s' r left stash where
  apart := h.apart
  fresh := h.fresh
  excerpt := h.excerpt
  covered := fun b hb hstart hstop => (h.covered b hb hstart hstop).imp_left (hgrow b.time)

/-- The fetch of a range comes back with bars, which get stored. -/
theorem Stocked.stored {left : List Request} {stash : List Bar} {q : Request}
    (h : T.Stocked s r left stash) (hgrow : ∀ t, groupAt s t ≠ [] → groupAt s' t ≠ [])
    (hstored : ∀ b ∈ T.bars, q.start ≤ b.time → b.time ≤ q.stop → groupAt s' b.time ≠ []) :
    T.Stocked s' r (left.erase q) stash where
  apart := h.apart.sublist List.erase_sublist
  fresh := fun p hp => h.fresh p (List.mem_of_mem_erase hp)
  excerpt := h.excerpt
  covered := by
    intro b hb hstart hstop
    rcases h.covered b hb hstart hstop with hin | ⟨p, hp, hspan⟩ | hstash
    · exact Or.inl (hgrow b.time hin)
    · by_cases hpq : p = q
      · subst hpq
        exact Or.inl (hstored b hb hspan.1 hspan.2)
      · exact Or.inr (Or.inl ⟨p, (List.mem_erase_of_ne hpq).mpr hp, hspan⟩)
    · exact Or.inr (Or.inr hstash)

/-- The fetch of a range comes back with bars, which get stashed. -/
theorem Stocked.stashed {left : List Request} {stash bars : List Bar} {q : Request}
    (h : T.Stocked s r left stash) (hq : q ∈ left) (hbars : bars.Perm (T.within q.start q.stop)) :
    T.Stocked s r (left.erase q) (stash ++ bars) where
  apart := h.apart.sublist List.erase_sublist
  fresh := by
    intro p hp b hb
    rcases List.mem_append.mp hb with hb | hb
    · exact h.fresh p (List.mem_of_mem_erase hp) b hb
    · -- no two fetches overlap, and `q` is another one than `p`
      have hpair : (q :: left.erase q).Pairwise Request.Apart :=
        ((List.perm_cons_erase hq).pairwise_iff fun {x y} h => h.symm).mp h.apart
      have hapart : q.Apart p := (List.pairwise_cons.mp hpair).1 p hp
      obtain ⟨-, hstart, hstop⟩ := mem_within.mp (hbars.subset hb)
      rintro ⟨hstart', hstop'⟩
      rcases hapart with hlt | hlt
      · exact absurd (Int.lt_of_lt_of_le hlt (Int.le_trans hstart' hstop)) (Int.lt_irrefl _)
      · exact absurd (Int.lt_of_lt_of_le hlt (Int.le_trans hstart hstop')) (Int.lt_irrefl _)
  excerpt := by
    intro t ht
    have hnew : (bars.filter (·.time = t)).Perm
        (if q.start ≤ t ∧ t ≤ q.stop then T.barsAt t else []) := by
      rw [← filter_within]
      exact hbars.filter _
    rw [List.filter_append] at ht ⊢
    by_cases hspan : q.start ≤ t ∧ t ≤ q.stop
    · have hold : stash.filter (·.time = t) = [] := by
        refine List.filter_eq_nil_iff.mpr fun b hb hbt => ?_
        have hbt' : b.time = t := by simpa using hbt
        exact h.fresh q hq b hb (hbt' ▸ hspan)
      rw [if_pos hspan] at hnew
      rw [hold]
      exact hnew
    · rw [if_neg hspan] at hnew
      rw [hnew.eq_nil, List.append_nil] at ht ⊢
      exact h.excerpt t ht
  covered := by
    intro b hb hstart hstop
    rcases h.covered b hb hstart hstop with hin | ⟨p, hp, hspan⟩ | ⟨c, hc, ht⟩
    · exact Or.inl hin
    · by_cases hpq : p = q
      · subst hpq
        have hmem : b ∈ bars := hbars.symm.subset (mem_within.mpr ⟨hb, hspan⟩)
        exact Or.inr (Or.inr ⟨b, List.mem_append.mpr (Or.inr hmem), rfl⟩)
      · exact Or.inr (Or.inl ⟨p, (List.mem_erase_of_ne hpq).mpr hp, hspan⟩)
    · exact Or.inr (Or.inr ⟨c, List.mem_append.mpr (Or.inl hc), ht⟩)

/-! ### Replies -/

theorem frequency_of_key (hkey : r.key? = some T.key) : r.frequency = T.frequency :=
  Request.frequency_of_key hkey

/-- Nothing is out and nothing is stashed: all is stored. -/
theorem Stocked.fills_within (h : T.Stocked s r [] []) (hmirrors : T.Mirrors s) :
    T.Fills r.start r.stop (Series.within r.start r.stop s).bars := by
  have hwithin := groupAt_within s r.start r.stop
  refine (hmirrors.within r.start r.stop).fills (fun b hb hstart hstop => ?_) fun t ht => ?_
  · rw [hwithin, if_pos ⟨hstart, hstop⟩]
    rcases h.covered b hb hstart hstop with hthere | ⟨q, hq, -⟩ | ⟨c, hc, -⟩
    · exact hthere
    · cases hq
    · cases hc
  · rw [hwithin] at ht
    by_contra hout
    rw [if_neg hout] at ht
    exact ht rfl

/-- Nothing is out: what is stored with the stash over it is all there is. -/
theorem Stocked.fills_merge {stash : List Bar} (h : T.Stocked s r [] stash)
    (hkey : r.key? = some T.key) (hmirrors : T.Mirrors s) :
    T.Fills r.start r.stop (Broker.merge (Series.within r.start r.stop s).bars stash r) := by
  have hslot : ∀ t, slot T.frequency stash t = stash.filter (·.time = t) := by
    intro t
    refine slot_eq_filter fun hf => ?_
    by_cases hnil : stash.filter (·.time = t) = []
    · rw [hnil]
      exact Nat.zero_le 1
    · rw [(h.excerpt t hnil).length_eq]
      exact length_barsAt hf t
  obtain ⟨hgrouped, hgroups⟩ := hmirrors.grouped.lay_spec stash
  simp only [hslot] at hgroups
  have hlaid : T.Mirrors (lay T.frequency s stash) := by
    refine ⟨hgrouped, fun t ht => ?_⟩
    rw [hgroups] at ht ⊢
    by_cases hnil : stash.filter (·.time = t) = []
    · rw [if_pos hnil] at ht ⊢
      exact hmirrors.faithful t ht
    · rw [if_neg hnil]
      exact (h.excerpt t hnil).map Bar.raw
  have hwithin := groupAt_within (lay T.frequency s stash) r.start r.stop
  rw [Broker.merge_within (frequency_of_key hkey ▸ hmirrors.grouped), frequency_of_key hkey]
  refine (hlaid.within r.start r.stop).fills (fun b hb hstart hstop => ?_) fun t ht => ?_
  · rw [hwithin, if_pos ⟨hstart, hstop⟩, hgroups]
    by_cases hstash : stash.filter (·.time = b.time) = []
    · rw [if_pos hstash]
      rcases h.covered b hb hstart hstop with hthere | ⟨q, hq, -⟩ | ⟨c, hc, hct⟩
      · exact hthere
      · cases hq
      · exact absurd (by simpa using hct) (List.filter_eq_nil_iff.mp hstash c hc)
    · rw [if_neg hstash]
      exact hstash
  · rw [hwithin] at ht
    by_contra hout
    rw [if_neg hout] at ht
    exact ht rfl

/-- When nothing is out, the request is answered with all bars of its range. -/
theorem Stocked.fills {b : Broker} {stash bars : List Bar}
    (h : T.Stocked (b.cache.store.get T.key) r [] stash) (hkey : r.key? = some T.key)
    (hrange : r.start ≤ r.stop) (hmirrors : T.Mirrors (b.cache.store.get T.key))
    (hbars : (b.stored r).map (fun stored =>
      if stash.isEmpty then stored else Broker.merge stored stash r) = .ok bars) :
    T.Fills r.start r.stop bars := by
  rw [Broker.stored_eq hkey hrange] at hbars
  cases hquery : b.cache.refusals.query with
  | some reason =>
      rw [hquery] at hbars
      cases hbars
  | none =>
      rw [hquery] at hbars
      have heq := Except.ok.inj hbars
      cases stash with
      | nil => exact heq ▸ h.fills_within hmirrors
      | cons c stash => exact heq ▸ h.fills_merge hkey hmirrors

/-! ### Supplied requests -/

/-- Bars that come for a part of a request go where the request will find them. -/
theorem Stocked.arrived {b : Broker} {left : List Request} {x : Waiting} {q : Request}
    {bars : List Bar} (h : T.Stocked (b.cache.store.get T.key) r left x.stash) (hq : q ∈ left)
    (hkey : q.key? = some T.key) (hmirrors : T.Mirrors (b.cache.store.get T.key))
    (hkept : b.Keeps q bars) (hbars : bars.Perm (T.within q.start q.stop)) :
    T.Mirrors ((b.cacheAfter q bars).store.get T.key) ∧
      T.Stocked ((b.cacheAfter q bars).store.get T.key) r (left.erase q)
        (Broker.stashAfter x q bars) := by
  unfold Broker.stashAfter
  cases hsave : q.save with
  | false =>
      have hsame : b.cacheAfter q bars = b.cache :=
        Broker.cacheAfter_of_not_writes fun hwrites => by simp [hwrites.1] at hsave
      rw [hsame]
      exact ⟨hmirrors, h.stashed hq hbars⟩
  | true =>
      rw [if_pos rfl]
      by_cases hnil : bars = []
      · have hsame : b.cacheAfter q bars = b.cache :=
          Broker.cacheAfter_of_not_writes fun hwrites => hwrites.2.1 hnil
        rw [hsame]
        refine ⟨hmirrors, h.stored (fun _ ht => ht) fun c hc hstart hstop => ?_⟩
        have hmem : c ∈ bars := hbars.symm.subset (mem_within.mpr ⟨hc, hstart, hstop⟩)
        rw [hnil] at hmem
        cases hmem
      · have hwritten := Broker.get_cacheAfter hkey hmirrors.grouped
          ⟨hsave, hnil, hkept hsave hnil⟩
        obtain ⟨hmirrors', hthere⟩ := hmirrors.written hbars hwritten
        refine ⟨hmirrors', h.stored (fun t ht => (hthere t).mpr (Or.inl ht)) ?_⟩
        exact fun c hc hstart hstop => (hthere c.time).mpr
          (Or.inr ⟨hstart, hstop, barsAt_ne_nil hc⟩)

/-- A reply with all bars of the range, apart from those that are not to be presented. -/
def Answers (T : Tape) (r : Request) (reply : Reply) : Prop :=
  ∃ full, T.Fills r.start r.stop full ∧ reply.bars = Broker.presented r full

/--
What a world holds for a request that is supplied by the tape: no fetch for its whole
range, a stock while it waits, and replies that fill its range.
-/
structure Supplied (T : Tape) (s : Series) (r : Request) (v : View) : Prop where
  key : r.key? = some T.key
  range : r.start ≤ r.stop
  parts : ∀ q, .fetch q ∈ v.jobs → q.isPart = true ∧ q.key? = some T.key
  stocked : ∀ x, v.entry.waiting = some x → v.jobs ≠ [] →
    T.Stocked s r (v.jobs.filterMap Job.request?) x.stash
  replies : ∀ reply, .ok reply ∈ v.answers → T.Answers r reply

theorem Supplied.mono {v : View} (h : T.Supplied s r v)
    (hgrow : ∀ t, groupAt s t ≠ [] → groupAt s' t ≠ []) : T.Supplied s' r v where
  key := h.key
  range := h.range
  parts := h.parts
  stocked := fun x hx hjobs => (h.stocked x hx hjobs).mono hgrow
  replies := h.replies

theorem requests_of_fetches (left : List Request) :
    (left.map Job.fetch).filterMap Job.request? = left := by
  rw [List.filterMap_map]
  exact List.filterMap_some

/-- A reply presents the bars that it was made of. -/
theorem reply_of_answer {p : AssignedId} {x : Waiting} {result : Except BrokerError (List Bar)}
    {reply : Reply} (h : (Broker.answer p x result).answerTo? p = some (.ok reply)) :
    ∃ full, result = .ok full ∧ reply.bars = Broker.presented x.request full := by
  unfold Broker.answer Outcome.answerTo? at h
  simp only [if_true, Option.some.injEq] at h
  cases result with
  | error e => cases h
  | ok full =>
      obtain rfl := Except.ok.inj h
      exact ⟨full, rfl, rfl⟩

/-- Serving a request that is supplied answers it with all bars of its range. -/
theorem Supplied.served {o : Bool} {a : Accepted} {v : View} {b : Broker}
    (h : T.Supplied (b.cache.store.get T.key) r v) (hlife : Life o r a v)
    (hentry : b.inflight.entry a.assignedId = v.entry) (hjob : .serve a.assignedId ∈ v.jobs)
    (hmirrors : T.Mirrors (b.cache.store.get T.key)) :
    T.Supplied s' r (v.after a.assignedId (.serve a.assignedId) none (b.serve a.assignedId)) := by
  cases hlife with
  | serving work =>
      obtain ⟨t', heq, -⟩ := Broker.serve_waiting (congrArg Entry.waiting hentry)
      have hjobs : (View.after ⟨⟨some { request := r }, none, none⟩, [.serve a.assignedId], [], []⟩
          a.assignedId (.serve a.assignedId) none (b.serve a.assignedId)).jobs = [] := by
        rw [heq]
        simp [View.after]
      refine ⟨h.key, h.range, fun q hq => ?_, fun x _ hne => absurd hjobs hne, ?_⟩
      · rw [hjobs] at hq
        cases hq
      · intro reply hreply
        rw [heq] at hreply
        obtain ⟨full, hstored, hfull⟩ := reply_of_answer (p := a.assignedId) (x := { request := r })
          (by simpa only [View.after, List.append_nil, Option.mem_toList] using hreply)
        refine ⟨full, (h.stocked _ rfl (by simp)).fills h.key h.range hmirrors ?_, hfull⟩
        rw [hstored]
        rfl
  | fetching => simp at hjob
  | filling => simp at hjob
  | failed => simp at hjob
  | closed => simp at hjob
  | stranded => simp at hjob

/-- A view that neither waits nor gains a reply stays supplied. -/
theorem Supplied.over {v v' : View} (h : T.Supplied s r v) (hwaiting : v'.entry.waiting = none)
    (hjobs : ∀ j ∈ v'.jobs, j ∈ v.jobs)
    (hanswers : ∀ reply, .ok reply ∈ v'.answers → .ok reply ∈ v.answers) : T.Supplied s' r v' where
  key := h.key
  range := h.range
  parts := fun q hq => h.parts q (hjobs _ hq)
  stocked := fun x hx => by
    rw [hwaiting] at hx
    cases hx
  replies := fun reply hreply => h.replies reply (hanswers reply hreply)

/-- A part of a supplied request comes back, with bars of the tape or with an error. -/
theorem Supplied.fetched_part {a : Accepted} {b : Broker} {left : List Request} {stash : List Bar}
    {done : List (Request × Except MarketError (List Bar))} {q : Request}
    {result : Except MarketError (List Bar)}
    (h : T.Supplied (b.cache.store.get T.key) r
      ⟨⟨some { request := r, stash }, some (numbers left), none⟩, left.map .fetch, done, []⟩)
    (parts : PartsOf a.assignedId left) (hq : q ∈ left)
    (hentry : b.inflight.entry a.assignedId
      = ⟨some { request := r, stash }, some (numbers left), none⟩)
    (hmirrors : T.Mirrors (b.cache.store.get T.key))
    (hresult : ∀ bars, result = .ok bars → bars.Perm (T.within q.start q.stop)) :
    T.Supplied ((b.deliver q result).1.cache.store.get T.key) r
      (View.after ⟨⟨some { request := r, stash }, some (numbers left), none⟩, left.map .fetch,
        done, []⟩ a.assignedId (.fetch q) (some (q, result)) (b.deliver q result)) := by
  obtain ⟨c, hc⟩ := Option.isSome_iff_exists.mp (parts.numbered q hq)
  have hstep := Broker.deliver_part hc (parts.parent q hq) hentry result
  have hstock : T.Stocked (b.cache.store.get T.key) r left stash := by
    have hne : left.map Job.fetch ≠ [] := List.ne_nil_of_mem (List.mem_map_of_mem hq)
    have hstocked := h.stocked _ rfl hne
    rwa [requests_of_fetches] at hstocked
  have hkey := (h.parts q (List.mem_map_of_mem hq)).2
  have herased := PartsOf.jobs_erase left q
  generalize b.deliver q result = step at hstep
  cases hstep with
  | failed table =>
      refine h.over (congrArg Entry.waiting table.here) (fun j hj => ?_) fun reply hreply => ?_
      · exact List.mem_of_mem_erase hj
      · simp [View.after, Broker.answer, Outcome.answerTo?, Except.map] at hreply
  | @overflowed bars =>
      have hnone : (View.after ⟨⟨some { request := r, stash }, some (numbers left), none⟩,
          left.map .fetch, done, []⟩ a.assignedId (.fetch q) (some (q, .ok bars))
          ({ b with cache := b.cacheAfter q bars }, .overflow)).jobs = [] := rfl
      refine ⟨h.key, h.range, fun p hp => ?_, fun x _ hne => absurd hnone hne, h.replies⟩
      rw [hnone] at hp
      cases hp
  | @more bars t' kept some_left table =>
      obtain ⟨-, hstock'⟩ := hstock.arrived (x := ⟨r, stash⟩) hq hkey hmirrors
        kept (hresult bars rfl)
      refine ⟨h.key, h.range, fun p hp => ?_, fun x hx _ => ?_, h.replies⟩
      · exact h.parts p (List.mem_of_mem_erase hp)
      · have hwaiting : some x = some ⟨r, Broker.stashAfter ⟨r, stash⟩ q bars⟩ :=
          hx.symm.trans (congrArg Entry.waiting table.here)
        obtain rfl := Option.some.inj hwaiting
        show T.Stocked _ r (((left.map Job.fetch).erase (.fetch q)).filterMap Job.request?) _
        rw [herased, requests_of_fetches]
        exact hstock'
  | @last bars t' kept none_left table =>
      obtain ⟨hmirrors', hstock'⟩ := hstock.arrived (x := ⟨r, stash⟩) hq hkey hmirrors
        kept (hresult bars rfl)
      have hempty : left.erase q = [] := by
        rw [← numbers_erase hq hc parts.distinct] at none_left
        exact (parts.erase q).numbers_eq_nil.mp none_left
      rw [hempty] at hstock' herased
      refine ⟨h.key, h.range, fun p hp => ?_, fun x hx => ?_, fun reply hreply => ?_⟩
      · exact h.parts p (List.mem_of_mem_erase hp)
      · have hwaiting : some x = none := hx.symm.trans (congrArg Entry.waiting table.here)
        cases hwaiting
      · obtain ⟨full, hstored, hfull⟩ := reply_of_answer (p := a.assignedId)
          (x := { request := r, stash })
          (by simpa only [View.after, List.append_nil, Option.mem_toList] using hreply)
        exact ⟨full, hstock'.fills (b := { b with cache := b.cacheAfter q bars }) h.key h.range
          hmirrors' hstored, hfull⟩

/-- A fetch that comes back leaves its request supplied. -/
theorem Supplied.fetched {o : Bool} {a : Accepted} {v : View} {b : Broker} {q : Request}
    {result : Except MarketError (List Bar)} (h : T.Supplied (b.cache.store.get T.key) r v)
    (hlife : Life o r a v) (hentry : b.inflight.entry a.assignedId = v.entry)
    (hjob : .fetch q ∈ v.jobs) (hmirrors : T.Mirrors (b.cache.store.get T.key))
    (hresult : ∀ bars, result = .ok bars → bars.Perm (T.within q.start q.stop)) :
    T.Supplied ((b.deliver q result).1.cache.store.get T.key) r
      (v.after a.assignedId (.fetch q) (some (q, result)) (b.deliver q result)) := by
  cases hlife with
  | serving => simp at hjob
  | fetching work whole numbered =>
      obtain rfl : q = r := by simpa using hjob
      have hpart := (h.parts q hjob).1
      simp [Request.isPart, whole] at hpart
  | filling parts some_left sent ok =>
      exact h.fetched_part parts (by simpa using hjob) hentry hmirrors hresult
  | @failed left done e parts some_left =>
      have hq : q ∈ left := by simpa using hjob
      obtain ⟨c, hc⟩ := Option.isSome_iff_exists.mp (parts.numbered q hq)
      have hab : b.inflight.aborted.find? a.assignedId = some (numbers left) :=
        congrArg Entry.aborted hentry
      obtain ⟨t', heq, hset⟩ := Broker.deliver_late hc (parts.parent q hq) hab result
      rw [heq]
      refine h.over ?_ (fun j hj => List.mem_of_mem_erase hj) fun reply hreply => hreply
      show (t'.entry a.assignedId).waiting = none
      rw [hset.here, hentry]
  | closed => simp at hjob
  | stranded => simp at hjob

/-! ### Every move keeps a request supplied -/

theorem Supplied.step {w w' : World} {m : Move} {e : Request × Accepted} (horder : w.Orderly)
    (hstep : w.step? m = some w') (hids : w'.issued.Nodup) (hallows : T.Allows m)
    (hmirrors : T.Mirrors (w.series T.key)) (he : e ∈ w.accepted)
    (h : T.Supplied (w.series T.key) e.1 (w.view e.2.assignedId)) :
    T.Supplied (w'.series T.key) e.1 (w'.view e.2.assignedId) := by
  rcases World.view_step horder hstep hids he with
    hview | ⟨rfl, hjob, hview⟩ | ⟨q, result, rfl, hjob, hview⟩
  · rw [hview]
    exact h.mono (mirrors_step horder hstep hallows hmirrors).2
  · rw [hview]
    exact h.served (horder.life e he) rfl hjob hmirrors
  · have hseries : w'.series T.key = (w.broker.deliver q result).1.cache.store.get T.key :=
      congrArg (·.cache.store.get T.key) (World.fetched_of_step hstep).2
    rw [hview, hseries]
    refine h.fetched (horder.life e he) rfl hjob hmirrors fun bars hbars => ?_
    subst hbars
    exact hallows (h.parts q hjob).2

/-- A world in good order whose stored series mirrors the tape. -/
structure Behind (T : Tape) (w : World) : Prop where
  orderly : w.Orderly
  mirrors : T.Mirrors (w.series T.key)

theorem Behind.step {w w' : World} {m : Move} (h : T.Behind w) (hstep : w.step? m = some w')
    (hids : w'.issued.Nodup) (hallows : T.Allows m) : T.Behind w' where
  orderly := h.orderly.step hstep hids
  mirrors := (mirrors_step h.orderly hstep hallows h.mirrors).1

theorem Behind.run {moves : List Move} {w w' : World} (h : T.Behind w)
    (hrun : w.run? moves = some w') (hids : w'.issued.Nodup) (hallows : ∀ m ∈ moves, T.Allows m) :
    T.Behind w' := by
  refine World.run?_induction_of_nodup ?_ h hrun hids
  exact fun v m v' hm hv hstep hids' => hv.step hstep hids' (hallows m hm)

/-- A store that can be read at the beginning, and that nobody makes refuse, can be read later. -/
theorem Behind.readable {moves : List Move} {w w' : World} (h : T.Behind w)
    (hrun : w.run? moves = some w') (hids : w'.issued.Nodup) (hallows : ∀ m ∈ moves, T.Allows m)
    (hrefused : ∀ x, .refused x ∈ moves → x.query = none)
    (hreads : w.broker.cache.refusals.query = none) :
    w'.broker.cache.refusals.query = none := by
  refine (World.run?_induction_of_nodup
    (P := fun v => T.Behind v ∧ v.broker.cache.refusals.query = none) ?_ ⟨h, hreads⟩ hrun hids).2
  rintro v m v' hm ⟨hbehind, hreads⟩ hstep hids'
  refine ⟨hbehind.step hstep hids' (hallows m hm), ?_⟩
  exact World.readable_step hbehind.orderly hstep (fun x hx => hrefused x (hx ▸ hm)) hreads

end Tape

end BarArchive
