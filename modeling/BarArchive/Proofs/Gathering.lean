/-
Filling gaps from a source with a fixed series.

A tape is what a source has, in whatever order. When a request is split and its bars are
saved, each of its parts is out or has been stored: the series has bars wherever the tape
has some in the range of a part that came. As long as nothing else writes to the series,
that remains so, and a reply shows the series as it is left.
-/
import BarArchive.Proofs.Consistency
import BarArchive.Proofs.Siblings

namespace BarArchive

open Series

/-! ### What a source has -/

/-- The bars of a series that fall into the range of a request. -/
def Request.excerpt (q : Request) (tape : List Bar) : List Bar :=
  tape.filter fun b => q.start ≤ b.time && b.time ≤ q.stop

/-- The series has bars wherever the tape has some in the range of the request. -/
def Series.HasExcerpt (s : Series) (tape : List Bar) (q : Request) : Prop :=
  ∀ b ∈ q.excerpt tape, groupAt s b.time ≠ []

/-- Fetches for the request `p` come back with the bars that the tape has, in any order. -/
def Move.Plays (tape : List Bar) (p : AssignedId) : Move → Prop
  | .fetched q result =>
    q.owner? = some p → ∃ bars, result = .ok bars ∧ bars.Perm (q.excerpt tape)
  | _ => True

/-- The request that a move does work for. -/
def Move.owner? : Move → Option AssignedId
  | .fetched q _ => q.owner?
  | .served id => some id
  | _ => none

theorem Request.mem_excerpt {q : Request} {tape : List Bar} {b : Bar} :
    b ∈ q.excerpt tape ↔ b ∈ tape ∧ q.start ≤ b.time ∧ b.time ≤ q.stop := by
  unfold excerpt
  rw [List.mem_filter]
  simp

theorem Series.HasExcerpt.mono {s s' : Series} {tape : List Bar} {q : Request}
    (h : s.HasExcerpt tape q) (hgrow : ∀ t, groupAt s t ≠ [] → groupAt s' t ≠ []) :
    s'.HasExcerpt tape q :=
  fun b hb => hgrow b.time (h b hb)

namespace World

/-- Nothing but work for the request `p` writes to the series of the key. -/
def LeavesTo (k : SeriesKey) (p : AssignedId) (w : World) (m : Move) : Prop :=
  ∀ overwrite bars, w.Batch k m overwrite bars → m.owner? = some p

/-- Work for the request `p` leaves the cache as it is. -/
def KeepsCache (p : AssignedId) (w : World) (m : Move) : Prop :=
  m.owner? = some p → ∀ w', w.step? m = some w' → w'.broker.cache = w.broker.cache

end World

variable {tape : List Bar} {k : SeriesKey}

/-! ### Gaps that are filled -/

namespace Broker

variable {b : Broker} {q : Request} {bars : List Bar}

/-- Bars for a part that are kept are stored, next to what was stored before. -/
theorem stores_of_keeps (hshape : Grouped k.frequency (b.cache.store.get k))
    (hkey : q.key? = some k) (hsave : q.save = true) (hkept : b.Keeps q bars) :
    (∀ t, groupAt (b.cache.store.get k) t ≠ [] →
      groupAt ((b.cacheAfter q bars).store.get k) t ≠ []) ∧
    ∀ c ∈ bars, groupAt ((b.cacheAfter q bars).store.get k) c.time ≠ [] := by
  by_cases hnil : bars = []
  · rw [cacheAfter_of_not_writes fun hwrites => hwrites.2.1 hnil]
    refine ⟨fun t ht => ht, fun c hc => ?_⟩
    rw [hnil] at hc
    cases hc
  · have hwritten := get_cacheAfter hkey hshape ⟨hsave, hnil, hkept hsave hnil⟩
    constructor
    · intro t ht
      exact (hwritten.groupAt_ne_nil t).mpr (Or.inl ht)
    · intro c hc
      refine (hwritten.groupAt_ne_nil c.time).mpr (Or.inr fun hslot => ?_)
      exact slot_eq_nil.mp hslot c hc rfl

theorem hasExcerpt_of_keeps (hshape : Grouped k.frequency (b.cache.store.get k))
    (hkey : q.key? = some k) (hsave : q.save = true) (hkept : b.Keeps q bars)
    (hbars : bars.Perm (q.excerpt tape)) :
    ((b.cacheAfter q bars).store.get k).HasExcerpt tape q := by
  intro c hc
  exact (stores_of_keeps hshape hkey hsave hkept).2 c (hbars.symm.subset hc)

end Broker

/--
What a world holds for a request whose gaps are filled and saved: for every part that was
sent, either it is out or the series has its bars; nothing is stashed; and a reply shows
what is stored.
-/
structure Gathered (tape : List Bar) (k : SeriesKey) (e : Request × Accepted) (s : Series)
    (v : View) : Prop where
  parts : ∀ q, .fetch q ∈ v.jobs → q.isPart = true ∧ q.key? = some k ∧ q.save = true
  gathering : ∀ x, v.entry.waiting = some x → v.jobs ≠ [] →
    x.stash = [] ∧ ∀ q ∈ e.2.work.requests, .fetch q ∈ v.jobs ∨ s.HasExcerpt tape q
  replied : ∀ reply, .ok reply ∈ v.answers →
    reply.bars = (e.1.replyFrom s).bars ∧ ∀ q ∈ e.2.work.requests, s.HasExcerpt tape q

namespace Gathered

variable {e : Request × Accepted} {s s' : Series} {v v' : View} {b : Broker}

/-- A view that does not wait, or has no work left, is gathered if its replies are right. -/
theorem ended (h : Gathered tape k e s v) (hends : v'.entry.waiting = none ∨ v'.jobs = [])
    (hjobs : ∀ j ∈ v'.jobs, j ∈ v.jobs) (hreplied : ∀ reply, .ok reply ∈ v'.answers →
      reply.bars = (e.1.replyFrom s').bars ∧ ∀ q ∈ e.2.work.requests, s'.HasExcerpt tape q) :
    Gathered tape k e s' v' where
  parts := fun q hq => h.parts q (hjobs _ hq)
  gathering := fun x hx hne => by
    rcases hends with hwaiting | hnone
    · rw [hwaiting] at hx
      cases hx
    · exact absurd hnone hne
  replied := hreplied

/-- Bars that are stored for a request that is not answered yet do no harm. -/
theorem grow (h : Gathered tape k e s v) (hgrow : ∀ t, groupAt s t ≠ [] → groupAt s' t ≠ [])
    (hreplied : ∀ reply, .ok reply ∈ v.answers → s' = s) : Gathered tape k e s' v where
  parts := h.parts
  gathering := fun x hx hjobs => by
    obtain ⟨hstash, hall⟩ := h.gathering x hx hjobs
    exact ⟨hstash, fun q hq => (hall q hq).imp_right fun hhas => hhas.mono hgrow⟩
  replied := fun reply hreply => by
    rw [hreplied reply hreply]
    exact h.replied reply hreply

/-- When the bars of a part are stored, the other parts are out or stored as they were. -/
theorem rest {left : List Request} {q : Request} (hgrow : ∀ t, groupAt s t ≠ [] → groupAt s' t ≠ [])
    (hthis : s'.HasExcerpt tape q)
    (hall : ∀ p ∈ e.2.work.requests, .fetch p ∈ left.map Job.fetch ∨ s.HasExcerpt tape p) :
    ∀ p ∈ e.2.work.requests, .fetch p ∈ (left.erase q).map Job.fetch ∨ s'.HasExcerpt tape p := by
  intro p hp
  rcases hall p hp with hout | hhas
  · by_cases hpq : p = q
    · rw [hpq]
      exact Or.inr hthis
    · have hleft : p ∈ left := by simpa using hout
      exact Or.inl (List.mem_map_of_mem ((List.mem_erase_of_ne hpq).mpr hleft))
  · exact Or.inr (hhas.mono hgrow)

/-- A part comes back with the bars that the tape has in its range. -/
theorem fetched_part {left : List Request} {stash bars : List Bar} {q : Request}
    {done : List (Request × Except MarketError (List Bar))}
    (h : Gathered tape k e (b.cache.store.get k)
      ⟨⟨some { request := e.1, stash }, some (numbers left), none⟩, left.map .fetch, done, []⟩)
    (parts : PartsOf e.2.assignedId left) (hq : q ∈ left)
    (hentry : b.inflight.entry e.2.assignedId
      = ⟨some { request := e.1, stash }, some (numbers left), none⟩)
    (hkey : e.1.key? = some k) (hrange : e.1.start ≤ e.1.stop)
    (hshape : Grouped k.frequency (b.cache.store.get k))
    (hbars : bars.Perm (q.excerpt tape)) :
    Gathered tape k e ((b.deliver q (.ok bars)).1.cache.store.get k)
      (View.after ⟨⟨some { request := e.1, stash }, some (numbers left), none⟩, left.map .fetch,
        done, []⟩ e.2.assignedId (.fetch q) (some (q, .ok bars)) (b.deliver q (.ok bars))) := by
  obtain ⟨c, hc⟩ := Option.isSome_iff_exists.mp (parts.numbered q hq)
  have hstep := Broker.deliver_part hc (parts.parent q hq) hentry (.ok bars)
  have hjob : Job.fetch q ∈ left.map Job.fetch := List.mem_map_of_mem hq
  obtain ⟨-, hqkey, hqsave⟩ := h.parts q hjob
  obtain ⟨hstash, hall⟩ := h.gathering _ rfl (List.ne_nil_of_mem hjob)
  obtain rfl : stash = [] := hstash
  have herased := PartsOf.jobs_erase left q
  have hunstashed : ∀ x : Waiting, Broker.stashAfter x q bars = x.stash := fun x => by
    rw [Broker.stashAfter, if_pos hqsave]
  generalize b.deliver q (.ok bars) = step at hstep
  cases hstep with
  | failed table =>
      refine h.ended (Or.inl (congrArg Entry.waiting table.here))
        (fun j hj => List.mem_of_mem_erase hj) fun reply hreply => ?_
      simp [View.after, Broker.answer, Outcome.answerTo?, Except.map] at hreply
  | overflowed =>
      refine h.ended (Or.inr rfl) (fun j hj => absurd hj List.not_mem_nil) fun reply hreply => ?_
      exact absurd hreply List.not_mem_nil
  | @more _ t' kept some_left table =>
      have hgrow := (Broker.stores_of_keeps hshape hqkey hqsave kept).1
      have hthis := Broker.hasExcerpt_of_keeps hshape hqkey hqsave kept hbars
      refine ⟨fun p hp => h.parts p (List.mem_of_mem_erase hp), fun x hx _ => ?_,
        fun reply hreply => absurd hreply List.not_mem_nil⟩
      have hwaiting : some x = some ⟨e.1, Broker.stashAfter ⟨e.1, []⟩ q bars⟩ :=
        hx.symm.trans (congrArg Entry.waiting table.here)
      obtain rfl := Option.some.inj hwaiting
      refine ⟨hunstashed _, ?_⟩
      show ∀ p ∈ e.2.work.requests, .fetch p ∈ (left.map Job.fetch).erase (.fetch q) ∨ _
      rw [herased]
      exact rest hgrow hthis hall
  | @last _ t' kept none_left table =>
      have hgrow := (Broker.stores_of_keeps hshape hqkey hqsave kept).1
      have hthis := Broker.hasExcerpt_of_keeps hshape hqkey hqsave kept hbars
      have hempty : left.erase q = [] := by
        rw [← numbers_erase hq hc parts.distinct] at none_left
        exact (parts.erase q).numbers_eq_nil.mp none_left
      refine h.ended (Or.inl (congrArg Entry.waiting table.here))
        (fun j hj => List.mem_of_mem_erase hj) fun reply hreply => ⟨?_, fun p hp => ?_⟩
      · obtain ⟨full, hfull, hpresented⟩ := Tape.reply_of_answer (p := e.2.assignedId)
          (x := { request := e.1 })
          (by simpa only [View.after, List.append_nil, Option.mem_toList] using hreply)
        rw [Broker.stored_unstashed _ _ (hunstashed _)] at hfull
        rw [hpresented, Broker.stored_eq_ok hkey hrange hfull]
        rfl
      · -- no part is out any more
        have hstored := rest hgrow hthis hall p hp
        rw [hempty] at hstored
        exact hstored.resolve_left List.not_mem_nil

/-- A fetch that comes back leaves its request gathered. -/
theorem fetched {o : Bool} {q : Request} {result : Except MarketError (List Bar)}
    (h : Gathered tape k e (b.cache.store.get k) v) (hlife : Life o e.1 e.2 v)
    (hentry : b.inflight.entry e.2.assignedId = v.entry) (hjob : .fetch q ∈ v.jobs)
    (hkey : e.1.key? = some k) (hrange : e.1.start ≤ e.1.stop)
    (hshape : Grouped k.frequency (b.cache.store.get k))
    (hplays : ∃ bars, result = .ok bars ∧ bars.Perm (q.excerpt tape)) :
    Gathered tape k e ((b.deliver q result).1.cache.store.get k)
      (v.after e.2.assignedId (.fetch q) (some (q, result)) (b.deliver q result)) := by
  obtain ⟨bars, rfl, hbars⟩ := hplays
  cases hlife with
  | serving => simp at hjob
  | fetching work whole numbered =>
      -- a part is no whole request
      have hpart := (h.parts q hjob).1
      obtain rfl : q = e.1 := by simpa using hjob
      rw [Request.isPart, whole] at hpart
      cases hpart
  | filling parts some_left sent ok =>
      exact h.fetched_part parts (by simpa using hjob) hentry hkey hrange hshape hbars
  | @failed left done error parts some_left =>
      have hq : q ∈ left := by simpa using hjob
      obtain ⟨c, hc⟩ := Option.isSome_iff_exists.mp (parts.numbered q hq)
      have hab : b.inflight.aborted.find? e.2.assignedId = some (numbers left) :=
        congrArg Entry.aborted hentry
      obtain ⟨t', heq, hset⟩ := Broker.deliver_late hc (parts.parent q hq) hab (.ok bars)
      rw [heq]
      refine h.ended (Or.inl ?_) (fun j hj => List.mem_of_mem_erase hj) fun reply hreply => ?_
      · show (t'.entry e.2.assignedId).waiting = none
        rw [hset.here, hentry]
      · simp [View.after, Outcome.answerTo?] at hreply
  | closed => simp at hjob
  | stranded => simp at hjob

end Gathered

/-- A run from the submission of a request whose gaps are filled and saved. -/
structure Gathers (tape : List Bar) (k : SeriesKey) (e : Request × Accepted) (since : Series)
    (w : World) : Prop where
  shaped : w.Shaped
  known : e ∈ w.accepted
  grown : ∀ t, groupAt since t ≠ [] → groupAt (w.series k) t ≠ []
  gathered : Gathered tape k e (w.series k) (w.view e.2.assignedId)

namespace World

variable {w w' : World} {m : Move} {p : AssignedId} {e : Request × Accepted}

/-- A request with a reply has no work left. -/
theorem jobs_of_reply {reply : Reply} (horder : w.Orderly) (he : e ∈ w.accepted)
    (hreply : .ok reply ∈ w.answers e.2.assignedId) : w.jobs e.2.assignedId = [] := by
  have hlife := horder.life e he
  generalize hv : w.view e.2.assignedId = v at hlife
  have hanswers : w.answers e.2.assignedId = v.answers := congrArg View.answers hv
  have hjobs : w.jobs e.2.assignedId = v.jobs := congrArg View.jobs hv
  rw [hanswers] at hreply
  rw [hjobs]
  cases hlife with
  | serving => cases hreply
  | fetching => cases hreply
  | filling => cases hreply
  | failed => simp at hreply
  | closed => rfl
  | stranded => rfl

/-- If nothing but work for a request writes to a series, a move writes bars that came for it. -/
theorem series_of_leavesTo (hshaped : w.Shaped) (hstep : w.step? m = some w')
    (hleaves : w.LeavesTo k p m) :
    (∃ q bars, m = .fetched q (.ok bars) ∧ .fetch q ∈ w.jobs p ∧ w.Stores k q bars ∧
        Store.Written k bars (w.series k) (w'.series k)) ∨ w'.series k = w.series k := by
  by_cases hbatch : ∃ overwrite bars, w.Batch k m overwrite bars
  · obtain ⟨overwrite, bars, hbatch⟩ := hbatch
    have howner := hleaves overwrite bars hbatch
    cases hbatch with
    | added => cases howner
    | @fetched q bars stores =>
        obtain ⟨hpending, -⟩ := fetched_of_step hstep
        have hseries := series_step hshaped.1 (hshaped.2 k) hstep fun a ha => nomatch ha
        rcases hseries with ⟨q', bars', heq, hstores, hwritten⟩ | ⟨hnone, -⟩
        · cases heq
          exact Or.inl ⟨q, bars, rfl, mem_jobs hpending howner, hstores, hwritten⟩
        · exact absurd stores (hnone q bars rfl)
  · refine Or.inr (series_of_no_batch hshaped.1 (hshaped.2 k) hstep ?_)
    intro overwrite bars hnot
    exact hbatch ⟨overwrite, bars, hnot⟩

end World

theorem Gathers.step {w w' : World} {m : Move} {e : Request × Accepted} {since : Series}
    (h : Gathers tape k e since w) (hkey : e.1.key? = some k) (hrange : e.1.start ≤ e.1.stop)
    {slot : Slot} {parts : List Request} (hwork : e.2.work = .fetch slot parts)
    (hstep : w.step? m = some w') (hids : w'.issued.Nodup)
    (hplays : m.Plays tape e.2.assignedId) (hleaves : w.LeavesTo k e.2.assignedId m) :
    Gathers tape k e since w' := by
  have hseries := World.series_of_leavesTo h.shaped hstep hleaves
  have hgrow : ∀ t, groupAt (w.series k) t ≠ [] → groupAt (w'.series k) t ≠ [] := by
    intro t ht
    rcases hseries with ⟨q, bars, -, -, -, hwritten⟩ | hsame
    · exact (hwritten.groupAt_ne_nil t).mpr (Or.inl ht)
    · rw [hsame]
      exact ht
  refine ⟨⟨h.shaped.1.step hstep hids, World.inShape_step h.shaped.1 hstep h.shaped.2⟩,
    World.accepted_step hstep h.known, fun t ht => hgrow t (h.grown t ht), ?_⟩
  have hlife := h.shaped.1.life e h.known
  rcases World.view_step h.shaped.1 hstep hids h.known with
    hview | ⟨-, hjob, -⟩ | ⟨q, result, rfl, hjob, hview⟩
  · rw [hview]
    refine h.gathered.grow hgrow fun reply hreply => ?_
    -- with the reply the work for the request has ended, and nobody else writes
    have hjobs := World.jobs_of_reply h.shaped.1 h.known hreply
    rcases hseries with ⟨q, bars, -, hjob, -⟩ | hsame
    · rw [hjobs] at hjob
      cases hjob
    · exact hsame
  · -- a request that was sent out is not served
    have hserve : Job.serve e.2.assignedId ∈ (w.view e.2.assignedId).jobs := hjob
    generalize w.view e.2.assignedId = v at hlife hserve
    cases hlife with
    | serving work =>
        rw [hwork] at work
        cases work
    | fetching => simp at hserve
    | filling => simp at hserve
    | failed => simp at hserve
    | closed => simp at hserve
    | stranded => simp at hserve
  · have howner : q.owner? = some e.2.assignedId :=
      of_decide_eq_true (List.mem_filter.mp hjob).2
    have hafter : w'.series k = (w.broker.deliver q result).1.cache.store.get k :=
      congrArg (·.cache.store.get k) (World.fetched_of_step hstep).2
    rw [hview, hafter]
    exact h.gathered.fetched hlife rfl hjob hkey hrange (h.shaped.2 k)
      (hplays howner)

theorem Gathers.run {w w' : World} {moves : List Move} {e : Request × Accepted} {since : Series}
    (h : Gathers tape k e since w) (hkey : e.1.key? = some k) (hrange : e.1.start ≤ e.1.stop)
    {slot : Slot} {parts : List Request} (hwork : e.2.work = .fetch slot parts)
    (hrun : w.run? moves = some w') (hids : w'.issued.Nodup)
    (hplays : ∀ m ∈ moves, m.Plays tape e.2.assignedId)
    (hleaves : w.AtEachMove (World.LeavesTo k e.2.assignedId) moves) :
    Gathers tape k e since w' := by
  refine (World.AtEachMove.induction (R := fun _ _ => True)
    (fun _ _ _ => World.nodup_issued_of_step) ?_ hleaves h hrun hids).1
  intro v m v' hm hstep hids' hv hleaves'
  exact ⟨hv.step hkey hrange hwork hstep hids' (hplays m hm) hleaves', trivial⟩

namespace World

variable {u : World} {r : Request} {a : Accepted} {b : Broker} {now : Instant}

theorem Shaped.enroll (h : u.Shaped) (hsubmit : u.broker.submit now r = .ok (a, b))
    (hids : (u.enroll r a b).issued.Nodup) : (u.enroll r a b).Shaped :=
  ⟨h.1.enroll hsubmit hids, inShape_step h.1 (step_enroll hsubmit) h.2⟩

/-- A request that is split, and to be saved, is gathered from its submission on. -/
theorem gathers_of_submit (tape : List Bar) {slot : Slot} {parts : List Request} (h : u.Shaped)
    (hsubmit : u.broker.submit now r = .ok (a, b)) (hids : (u.enroll r a b).issued.Nodup)
    (hwork : a.work = .fetch slot parts)
    (hparts : ∀ q ∈ parts, q.isPart = true ∧ q.key? = some k ∧ q.save = true) :
    Gathers tape k (r.filed a.assignedId, a) (u.series k) (u.enroll r a b) := by
  have hadmission := Broker.submit_cases hsubmit
  have hview := view_enroll_self hsubmit (h.1.blank _ (not_mem_acceptedIds hids))
  have hjobs : a.work.jobs = parts.map .fetch := by
    rw [hwork]
    rfl
  refine ⟨h.enroll hsubmit hids, List.mem_cons_self, fun t ht => ?_, ?_⟩
  · show groupAt (b.cache.store.get k) t ≠ []
    rw [cache_of_submit hsubmit]
    exact ht
  · show Gathered tape k _ _ ((u.enroll r a b).view a.assignedId)
    rw [hview, hjobs]
    refine ⟨fun q hq => hparts q (by simpa using hq), fun x hx _ => ?_, fun reply hr => ?_⟩
    · obtain rfl := Option.some.inj (hx.symm.trans (admission_waiting hadmission))
      refine ⟨rfl, fun q hq => Or.inl (List.mem_map_of_mem ?_)⟩
      have hsent : q ∈ a.work.requests := hq
      rwa [hwork] at hsent
    · cases hr

end World

end BarArchive
