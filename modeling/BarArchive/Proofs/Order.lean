/-
Every request is answered exactly once.

Each move concerns one request and takes it from one stage of its life to another, so in
every world that a run reaches, every request that was accepted is in some stage. What
the table holds can then be read off the work that is left: a request waits as long as
work is left for it and no answer was given, its missing parts are the gaps that no
source has answered for, and the aborted parts are those gaps of requests that failed.

Two assumptions are about the run. The numbers that the allocator gave out in it differ,
and no decimal overflowed in it: an overflow ends the task that works for a request, and
nobody would answer that request any more.
-/
import BarArchive.Proofs.Life

namespace BarArchive

/-! ### Every request has a stage -/

namespace World

/-- The numbers of the requests that were accepted. -/
def acceptedIds (w : World) : List AssignedId := w.accepted.map (·.2.assignedId)

/--
A world in good order: every accepted request is in some stage of its life, nothing is
known about other numbers, all work is for accepted requests, and no step found the
table in disorder.
-/
structure Orderly (w : World) : Prop where
  life : ∀ e ∈ w.accepted, Life w.hasOverflowed e.1 e.2 (w.view e.2.assignedId)
  blank : ∀ p, p ∉ w.acceptedIds → w.view p = {}
  owned : ∀ j ∈ w.pending, ∃ e ∈ w.accepted, j.owner? = some e.2.assignedId
  sound : ∀ cause, .violation cause ∉ w.outcomes

theorem orderly_start (cache : Cache) (ids : Allocator) (registry : Registry) :
    (start cache ids registry).Orderly where
  life := fun e he => by cases he
  blank := fun p _ => rfl
  owned := fun j hj => by cases hj
  sound := fun cause h => by cases h

/-- Work that is taken up and done for one request keeps the world in good order. -/
theorem Orderly.after {w : World} {p : AssignedId} {j : Job}
    {fetched : Option (Request × Except MarketError (List Bar))} {step : Broker × Outcome}
    (h : w.Orderly) (howner : j.owner? = some p) (hfetched : ∀ f ∈ fetched, f.1.owner? = some p)
    (hp : p ∈ w.acceptedIds)
    (hstep : ∀ e ∈ w.accepted, e.2.assignedId = p → Local p w.broker step ∧
      Life (w.hasOverflowed || step.2.isOverflow) e.1 e.2 ((w.view p).after p j fetched step)) :
    ((w.take j fetched).after (some p) step).Orderly := by
  obtain ⟨e₀, he₀, hid₀⟩ := List.mem_map.mp hp
  have hlocal : Local p w.broker step := (hstep e₀ he₀ hid₀).1
  have hself := view_done_self (w := w) (j := j) hfetched step
  have hother : ∀ q, q ≠ p → ((w.take j fetched).after (some p) step).view q = w.view q :=
    fun q hq => view_done_other hlocal howner hfetched hq
  have haccepted : ((w.take j fetched).after (some p) step).accepted = w.accepted :=
    accepted_after _ _ _
  have hpending : ∀ i ∈ ((w.take j fetched).after (some p) step).pending, i ∈ w.pending :=
    fun i hi => List.mem_of_mem_erase (pending_after hi)
  have houtcomes : ((w.take j fetched).after (some p) step).outcomes = step.2 :: w.outcomes := by
    simp only [World.after]
    split <;> rfl
  constructor
  · intro e he
    rw [haccepted] at he
    rw [hasOverflowed_after]
    by_cases hid : e.2.assignedId = p
    · rw [hid, hself, Bool.or_comm]
      exact (hstep e he hid).2
    · rw [hother _ hid]
      refine (h.life e he).mono fun ho => ?_
      have htaken : (w.take j fetched).hasOverflowed = true := ho
      simp [htaken]
  · intro q hq
    simp only [acceptedIds, haccepted] at hq
    rw [hother q fun hqp => hq (hqp ▸ hp)]
    exact h.blank q hq
  · intro i hi
    rw [haccepted]
    exact h.owned i (hpending i hi)
  · intro cause hmem
    rw [houtcomes] at hmem
    rcases List.mem_cons.mp hmem with heq | hmem
    · rcases hlocal.outcome with ho | ho | ⟨result, ho⟩ <;> rw [ho] at heq <;> cases heq
    · exact h.sound cause hmem

/-! ### Requests that are accepted -/

/-- All work that an accepted request leaves is for that request. -/
theorem admission_owned {b b' : Broker} {now : Instant} {r : Request} {a : Accepted}
    (h : Broker.Admission b now r (a, b')) : ∀ j ∈ a.work.jobs, j.owner? = some a.assignedId := by
  intro j hj
  cases h with
  | stored =>
    obtain rfl := List.mem_singleton.mp hj
    rfl
  | external =>
    obtain rfl := List.mem_singleton.mp hj
    rfl
  | split =>
    obtain ⟨q, hq, rfl⟩ := List.mem_map.mp hj
    obtain ⟨g, -, c, rfl⟩ := Broker.partsFor_mem hq
    rfl

theorem admission_table {b b' : Broker} {now : Instant} {r : Request} {a : Accepted}
    (h : Broker.Admission b now r (a, b')) :
    ∀ q, q ≠ a.assignedId → b'.inflight.entry q = b.inflight.entry q := by
  cases h with
  | stored next routed table => exact table.elsewhere
  | external next routed table => exact table.elsewhere
  | split next routed table => exact table.elsewhere

/-- The parts for the gaps of a request are parts of it, if their numbers differ. -/
theorem partsOf_partsFor {r : Request} {p : AssignedId} {gaps : List Gap} {ids : Allocator}
    (hdistinct : (numbers (Broker.partsFor (r.filed p) gaps ids).1).Nodup) :
    PartsOf p (Broker.partsFor (r.filed p) gaps ids).1 where
  parent := fun q hq => by
    obtain ⟨g, -, c, rfl⟩ := Broker.partsFor_mem hq
    rfl
  numbered := fun q hq => by
    obtain ⟨g, -, c, rfl⟩ := Broker.partsFor_mem hq
    rfl
  distinct := hdistinct

/-- A request that is accepted under a new number begins its life. -/
theorem admission_life {b b' : Broker} {now : Instant} {r : Request} {a : Accepted} {o : Bool}
    (h : Broker.Admission b now r (a, b')) (hblank : b.inflight.entry a.assignedId = {})
    (hids : a.ids.Nodup) :
    Life o (r.filed a.assignedId) a ⟨b'.inflight.entry a.assignedId, a.work.jobs, [], []⟩ := by
  cases h with
  | stored next routed table =>
    rw [table.here, hblank]
    exact .serving rfl
  | external next routed table =>
    rw [table.here, hblank]
    exact .fetching rfl rfl rfl
  | @split k p ids gaps slot t' next routed table =>
    have hall := Broker.partsFor_all (r := r) p gaps ids
    simp only [Accepted.ids, Work.requests, hall] at hids
    rw [table.here, hblank]
    refine .filling (partsOf_partsFor (List.nodup_cons.mp hids).2) ?_ (by simp [Work.requests])
      (by simp)
    exact fun hempty => (Broker.plan_gaps routed.gaps).2.2.1 (Broker.partsFor_eq_nil.mp hempty)

theorem acceptedIds_subset_issued {w : World} {p : AssignedId} (h : p ∈ w.acceptedIds) :
    p ∈ w.issued := by
  obtain ⟨e, he, rfl⟩ := List.mem_map.mp h
  exact List.mem_flatMap.mpr ⟨e, he, List.mem_cons_self⟩

theorem step_enroll {w : World} {now : Instant} {r : Request} {a : Accepted} {b : Broker}
    (hsubmit : w.broker.submit now r = .ok (a, b)) :
    w.step? (.submit now r) = some (w.enroll r a b) := by
  simp only [step?, hsubmit]

theorem admission_range {b b' : Broker} {now : Instant} {r : Request} {a : Accepted}
    (h : Broker.Admission b now r (a, b')) : r.start ≤ r.stop := by
  cases h with
  | stored next routed table => exact routed.range
  | external next routed table => exact routed.range
  | split next routed table => exact routed.range

/-- A request that is accepted waits, and nothing is stashed for it yet. -/
theorem admission_waiting {b b' : Broker} {now : Instant} {r : Request} {a : Accepted}
    (h : Broker.Admission b now r (a, b')) :
    (b'.inflight.entry a.assignedId).waiting = some { request := r.filed a.assignedId } := by
  cases h with
  | stored next routed table => exact congrArg Entry.waiting table.here
  | external next routed table => exact congrArg Entry.waiting table.here
  | split next routed table => exact congrArg Entry.waiting table.here

theorem issued_enroll (w : World) (r : Request) (a : Accepted) (b : Broker) :
    (w.enroll r a b).issued = a.ids ++ w.issued := by
  simp [issued, World.enroll]

/-- A number that is new was not given to an earlier request. -/
theorem not_mem_acceptedIds {w : World} {r : Request} {a : Accepted} {b : Broker}
    (hids : (w.enroll r a b).issued.Nodup) : a.assignedId ∉ w.acceptedIds := by
  rw [issued_enroll] at hids
  intro hold
  exact (List.nodup_append.mp hids).2.2 _ List.mem_cons_self _ (acceptedIds_subset_issued hold) rfl

theorem jobs_enroll (w : World) (r : Request) (a : Accepted) (b : Broker) (q : AssignedId) :
    (w.enroll r a b).jobs q = w.jobs q ++ a.work.jobs.filter fun j => j.owner? = some q := by
  simp [jobs, World.enroll]

/-- A request that is accepted is known by the work that it leaves, -/
theorem view_enroll_self {w : World} {now : Instant} {r : Request} {a : Accepted} {b : Broker}
    (hsubmit : w.broker.submit now r = .ok (a, b)) (hblank : w.view a.assignedId = {}) :
    (w.enroll r a b).view a.assignedId
      = ⟨b.inflight.entry a.assignedId, a.work.jobs, [], []⟩ := by
  have howned := admission_owned (Broker.submit_cases hsubmit)
  have hown : a.work.jobs.filter (fun j => j.owner? = some a.assignedId) = a.work.jobs :=
    List.filter_eq_self.mpr fun j hj => by simp [howned j hj]
  have hnone : w.jobs a.assignedId = [] := congrArg View.jobs hblank
  have hfetches : w.fetches a.assignedId = [] := congrArg View.fetches hblank
  have hanswers : w.answers a.assignedId = [] := congrArg View.answers hblank
  simp only [view, jobs_enroll, hown, hnone, List.nil_append]
  rw [← hfetches, ← hanswers]
  rfl

/-- and all other requests as they were before. -/
theorem view_enroll_other {w : World} {now : Instant} {r : Request} {a : Accepted} {b : Broker}
    (hsubmit : w.broker.submit now r = .ok (a, b)) {q : AssignedId} (hq : q ≠ a.assignedId) :
    (w.enroll r a b).view q = w.view q := by
  have hcases := Broker.submit_cases hsubmit
  have howned := admission_owned hcases
  have hnone : a.work.jobs.filter (fun j => j.owner? = some q) = [] := by
    refine List.filter_eq_nil_iff.mpr fun j hj => ?_
    simp [howned j hj, Ne.symm hq]
  have htable := admission_table hcases q hq
  simp only [view, jobs_enroll, hnone, List.append_nil]
  rw [← htable]
  rfl

/-- A request that is accepted keeps the world in good order, unless its numbers are not new. -/
theorem Orderly.enroll {w : World} {now : Instant} {r : Request} {a : Accepted} {b : Broker}
    (h : w.Orderly) (hsubmit : w.broker.submit now r = .ok (a, b))
    (hids : (w.enroll r a b).issued.Nodup) : (w.enroll r a b).Orderly := by
  have hcases := Broker.submit_cases hsubmit
  have howned := admission_owned hcases
  have hnew := not_mem_acceptedIds hids
  have hblank := h.blank _ hnew
  have hself := view_enroll_self hsubmit hblank
  have hother : ∀ q, q ≠ a.assignedId → (w.enroll r a b).view q = w.view q :=
    fun q hq => view_enroll_other hsubmit hq
  rw [issued_enroll] at hids
  constructor
  · intro e he
    rcases List.mem_cons.mp he with rfl | he
    · rw [hself]
      exact admission_life hcases (congrArg View.entry hblank) (List.nodup_append.mp hids).1
    · rw [hother]
      · exact h.life e he
      · rintro hid
        exact hnew (List.mem_map.mpr ⟨e, he, hid⟩)
  · intro q hq
    simp only [acceptedIds, World.enroll, List.map_cons, List.mem_cons, not_or] at hq
    rw [hother q hq.1]
    exact h.blank q hq.2
  · intro j hj
    rcases List.mem_append.mp hj with hj | hj
    · obtain ⟨e, he, howner⟩ := h.owned j hj
      exact ⟨e, List.mem_cons_of_mem _ he, howner⟩
    · exact ⟨_, List.mem_cons_self, howned j hj⟩
  · exact h.sound

/-! ### Every move keeps the order -/

/-- A step that leaves the table alone and answers nobody changes no view, -/
theorem view_unanswered {w : World} {b : Broker} {o : Outcome}
    (htable : b.inflight = w.broker.inflight) (ho : o = .silent ∨ o = .overflow) (p : AssignedId) :
    ({ w with broker := b, outcomes := o :: w.outcomes } : World).view p = w.view p := by
  have hnone : o.answerTo? p = none := by rcases ho with rfl | rfl <;> rfl
  simp only [view, htable, answers, List.filterMap_cons, hnone]
  rfl

/-- and keeps the world in good order. -/
theorem Orderly.unanswered {w : World} {b : Broker} {o : Outcome} (h : w.Orderly)
    (htable : b.inflight = w.broker.inflight) (ho : o = .silent ∨ o = .overflow) :
    ({ w with broker := b, outcomes := o :: w.outcomes } : World).Orderly := by
  have hview := view_unanswered htable ho
  constructor
  · intro e he
    rw [hview]
    refine (h.life e he).mono fun hover => ?_
    simp only [hasOverflowed, List.any_cons, Bool.or_eq_true]
    exact Or.inr hover
  · intro p hp
    rw [hview]
    exact h.blank p hp
  · exact h.owned
  · intro cause hmem
    rcases List.mem_cons.mp hmem with heq | hmem
    · rcases ho with rfl | rfl <;> cases heq
    · exact h.sound cause hmem

theorem Orderly.step {w w' : World} {m : Move} (h : w.Orderly) (hstep : w.step? m = some w')
    (hids : w'.issued.Nodup) : w'.Orderly := by
  cases makes_of_step hstep with
  | accepted hsubmit => exact h.enroll hsubmit hids
  | declined => exact h
  | @fetched r result hmem =>
    obtain ⟨e₀, he₀, howner⟩ := h.owned _ hmem
    have howner' : r.owner? = some e₀.2.assignedId := howner
    rw [howner']
    -- the other requests keep their stage, so only the one that owns the fetch moves on
    refine h.after howner (by simp [howner']) (List.mem_map.mpr ⟨e₀, he₀, rfl⟩) fun e he hid => ?_
    rw [← hid] at howner ⊢
    exact (h.life e he).fetched rfl (mem_jobs hmem howner)
  | @served id hmem =>
    obtain ⟨e₀, he₀, howner⟩ := h.owned _ hmem
    have hid₀ : e₀.2.assignedId = id := (Option.some.inj howner).symm
    refine h.after rfl (by simp) (List.mem_map.mpr ⟨e₀, he₀, hid₀⟩) fun e he hid => ?_
    rw [← hid] at hmem ⊢
    obtain ⟨hlocal, hlife⟩ := (h.life e he).served rfl (mem_jobs hmem rfl)
    exact ⟨hlocal, hlife.mono fun ho => by simp [ho]⟩
  | added houtcome => exact h.unanswered (by rw [Broker.addData_fst]) houtcome
  | refused => exact ⟨h.life, h.blank, h.owned, h.sound⟩
  | connected => exact ⟨h.life, h.blank, h.owned, h.sound⟩

/-! ### Every reachable world is in good order -/

/--
What a move does to the view of an accepted request: nothing, or what the broker does
when work for that request is done.
-/
theorem view_step {w w' : World} {m : Move} (h : w.Orderly) (hstep : w.step? m = some w')
    (hids : w'.issued.Nodup) {e : Request × Accepted} (he : e ∈ w.accepted) :
    w'.view e.2.assignedId = w.view e.2.assignedId ∨
      (m = .served e.2.assignedId ∧ .serve e.2.assignedId ∈ w.jobs e.2.assignedId ∧
        w'.view e.2.assignedId = (w.view e.2.assignedId).after e.2.assignedId
          (.serve e.2.assignedId) none (w.broker.serve e.2.assignedId)) ∨
      ∃ q result, m = .fetched q result ∧ .fetch q ∈ w.jobs e.2.assignedId ∧
        w'.view e.2.assignedId = (w.view e.2.assignedId).after e.2.assignedId (.fetch q)
          (some (q, result)) (w.broker.deliver q result) := by
  cases makes_of_step hstep with
  | accepted hsubmit =>
    refine Or.inl (view_enroll_other hsubmit fun hid => not_mem_acceptedIds hids ?_)
    exact List.mem_map.mpr ⟨e, he, hid⟩
  | declined => exact Or.inl rfl
  | @fetched r result hmem =>
    obtain ⟨d, hd, howner⟩ := h.owned _ hmem
    have howner' : r.owner? = some d.2.assignedId := howner
    have hfetched : ∀ f ∈ some (r, result), f.1.owner? = some d.2.assignedId := by
      simp [howner']
    have hlocal : Local d.2.assignedId w.broker (w.broker.deliver r result) :=
      ((h.life d hd).fetched rfl (mem_jobs hmem howner)).1
    rw [howner']
    by_cases hid : e.2.assignedId = d.2.assignedId
    · rw [hid]
      exact Or.inr (Or.inr ⟨r, result, rfl, mem_jobs hmem howner, view_done_self hfetched _⟩)
    · exact Or.inl (view_done_other hlocal howner hfetched hid)
  | @served id hmem =>
    obtain ⟨d, hd, howner⟩ := h.owned _ hmem
    obtain rfl : id = d.2.assignedId := Option.some.inj howner
    have hlocal := ((h.life d hd).served rfl (mem_jobs hmem rfl)).1
    by_cases hid : e.2.assignedId = d.2.assignedId
    · rw [hid]
      exact Or.inr (Or.inl ⟨rfl, mem_jobs hmem rfl, view_done_self (by simp) _⟩)
    · exact Or.inl (view_done_other hlocal rfl (by simp) hid)
  | added houtcome => exact Or.inl (view_unanswered (by rw [Broker.addData_fst]) houtcome _)
  | refused => exact Or.inl rfl
  | connected => exact Or.inl rfl

/-- A move files a request that is accepted, or no request and no work. -/
theorem step_cases {w w' : World} {m : Move} (h : w.step? m = some w') :
    (∃ now r a b, m = .submit now r ∧ w.broker.submit now r = .ok (a, b) ∧ w' = w.enroll r a b) ∨
      (w'.accepted = w.accepted ∧ ∀ j ∈ w'.pending, j ∈ w.pending) := by
  cases makes_of_step h with
  | @accepted now r a b hsubmit => exact Or.inl ⟨now, r, a, b, rfl, hsubmit, rfl⟩
  | declined => exact Or.inr ⟨rfl, fun _ hj => hj⟩
  | fetched =>
    exact Or.inr ⟨accepted_after _ _ _, fun j hj => List.mem_of_mem_erase (pending_after hj)⟩
  | served =>
    exact Or.inr ⟨accepted_after _ _ _, fun j hj => List.mem_of_mem_erase (pending_after hj)⟩
  | added => exact Or.inr ⟨rfl, fun _ hj => hj⟩
  | refused => exact Or.inr ⟨rfl, fun _ hj => hj⟩
  | connected => exact Or.inr ⟨rfl, fun _ hj => hj⟩

/-- Only a request that is accepted takes numbers from the allocator. -/
theorem ids_step {w w' : World} {m : Move} (h : w.step? m = some w')
    (haccepted : w'.accepted = w.accepted) : w'.broker.ids = w.broker.ids := by
  cases makes_of_step h with
  | accepted => exact absurd haccepted (List.cons_ne_self _ _)
  | declined => rfl
  | fetched => rw [broker_after, (Broker.steady_deliver _ _ _).ids]
  | served => rw [broker_after, (Broker.quiet_serve _ _).ids]
  | added =>
    show (w.broker.addData _).1.ids = _
    rw [Broker.addData_fst]
  | refused => rfl
  | connected => rfl

/-- A request that was accepted stays accepted. -/
theorem accepted_step {w w' : World} {m : Move} (h : w.step? m = some w')
    {e : Request × Accepted} (he : e ∈ w.accepted) : e ∈ w'.accepted := by
  rcases step_cases h with ⟨now, r, a, b, -, -, rfl⟩ | ⟨haccepted, -⟩
  · exact List.mem_cons_of_mem _ he
  · rw [haccepted]
    exact he

/-- Numbers that differ at the end of a move differed before it. -/
theorem nodup_issued_of_step {w w' : World} {m : Move} (h : w.step? m = some w')
    (hids : w'.issued.Nodup) : w.issued.Nodup := by
  rcases step_cases h with ⟨now, r, a, b, -, -, rfl⟩ | ⟨haccepted, -⟩
  · rw [issued_enroll] at hids
    exact (List.nodup_append.mp hids).2.1
  · unfold issued at hids
    rw [haccepted] at hids
    exact hids

/-- Numbers that differ at the end of a run differed before it. -/
theorem nodup_issued_of_run {moves : List Move} {w w' : World} (hrun : w.run? moves = some w')
    (hids : w'.issued.Nodup) : w.issued.Nodup :=
  earlier_of_run (fun _ _ _ hstep => nodup_issued_of_step hstep) hrun hids

/-- What every move of a run preserves while numbers differ holds at its end if they differ then. -/
theorem run?_induction_of_nodup {P : World → Prop} {moves : List Move} {w w' : World}
    (hstep : ∀ v m v', m ∈ moves → P v → v.step? m = some v' → v'.issued.Nodup → P v') (hw : P w)
    (hrun : w.run? moves = some w') (hids : w'.issued.Nodup) : P w' := by
  -- numbers that differ at the end may be assumed to differ on the way
  refine run?_induction (P := fun v => v.issued.Nodup → P v) ?_ (fun _ => hw) hrun hids
  intro v m v' hm hv h hids'
  exact hstep v m v' hm (hv (nodup_issued_of_step h hids')) h hids'

/-- Every world that a run reaches is in good order, as long as no number is given out twice. -/
theorem orderly_of_run {cache : Cache} {ids : Allocator} {registry : Registry}
    {moves : List Move} {w : World} (hrun : (start cache ids registry).run? moves = some w)
    (hids : w.issued.Nodup) : w.Orderly := by
  refine run?_induction_of_nodup ?_ (orderly_start cache ids registry) hrun hids
  exact fun v m v' _ hv hstep hids' => hv.step hstep hids'

/-! ### What the stages say about the table -/

/-- The gaps without an answer are read off the work that is left for the request. -/
theorem unanswered_eq (w : World) (p : AssignedId) :
    w.unanswered p = (w.jobs p).filterMap fun
      | .fetch r => if r.parentId = some p then r.assignedId else none
      | .serve _ => none := by
  unfold unanswered jobs
  rw [List.filterMap_filter]
  refine List.filterMap_congr fun j _ => ?_
  cases j with
  | serve id => simp
  | fetch r =>
    by_cases hparent : r.parentId = some p
    · simp [hparent, Job.owner?, Request.owner?]
    · simp [hparent]

theorem unanswered_of_jobs {w : World} {p : AssignedId} {left : List Request}
    (hjobs : w.jobs p = left.map .fetch) (hleft : ∀ q ∈ left, q.parentId = some p) :
    w.unanswered p = numbers left := by
  rw [unanswered_eq, hjobs, List.filterMap_map]
  refine List.filterMap_congr fun q hq => ?_
  simp [hleft q hq]

/-- A request that waits has work left for it and no answer, and its missing parts are filed. -/
structure Open (w : World) (p : AssignedId) : Prop where
  waits : w.broker.inflight.contains p = true
  unanswered : w.answers p = []
  busy : w.jobs p ≠ []
  parts : ∀ cs, w.broker.inflight.parts.find? p = some cs ↔ cs = w.unanswered p ∧ cs ≠ []
  aborted : w.broker.inflight.aborted.find? p = none

/--
A request that was answered, and how: work is left for it only if it failed, and then
its missing parts are filed as aborted.
-/
structure Answered (w : World) (p : AssignedId) (result : Except BrokerError Reply) : Prop where
  gone : w.broker.inflight.contains p = false
  answers : w.answers p = [result]
  parts : w.broker.inflight.parts.find? p = none
  aborted : ∀ cs, w.broker.inflight.aborted.find? p = some cs ↔ cs = w.unanswered p ∧ cs ≠ []
  idle : result.isOk → w.jobs p = []


theorem contains_eq (w : World) (p : AssignedId) :
    w.broker.inflight.contains p = (w.view p).entry.waiting.isSome := rfl

/-- A request in a stage of its life either waits or was answered, unless it is stranded. -/
theorem open_or_answered {w : World} {r : Request} {a : Accepted} {p : AssignedId}
    (hid : a.assignedId = p) (hover : w.hasOverflowed = false)
    (h : Life w.hasOverflowed r a (w.view p)) : w.Open p ∨ ∃ result, w.Answered p result := by
  subst hid
  generalize hv : w.view a.assignedId = v at h
  have hwaiting : w.broker.inflight.waiting.find? a.assignedId = v.entry.waiting :=
    congrArg (·.entry.waiting) hv
  have hparts : w.broker.inflight.parts.find? a.assignedId = v.entry.parts :=
    congrArg (·.entry.parts) hv
  have haborted : w.broker.inflight.aborted.find? a.assignedId = v.entry.aborted :=
    congrArg (·.entry.aborted) hv
  have hjobs : w.jobs a.assignedId = v.jobs := congrArg View.jobs hv
  have hanswers : w.answers a.assignedId = v.answers := congrArg View.answers hv
  have hcontains := w.contains_eq a.assignedId
  rw [hv] at hcontains
  cases h with
  | serving work =>
    have hnone : w.unanswered a.assignedId = [] := by simp [unanswered_eq, hjobs]
    exact Or.inl ⟨hcontains, hanswers, by simp [hjobs], by simp [hparts, hnone], haborted⟩
  | fetching work whole numbered =>
    have hnone : w.unanswered a.assignedId = [] := by simp [unanswered_eq, hjobs, whole]
    exact Or.inl ⟨hcontains, hanswers, by simp [hjobs], by simp [hparts, hnone], haborted⟩
  | filling parts some_left sent ok =>
    have hleft := unanswered_of_jobs hjobs parts.parent
    refine Or.inl ⟨hcontains, hanswers, by simp [hjobs, some_left], fun cs => ?_, haborted⟩
    rw [hparts, hleft, Option.some.injEq]
    constructor
    · rintro rfl
      exact ⟨rfl, mt parts.numbers_eq_nil.mp some_left⟩
    · rintro ⟨rfl, -⟩
      rfl
  | @failed left done e parts some_left =>
    have hleft := unanswered_of_jobs hjobs parts.parent
    refine Or.inr ⟨.error e, hcontains, hanswers, hparts, fun cs => ?_, fun hok => by cases hok⟩
    rw [haborted, hleft, Option.some.injEq]
    constructor
    · rintro rfl
      exact ⟨rfl, mt parts.numbers_eq_nil.mp some_left⟩
    · rintro ⟨rfl, -⟩
      rfl
  | @closed done result complete =>
    have hnone : w.unanswered a.assignedId = [] := by simp [unanswered_eq, hjobs]
    exact Or.inr ⟨result, hcontains, hanswers, hparts, by simp [haborted, hnone], fun _ => hjobs⟩
  | stranded overflow =>
    rw [hover] at overflow
    cases overflow

/--
A world in which all is accounted for.

Every accepted request waits with work left for it, or was answered once and waits no
longer. The parts in the table are the gaps that no source answered for: of requests that
wait in one column, of requests that failed in the other.
-/
structure Accounted (w : World) : Prop where
  request : ∀ e ∈ w.accepted, w.Open e.2.assignedId ∨ ∃ result, w.Answered e.2.assignedId result
  stranger : ∀ p, p ∉ w.acceptedIds → w.view p = {}
  parts : ∀ p cs, w.broker.inflight.parts.find? p = some cs ↔
    w.broker.inflight.contains p = true ∧ cs = w.unanswered p ∧ cs ≠ []
  aborted : ∀ p cs, w.broker.inflight.aborted.find? p = some cs ↔
    (∃ e, w.answers p = [.error e]) ∧ cs = w.unanswered p ∧ cs ≠ []
  apart : ∀ p, w.broker.inflight.parts.find? p = none ∨ w.broker.inflight.aborted.find? p = none
  once : ∀ p, (w.answers p).length ≤ 1
  sound : ∀ cause, .violation cause ∉ w.outcomes
  /-- Without work left, nothing waits and everybody was answered. -/
  settled : w.pending = [] → w.broker.inflight.waiting.entries = [] ∧
    w.broker.inflight.parts.entries = [] ∧ w.broker.inflight.aborted.entries = [] ∧
    ∀ e ∈ w.accepted, ∃ result, w.answers e.2.assignedId = [result]
  /-- A reply is for the request as it was filed, after every fetch for it came with bars. -/
  complete : ∀ e ∈ w.accepted, ∀ reply, w.answers e.2.assignedId = [.ok reply] →
    reply.request = e.1 ∧
    ((w.fetches e.2.assignedId).map Prod.fst).Perm e.2.work.requests ∧
    ∀ f ∈ w.fetches e.2.assignedId, f.2.isOk

/-- A request without an entry, work or answers has no unanswered gaps. -/
theorem stranger_facts {w : World} {p : AssignedId} (h : w.view p = {}) :
    w.broker.inflight.contains p = false ∧ w.broker.inflight.parts.find? p = none ∧
      w.broker.inflight.aborted.find? p = none ∧ w.answers p = [] ∧ w.unanswered p = [] := by
  have hjobs : w.jobs p = [] := congrArg View.jobs h
  refine ⟨?_, congrArg (·.entry.parts) h, congrArg (·.entry.aborted) h,
    congrArg View.answers h, by simp [unanswered_eq, hjobs]⟩
  rw [contains_eq, h]
  rfl

/-- Whatever is to hold of every number holds if it holds of the three kinds of numbers. -/
theorem Orderly.kinds {w : World} (h : w.Orderly) (hover : w.hasOverflowed = false)
    (p : AssignedId) : w.view p = {} ∨ w.Open p ∨ ∃ result, w.Answered p result := by
  by_cases hp : p ∈ w.acceptedIds
  · obtain ⟨e, he, rfl⟩ := List.mem_map.mp hp
    exact Or.inr (open_or_answered rfl hover (h.life e he))
  · exact Or.inl (h.blank p hp)

/-- When no work is left, no number has an entry in the table. -/
theorem Orderly.idle {w : World} (h : w.Orderly) (hover : w.hasOverflowed = false)
    (hpending : w.pending = []) (p : AssignedId) : w.broker.inflight.entry p = {} := by
  have hjobs : w.jobs p = [] := by simp [jobs, hpending]
  have hnone : w.unanswered p = [] := by simp [unanswered_eq, hjobs]
  rcases h.kinds hover p with hview | hopen | ⟨result, hans⟩
  · exact congrArg View.entry hview
  · exact absurd hjobs hopen.busy
  · have hwaiting : w.broker.inflight.waiting.find? p = none := by
      simpa [Inflight.contains, Table.contains] using hans.gone
    have haborted : w.broker.inflight.aborted.find? p = none := by
      refine Option.eq_none_iff_forall_ne_some.mpr fun cs hcs => ?_
      obtain ⟨hcs, hne⟩ := (hans.aborted cs).mp hcs
      exact hne (hcs.trans hnone)
    show Entry.mk _ _ _ = _
    rw [hwaiting, hans.parts, haborted]

/-- A reply is for the request as it was filed, and all of it was fetched. -/
theorem Orderly.complete {w : World} {e : Request × Accepted} {reply : Reply} (h : w.Orderly)
    (he : e ∈ w.accepted) (hreply : w.answers e.2.assignedId = [.ok reply]) :
    reply.request = e.1 ∧
      ((w.fetches e.2.assignedId).map Prod.fst).Perm e.2.work.requests ∧
      ∀ f ∈ w.fetches e.2.assignedId, f.2.isOk := by
  have hlife := h.life e he
  generalize hv : w.view e.2.assignedId = v at hlife
  have hanswers : w.answers e.2.assignedId = v.answers := congrArg View.answers hv
  have hfetches : w.fetches e.2.assignedId = v.fetches := congrArg View.fetches hv
  rw [hreply] at hanswers
  rw [hfetches]
  cases hlife with
  | serving => cases hanswers
  | fetching => cases hanswers
  | filling => cases hanswers
  | failed => cases hanswers
  | closed complete =>
    obtain rfl := (List.cons.inj hanswers).1
    exact complete reply rfl
  | stranded => cases hanswers

/-- In a world in good order all is accounted for, unless a decimal overflowed. -/
theorem Orderly.accounted {w : World} (h : w.Orderly) (hover : w.hasOverflowed = false) :
    w.Accounted := by
  have hrequest : ∀ e ∈ w.accepted,
      w.Open e.2.assignedId ∨ ∃ result, w.Answered e.2.assignedId result :=
    fun e he => open_or_answered rfl hover (h.life e he)
  constructor
  · exact hrequest
  · exact h.blank
  · intro p cs
    rcases h.kinds hover p with hview | hopen | ⟨result, hans⟩
    · obtain ⟨hc, hparts, -, -, -⟩ := stranger_facts hview
      simp [hc, hparts]
    · simp [hopen.waits, hopen.parts]
    · simp [hans.gone, hans.parts]
  · intro p cs
    rcases h.kinds hover p with hview | hopen | ⟨result, hans⟩
    · obtain ⟨-, -, hab, hanswers, -⟩ := stranger_facts hview
      simp [hab, hanswers]
    · simp [hopen.aborted, hopen.unanswered]
    · rw [hans.aborted, hans.answers]
      cases result with
      | error e => simp
      | ok reply =>
        have hnone : w.unanswered p = [] := by simp [unanswered_eq, hans.idle rfl]
        simp [hnone]
  · intro p
    rcases h.kinds hover p with hview | hopen | ⟨result, hans⟩
    · exact Or.inl (stranger_facts hview).2.1
    · exact Or.inr hopen.aborted
    · exact Or.inl hans.parts
  · intro p
    rcases h.kinds hover p with hview | hopen | ⟨result, hans⟩
    · simp [(stranger_facts hview).2.2.2.1]
    · simp [hopen.unanswered]
    · simp [hans.answers]
  · exact h.sound
  · intro hpending
    have hidle := h.idle hover hpending
    refine ⟨Table.entries_eq_nil fun p => congrArg Entry.waiting (hidle p),
      Table.entries_eq_nil fun p => congrArg Entry.parts (hidle p),
      Table.entries_eq_nil fun p => congrArg Entry.aborted (hidle p), fun e he => ?_⟩
    rcases hrequest e he with hopen | ⟨result, hans⟩
    · exact absurd (by simp [jobs, hpending]) hopen.busy
    · exact ⟨result, hans.answers⟩
  · exact fun e he reply hreply => h.complete he hreply

/--
**Every request is answered exactly once.** Whatever work gets done next, whatever sources
answer and whichever calls the store refuses, in every world that a run reaches all is
accounted for.
-/
theorem accounted_of_run {cache : Cache} {ids : Allocator} {registry : Registry}
    {moves : List Move} {w : World} (hrun : (start cache ids registry).run? moves = some w)
    (hids : w.issued.Nodup) (hover : w.hasOverflowed = false) : w.Accounted :=
  (orderly_of_run hrun hids).accounted hover

/-- A gap fill that comes after its sibling failed is crossed off, and nobody is answered again. -/
theorem accounted_after_late_part :
    ∃ w, (start (Sample.cacheOf [4, 5, 6]) .fresh Sample.registry).run? Sample.lateRun = some w ∧
      w.issued.Nodup ∧ w.hasOverflowed = false ∧ w.pending = [] ∧
      w.answers (Sample.number 1) = [.error (.source (.timeout "feed"))] ∧ w.Accounted := by
  obtain ⟨w, hrun, hids, hover, hpending, hanswers⟩ :
      ∃ w, (start (Sample.cacheOf [4, 5, 6]) .fresh Sample.registry).run? Sample.lateRun = some w ∧
        w.issued.Nodup ∧ w.hasOverflowed = false ∧ w.pending = [] ∧
        w.answers (Sample.number 1) = [.error (.source (.timeout "feed"))] :=
    ⟨_, rfl, by decide, rfl, rfl, rfl⟩
  exact ⟨w, hrun, hids, hover, hpending, hanswers, accounted_of_run hrun hids hover⟩

end World

end BarArchive
