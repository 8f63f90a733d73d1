/-
The life of a request.

What a world holds for one accepted request is its view: the entry in the table, the
work that is left for it, its fetches that were answered and its answers. A view is in
one of six stages. A request is served from the store, is fetched whole or has its gaps
filled, until it is answered; if a part of it failed it is answered too, but the parts
that are still out keep it in the table of aborted ones. The last stage is being
stranded, and only the overflow of a decimal leads there.

A move concerns one request and takes its view from one stage to another, while the
views of all others stay as they are. So every request is in some stage in every
reachable world, as long as no number is given out twice.
-/
import BarArchive.Proofs.Steps
import Mathlib.Data.List.Basic

namespace BarArchive

/-- What a world holds for one request. -/
structure View where
  entry : Entry := {}
  jobs : List Job := []
  fetches : List (Request × Except MarketError (List Bar)) := []
  answers : List (Except BrokerError Reply) := []

/-- The view of a request. -/
def World.view (w : World) (p : AssignedId) : View :=
  ⟨w.broker.inflight.entry p, w.jobs p, w.fetches p, w.answers p⟩

/--
The view of the request `p` after a piece of work was done for it: `fetched` is the fetch
that was answered, if it was one, and `step` the step that the broker took.
-/
def View.after (v : View) (p : AssignedId) (j : Job)
    (fetched : Option (Request × Except MarketError (List Bar))) (step : Broker × Outcome) : View where
  entry := step.1.inflight.entry p
  jobs := if step.2.isOverflow then [] else v.jobs.erase j
  fetches := fetched.toList ++ v.fetches
  answers := (step.2.answerTo? p).toList ++ v.answers

theorem View.answers_of_answer (v : View) (p : AssignedId) (j : Job)
    (fetched : Option (Request × Except MarketError (List Bar))) (b : Broker) (x : Waiting)
    (result : Except BrokerError (List Bar)) :
    (v.after p j fetched (b, Broker.answer p x result)).answers
      = (result.map fun bars => ⟨x.request, Broker.presented x.request bars⟩) :: v.answers := by
  simp [View.after, Broker.answer, Outcome.answerTo?]

/-- The numbers of requests that have one. -/
def numbers (requests : List Request) : List AssignedId := requests.filterMap (·.assignedId)

/-- The parts `left` are parts of the request `p`, with numbers that differ. -/
structure PartsOf (p : AssignedId) (left : List Request) : Prop where
  parent : ∀ q ∈ left, q.parentId = some p
  numbered : ∀ q ∈ left, q.assignedId.isSome
  distinct : (numbers left).Nodup

/--
The stages of a request: `r` is the request as it was filed and `a` says with which
number and which work it was accepted.
-/
inductive Life (overflowed : Bool) (r : Request) (a : Accepted) : View → Prop
  /-- It is to be served from the store. -/
  | serving (work : a.work = .serve a.assignedId) :
      Life overflowed r a ⟨⟨some { request := r }, none, none⟩, [.serve a.assignedId], [], []⟩
  /-- It was sent to a source as it is. -/
  | fetching {slot} (work : a.work = .fetch slot [r]) (whole : r.parentId = none)
      (numbered : r.assignedId = some a.assignedId) :
      Life overflowed r a ⟨⟨some { request := r }, none, none⟩, [.fetch r], [], []⟩
  /-- Some of its parts are missing, and those that came came with bars. -/
  | filling {left stash done} (parts : PartsOf a.assignedId left) (some_left : left ≠ [])
      (sent : (done.map Prod.fst ++ left).Perm a.work.requests) (ok : ∀ d ∈ done, d.2.isOk) :
      Life overflowed r a
        ⟨⟨some { request := r, stash }, some (numbers left), none⟩, left.map .fetch, done, []⟩
  /-- It failed and was answered, but some of its parts are still out. -/
  | failed {left done e} (parts : PartsOf a.assignedId left) (some_left : left ≠ []) :
      Life overflowed r a ⟨⟨none, none, some (numbers left)⟩, left.map .fetch, done, [.error e]⟩
  /-- It was answered and nothing is left of it. -/
  | closed {done result}
      (complete : ∀ reply, result = .ok reply → reply.request = r ∧
        (done.map Prod.fst).Perm a.work.requests ∧ ∀ d ∈ done, d.2.isOk) :
      Life overflowed r a ⟨{}, [], done, [result]⟩
  /-- The task that worked for it ended in an overflow. -/
  | stranded {x parts done} (overflow : overflowed = true) :
      Life overflowed r a ⟨⟨some x, parts, none⟩, [], done, []⟩

namespace World

/-! ### What a step for one request does to the views -/

/-- A step that sets no entry but that of `p` and answers no request but `p`. -/
structure Local (p : AssignedId) (b : Broker) (step : Broker × Outcome) : Prop where
  table : ∀ q, q ≠ p → step.1.inflight.entry q = b.inflight.entry q
  outcome : step.2 = .silent ∨ step.2 = .overflow ∨ ∃ result, step.2 = .answer p result

theorem view_after_other {w : World} {p q : AssignedId} {step : Broker × Outcome}
    (hlocal : Local p w.broker step) (hq : q ≠ p) :
    (w.after (some p) step).view q = w.view q := by
  obtain ⟨b, o⟩ := step
  have htable := hlocal.table q hq
  have houtcome : o.answerTo? q = none := by
    rcases hlocal.outcome with h | h | ⟨result, h⟩
    · simp only at h; subst h; rfl
    · simp only at h; subst h; rfl
    · simp only at h; subst h; simp [Outcome.answerTo?, hq.symm]
  have hjobs : (w.pending.filter fun j => j.owner? ≠ some p).filter
      (fun j => j.owner? = some q) = w.jobs q := by
    rw [List.filter_filter]
    refine List.filter_congr fun j _ => ?_
    by_cases h : j.owner? = some q <;> simp [h, hq]
  cases hover : o.isOverflow with
  | false =>
    simp only [after, hover, Bool.false_eq_true, if_false, view]
    simp only [htable, jobs, fetches, answers, List.filterMap_cons, houtcome]
  | true =>
    simp only [after, hover, if_true, abandon, view]
    simp only [htable, answers, List.filterMap_cons, houtcome]
    simp only [jobs, fetches] at hjobs ⊢
    rw [hjobs]

theorem view_after_self (w : World) (p : AssignedId) (step : Broker × Outcome) :
    (w.after (some p) step).view p =
      ⟨step.1.inflight.entry p, if step.2.isOverflow then [] else w.jobs p, w.fetches p,
        (step.2.answerTo? p).toList ++ w.answers p⟩ := by
  obtain ⟨b, o⟩ := step
  have hanswers : (o :: w.outcomes).filterMap (Outcome.answerTo? p)
      = (o.answerTo? p).toList ++ w.answers p := by
    cases h : o.answerTo? p <;> simp [h, answers]
  cases hover : o.isOverflow with
  | false =>
    simp only [after, hover, Bool.false_eq_true, if_false, view]
    simp only [answers, hanswers]
    rfl
  | true =>
    have hjobs : (w.pending.filter fun j => j.owner? ≠ some p).filter
        (fun j => j.owner? = some p) = [] := by
      rw [List.filter_filter, List.filter_eq_nil_iff]
      intro j _
      by_cases h : j.owner? = some p <;> simp [h]
    simp only [after, hover, if_true, abandon, view]
    simp only [answers, hanswers, jobs, hjobs]
    rfl

theorem broker_after (w : World) (owner : Option AssignedId) (step : Broker × Outcome) :
    (w.after owner step).broker = step.1 := by
  unfold after
  simp only
  split <;> rfl

/-- A fetch that is answered was out, and the broker takes the step for it. -/
theorem fetched_of_step {w w' : World} {q : Request} {result : Except MarketError (List Bar)}
    (hstep : w.step? (.fetched q result) = some w') :
    .fetch q ∈ w.pending ∧ w'.broker = (w.broker.deliver q result).1 := by
  cases makes_of_step hstep with
  | fetched pending => exact ⟨pending, broker_after _ _ _⟩

theorem accepted_after (w : World) (owner : Option AssignedId) (step : Broker × Outcome) :
    (w.after owner step).accepted = w.accepted := by
  unfold after
  simp only
  split <;> rfl

theorem pending_after {w : World} {owner : Option AssignedId} {step : Broker × Outcome} {j : Job}
    (hj : j ∈ (w.after owner step).pending) : j ∈ w.pending := by
  simp only [after] at hj
  split at hj
  · exact (List.mem_filter.mp hj).1
  · exact hj

theorem hasOverflowed_after (w : World) (owner : Option AssignedId) (step : Broker × Outcome) :
    (w.after owner step).hasOverflowed = (step.2.isOverflow || w.hasOverflowed) := by
  simp only [after]
  split <;> simp [hasOverflowed, abandon]

theorem view_take_self {w : World} {p : AssignedId} {j : Job}
    {fetched : Option (Request × Except MarketError (List Bar))}
    (hfetched : ∀ f ∈ fetched, f.1.owner? = some p) :
    (w.take j fetched).view p = { w.view p with
      jobs := (w.jobs p).erase j
      fetches := fetched.toList ++ w.fetches p } := by
  have hjobs : (w.take j fetched).jobs p = (w.jobs p).erase j := List.erase_filter.symm
  have hfetches : (w.take j fetched).fetches p = fetched.toList ++ w.fetches p := by
    cases fetched with
    | none => rfl
    | some f => simp [take, fetches, hfetched f rfl]
  simp only [view, hjobs, hfetches]
  rfl

theorem view_take_other {w : World} {p q : AssignedId} {j : Job}
    {fetched : Option (Request × Except MarketError (List Bar))} (hj : j.owner? = some p)
    (hfetched : ∀ f ∈ fetched, f.1.owner? = some p) (hq : q ≠ p) :
    (w.take j fetched).view q = w.view q := by
  have hjobs : (w.take j fetched).jobs q = w.jobs q := by
    refine List.erase_filter.symm.trans (List.erase_of_not_mem fun hmem => ?_)
    have howner := (List.mem_filter.mp hmem).2
    simp only [hj, decide_eq_true_eq, Option.some.injEq] at howner
    exact hq howner.symm
  have hfetches : (w.take j fetched).fetches q = w.fetches q := by
    cases fetched with
    | none => rfl
    | some f => simp [take, fetches, hfetched f rfl, hq.symm]
  simp only [view, hjobs, hfetches]
  rfl

/-- Work that is taken up and done for a request changes the view of that request, -/
theorem view_done_self {w : World} {p : AssignedId} {j : Job}
    {fetched : Option (Request × Except MarketError (List Bar))}
    (hfetched : ∀ f ∈ fetched, f.1.owner? = some p) (step : Broker × Outcome) :
    ((w.take j fetched).after (some p) step).view p = (w.view p).after p j fetched step := by
  have htake := view_take_self (w := w) (j := j) hfetched
  rw [view_after_self, ← show ((w.take j fetched).view p).jobs = (w.take j fetched).jobs p from rfl,
    ← show ((w.take j fetched).view p).fetches = (w.take j fetched).fetches p from rfl,
    ← show ((w.take j fetched).view p).answers = (w.take j fetched).answers p from rfl, htake]
  rfl

/-- and of no other one. -/
theorem view_done_other {w : World} {p q : AssignedId} {j : Job}
    {fetched : Option (Request × Except MarketError (List Bar))} {step : Broker × Outcome}
    (hlocal : Local p w.broker step) (howner : j.owner? = some p)
    (hfetched : ∀ f ∈ fetched, f.1.owner? = some p) (hq : q ≠ p) :
    ((w.take j fetched).after (some p) step).view q = w.view q := by
  have htaken : Local p (w.take j fetched).broker step := hlocal
  exact (view_after_other htaken hq).trans (view_take_other howner hfetched hq)

theorem mem_jobs {w : World} {j : Job} {p : AssignedId} (hj : j ∈ w.pending)
    (howner : j.owner? = some p) : j ∈ w.jobs p :=
  List.mem_filter.mpr ⟨hj, by simp [howner]⟩

end World

/-! ### Parts that are crossed off -/

theorem numbers_erase {left : List Request} {q : Request} {c : AssignedId} (hmem : q ∈ left)
    (hid : q.assignedId = some c) (hdistinct : (numbers left).Nodup) :
    numbers (left.erase q) = Inflight.without c (numbers left) := by
  have hc : c ∈ numbers left := List.mem_filterMap.mpr ⟨q, hmem, hid⟩
  induction left with
  | nil => cases hmem
  | cons s left ih =>
    by_cases hs : s = q
    · subst hs
      have hcons : numbers (s :: left) = c :: numbers left := by simp [numbers, hid]
      rw [hcons] at hdistinct ⊢
      have hnot : c ∉ numbers left := (List.nodup_cons.mp hdistinct).1
      rw [List.erase_cons_head]
      simp only [Inflight.without, List.filter_cons, ne_eq, not_true_eq_false, decide_false,
        Bool.false_eq_true, if_false]
      refine (List.filter_eq_self.mpr fun d hd => ?_).symm
      have hd' : d ≠ c := fun h => hnot (h ▸ hd)
      simpa using hd'
    · have hmem' : q ∈ left := (List.mem_cons.mp hmem).resolve_left (Ne.symm hs)
      have hc' : c ∈ numbers left := List.mem_filterMap.mpr ⟨q, hmem', hid⟩
      rw [List.erase_cons_tail (by simpa using hs)]
      cases hsid : s.assignedId with
      | none =>
        have hcons : ∀ l, numbers (s :: l) = numbers l := fun l => by simp [numbers, hsid]
        rw [hcons] at hdistinct ⊢
        rw [hcons]
        exact ih hmem' hdistinct hc'
      | some d =>
        have hcons : ∀ l, numbers (s :: l) = d :: numbers l := fun l => by simp [numbers, hsid]
        rw [hcons] at hdistinct ⊢
        rw [hcons, ih hmem' (List.nodup_cons.mp hdistinct).2 hc']
        have hd : d ≠ c := fun h => (List.nodup_cons.mp hdistinct).1 (h ▸ hc')
        simp [Inflight.without, hd]

namespace PartsOf

variable {p : AssignedId} {left : List Request}

theorem erase (h : PartsOf p left) (q : Request) : PartsOf p (left.erase q) where
  parent := fun s hs => h.parent s (List.mem_of_mem_erase hs)
  numbered := fun s hs => h.numbered s (List.mem_of_mem_erase hs)
  distinct := (List.Sublist.filterMap _ List.erase_sublist).nodup h.distinct

theorem numbers_eq_nil (h : PartsOf p left) : numbers left = [] ↔ left = [] := by
  constructor
  · intro hnil
    cases left with
    | nil => rfl
    | cons q left =>
      obtain ⟨c, hc⟩ := Option.isSome_iff_exists.mp (h.numbered q List.mem_cons_self)
      simp [numbers, hc] at hnil
  · rintro rfl
    rfl

theorem remaining_eq (h : PartsOf p left) {q : Request} {c : AssignedId} (hmem : q ∈ left)
    (hid : q.assignedId = some c) :
    Inflight.remaining c (numbers left)
      = if left.erase q = [] then none else some (numbers (left.erase q)) := by
  have hnumbers := numbers_erase hmem hid h.distinct
  have hnil := (h.erase q).numbers_eq_nil
  unfold Inflight.remaining
  rw [← hnumbers]
  cases hcase : numbers (left.erase q) with
  | nil => simp [hnil.mp hcase]
  | cons d ds =>
    rw [if_neg]
    intro hempty
    rw [hempty] at hcase
    cases hcase

theorem jobs_erase (left : List Request) (q : Request) :
    (left.map Job.fetch).erase (.fetch q) = (left.erase q).map .fetch :=
  (List.map_erase (fun _ _ h => Job.fetch.inj h) left).symm

end PartsOf

/-! ### Moves from stage to stage -/

namespace World

theorem serve_local {b : Broker} {p : AssignedId} {x : Waiting}
    (hx : b.inflight.waiting.find? p = some x) : Local p b (b.serve p) := by
  obtain ⟨t', heq, hset⟩ := Broker.serve_waiting hx
  rw [heq]
  exact ⟨hset.elsewhere, Or.inr (Or.inr ⟨_, rfl⟩)⟩

theorem whole_local {b : Broker} {p : AssignedId} {r : Request} {x : Waiting}
    {result : Except MarketError (List Bar)} {step : Broker × Outcome}
    (h : Broker.WholeStep b p r x result step) : Local p b step := by
  cases h with
  | failed table => exact ⟨table.elsewhere, Or.inr (Or.inr ⟨_, rfl⟩)⟩
  | overflowed => exact ⟨fun _ _ => rfl, Or.inr (Or.inl rfl)⟩
  | done table => exact ⟨table.elsewhere, Or.inr (Or.inr ⟨_, rfl⟩)⟩

theorem part_local {b : Broker} {p c : AssignedId} {r : Request} {x : Waiting}
    {cs : List AssignedId} {result : Except MarketError (List Bar)} {step : Broker × Outcome}
    (h : Broker.PartStep b p c r x cs result step) : Local p b step := by
  cases h with
  | failed table => exact ⟨table.elsewhere, Or.inr (Or.inr ⟨_, rfl⟩)⟩
  | overflowed => exact ⟨fun _ _ => rfl, Or.inr (Or.inl rfl)⟩
  | more kept left table => exact ⟨table.elsewhere, Or.inl rfl⟩
  | last kept left table => exact ⟨table.elsewhere, Or.inr (Or.inr ⟨_, rfl⟩)⟩

end World

namespace Life

variable {o : Bool} {r : Request} {a : Accepted} {v : View} {b : Broker}

theorem mono {o' : Bool} (h : Life o r a v) (ho : o = true → o' = true) : Life o' r a v := by
  cases h with
  | serving work => exact .serving work
  | fetching work whole numbered => exact .fetching work whole numbered
  | filling parts some_left sent ok => exact .filling parts some_left sent ok
  | failed parts some_left => exact .failed parts some_left
  | closed complete => exact .closed complete
  | stranded overflow => exact .stranded (ho overflow)

/-- An answer closes a request that nothing is left for. -/
theorem closed_of_answer {p : AssignedId} {j : Job} {x : Waiting}
    {fetched : Option (Request × Except MarketError (List Bar))} {b' : Broker}
    {result : Except BrokerError (List Bar)} (hentry : b'.inflight.entry p = {})
    (hjobs : v.jobs.erase j = []) (hanswers : v.answers = [])
    (hcomplete : ∀ bars, result = .ok bars → x.request = r ∧
      ((fetched.toList ++ v.fetches).map Prod.fst).Perm a.work.requests ∧
      ∀ d ∈ fetched.toList ++ v.fetches, d.2.isOk) :
    Life o r a (v.after p j fetched (b', Broker.answer p x result)) := by
  have hview : v.after p j fetched (b', Broker.answer p x result)
      = ⟨{}, [], fetched.toList ++ v.fetches,
          [result.map fun bars => ⟨x.request, Broker.presented x.request bars⟩]⟩ := by
    simp [View.after, Broker.answer, Outcome.isOverflow, Outcome.answerTo?, hentry, hjobs, hanswers]
  rw [hview]
  refine .closed fun reply hreply => ?_
  cases result with
  | error e => cases hreply
  | ok bars =>
    simp only [Except.map, Except.ok.injEq] at hreply
    subst hreply
    exact hcomplete bars rfl

/-- An overflow strands a request. -/
theorem stranded_of_overflow {p : AssignedId} {j : Job} {x : Waiting}
    {parts : Option (List AssignedId)}
    {fetched : Option (Request × Except MarketError (List Bar))} {b' : Broker}
    (hentry : b'.inflight.entry p = ⟨some x, parts, none⟩) (hanswers : v.answers = []) :
    Life (o || Outcome.overflow.isOverflow) r a (v.after p j fetched (b', .overflow)) := by
  have hview : v.after p j fetched (b', .overflow)
      = ⟨⟨some x, parts, none⟩, [], fetched.toList ++ v.fetches, []⟩ := by
    simp [View.after, Outcome.isOverflow, Outcome.answerTo?, hentry, hanswers]
  rw [hview]
  exact .stranded (o.or_true)

/-- A request that failed is in its last stage as soon as no part of it is out. -/
theorem of_failed {left : List Request} {done : List (Request × Except MarketError (List Bar))}
    {e : BrokerError} (parts : PartsOf a.assignedId left) :
    Life o r a ⟨{ aborted := if left = [] then none else some (numbers left) }, left.map .fetch,
      done, [.error e]⟩ := by
  by_cases hleft : left = []
  · subst hleft
    exact .closed fun reply h => by cases h
  · rw [if_neg hleft]
    exact .failed parts hleft

/-- Serving a request answers it, and that was all. -/
theorem served (h : Life o r a v) (hentry : b.inflight.entry a.assignedId = v.entry)
    (hjob : .serve a.assignedId ∈ v.jobs) :
    World.Local a.assignedId b (b.serve a.assignedId) ∧
      Life o r a (v.after a.assignedId (.serve a.assignedId) none (b.serve a.assignedId)) := by
  cases h with
  | serving work =>
    have hx : b.inflight.waiting.find? a.assignedId = some { request := r } :=
      congrArg Entry.waiting hentry
    refine ⟨World.serve_local hx, ?_⟩
    obtain ⟨t', heq, hset⟩ := Broker.serve_waiting hx
    rw [heq]
    refine closed_of_answer (by rw [hset.here, hentry]) (by simp) rfl fun bars _ => ⟨rfl, ?_, ?_⟩
    · simp [work, Work.requests]
    · simp
  | fetching => simp at hjob
  | filling => simp at hjob
  | failed => simp at hjob
  | closed => simp at hjob
  | stranded => simp at hjob

/-- The answer to the fetch of a whole request closes it, or strands it. -/
theorem fetched_whole {slot : Slot} {result : Except MarketError (List Bar)}
    (work : a.work = .fetch slot [r]) (whole : r.parentId = none)
    (numbered : r.assignedId = some a.assignedId)
    (hentry : b.inflight.entry a.assignedId = ⟨some { request := r }, none, none⟩) :
    World.Local a.assignedId b (b.deliver r result) ∧
      Life (o || (b.deliver r result).2.isOverflow) r a
        (View.after ⟨⟨some { request := r }, none, none⟩, [.fetch r], [], []⟩ a.assignedId (.fetch r)
          (some (r, result)) (b.deliver r result)) := by
  have hx : b.inflight.waiting.find? a.assignedId = some { request := r } :=
    congrArg Entry.waiting hentry
  have hstep := Broker.deliver_whole numbered whole hx result
  refine ⟨World.whole_local hstep, ?_⟩
  generalize b.deliver r result = step at hstep
  cases hstep with
  | failed table =>
    exact closed_of_answer (by rw [table.here, hentry]) (by simp) rfl fun bars h => by cases h
  | overflowed => exact stranded_of_overflow hentry rfl
  | done table =>
    refine closed_of_answer (by rw [table.here, hentry]) (by simp) rfl fun bars _ => ⟨rfl, ?_, ?_⟩
    · simp [work, Work.requests]
    · simp [Except.isOk, Except.toBool]

/-- The answer to a fetch for a part that is missing brings the request further. -/
theorem fetched_part {left : List Request} {q : Request} {stash : List Bar}
    {done : List (Request × Except MarketError (List Bar))} {result : Except MarketError (List Bar)}
    (parts : PartsOf a.assignedId left) (sent : (done.map Prod.fst ++ left).Perm a.work.requests)
    (ok : ∀ d ∈ done, d.2.isOk) (hmem : q ∈ left)
    (hentry : b.inflight.entry a.assignedId
      = ⟨some { request := r, stash }, some (numbers left), none⟩) :
    World.Local a.assignedId b (b.deliver q result) ∧
      Life (o || (b.deliver q result).2.isOverflow) r a
        (View.after ⟨⟨some { request := r, stash }, some (numbers left), none⟩, left.map .fetch,
          done, []⟩ a.assignedId (.fetch q) (some (q, result)) (b.deliver q result)) := by
  obtain ⟨c, hc⟩ := Option.isSome_iff_exists.mp (parts.numbered q hmem)
  have hstep := Broker.deliver_part hc (parts.parent q hmem) hentry result
  have hnumbers := numbers_erase hmem hc parts.distinct
  have hremaining := parts.remaining_eq hmem hc
  have hnil := (parts.erase q).numbers_eq_nil
  have hjobs := PartsOf.jobs_erase left q
  have hsent : ((q :: done.map Prod.fst) ++ left.erase q).Perm a.work.requests := by
    refine (List.Perm.trans ?_ sent)
    exact List.perm_middle.symm.trans ((List.perm_cons_erase hmem).symm.append_left _)
  refine ⟨World.part_local hstep, ?_⟩
  generalize b.deliver q result = step at hstep
  cases hstep with
  | @failed _ t' e table =>
    have hview : View.after ⟨⟨some { request := r, stash }, some (numbers left), none⟩,
          left.map .fetch, done, []⟩ a.assignedId (.fetch q) (some (q, result))
          ({ b with inflight := t' }, Broker.answer a.assignedId { request := r, stash } (.error e))
        = ⟨{ aborted := if left.erase q = [] then none else some (numbers (left.erase q)) },
            (left.erase q).map .fetch, (q, result) :: done, [.error e]⟩ := by
      simp [View.after, Broker.answer, Outcome.isOverflow, Outcome.answerTo?, table.here, hremaining,
        hjobs, Except.map]
    rw [hview]
    exact of_failed (parts.erase q)
  | overflowed => exact stranded_of_overflow hentry rfl
  | @more bars t' kept some_left table =>
    have hview : View.after ⟨⟨some { request := r, stash }, some (numbers left), none⟩,
          left.map .fetch, done, []⟩ a.assignedId (.fetch q) (some (q, .ok bars))
          ({ b with cache := b.cacheAfter q bars, inflight := t' }, .silent)
        = ⟨⟨some { request := r, stash := Broker.stashAfter { request := r, stash } q bars },
              some (numbers (left.erase q)), none⟩,
            (left.erase q).map .fetch, (q, .ok bars) :: done, []⟩ := by
      simp [View.after, Outcome.isOverflow, Outcome.answerTo?, table.here, hnumbers, hjobs]
    rw [hview]
    refine .filling (parts.erase q) ?_ hsent ?_
    · intro hempty
      exact some_left (by rw [← hnumbers]; exact hnil.mpr hempty)
    · intro d hd
      rcases List.mem_cons.mp hd with rfl | hd
      · rfl
      · exact ok d hd
  | last kept none_left table =>
    have hempty : left.erase q = [] := hnil.mp (by rw [hnumbers]; exact none_left)
    rw [hempty] at hjobs hsent
    refine closed_of_answer table.here hjobs rfl fun bars _ => ⟨rfl, ?_, ?_⟩
    · simpa using hsent
    · intro d hd
      rcases List.mem_cons.mp hd with rfl | hd
      · rfl
      · exact ok d hd

/-- A late answer for a part of a failed request crosses the part off. -/
theorem fetched_late {left : List Request} {q : Request} {e : BrokerError}
    {done : List (Request × Except MarketError (List Bar))} {result : Except MarketError (List Bar)}
    (parts : PartsOf a.assignedId left) (hmem : q ∈ left)
    (hentry : b.inflight.entry a.assignedId = ⟨none, none, some (numbers left)⟩) :
    World.Local a.assignedId b (b.deliver q result) ∧
      Life (o || (b.deliver q result).2.isOverflow) r a
        (View.after ⟨⟨none, none, some (numbers left)⟩, left.map .fetch, done, [.error e]⟩
          a.assignedId (.fetch q) (some (q, result)) (b.deliver q result)) := by
  obtain ⟨c, hc⟩ := Option.isSome_iff_exists.mp (parts.numbered q hmem)
  have hab : b.inflight.aborted.find? a.assignedId = some (numbers left) :=
    congrArg Entry.aborted hentry
  obtain ⟨t', heq, hset⟩ := Broker.deliver_late hc (parts.parent q hmem) hab result
  rw [parts.remaining_eq hmem hc, hentry] at hset
  rw [heq]
  refine ⟨⟨hset.elsewhere, Or.inl rfl⟩, ?_⟩
  have hview : View.after ⟨⟨none, none, some (numbers left)⟩, left.map .fetch, done, [.error e]⟩
        a.assignedId (.fetch q) (some (q, result)) ({ b with inflight := t' }, .silent)
      = ⟨{ aborted := if left.erase q = [] then none else some (numbers (left.erase q)) },
          (left.erase q).map .fetch, (q, result) :: done, [.error e]⟩ := by
    simp [View.after, Outcome.isOverflow, Outcome.answerTo?, hset.here, PartsOf.jobs_erase]
  rw [hview]
  exact of_failed (parts.erase q)

/-- An answered fetch takes its request to another stage. -/
theorem fetched {q : Request} {result : Except MarketError (List Bar)} (h : Life o r a v)
    (hentry : b.inflight.entry a.assignedId = v.entry) (hjob : .fetch q ∈ v.jobs) :
    World.Local a.assignedId b (b.deliver q result) ∧
      Life (o || (b.deliver q result).2.isOverflow) r a
        (v.after a.assignedId (.fetch q) (some (q, result)) (b.deliver q result)) := by
  cases h with
  | serving => simp at hjob
  | fetching work whole numbered =>
    obtain rfl : q = r := by simpa using hjob
    exact fetched_whole work whole numbered hentry
  | filling parts some_left sent ok =>
    exact fetched_part parts sent ok (by simpa using hjob) hentry
  | failed parts some_left => exact fetched_late parts (by simpa using hjob) hentry
  | closed => simp at hjob
  | stranded => simp at hjob

end Life

end BarArchive
