/-
What becomes of an answer when the queue of whoever asked is open.

Every question is decided at once or waits to be, and every verdict can be reported, once and
at any time. The report puts the answer into the queue of the connection that the question came
over, if it can be encoded and its frame keeps to the limit. In the place of bars that are too
long, the queue gets a failure with the number of their request, which says how long they are.
An answer of another kind that is too long is dropped, though the question itself may have kept
to the limit, and so is an answer that cannot be encoded, such as one with bars that a source
dates beyond 64 bits.
-/
import BarArchive.Proofs.Correspondence
import BarArchive.Proofs.Messages
import Mathlib.Data.List.Perm.Subperm

namespace BarArchive

/-! ### Taking questions up -/

/-- The calendar has all instants between which bars are stored. -/
def Broker.InCalendar (b : Broker) : Prop := ∀ k c, b.coverage k = .ok (some c) →
  c.earliest.inCalendar = true ∧ c.latest.inCalendar = true

theorem Frequency.halfBar_le (f : Frequency) : f.halfBar ≤ 2 ^ 54 := by
  cases f <;> decide

/-- The calendar goes further than 64 bits do, and half a bar more. -/
theorem Instant.inCalendar_of_near {t : Instant} (hlow : -2 ^ 63 - 2 ^ 54 ≤ t ∨ earliest ≤ t)
    (hhigh : t ≤ 2 ^ 63 + 2 ^ 54 ∨ t ≤ latest) : t.inCalendar = true := by
  have hearliest : earliest ≤ -2 ^ 63 - 2 ^ 54 := by decide +kernel
  have hlatest : 2 ^ 63 + 2 ^ 54 ≤ latest := by decide +kernel
  simp only [inCalendar, Bool.and_eq_true, decide_eq_true_eq]
  exact ⟨hlow.elim (Int.le_trans hearliest) id, hhigh.elim (Int.le_trans · hlatest) id⟩

/-- A plan looks at instants that are half a bar from the request or from stored bars. -/
theorem Route.canPlan_of_fits {r : Request} {c : Option Coverage} (now : Instant)
    (hstart : -2 ^ 63 ≤ r.start) (hstop : r.stop < 2 ^ 63)
    (hc : ∀ x, c = some x → x.earliest.inCalendar = true ∧ x.latest.inCalendar = true) :
    canPlan r c now = true := by
  have hhalf : (r.frequency.halfBar : Int) ≤ 2 ^ 54 := by exact_mod_cast r.frequency.halfBar_le
  have hpos : (0 : Int) ≤ r.frequency.halfBar := Int.natCast_nonneg _
  cases c with
  | none => simp [canPlan]
  | some c =>
    obtain ⟨hearliest, hlatest⟩ := hc c rfl
    simp only [Instant.inCalendar, Bool.and_eq_true, decide_eq_true_eq] at hearliest hlatest
    have hbrinks : ∀ t ∈ brinks r c now, t.inCalendar = true := by
      intro t ht
      rcases List.mem_append.mp ht with ht | ht
      · split at ht
        · rename_i hbefore
          cases List.mem_singleton.mp ht
          refine Instant.inCalendar_of_near (Or.inl ?_) (Or.inr ?_)
          · exact Int.sub_le_sub (Int.le_of_lt (Int.lt_of_le_of_lt hstart hbefore)) hhalf
          · exact Int.le_trans (Int.sub_le_self _ hpos) hearliest.2
        · cases ht
      · split at ht
        · rename_i hafter
          cases List.mem_singleton.mp ht
          refine Instant.inCalendar_of_near (Or.inr ?_) (Or.inl ?_)
          · exact Int.le_trans hlatest.1 (Int.le_add_of_nonneg_right hpos)
          · exact Int.add_le_add (Int.le_of_lt (Int.lt_trans hafter.1 hstop)) hhalf
        · cases ht
    simp [canPlan, List.all_eq_true.mpr hbrinks]

/-- The instants of a request that came in a message have 64 bits. -/
theorem Query.instants_of_ofParts {m : Message} {r : Request}
    (h : Query.ofParts m = .ok (.history r)) : -2 ^ 63 ≤ r.start ∧ r.stop < 2 ^ 63 := by
  obtain ⟨-, n, hn⟩ := Query.toParts_of_ofParts h
  simp only [toParts, fields, bind_eq_ok] at hn
  obtain ⟨_, hfields, -⟩ := hn
  cases hd : r.describe with
  | error e =>
    rw [hd] at hfields
    cases hfields
  | ok d =>
    simp only [Request.describe, bind_eq_ok, pure_eq_ok, Describe.instant_eq_ok] at hd
    obtain ⟨_, -, start, hstart, stop, hstop, -⟩ := hd
    change _ = r.start at hstart
    change _ = r.stop at hstop
    exact ⟨hstart ▸ start.le_toInt, hstop ▸ stop.toInt_lt⟩

/-- Steps one after the other fail when the first of them does, or the rest after it. -/
theorem bind_eq_error {ε α β : Type} {x : Except ε α} {f : α → Except ε β} {e : ε} :
    x >>= f = .error e ↔ x = .error e ∨ ∃ a, x = .ok a ∧ f a = .error e := by
  cases x <;> simp [bind, Except.bind]

/-- A request that came in a message is accepted or turned down. -/
theorem Broker.submit_of_ofParts {b : Broker} (hb : b.InCalendar) (now : Instant) {m : Message}
    {r : Request} (h : Query.ofParts m = .ok (.history r)) :
    b.submit now r ≠ .error .outsideCalendar := by
  obtain ⟨hstart, hstop⟩ := Query.instants_of_ofParts h
  have hroute : ∀ k, b.route now k r ≠ .error .outsideCalendar := by
    intro k
    unfold route
    split
    · simp
    · cases hcoverage : b.cache.coverage k with
      | error e => simp
      | ok c =>
        have hplan := Route.canPlan_of_fits now hstart hstop fun x (hx : c = some x) =>
          hb k x (by simp [coverage, hcoverage, hx])
        simp [Route.plan?, hplan]
  intro hsubmit
  rcases bind_eq_error.mp hsubmit with hvalidate | ⟨k, -, hsubmit⟩
  · unfold validate at hvalidate
    split at hvalidate
    · cases hvalidate
    · split at hvalidate <;> cases hvalidate
  rcases bind_eq_error.mp hsubmit with hrouted | ⟨route, -, hsubmit⟩
  · exact hroute k hrouted
  rcases bind_eq_error.mp hsubmit with hslot | ⟨slot, -, hdone⟩
  · unfold slotFor at hslot
    split at hslot
    · cases hslot
    · split at hslot <;> cases hslot
  · cases hdone

namespace Exchange

variable {w : Exchange}

/-- A question that is put to the server is decided at once or waits. -/
theorem taken_up {now : Instant} {i : Identity} {m : Message} {q : Query} (hi : i ∈ w.admitted)
    (hq : Query.ofParts m = .ok q) (hcalendar : w.server.broker.InCalendar) :
    ∃ w', w.step? (.say now i m) = some w' ∧ w'.inquiries = w.inquiries ++ [(i, q)] ∧
      (w'.Waits w.inquiries.length ∨ w'.Decided w.inquiries.length) := by
  refine ⟨w.ask now i m q, by simp [step?, hi, hq], (w.ask_adds now i m q).2, ?_⟩
  have hruled : ∀ (v : Exchange) (n : Nat) (x : Verdict) (errands : List Errand),
      (v.rule n x errands).Decided n := fun v n x _ =>
    List.mem_map.mpr ⟨(n, x), List.mem_append_right _ List.mem_cons_self, rfl⟩
  cases q with
  | history r =>
    have hsubmit := Broker.submit_of_ofParts hcalendar now hq
    unfold ask
    simp only
    split
    · rename_i accepted _ _
      refine Or.inl (Or.inr ⟨accepted.assignedId, ?_⟩)
      exact (Table.find?_insert ..).trans (if_pos rfl)
    · exact Or.inr (hruled _ _ _ _)
    · exact absurd ‹_› hsubmit
  | push a => exact Or.inl (Or.inl List.mem_cons_self)
  | coverage q => exact Or.inr (hruled _ _ _ _)

end Exchange

/-! ### What a report puts into a queue -/

/--
What is put into an open queue for an answer, which is one message at most: the answer itself
if it keeps to the limit, and the news that bars are too long if this keeps to it. There is
nothing for an answer of another kind that is too long, or for one that cannot be encoded.
-/
structure Router.Reports (o : Outlet) (a : Response) (sent : List Message) : Prop where
  atMostOne : sent.length ≤ 1
  whole : ∀ parts, a.toParts o.encoder = .ok parts → Frame.length parts ≤ o.limit → sent = [parts]
  news : ∀ r bars parts, a = .history r bars → a.toParts o.encoder = .ok parts →
    o.limit < Frame.length parts →
    ∃ m, (tooLong o.limit (Frame.length parts) r.requestId).toParts o.encoder = .ok m ∧
      (Frame.length m ≤ o.limit → sent = [m])
  dropped : ∀ parts, (∀ r bars, a ≠ .history r bars) → a.toParts o.encoder = .ok parts →
    o.limit < Frame.length parts → sent = []
  unencodable : ∀ e, a.toParts o.encoder = .error e → sent = []

theorem Router.reports_outgoing (o : Outlet) (a : Response) : Reports o a (outgoing o a).toList where
  atMostOne := Option.length_toList_le
  whole := by
    intro parts hparts hfits
    simp [outgoing, hparts, hfits]
  news := by
    rintro r bars parts rfl hparts hlong
    obtain ⟨m, hm⟩ : ∃ m, (tooLong o.limit (Frame.length parts) r.requestId).toParts o.encoder
        = .ok m := ⟨_, rfl⟩
    refine ⟨m, hm, fun hfits => ?_⟩
    simp [outgoing, hparts, Nat.not_le_of_lt hlong, hm, Except.toOption, Option.filter, hfits]
  dropped := by
    intro parts hkind hparts hlong
    simp only [outgoing, hparts, if_neg (Nat.not_le_of_lt hlong)]
    cases a with
    | history r bars => exact absurd rfl (hkind r bars)
    | pushAccepted => rfl
    | pushRejected text => rfl
    | coverage requestId c => rfl
    | failure requestId text => rfl
  unencodable := by
    intro e he
    simp [outgoing, he]

namespace Exchange

variable {w : Exchange}

/-- All that is due to an identity is due for reports on its own questions. -/
theorem due_eq_flatten (w : Exchange) (i : Identity) :
    w.due i = ((w.reportsOn i).map fun e => (w.message? i e).toList).flatten := by
  have hon : w.due i = (w.reportsOn i).filterMap (w.message? i) := by
    refine (List.filterMap_filter.trans (List.filterMap_congr fun e _ => ?_)).symm
    split
    · rfl
    · rename_i hother
      unfold concerns at hother
      unfold message?
      cases hq : w.inquiries[e.1]? with
      | none => rfl
      | some asked =>
        have hne : asked.1 ≠ i := by simpa [hq] using hother
        simp [hne]
  rw [hon, List.filterMap_eq_flatMap_toList, List.flatMap_def]

/--
What an open queue has got for a report on a question of its connection: what there is to be
sent for the answer that the verdict makes to this question.
-/
def Delivered (w : Exchange) (i : Identity) (e : Nat × Verdict) (sent : List Message) : Prop :=
  ∃ q a, w.inquiries[e.1]? = some (i, q) ∧ q.answer? e.2 = some a ∧ a.Answers q ∧
    Router.Reports w.server.router.toOutlet a sent

theorem Sound.delivered (h : w.Sound) {i : Identity} {e : Nat × Verdict}
    (he : e ∈ w.reportsOn i) : w.Delivered i e (w.message? i e).toList := by
  obtain ⟨hreported, hasked⟩ := List.mem_filter.mp he
  obtain ⟨j, q, a, hq, ha, hanswers⟩ := h.ruled e (h.ruled_of_reported hreported)
  obtain rfl : j = i := by simpa [concerns, hq] using hasked
  have hmessage : w.message? j e = Router.outgoing w.server.router.toOutlet a := by
    simp [message?, hq, ha]
  refine ⟨q, a, hq, ha, hanswers, ?_⟩
  rw [hmessage]
  exact Router.reports_outgoing _ a

/-- No verdict is reported twice, and nothing else is. -/
theorem Sound.reported (h : w.Sound) (i : Identity) :
    (w.reportsOn i).Subperm (w.verdictsOn i) :=
  ((List.sublist_append_right _ _).filter (w.concerns i)).subperm.trans
    (h.conveyed.filter (w.concerns i)).subperm

/-- A verdict that was not reported yet can be reported next. -/
theorem Sound.reportable (h : w.Sound) {e : Nat × Verdict} (he : e ∈ w.verdicts) :
    e ∈ w.reports ∨ ∃ l, l.news = e ∧ w.step? (.report e.1) = some (w.report l) := by
  rcases List.mem_append.mp (h.conveyed.mem_iff.mpr he) with hletter | hreported
  · obtain ⟨l, hl, rfl⟩ := List.mem_map.mp hletter
    obtain ⟨l', hfound⟩ := Option.isSome_iff_exists.mp <|
      List.find?_isSome (p := (·.ticket = l.ticket)).mpr ⟨l, hl, by simp⟩
    have hticket : l'.ticket = l.ticket := by simpa using List.find?_some hfound
    -- no question has two verdicts, so that a letter with this ticket has this one
    have hnews : l'.news ∈ w.verdicts := h.conveyed.mem_iff.mp <| List.mem_append_left _ <|
      List.mem_map_of_mem (List.mem_of_find?_eq_some hfound)
    refine Or.inr ⟨l', List.inj_on_of_nodup_map h.ruledOnce hnews he hticket, ?_⟩
    show (w.letters.find? _).map w.report = _
    rw [show w.letters.find? (·.ticket = l.news.1) = some l' from hfound]
    rfl
  · exact Or.inl hreported

/--
A connection whose queue is open is served: each of its questions is decided at once or waits,
and none is decided twice; every verdict on one of them was reported or can be, and is reported
once; and its queue has got exactly what the reports put into it.
-/
structure Serves (w : Exchange) (i : Identity) (p : Nat) : Prop where
  takenUp : ∀ now m q, Query.ofParts m = .ok q → w.server.broker.InCalendar →
    ∃ w', w.step? (.say now i m) = some w' ∧ w'.inquiries = w.inquiries ++ [(i, q)] ∧
      (w'.Waits w.inquiries.length ∨ w'.Decided w.inquiries.length)
  decidedOnce : ((w.verdictsOn i).map (·.1)).Nodup
  reported : (w.reportsOn i).Subperm (w.verdictsOn i)
  reportable : ∀ e ∈ w.verdictsOn i, e ∈ w.reportsOn i ∨ ∃ w', w.step? (.report e.1) = some w' ∧
    w'.reportsOn i = w.reportsOn i ++ [e] ∧ w'.server.router.openQueue? i = some p
  delivered : ∃ sent, w.stream p = sent.flatten ∧
    List.Forall₂ (w.Delivered i) (w.reportsOn i) sent

theorem Sound.serves (h : w.Sound) {i : Identity} {p : Nat}
    (hopen : w.server.router.openQueue? i = some p) : w.Serves i p := by
  have hi : w.admitted[p]? = some i := h.writers i p (Router.openQueue?_eq_some.mp hopen).1
  refine {
    takenUp := fun now m q hq hcalendar => taken_up (List.mem_of_getElem? hi) hq hcalendar
    decidedOnce := h.ruledOnce.sublist (List.filter_sublist.map _)
    reported := h.reported i
    reportable := fun e he => ?_
    delivered := ⟨_, ((h.streams p i hi).2 hopen).trans (w.due_eq_flatten i), ?_⟩ }
  · obtain ⟨hruled, hconcerns⟩ := List.mem_filter.mp he
    refine (h.reportable hruled).imp (fun hreported => List.mem_filter.mpr ⟨hreported, hconcerns⟩) ?_
    rintro ⟨l, rfl, hstep⟩
    refine ⟨_, hstep, ?_, ?_⟩
    · show (w.reports ++ [l.news]).filter (w.concerns i) = _
      rw [List.filter_append, List.filter_singleton, hconcerns]
      rfl
    · exact ((w.server.router.puts_reply l.identity l.answer).openQueue i).trans hopen
  · exact List.forall₂_map_right_iff.mpr (List.forall₂_same.mpr fun e he => h.delivered he)

/--
**What can be sent is delivered**: along every run, as long as the queue of a connection is
open, each verdict on one of its questions can be reported to it, once, and the report puts the
answer into the queue, or the news that bars are too long, if this keeps to the limit.
-/
theorem serves_of_run {b : Broker} {o : Outlet} {moves : List Move} {w : Exchange}
    (hrun : (start b o).run? moves = some w) (hnodup : w.admitted.Nodup) {i : Identity}
    {p : Nat} (hopen : w.server.router.openQueue? i = some p) : w.Serves i p :=
  (sound_of_run hrun hnodup).serves hopen

end Exchange

namespace Sample

/-- A question for bars from the store, whose answer is a few bytes beyond 80 even without bars. -/
def longQuestion : Query := .history { request 1 2 with
  instrument := { instrument with symbol := "ABCDEFGHIJ" }
  localOnly := true
  requestId := 5 }

/-- A connection asks for what is stored and for bars, and is told of the bars first. -/
def longRun : List Exchange.Move :=
  [.connect ⟨1⟩, .say 0 (identity 1) (partsOf coverageQuestion),
    .say 0 (identity 1) (partsOf longQuestion), .serve (number 1), .report 1, .report 0]

/-- A question for bars of an instrument that has no id, which is turned down at once. -/
def namelessQuestion : Query := .history { request 1 2 with
  instrument := { instrument with id := none }
  requestId := 5 }

/-- A connection asks this question and is to be told. -/
def namelessRun : List Exchange.Move :=
  [.connect ⟨1⟩, .say 0 (identity 1) (partsOf namelessQuestion), .report 0]

/-- A bar of an instant that 64 bits cannot hold. -/
def farBar : Bar := { bar 1 with time := 2 ^ 63 }

/-- A connection asks for bars from their source, which has this bar. -/
def farRun : List Exchange.Move :=
  [.connect ⟨1⟩, .say 0 (identity 1) (partsOf (.history (freshRequest 1 1))),
    .arrive ((freshRequest 1 1).filed (number 1)) (.ok [farBar]), .report 0]

end Sample

namespace Exchange

theorem longRun_runs : ((start {} { limit := 80 }).run? Sample.longRun).isSome := by
  decide +kernel

/-- The queue gets a failure in the place of the answer that does not fit, and the one that does. -/
theorem serves_beyond_limit :
    ∃ w, (start {} { limit := 80 }).run? Sample.longRun = some w ∧
      w.admitted = [Sample.identity 1] ∧
      w.server.router.openQueue? (Sample.identity 1) = some 0 ∧
      w.verdicts.map (·.1) = [0, 1] ∧
      w.stream 0 = [[MessageTag.error.part, [5, 0, 0, 0],
          Utf8.bytes "reply of 81 bytes exceeds the 80 byte frame limit"],
        [MessageTag.coverageReply.part, [40, 5]]] ∧
      w.Serves (Sample.identity 1) 0 := by
  have hrun := (Option.some_get longRun_runs).symm
  have hserves := serves_of_run hrun (by decide +kernel) (i := Sample.identity 1) (p := 0)
    (by decide +kernel)
  refine ⟨_, hrun, ?_, ?_, ?_, ?_, hserves⟩ <;> decide +kernel

theorem namelessRun_runs : ((start {} { limit := 60 }).run? Sample.namelessRun).isSome := by
  decide +kernel

theorem farRun_runs : ((start { registry := Sample.registry } {}).run? Sample.farRun).isSome := by
  decide +kernel

/--
A question that keeps to the limit is turned down, and its connection does not learn of it: the
failure is longer than the question. Nor does a connection learn of bars with an instant that
64 bits cannot hold.
-/
theorem failure_lost_beyond_limit :
    Frame.length (Sample.partsOf Sample.namelessQuestion) ≤ 60 ∧
      Query.ofParts (Sample.partsOf Sample.namelessQuestion) = .ok Sample.namelessQuestion ∧
      (∃ w, (start {} { limit := 60 }).run? Sample.namelessRun = some w ∧
        w.admitted = [Sample.identity 1] ∧
        w.inquiries = [(Sample.identity 1, Sample.namelessQuestion)] ∧
        w.reports.filterMap (fun e => Sample.namelessQuestion.answer? e.2)
          = [.failure 5 "Routing error: instrument ABC has no id"] ∧
        w.server.router.openQueue? (Sample.identity 1) = some 0 ∧
        w.stream 0 = []) ∧
      ∃ w, (start { registry := Sample.registry } {}).run? Sample.farRun = some w ∧
        w.admitted = [Sample.identity 1] ∧
        w.inquiries = [(Sample.identity 1, .history (Sample.freshRequest 1 1))] ∧
        w.reports.filterMap (fun e => (Query.history (Sample.freshRequest 1 1)).answer? e.2)
          = [.history ((Sample.freshRequest 1 1).filed (Sample.number 1)) [Sample.farBar]] ∧
        w.server.router.openQueue? (Sample.identity 1) = some 0 ∧
        w.stream 0 = [] := by
  have hrun := (Option.some_get namelessRun_runs).symm
  have hfar := (Option.some_get farRun_runs).symm
  refine ⟨?_, ?_, ⟨_, hrun, ?_, ?_, ?_, ?_, ?_⟩, _, hfar, ?_, ?_, ?_, ?_, ?_⟩ <;> decide +kernel

end Exchange

end BarArchive
