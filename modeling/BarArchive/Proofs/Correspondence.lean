/-
Answers go to whoever asked, and each question is answered once.

Every message that was put into the queue of a connection answers a question that came over
this connection, with the verdict on this very question, and two messages never answer the
same one. Clients number their requests as they like, verdicts are reported in any order, and
connections may be gone by then: questions are told apart by their tickets alone.
-/
import BarArchive.Proofs.Bookkeeping

namespace BarArchive

/-! ### What is sent for an answer -/

namespace Router

/--
What is sent for an answer, and its parts: the answer as it is if its frame keeps to the limit,
and for bars that are too long the news of that.
-/
inductive Sends (o : Outlet) : Response → Response → Message → Prop
  | asIs {a parts} (encoded : a.toParts o.encoder = .ok parts)
      (fits : Frame.length parts ≤ o.limit) : Sends o a a parts
  | news {r bars parts m} (encoded : (Response.history r bars).toParts o.encoder = .ok parts)
      (long : o.limit < Frame.length parts)
      (told : (tooLong o.limit (Frame.length parts) r.requestId).toParts o.encoder = .ok m)
      (fits : Frame.length m ≤ o.limit) :
      Sends o (.history r bars) (tooLong o.limit (Frame.length parts) r.requestId) m

variable {o : Outlet} {a : Response} {m : Message}

theorem sends_of_outgoing (h : outgoing o a = some m) : ∃ sent, Sends o a sent m := by
  unfold outgoing at h
  split at h
  · cases h
  · rename_i parts hparts
    split at h
    · rename_i hfits
      cases h
      exact ⟨a, .asIs hparts hfits⟩
    · rename_i hlong
      split at h
      · obtain ⟨hm, hfits⟩ := Option.filter_eq_some_iff.mp h
        cases hm
        exact ⟨_, .news hparts (Nat.lt_of_not_le hlong) rfl (of_decide_eq_true hfits)⟩
      · cases h

/-- The news that an answer was too long has the number of its request. -/
theorem Sends.answers {sent : Response} {q : Query} (h : Sends o a sent m)
    (ha : a.Answers q) : sent.Answers q := by
  cases h with
  | asIs => exact ha
  | news =>
    cases q with
    | history r =>
      obtain ⟨id, rfl⟩ := ha
      rfl
    | push => exact ha.elim
    | coverage => exact ha.elim

end Router

namespace Exchange

variable {w : Exchange}

/-! ### Messages and their tickets -/

/-- A message means something to the one who asked the question, and to nobody else. -/
theorem message?_eq_some {i : Identity} {e : Nat × Verdict} {m : Message} :
    w.message? i e = some m ↔ ∃ q a, w.inquiries[e.1]? = some (i, q) ∧ q.answer? e.2 = some a ∧
      Router.outgoing w.server.router.toOutlet a = some m := by
  unfold message?
  cases hq : w.inquiries[e.1]? with
  | none => simp
  | some asked =>
    obtain ⟨j, q⟩ := asked
    by_cases hj : j = i
    · subst hj
      simp [Option.bind_eq_some_iff]
    · simp [hj]

theorem map_getElem?_filterMap {α β : Type} (l : List α) (f : α → Option β) (k : Nat) :
    ((l.filterMap f)[k]?).map some = ((l.filter fun e => (f e).isSome)[k]?).map f := by
  rw [← List.getElem?_map, ← List.getElem?_map, List.map_filterMap_some_eq_filter_map_isSome,
    List.filter_map]
  rfl

/-- A message that is due is meant by the verdict on the question that it has the ticket of. -/
theorem ticket_of_due {i : Identity} {k : Nat} {m : Message} (h : (w.due i)[k]? = some m) :
    ∃ e ∈ w.reports, (w.tickets i)[k]? = some e.1 ∧ w.message? i e = some m := by
  have hmap := map_getElem?_filterMap w.reports (w.message? i) k
  rw [show (w.reports.filterMap (w.message? i))[k]? = some m from h] at hmap
  obtain ⟨e, he, hm⟩ := Option.map_eq_some_iff.mp hmap.symm
  refine ⟨e, (List.mem_filter.mp (List.mem_of_getElem? he)).1, ?_, hm⟩
  rw [tickets, List.getElem?_map, he]
  rfl

/-- The tickets of an identity are those of its own questions. -/
theorem asked_of_ticket {i : Identity} {n : Nat} (h : n ∈ w.tickets i) :
    ∃ q, w.inquiries[n]? = some (i, q) := by
  obtain ⟨e, he, rfl⟩ := List.mem_map.mp h
  obtain ⟨m, hm⟩ := Option.isSome_iff_exists.mp (List.mem_filter.mp he).2
  obtain ⟨q, a, hq, -⟩ := message?_eq_some.mp hm
  exact ⟨q, hq⟩

/-- No question is reported on twice. -/
theorem Sound.reportedOnce (h : w.Sound) : (w.reports.map (·.1)).Nodup := by
  have hruled := (h.conveyed.map Prod.fst).nodup_iff.mpr h.ruledOnce
  rw [List.map_append] at hruled
  exact (List.nodup_append'.mp hruled).2.1

theorem Sound.nodup_tickets (h : w.Sound) (i : Identity) : (w.tickets i).Nodup :=
  h.reportedOnce.sublist (List.filter_sublist.map _)

/-- Messages are only put into queues of connections, and only if they are due. -/
theorem Sound.due_of_stream (h : w.Sound) {p k : Nat} {m : Message}
    (hm : (w.stream p)[k]? = some m) :
    ∃ i, w.admitted[p]? = some i ∧ (w.due i)[k]? = some m := by
  have hp : p < w.admitted.length := by
    by_contra hp
    rw [h.stream_beyond (Nat.le_of_not_lt hp)] at hm
    cases hm
  have hi := List.getElem?_eq_getElem hp
  obtain ⟨rest, hrest⟩ := (h.streams p _ hi).1
  refine ⟨_, hi, ?_⟩
  rw [← hrest, List.getElem?_append_left (List.getElem?_eq_some_iff.mp hm).1, hm]

/-! ### The correspondence -/

/--
Every message in a stream has a ticket: it answers the question of this ticket, which came
over the same connection, with the verdict on it. No two messages have the same ticket, no
question is decided twice, and what is no question has no effect.
-/
structure Corresponds (w : Exchange) : Prop where
  answers : ∀ p k m, (w.stream p)[k]? = some m → ∃ n i q v a sent, w.ticket? p k = some n ∧
    w.admitted[p]? = some i ∧ w.inquiries[n]? = some (i, q) ∧ (n, v) ∈ w.verdicts ∧
    q.answer? v = some a ∧ Router.Sends w.server.router.toOutlet a sent m ∧ sent.Answers q
  injective : ∀ p k p' k' n, w.ticket? p k = some n → w.ticket? p' k' = some n → p = p' ∧ k = k'
  decidedOnce : (w.verdicts.map (·.1)).Nodup
  undecodable : ∀ now i m e, Query.ofParts m = .error e →
    w.server.handle now i m = (w.server, [])

theorem Sound.answers (h : w.Sound) {p k : Nat} {m : Message} (hm : (w.stream p)[k]? = some m) :
    ∃ n i q v a sent, w.ticket? p k = some n ∧ w.admitted[p]? = some i ∧
      w.inquiries[n]? = some (i, q) ∧ (n, v) ∈ w.verdicts ∧ q.answer? v = some a ∧
      Router.Sends w.server.router.toOutlet a sent m ∧ sent.Answers q := by
  obtain ⟨i, hi, hdue⟩ := h.due_of_stream hm
  obtain ⟨e, he, hticket, hmessage⟩ := ticket_of_due hdue
  obtain ⟨q, a, hq, ha, hout⟩ := message?_eq_some.mp hmessage
  obtain ⟨sent, hsent⟩ := Router.sends_of_outgoing hout
  have hruled := h.ruled_of_reported he
  obtain ⟨i', q', a', hq', ha', hanswers⟩ := h.ruled e hruled
  obtain ⟨rfl, rfl⟩ : i = i' ∧ q = q' := Prod.mk.inj (Option.some.inj (hq.symm.trans hq'))
  obtain rfl := Option.some.inj (ha.symm.trans ha')
  refine ⟨e.1, i, q, e.2, a, sent, ?_, hi, hq, hruled, ha, hsent, hsent.answers hanswers⟩
  rw [ticket?, hi, Option.bind_some, hticket]

theorem Sound.injective (h : w.Sound) (hnodup : w.admitted.Nodup) {p k p' k' n : Nat}
    (hn : w.ticket? p k = some n) (hn' : w.ticket? p' k' = some n) : p = p' ∧ k = k' := by
  obtain ⟨i, hi, hticket⟩ := Option.bind_eq_some_iff.mp hn
  obtain ⟨j, hj, hticket'⟩ := Option.bind_eq_some_iff.mp hn'
  -- both are the identity that asked the question
  obtain ⟨q, hq⟩ := asked_of_ticket (List.mem_of_getElem? hticket)
  obtain ⟨q', hq'⟩ := asked_of_ticket (List.mem_of_getElem? hticket')
  obtain ⟨rfl, -⟩ : i = j ∧ q = q' := Prod.mk.inj (Option.some.inj (hq.symm.trans hq'))
  refine ⟨?_, ?_⟩
  · exact (List.getElem?_inj (List.getElem?_eq_some_iff.mp hi).1 hnodup).mp (hi.trans hj.symm)
  · exact (List.getElem?_inj (List.getElem?_eq_some_iff.mp hticket).1 (h.nodup_tickets i)).mp
      (hticket.trans hticket'.symm)

/--
**No answer goes astray**: along every run, every message that was put into the queue of a
connection answers a question that came over it, with the verdict on this question, and no
two messages answer the same one.
-/
theorem corresponds_of_run {b : Broker} {o : Outlet} {moves : List Move} {w : Exchange}
    (hrun : (start b o).run? moves = some w) (hnodup : w.admitted.Nodup) :
    w.inquiries = moves.filterMap Move.question? ∧ w.Corresponds := by
  have hsound := sound_of_run hrun hnodup
  exact ⟨inquiries_of_run hrun, {
    answers := fun _ _ _ hm => hsound.answers hm
    injective := fun _ _ _ _ _ hn hn' => hsound.injective hnodup hn hn'
    decidedOnce := hsound.ruledOnce
    undecodable := fun now i _ _ => handle_undecodable w.server now i }⟩

end Exchange

namespace Sample

/-- The identities that an allocator gives to the first connections. -/
def identity (n : UInt64) : Identity := ⟨(number n).word⟩

/-- A question for bars, answered from the store. -/
def localQuestion : Query := .history { request 1 2 with localOnly := true, requestId := 5 }

/-- A question for what is stored, with the same number. -/
def coverageQuestion : Query := .coverage ⟨key, 5⟩

/-- The parts of a question. -/
def partsOf (q : Query) : Message := q.toParts.toOption.getD []

/-- Two connections ask with the same number, and the one that is decided first is told last. -/
def crossedRun : List Exchange.Move :=
  [.connect ⟨1⟩, .connect ⟨2⟩, .say 0 (identity 1) (partsOf localQuestion),
    .say 0 (identity 2) (partsOf coverageQuestion), .say 0 (identity 1) [[0]], .serve (number 1),
    .report 0, .report 1]

end Sample

namespace Exchange

theorem crossedRun_runs : ((start {} { limit := 100 }).run? Sample.crossedRun).isSome := by decide +kernel

/-- Two connections with the same number for their requests get one answer each, their own. -/
theorem corresponds_for_equal_numbers :
    ∃ w, (start {} { limit := 100 }).run? Sample.crossedRun = some w ∧
      w.admitted = [Sample.identity 1, Sample.identity 2] ∧
      w.inquiries = [(Sample.identity 1, Sample.localQuestion),
        (Sample.identity 2, Sample.coverageQuestion)] ∧
      (w.stream 0).map (·.head?) = [some MessageTag.historyReply.part] ∧ w.ticket? 0 0 = some 0 ∧
      (w.stream 1).map (·.head?) = [some MessageTag.coverageReply.part] ∧ w.ticket? 1 0 = some 1 ∧
      w.Corresponds := by
  have hrun := (Option.some_get crossedRun_runs).symm
  obtain ⟨hinquiries, hcorresponds⟩ := corresponds_of_run hrun (by decide +kernel)
  refine ⟨_, hrun, ?_, hinquiries.trans ?_, ?_, ?_, ?_, ?_, hcorresponds⟩ <;> decide +kernel

end Exchange

end BarArchive
