/-
The books of a server agree with each other.

What is put into the queue of a connection follows from the verdicts on its own questions
alone: as long as the queue is open, it is the message that each verdict means, in the order
in which the verdicts were reported, and when the queue is closed, it is a first part of this.
This is kept up by every move, together with what it takes: a question that waits is known
under one number, to the broker and to the server, no question is decided twice, and each
verdict was reported or there is one letter that will.

Identities of connections differ; the numbers that clients give their requests need not.
-/
import BarArchive.Proofs.Exchange
import Mathlib.Data.List.Nodup

namespace BarArchive

namespace Exchange

/--
An exchange in good order: queues belong to the connections they were made for; questions
come from connections; what waits was not decided, waits for an answer of its own kind and
number, and is known to the server; every verdict is the first on its question, and one of
its kind; letters have the answers that the verdicts make; the verdicts are those of the letters
and those that were reported; and queues got what the reports mean.
-/
structure Sound (w : Exchange) : Prop where
  places : w.server.router.queues.length = w.admitted.length
  writers : ∀ i p, w.server.router.writers.find? i = some p → w.admitted[p]? = some i
  wrote : ∀ e ∈ w.written, e.1 < w.admitted.length
  known : ∀ e ∈ w.inquiries, e.1 ∈ w.admitted
  pushes : ∀ n ∈ w.pushes, ∃ i a, w.inquiries[n]? = some (i, .push a)
  pushedOnce : w.pushes.Nodup
  filed : ∀ id n, w.filed.find? id = some n → ∃ i r, w.inquiries[n]? = some (i, .history r) ∧
    w.server.askers.find? id = some ⟨i, r.requestId⟩ ∧
    ∀ x, w.server.broker.inflight.waiting.find? id = some x → x.request = r.filed id
  filedOnce : ∀ id id' n, w.filed.find? id = some n → w.filed.find? id' = some n → id = id'
  unfiled : ∀ id, w.filed.find? id = none → w.server.askers.find? id = none
  ruled : ∀ e ∈ w.verdicts, ∃ i q a, w.inquiries[e.1]? = some (i, q) ∧ q.answer? e.2 = some a ∧
    a.Answers q
  ruledOnce : (w.verdicts.map (·.1)).Nodup
  undecided : ∀ n, w.Waits n → ¬ w.Decided n
  letters : ∀ l ∈ w.letters, ∃ q, w.inquiries[l.ticket]? = some (l.identity, q) ∧
    q.answer? l.verdict = some l.answer
  conveyed : (w.letters.map Letter.news ++ w.reports).Perm w.verdicts
  streams : ∀ p i, w.admitted[p]? = some i → w.stream p <+: w.due i ∧
    (w.server.router.openQueue? i = some p → w.stream p = w.due i)

theorem sound_start (b : Broker) (o : Outlet) : (start b o).Sound where
  places := rfl
  writers := fun _ _ h => nomatch h
  wrote := fun _ h => nomatch h
  known := fun _ h => nomatch h
  pushes := fun _ h => nomatch h
  pushedOnce := List.Pairwise.nil
  filed := fun _ _ h => nomatch h
  filedOnce := fun _ _ _ h => nomatch h
  unfiled := fun _ _ => rfl
  ruled := fun _ h => nomatch h
  ruledOnce := List.Pairwise.nil
  undecided := fun _ _ h => nomatch h
  letters := fun _ h => nomatch h
  conveyed := .nil
  streams := fun _ _ h => nomatch h

section Stepping

variable {w : Exchange}

/-! ### Questions -/

/-- What was decided already means what it meant before a new question came. -/
theorem message?_append (w' : Exchange) (more : List (Identity × Query))
    (hinquiries : w'.inquiries = w.inquiries ++ more)
    (houtlet : w'.server.router.toOutlet = w.server.router.toOutlet) {e : Nat × Verdict}
    (he : e.1 < w.inquiries.length) (i : Identity) : w'.message? i e = w.message? i e := by
  unfold message?
  rw [hinquiries, List.getElem?_append_left he, houtlet]

theorem Sound.ruled_lt (h : w.Sound) {e : Nat × Verdict} (he : e ∈ w.verdicts) :
    e.1 < w.inquiries.length := by
  obtain ⟨i, q, a, hq, -⟩ := h.ruled e he
  exact (List.getElem?_eq_some_iff.mp hq).1

/-- Only verdicts are reported. -/
theorem Sound.ruled_of_reported (h : w.Sound) {e : Nat × Verdict} (he : e ∈ w.reports) :
    e ∈ w.verdicts :=
  h.conveyed.mem_iff.mp (List.mem_append_right _ he)

/-- A new question changes nothing as long as the server does nothing about it. -/
theorem Sound.enquire (h : w.Sound) {i : Identity} (hi : i ∈ w.admitted) (q : Query) :
    (w.enquire w.server i q).Sound := by
  have hkept : ∀ {n : Nat} {x : Identity × Query}, w.inquiries[n]? = some x →
      (w.inquiries ++ [(i, q)])[n]? = some x := by
    intro n x hx
    rw [List.getElem?_append_left (List.getElem?_eq_some_iff.mp hx).1, hx]
  have hdue : ∀ j, (w.enquire w.server i q).due j = w.due j := fun j =>
    List.filterMap_congr fun e he => message?_append (w.enquire w.server i q) [(i, q)]
      rfl rfl (h.ruled_lt (h.ruled_of_reported he)) j
  exact {
    h with
    known := List.forall_mem_append.mpr ⟨h.known, List.forall_mem_singleton.mpr hi⟩
    pushes := fun n hn => by
      obtain ⟨j, a, hpush⟩ := h.pushes n hn
      exact ⟨j, a, hkept hpush⟩
    filed := fun id n hn => by
      obtain ⟨j, r, hr, hrest⟩ := h.filed id n hn
      exact ⟨j, r, hkept hr, hrest⟩
    ruled := fun e he => by
      obtain ⟨j, q', a, hq', hrest⟩ := h.ruled e he
      exact ⟨j, q', a, hkept hq', hrest⟩
    letters := fun l hl => by
      obtain ⟨q', hq', ha⟩ := h.letters l hl
      exact ⟨q', hkept hq', ha⟩
    streams := fun p j hp => by
      rw [hdue]
      exact h.streams p j hp }

/-- The ticket of the next question is not in use. -/
theorem Sound.fresh (h : w.Sound) : w.inquiries.length ∉ w.pushes ∧
    (∀ id, w.filed.find? id ≠ some w.inquiries.length) ∧ ¬ w.Decided w.inquiries.length := by
  have hnone : ∀ x, w.inquiries[w.inquiries.length]? ≠ some x := fun x hx =>
    Nat.lt_irrefl _ (List.getElem?_eq_some_iff.mp hx).1
  refine ⟨fun hn => ?_, fun id hn => ?_, fun hn => ?_⟩
  · obtain ⟨i, a, hpush⟩ := h.pushes _ hn
    exact hnone _ hpush
  · obtain ⟨i, r, hr, -⟩ := h.filed id _ hn
    exact hnone _ hr
  · obtain ⟨e, he, heq⟩ := List.mem_map.mp hn
    exact absurd (h.ruled_lt he) (heq ▸ Nat.lt_irrefl _)

/-- A push may wait to be stored. -/
theorem Sound.push (h : w.Sound) {n : Nat} {i : Identity} {a : Addition}
    (hq : w.inquiries[n]? = some (i, .push a)) (hpush : n ∉ w.pushes)
    (hruled : ¬ w.Decided n) : Sound { w with pushes := n :: w.pushes } :=
  { h with
    pushes := fun m hm => by
      rcases List.mem_cons.mp hm with rfl | hm
      · exact ⟨i, a, hq⟩
      · exact h.pushes m hm
    pushedOnce := List.nodup_cons.mpr ⟨hpush, h.pushedOnce⟩
    undecided := fun m hm => by
      rcases hm with hm | hm
      · rcases List.mem_cons.mp hm with rfl | hm
        · exact hruled
        · exact h.undecided m (Or.inl hm)
      · exact h.undecided m (Or.inr hm) }

/-- A question for bars may wait under the number that the broker gave it. -/
theorem Sound.file (h : w.Sound) {n : Nat} {i : Identity} {r : Request} {now : Instant}
    {a : Accepted} {b : Broker} (hq : w.inquiries[n]? = some (i, .history r))
    (hfiled : ∀ id, w.filed.find? id ≠ some n) (hruled : ¬ w.Decided n)
    (hsubmit : w.server.broker.submit now r = .ok (a, b)) : Sound { w with
      server := { w.server with
        broker := b
        askers := w.server.askers.insert a.assignedId ⟨i, r.requestId⟩ }
      filed := w.filed.insert a.assignedId n } := by
  have hfind : ∀ id, (w.filed.insert a.assignedId n).find? id
      = if a.assignedId = id then some n else w.filed.find? id := Table.find?_insert _ _ (a := n)
  have haskers : ∀ id, (w.server.askers.insert a.assignedId ⟨i, r.requestId⟩).find? id
      = if a.assignedId = id then some ⟨i, r.requestId⟩ else w.server.askers.find? id :=
    Table.find?_insert _ _ (a := _)
  have hwaiting := Broker.waiting_of_submit hsubmit
  exact {
    h with
    filed := fun id m hm => by
      rw [hfind] at hm
      by_cases hid : a.assignedId = id
      · subst hid
        rw [if_pos rfl] at hm
        cases hm
        refine ⟨i, r, hq, by rw [haskers, if_pos rfl], fun x hx => ?_⟩
        rw [hwaiting, if_pos rfl] at hx
        cases hx
        rfl
      · rw [if_neg hid] at hm
        obtain ⟨j, r', hr', hasker, hrequest⟩ := h.filed id m hm
        refine ⟨j, r', hr', by rw [haskers, if_neg hid, hasker], fun x hx => ?_⟩
        rw [hwaiting, if_neg (Ne.symm hid)] at hx
        exact hrequest x hx
    filedOnce := fun id id' m hm hm' => by
      rw [hfind] at hm hm'
      split at hm
      · cases hm
        split at hm'
        · rename_i hid hid'
          exact hid.symm.trans hid'
        · exact absurd hm' (hfiled id')
      · split at hm'
        · cases hm'
          exact absurd hm (hfiled id)
        · exact h.filedOnce id id' m hm hm'
    unfiled := fun id hid => by
      rw [hfind] at hid
      split at hid
      · cases hid
      · rename_i hne
        rw [haskers, if_neg hne]
        exact h.unfiled id hid
    undecided := fun m hm => by
      rcases hm with hm | ⟨id, hm⟩
      · exact h.undecided m (Or.inl hm)
      · rw [hfind] at hm
        split at hm
        · cases hm
          exact hruled
        · exact h.undecided m (Or.inr ⟨id, hm⟩) }

/-! ### Verdicts -/

/-- What becomes of the broker does not matter as long as it brings no new requests. -/
theorem Sound.broker (h : w.Sound) {b : Broker}
    (hb : b.inflight.RequestsIn w.server.broker.inflight) :
    Sound { w with server := { w.server with broker := b } } :=
  { h with
    filed := fun id n hn => by
      obtain ⟨i, r, hr, hasker, hrequest⟩ := h.filed id n hn
      refine ⟨i, r, hr, hasker, fun x hx => ?_⟩
      obtain ⟨y, hy, heq⟩ := hb id x hx
      exact heq ▸ hrequest y hy }

/-- A question may be given up. -/
theorem Sound.withdraw (h : w.Sound) (id : AssignedId) : Sound { w with
    server := { w.server with askers := w.server.askers.erase id }
    filed := w.filed.erase id } := by
  have hfind : ∀ {id' n}, (w.filed.erase id).find? id' = some n →
      id ≠ id' ∧ w.filed.find? id' = some n := by
    intro id' n hn
    rw [Table.find?_erase] at hn
    split at hn
    · cases hn
    · rename_i hne
      exact ⟨hne, hn⟩
  exact {
    h with
    filed := fun id' n hn => by
      obtain ⟨hne, hn⟩ := hfind hn
      obtain ⟨i, r, hr, hasker, hrequest⟩ := h.filed id' n hn
      refine ⟨i, r, hr, ?_, hrequest⟩
      show (w.server.askers.erase id).find? id' = _
      rw [Table.find?_erase, if_neg hne, hasker]
    filedOnce := fun id' id'' n hn hn' => h.filedOnce id' id'' n (hfind hn).2 (hfind hn').2
    unfiled := fun id' hid' => by
      show (w.server.askers.erase id).find? id' = none
      rw [Table.find?_erase] at hid' ⊢
      split
      · rfl
      · rename_i hne
        rw [if_neg hne] at hid'
        exact h.unfiled id' hid'
    undecided := fun n hn => by
      rcases hn with hn | ⟨id', hn⟩
      · exact h.undecided n (Or.inl hn)
      · exact h.undecided n (Or.inr ⟨id', (hfind hn).2⟩) }

/-- A verdict on a question that nothing waits for any more leaves a letter to whoever asked. -/
theorem Sound.rule (h : w.Sound) {n : Nat} {i : Identity} {q : Query} {v : Verdict} {a : Response}
    (hq : w.inquiries[n]? = some (i, q)) (ha : q.answer? v = some a)
    (hanswers : a.Answers q) (hpush : n ∉ w.pushes)
    (hfiled : ∀ id, w.filed.find? id ≠ some n) (hruled : ¬ w.Decided n) :
    (w.rule n v [.reply i a]).Sound := by
  refine {
    h with
    ruled := List.forall_mem_append.mpr
      ⟨h.ruled, List.forall_mem_singleton.mpr ⟨i, q, a, hq, ha, hanswers⟩⟩
    ruledOnce := ?_
    undecided := fun m hm => ?_
    letters := List.forall_mem_append.mpr ⟨h.letters, List.forall_mem_singleton.mpr ⟨q, hq, ha⟩⟩
    conveyed := ?_ }
  · show ((w.verdicts ++ [(n, v)]).map (·.1)).Nodup
    rw [List.map_append]
    refine List.nodup_append'.mpr ⟨h.ruledOnce, List.pairwise_singleton _ _, ?_⟩
    intro m hm hn
    obtain rfl : m = n := List.mem_singleton.mp hn
    exact hruled hm
  · show m ∉ (w.verdicts ++ [(n, v)]).map (·.1)
    rw [List.map_append, List.mem_append, not_or]
    refine ⟨h.undecided m hm, fun hn => ?_⟩
    obtain rfl := List.mem_singleton.mp hn
    rcases hm with hm | ⟨id, hm⟩
    · exact hpush hm
    · exact hfiled id hm
  · show (List.map Letter.news (w.letters ++ [⟨n, v, i, a⟩]) ++ w.reports).Perm
      (w.verdicts ++ [(n, v)])
    rw [List.map_append, List.append_assoc]
    refine (List.perm_append_comm.append_left _).trans ?_
    rw [← List.append_assoc]
    exact h.conveyed.append_right _

/-! ### Reports -/

theorem stream_reply (w : Exchange) (i : Identity) (a : Response) (p : Nat) :
    stream { w with server := w.server.reply i a } p
      = w.stream p ++ if w.server.router.openQueue? i = some p then
          (Router.outgoing w.server.router.toOutlet a).toList else [] := by
  show _ ++ (w.server.router.reply i a).1.messages p = _
  rw [(w.server.router.puts_reply i a).messages, ← List.append_assoc]
  rfl

/-- A report means a message for whoever asked, and nothing for anybody else. -/
theorem due_report {l : Letter} {q : Query} (hq : w.inquiries[l.ticket]? = some (l.identity, q))
    (ha : q.answer? l.verdict = some l.answer) (j : Identity) :
    (w.report l).due j = w.due j ++ if l.identity = j then
      (Router.outgoing w.server.router.toOutlet l.answer).toList else [] := by
  have houtlet : (w.server.reply l.identity l.answer).router.toOutlet = w.server.router.toOutlet :=
    (w.server.router.puts_reply l.identity l.answer).outlet
  have hmessage : (w.report l).message? j = w.message? j := by
    funext e
    simp only [message?, report, houtlet]
  show (w.reports ++ [l.news]).filterMap ((w.report l).message? j) = _
  rw [hmessage, List.filterMap_append, List.filterMap_cons]
  simp only [message?, Letter.news, hq, ha]
  by_cases hj : l.identity = j
  · cases hout : Router.outgoing w.server.router.toOutlet l.answer <;> simp [due, hj, hout]
  · simp [due, hj]

/-- The letter that is delivered is the one with its ticket, and the others are kept. -/
theorem letters_report {n : Nat} {l : Letter} (h : w.letters.find? (·.ticket = n) = some l) :
    l.ticket = n ∧ ∃ before after, w.letters = before ++ l :: after ∧
      (w.report l).letters = before ++ after := by
  obtain ⟨hticket, before, after, hletters, hbefore⟩ := List.find?_eq_some_iff_append.mp h
  obtain rfl := of_decide_eq_true hticket
  refine ⟨rfl, before, after, hletters, ?_⟩
  show w.letters.eraseP (·.ticket = l.ticket) = _
  rw [hletters, List.eraseP_append_right _ fun b hb => by simpa using hbefore b hb,
    List.eraseP_cons_of_pos (by simp)]

/-- A letter that is delivered goes to whoever asked. -/
theorem Sound.report (h : w.Sound) {n : Nat} {l : Letter}
    (hl : w.letters.find? (·.ticket = n) = some l) : (w.report l).Sound := by
  obtain ⟨-, before, after, hletters, hkept⟩ := letters_report hl
  obtain ⟨q, hq, ha⟩ := h.letters l (List.mem_of_find?_eq_some hl)
  have hputs := w.server.router.puts_reply l.identity l.answer
  refine {
    h with
    places := hputs.places.trans h.places
    writers := fun j p hp => h.writers j p (hputs.writers ▸ hp)
    letters := fun l' hl' => h.letters l' (List.mem_of_mem_eraseP hl')
    conveyed := ?_
    streams := fun p j hp => ?_ }
  · have hconveyed := h.conveyed
    rw [hletters] at hconveyed
    refine List.Perm.trans ?_ hconveyed
    show ((w.report l).letters.map Letter.news ++ (w.reports ++ [l.news])).Perm _
    rw [hkept, List.map_append, List.map_append, List.map_cons, ← List.append_assoc]
    -- the letter comes last in the place of the middle
    exact List.perm_append_comm.trans (List.perm_middle.symm.append_right _)
  · obtain ⟨hbegins, hequal⟩ := h.streams p j hp
    show stream { w with server := w.server.reply l.identity l.answer } p <+: _ ∧
      ((w.server.router.reply l.identity l.answer).1.openQueue? j = some p →
        stream { w with server := w.server.reply l.identity l.answer } p = _)
    rw [stream_reply, due_report hq ha, hputs.openQueue]
    by_cases hj : l.identity = j
    · subst hj
      rw [if_pos rfl]
      by_cases hopen : w.server.router.openQueue? l.identity = some p
      · rw [if_pos hopen, hequal hopen]
        exact ⟨List.prefix_refl _, fun _ => rfl⟩
      · rw [if_neg hopen, List.append_nil]
        exact ⟨hbegins.trans (List.prefix_append _ _), fun ho => absurd ho hopen⟩
    · -- the queue at this place is not that of whoever asked
      have hother : w.server.router.openQueue? l.identity ≠ some p := fun ho =>
        hj (Option.some.inj ((h.writers _ _ (Router.openQueue?_eq_some.mp ho).1).symm.trans hp))
      rw [if_neg hj, if_neg hother, List.append_nil, List.append_nil]
      exact ⟨hbegins, hequal⟩

/-! ### Moves -/

/-- A message that is a question is decided at once, or it waits. -/
theorem Sound.ask (h : w.Sound) {now : Instant} {i : Identity} {m : Message} {q : Query}
    (hi : i ∈ w.admitted) (hm : Query.ofParts m = .ok q) : (w.ask now i m q).Sound := by
  obtain ⟨hpush, hfiled, hruled⟩ := h.fresh
  have henquired := h.enquire hi q
  have hq : (w.enquire w.server i q).inquiries[w.inquiries.length]? = some (i, q) :=
    List.getElem?_concat_length
  cases q with
  | history r =>
    cases hsubmit : w.server.broker.submit now r with
    | ok accepted =>
      have hask : w.ask now i m (.history r) = { w.enquire w.server i (.history r) with
          server := { w.server with
            broker := accepted.2
            askers := w.server.askers.insert accepted.1.assignedId ⟨i, r.requestId⟩ }
          filed := w.filed.insert accepted.1.assignedId w.inquiries.length } := by
        simp [Exchange.ask, Exchange.enquire, Server.handle, hm, Server.history, hsubmit]
      rw [hask]
      exact henquired.file hq hfiled hruled hsubmit
    | error failure =>
      cases failure with
      | refused e =>
        have hask : w.ask now i m (.history r) = (w.enquire w.server i (.history r)).rule
            w.inquiries.length (.bars (.error e)) [.reply i (.failure r.requestId e.message)] := by
          simp [Exchange.ask, Exchange.enquire, Server.handle, hm, Server.history, hsubmit]
        rw [hask]
        exact henquired.rule hq rfl rfl hpush hfiled hruled
      | outsideCalendar =>
        have hask : w.ask now i m (.history r) = w.enquire w.server i (.history r) := by
          simp [Exchange.ask, Exchange.enquire, Server.handle, hm, Server.history, hsubmit]
        rw [hask]
        exact henquired
  | push a =>
    have hask : w.ask now i m (.push a) = { w.enquire w.server i (.push a) with
        pushes := w.inquiries.length :: w.pushes } := by
      simp [Exchange.ask, Exchange.enquire, Server.handle, hm]
    rw [hask]
    exact henquired.push hq hpush hruled
  | coverage q =>
    obtain ⟨ha, hanswers⟩ : (Query.coverage q).answer?
        (.range (w.server.broker.coverage q.key)) = some (w.server.coverage q) ∧
          (w.server.coverage q).Answers (.coverage q) := by
      unfold Server.coverage
      cases w.server.broker.coverage q.key with
      | ok c => exact ⟨rfl, rfl⟩
      | error e => exact ⟨rfl, rfl⟩
    have hask : w.ask now i m (.coverage q) = (w.enquire w.server i (.coverage q)).rule
        w.inquiries.length (.range (w.server.broker.coverage q.key))
          [.reply i (w.server.coverage q)] := by
      simp [Exchange.ask, Exchange.enquire, Server.handle, hm]
    rw [hask]
    exact henquired.rule hq ha hanswers hpush hfiled hruled

/-- A message that is no question changes nothing. -/
theorem handle_undecodable (s : Server) (now : Instant) (i : Identity) {m : Message} {e : WireError}
    (hm : Query.ofParts m = .error e) : s.handle now i m = (s, []) := by
  simp [Server.handle, hm]

/-- Whatever the broker says about a request is a verdict on the question that waits for it. -/
theorem Sound.settle (h : w.Sound) {b : Broker} {o : Outcome}
    (hsettles : Settles w.server.broker b o) :
    (w.settle ({ w.server with broker := b }.heed o) o).Sound := by
  have hbroker := h.broker hsettles.kept
  cases o with
  | answer id result =>
    cases hn : w.filed.find? id with
    | none =>
      have hsettle : w.settle ({ w.server with broker := b }.heed (.answer id result))
          (.answer id result) = { w with server := { w.server with broker := b } } := by
        simp [Exchange.settle, hn, Server.heed, h.unfiled id hn]
      rw [hsettle]
      exact hbroker
    | some n =>
      obtain ⟨i, r, hr, hasker, hrequest⟩ := h.filed id n hn
      have hsettle : w.settle ({ w.server with broker := b }.heed (.answer id result))
          (.answer id result) = { w with
            server := { w.server with broker := b, askers := w.server.askers.erase id }
            filed := w.filed.erase id }.rule n (.bars result)
              [.reply i (Server.responseTo r.requestId result)] := by
        simp [Exchange.settle, hn, Server.heed, hasker]
      rw [hsettle]
      have hanswers : (Server.responseTo r.requestId result).Answers (.history r) := by
        cases result with
        | error e => rfl
        | ok reply =>
          obtain ⟨x, hx, -, hreply⟩ := hsettles.answered id (.ok reply) rfl
          exact ⟨id, (hreply reply rfl).trans (hrequest x hx)⟩
      refine (hbroker.withdraw id).rule hr rfl hanswers (fun hpush => ?_) (fun id' hid' => ?_) ?_
      · obtain ⟨j, a, hpush⟩ := h.pushes n hpush
        cases hr.symm.trans hpush
      · change (w.filed.erase id).find? id' = some n at hid'
        rw [Table.find?_erase] at hid'
        split at hid'
        · cases hid'
        · rename_i hne
          exact hne (h.filedOnce id id' n hn hid')
      · exact h.undecided n (Or.inr ⟨id, hn⟩)
  | silent => exact hbroker
  | violation e => exact hbroker
  | overflow => exact hbroker

/-- A push that was stored, or could not be, is to be told to whoever sent it. -/
theorem Sound.stored (h : w.Sound) {n : Nat} {i : Identity} {a : Addition} (hn : n ∈ w.pushes)
    (hq : w.inquiries[n]? = some (i, .push a)) : (w.stored n i a).Sound := by
  have hinflight : (w.server.broker.addData a).1.inflight = w.server.broker.inflight := by
    rw [Broker.addData_fst]
  have hbroker := h.broker (Inflight.requestsIn_of_eq (congrArg Inflight.waiting hinflight))
  have herased : Sound { w with
      server := { w.server with broker := (w.server.broker.addData a).1 }
      pushes := w.pushes.erase n } := {
    hbroker with
    pushes := fun m hm => h.pushes m (List.mem_of_mem_erase hm)
    pushedOnce := h.pushedOnce.erase n
    undecided := fun m hm => h.undecided m (hm.imp_left List.mem_of_mem_erase) }
  have hrule : ∀ {result : Except BrokerError Nat} {answer : Response},
      (Query.push a).answer? (.stored result) = some answer → answer.Answers (.push a) →
      ({ w with
        server := { w.server with broker := (w.server.broker.addData a).1 }
        pushes := w.pushes.erase n }.rule n (.stored result) [.reply i answer]).Sound := by
    intro result answer hanswer hanswers
    refine herased.rule hq hanswer hanswers h.pushedOnce.not_mem_erase (fun id hid => ?_) ?_
    · obtain ⟨j, r, hr, -⟩ := h.filed id n hid
      cases hq.symm.trans hr
    · exact h.undecided n (Or.inl hn)
  unfold Exchange.stored Server.store
  rcases hadd : w.server.broker.addData a with ⟨b, result⟩
  rw [hadd] at herased hrule
  cases result with
  | error e => exact herased
  | ok result =>
    cases result with
    | ok count => exact hrule rfl trivial
    | error e => exact hrule rfl trivial

/-! ### Connections -/

/-- Who never connected is owed nothing. -/
theorem Sound.due_stranger (h : w.Sound) {i : Identity} (hi : i ∉ w.admitted) : w.due i = [] := by
  refine List.filterMap_eq_nil_iff.mpr fun e he => ?_
  obtain ⟨j, q, a, hq, -⟩ := h.ruled e (h.ruled_of_reported he)
  have hne : j ≠ i := fun hj => hi (hj ▸ h.known (j, q) (List.mem_of_getElem? hq))
  simp [message?, hq, hne]

/-- Nothing was put into a queue that does not exist. -/
theorem Sound.stream_beyond (h : w.Sound) {p : Nat} (hp : w.admitted.length ≤ p) :
    w.stream p = [] := by
  have hwritten : w.written.filter (·.1 = p) = [] :=
    List.filter_eq_nil_iff.mpr fun e he => by
      simpa using Nat.ne_of_lt (Nat.lt_of_lt_of_le (h.wrote e he) hp)
  have hqueue : w.server.router.queues[p]? = none :=
    List.getElem?_eq_none (h.places.symm ▸ hp)
  simp [stream, hwritten, Router.messages, hqueue]

/-- A new connection has a queue of its own, and nothing was put into it yet. -/
theorem Sound.connect (h : w.Sound) {s : Server} {i : Identity} (hnew : (w.admitted ++ [i]).Nodup)
    (hbroker : s.broker = w.server.broker) (haskers : s.askers = w.server.askers)
    (hrouter : s.router = (w.server.router.register i).1) :
    Sound { w with server := s, admitted := w.admitted ++ [i] } := by
  have hout : i ∉ w.admitted := fun hi =>
    (List.nodup_append'.mp hnew).2.2 hi (List.mem_singleton.mpr rfl)
  have hkept : ∀ {p : Nat} {j}, w.admitted[p]? = some j → (w.admitted ++ [i])[p]? = some j := by
    intro p j hj
    rw [List.getElem?_append_left (List.getElem?_eq_some_iff.mp hj).1, hj]
  have hwriters : ∀ j p, s.router.writers.find? j = some p → (w.admitted ++ [i])[p]? = some j := by
    intro j p hp
    rw [hrouter] at hp
    change (w.server.router.writers.insert i w.server.router.queues.length).find? j = some p at hp
    rw [Table.find?_insert] at hp
    split at hp
    · rename_i hij
      cases hp
      rw [h.places, hij]
      exact List.getElem?_concat_length
    · exact hkept (h.writers j p hp)
  have hstream : ∀ p, Exchange.stream { w with server := s, admitted := w.admitted ++ [i] } p
      = w.stream p := by
    intro p
    simp only [stream, hrouter, Router.messages_register]
  have hdue : ∀ j, Exchange.due { w with server := s, admitted := w.admitted ++ [i] } j
      = w.due j := by
    intro j
    refine List.filterMap_congr fun e _ => ?_
    simp only [message?, hrouter, Router.register]
  refine {
    h with
    places := ?_
    writers := hwriters
    wrote := fun e he => ?_
    known := fun e he => List.mem_append_left _ (h.known e he)
    filed := fun id n hn => ?_
    unfiled := fun id hid => haskers ▸ h.unfiled id hid
    streams := fun p j hj => ?_ }
  · show s.router.queues.length = (w.admitted ++ [i]).length
    simp [hrouter, Router.register, h.places]
  · exact Nat.lt_of_lt_of_le (h.wrote e he) (by simp)
  · show ∃ j r, _ ∧ s.askers.find? id = _ ∧ ∀ x, s.broker.inflight.waiting.find? id = some x → _
    rw [hbroker, haskers]
    exact h.filed id n hn
  · rw [hstream, hdue]
    show _ ∧ (s.router.openQueue? j = some p → _)
    by_cases hp : p < w.admitted.length
    · change (w.admitted ++ [i])[p]? = some j at hj
      rw [List.getElem?_append_left hp] at hj
      have hji : j ≠ i := fun hji => hout (hji ▸ List.mem_of_getElem? hj)
      have hplaces : ∀ k q, w.server.router.writers.find? k = some q →
          q < w.server.router.queues.length := fun k q hq =>
        h.places ▸ (List.getElem?_eq_some_iff.mp (h.writers k q hq)).1
      rw [hrouter, Router.openQueue?_register hplaces, if_neg hji]
      exact h.streams p j hj
    · -- the place of the new connection
      obtain ⟨hlt, hj⟩ := List.getElem?_eq_some_iff.mp hj
      obtain rfl : p = w.admitted.length := by
        simp at hlt
        omega
      obtain rfl : i = j := by simpa using hj
      rw [h.stream_beyond (Nat.le_refl _), h.due_stranger hout]
      exact ⟨List.prefix_refl _, fun _ => rfl⟩

/-- Messages may be written, and queues closed, as long as nothing is put into them. -/
theorem Sound.reroute (h : w.Sound) {s : Server} {written : List (Nat × Message)}
    (hbroker : s.broker = w.server.broker) (haskers : s.askers = w.server.askers)
    (houtlet : s.router.toOutlet = w.server.router.toOutlet)
    (hplaces : s.router.queues.length = w.server.router.queues.length)
    (hwriters : ∀ i p, s.router.writers.find? i = some p → w.server.router.writers.find? i = some p)
    (hopen : ∀ i p, s.router.openQueue? i = some p → w.server.router.openQueue? i = some p)
    (hwrote : ∀ e ∈ written, e.1 < w.admitted.length)
    (hstream : ∀ p, Exchange.stream { w with server := s, written } p = w.stream p) :
    Sound { w with server := s, written } := by
  have hdue : ∀ j, Exchange.due { w with server := s, written } j = w.due j := by
    intro j
    refine List.filterMap_congr fun e _ => ?_
    simp only [message?, houtlet]
  exact {
    h with
    places := hplaces.trans h.places
    writers := fun i p hp => h.writers i p (hwriters i p hp)
    wrote := hwrote
    filed := fun id n hn => by
      show ∃ j r, _ ∧ s.askers.find? id = _ ∧ ∀ x, s.broker.inflight.waiting.find? id = some x → _
      rw [hbroker, haskers]
      exact h.filed id n hn
    unfiled := fun id hid => haskers ▸ h.unfiled id hid
    streams := fun p i hp => by
      obtain ⟨hbegins, hequal⟩ := h.streams p i hp
      rw [hstream, hdue]
      exact ⟨hbegins, fun ho => hequal (hopen i p ho)⟩ }

theorem Sound.hangUp (h : w.Sound) (i : Identity) :
    Sound { w with server := w.server.hangUp i } := by
  refine h.reroute (s := w.server.hangUp i) rfl rfl rfl rfl (fun j p hp => ?_) (fun j p ho => ?_)
    h.wrote fun p => rfl
  · change (w.server.router.writers.erase i).find? j = some p at hp
    rw [Table.find?_erase] at hp
    split at hp
    · cases hp
    · exact hp
  · change (w.server.router.unregister i).openQueue? j = some p at ho
    rw [Router.openQueue?_unregister] at ho
    split at ho
    · cases ho
    · exact ho

theorem Sound.abandon (h : w.Sound) (p : Nat) : Sound { w with
    server := { w.server with router := w.server.router.dropQueue p } } := by
  refine h.reroute (s := { w.server with router := w.server.router.dropQueue p }) rfl rfl rfl
    (List.length_modify _ _ _) (fun _ _ hp => hp) (fun _ _ ho => Router.openQueue?_dropQueue ho)
    h.wrote fun q => ?_
  show _ ++ (w.server.router.dropQueue p).messages q = _
  rw [Router.messages_dropQueue]
  rfl

/-- The message that is written next leaves its queue, so that the stream stays what it was. -/
theorem Sound.write (h : w.Sound) {p : Nat} {router : Router} {m : Message}
    (hreceive : w.server.router.receive p = (router, .message m)) : Sound { w with
      server := { w.server with router }
      written := w.written ++ [(p, m)] } := by
  rcases w.server.router.receive_cases p with ⟨m', rest, hmessages, hfound⟩ | ⟨hnone, -⟩
  · rw [hreceive] at hfound
    obtain ⟨rfl, rfl⟩ : router = w.server.router.change p (fun q => { q with messages := rest }) ∧
        m = m' := by
      injection hfound with hrouter hm
      injection hm with hm
      exact ⟨hrouter, hm⟩
    obtain ⟨queue, hqueue⟩ := Router.exists_queue_of_messages hmessages
    refine h.reroute (s := { w.server with
        router := w.server.router.change p (fun q => { q with messages := rest }) }) rfl rfl rfl
      (List.length_modify _ _ _) (fun _ _ hp => hp) (fun i q ho => ?_)
      (List.forall_mem_append.mpr ⟨h.wrote, List.forall_mem_singleton.mpr ?_⟩) fun q => ?_
    · exact (w.server.router.openQueue?_change p (g := fun q => { q with messages := rest })
        (fun _ => rfl) i).symm.trans ho
    · exact h.places ▸ (List.getElem?_eq_some_iff.mp hqueue).1
    · show ((w.written ++ [(p, m)]).filter (·.1 = q)).map (·.2) ++
        (w.server.router.change p fun q => { q with messages := rest }).messages q = _
      rw [Router.messages_change]
      by_cases hq : p = q
      · subst hq
        simp [stream, hqueue, hmessages]
      · simp [stream, hq]
  · exact absurd (congrArg Prod.snd hreceive) (hnone m)

/-! ### Runs -/

theorem Sound.step (h : w.Sound) {w' : Exchange} {m : Move} (hstep : w.step? m = some w')
    (hnodup : w'.admitted.Nodup) : w'.Sound := by
  cases makes_of_step hstep with
  | connected => exact h.connect hnodup rfl rfl rfl
  | asked there understood => exact h.ask there understood
  | muttered undecodable =>
    rw [handle_undecodable _ _ _ undecodable]
    exact h
  | arrived => exact h.settle (Broker.settles_deliver _ _ _)
  | served => exact h.settle (Broker.settles_serve _ _)
  | stored waits push => exact h.stored waits push
  | reported found => exact h.report found
  | hungUp => exact h.hangUp _
  | abandoned => exact h.abandon _
  | wrote taken => exact h.write taken
  | turned => exact h.broker (Inflight.requestsIn_of_eq rfl)

end Stepping

/-- **Books are kept**: exchanges stay in good order along every run, as long as no two
connections have the same identity. -/
theorem sound_of_run {b : Broker} {o : Outlet} {moves : List Move} {w : Exchange}
    (hrun : (start b o).run? moves = some w) (hnodup : w.admitted.Nodup) : w.Sound := by
  refine run?_induction (P := fun w => w.admitted.Nodup → w.Sound) (fun v m v' hv hstep hv' => ?_)
    (fun _ => sound_start b o) hrun hnodup
  exact (hv (hv'.sublist (adds_of_step hstep).1.sublist)).step hstep hv'

end Exchange

end BarArchive
