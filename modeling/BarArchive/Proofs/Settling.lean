/-
Whom a step of the broker can answer.

Whatever a source delivers, and for whichever request, a step answers a request only by taking
it out of the table, and a reply is for the request that was taken out. Apart from that
requests stay in the table as they are. Nothing is assumed of the table or of what is
delivered.
-/
import BarArchive.Proofs.Steps

namespace BarArchive

namespace Inflight

/-! ### Taking requests out -/

theorem take?_eq_some {t t' : Inflight} {id : AssignedId} {x : Waiting}
    (h : t.take? id = some (x, t')) :
    t.waiting.find? id = some x ∧ t'.waiting = t.waiting.erase id := by
  obtain ⟨y, hy, heq⟩ := Option.map_eq_some_iff.mp h
  cases heq
  exact ⟨hy, rfl⟩

theorem abort?_eq_some {t t' : Inflight} {id failed : AssignedId} {x : Waiting}
    (h : t.abort? id failed = some (x, t')) :
    t.waiting.find? id = some x ∧ t'.waiting = t.waiting.erase id := by
  obtain ⟨⟨y, u⟩, htake, heq⟩ := Option.map_eq_some_iff.mp h
  obtain ⟨hy, hu⟩ := take?_eq_some htake
  rw [← hu]
  -- what remains of the parts is no matter of the requests
  cases hparts : u.parts.find? id with
  | none =>
    simp only [hparts] at heq
    cases heq
    exact ⟨hy, rfl⟩
  | some children =>
    cases hrest : without failed children with
    | nil =>
      simp only [hparts, hrest] at heq
      cases heq
      exact ⟨hy, rfl⟩
    | cons c cs =>
      simp only [hparts, hrest] at heq
      cases heq
      exact ⟨hy, rfl⟩

/-- Crossing off a part takes its request out or leaves all requests there. -/
theorem complete_cases (t : Inflight) (id child : AssignedId) :
    (∃ x t', t.complete id child = (some x, t') ∧ t.waiting.find? id = some x ∧
      t'.waiting = t.waiting.erase id) ∨
      ∃ t', t.complete id child = (none, t') ∧ t'.waiting = t.waiting := by
  unfold complete
  cases hrest : without child ((t.parts.find? id).getD []) with
  | cons c cs => exact Or.inr ⟨_, rfl, rfl⟩
  | nil =>
    cases hx : t.waiting.find? id with
    | none =>
      refine Or.inr ⟨{ t with parts := t.parts.erase id }, ?_, rfl⟩
      simp [take?, hx]
    | some x =>
      refine Or.inl ⟨x, ⟨t.waiting.erase id, t.parts.erase id, t.aborted⟩, ?_, rfl, rfl⟩
      simp [take?, hx]

theorem retire?_eq_some {t t' : Inflight} {id child : AssignedId}
    (h : t.retire? id child = some t') : t'.waiting = t.waiting := by
  obtain ⟨children, -, rfl⟩ := Option.map_eq_some_iff.mp h
  split <;> rfl

/-- All requests of one table are in the other, whatever bars are stashed for them. -/
def RequestsIn (t' t : Inflight) : Prop :=
  ∀ id x', t'.waiting.find? id = some x' →
    ∃ x, t.waiting.find? id = some x ∧ x'.request = x.request

theorem requestsIn_of_eq {t t' : Inflight} (h : t'.waiting = t.waiting) : t'.RequestsIn t :=
  fun _ x' hx' => ⟨x', h ▸ hx', rfl⟩

theorem requestsIn_erase {t t' : Inflight} {id : AssignedId}
    (h : t'.waiting = t.waiting.erase id) : t'.RequestsIn t := by
  intro id' x' hx'
  rw [h, Table.find?_erase] at hx'
  split at hx'
  · cases hx'
  · exact ⟨x', hx', rfl⟩

theorem RequestsIn.trans {t t' t'' : Inflight} (h' : t''.RequestsIn t') (h : t'.RequestsIn t) :
    t''.RequestsIn t := by
  intro id x'' hx''
  obtain ⟨x', hx', hrequest'⟩ := h' id x'' hx''
  obtain ⟨x, hx, hrequest⟩ := h id x' hx'
  exact ⟨x, hx, hrequest'.trans hrequest⟩

theorem requestsIn_addToStash (t : Inflight) (parent : AssignedId) (bars : List Bar) :
    (t.addToStash parent bars).RequestsIn t := by
  intro id x' hx'
  change (t.waiting.modify parent _).find? id = some x' at hx'
  rw [Table.find?_modify] at hx'
  split at hx'
  · obtain ⟨x, hx, rfl⟩ := Option.map_eq_some_iff.mp hx'
    exact ⟨x, hx, rfl⟩
  · exact ⟨x', hx', rfl⟩

end Inflight

/-! ### Steps -/

/-- A step brings no new requests, and answers none but those that it takes out. -/
structure Settles (b b' : Broker) (o : Outcome) : Prop where
  kept : b'.inflight.RequestsIn b.inflight
  answered : ∀ id result, o = .answer id result → ∃ x, b.inflight.waiting.find? id = some x ∧
    b'.inflight.waiting.find? id = none ∧ ∀ reply, result = .ok reply → reply.request = x.request

/-- What was done before without an answer makes no difference. -/
theorem Settles.after {b b' c : Broker} {o : Outcome} (h : Settles c b' o)
    (hc : c.inflight.RequestsIn b.inflight) : Settles b b' o where
  kept := h.kept.trans hc
  answered := by
    intro id result hanswer
    obtain ⟨y, hy, hgone, hreply⟩ := h.answered id result hanswer
    obtain ⟨x, hx, hrequest⟩ := hc id y hy
    exact ⟨x, hx, hgone, fun reply hok => (hreply reply hok).trans hrequest⟩

namespace Broker

variable {b b' : Broker}

theorem settles_taken {id : AssignedId} {x : Waiting} {t' : Inflight}
    (h : b.inflight.waiting.find? id = some x ∧ t'.waiting = b.inflight.waiting.erase id)
    (result : Except BrokerError (List Bar)) :
    Settles b { b with inflight := t' } (answer id x result) where
  kept := Inflight.requestsIn_erase h.2
  answered := by
    intro id' result' hanswer
    cases hanswer
    refine ⟨x, h.1, ?_, ?_⟩
    · show t'.waiting.find? id = none
      rw [h.2, Table.find?_erase, if_pos rfl]
    · intro reply hreply
      cases result with
      | error e => cases hreply
      | ok bars =>
        cases hreply
        rfl

theorem settles_silent (h : b'.inflight.RequestsIn b.inflight) : Settles b b' .silent :=
  ⟨h, fun _ _ hanswer => nomatch hanswer⟩

theorem settles_violation (h : b'.inflight.RequestsIn b.inflight) (e : BrokerError) :
    Settles b b' (.violation e) :=
  ⟨h, fun _ _ hanswer => nomatch hanswer⟩

theorem settles_overflow (h : b'.inflight.RequestsIn b.inflight) : Settles b b' .overflow :=
  ⟨h, fun _ _ hanswer => nomatch hanswer⟩

theorem settles_finish (b : Broker) (id : AssignedId) (result : Except BrokerError (List Bar)) :
    Settles b (b.finish id result).1 (b.finish id result).2 := by
  unfold finish
  split
  · rename_i htake
    exact settles_taken (Inflight.take?_eq_some htake) result
  · exact settles_silent (Inflight.requestsIn_of_eq rfl)

theorem settles_abort (b : Broker) (parent failed : AssignedId) (e : BrokerError) :
    Settles b (b.abort parent failed e).1 (b.abort parent failed e).2 := by
  unfold abort
  split
  · rename_i habort
    exact settles_taken (Inflight.abort?_eq_some habort) (.error e)
  · exact settles_silent (Inflight.requestsIn_of_eq rfl)

theorem settles_serve (b : Broker) (id : AssignedId) :
    Settles b (b.serve id).1 (b.serve id).2 := by
  unfold serve
  split
  · rename_i htake
    exact settles_taken (Inflight.take?_eq_some htake) _
  · exact settles_silent (Inflight.requestsIn_of_eq rfl)

theorem settles_completePart (b : Broker) (parent child : AssignedId) :
    Settles b (b.completePart parent child).1 (b.completePart parent child).2 := by
  unfold completePart
  rcases b.inflight.complete_cases parent child with ⟨x, t', heq, htaken⟩ | ⟨t', heq, hsame⟩
  · simp only [heq]
    exact settles_taken htaken _
  · simp only [heq]
    exact settles_silent (Inflight.requestsIn_of_eq hsame)

theorem settles_fail (b : Broker) (id : AssignedId) (parent : Option AssignedId) (e : MarketError) :
    Settles b (b.fail id parent e).1 (b.fail id parent e).2 := by
  unfold fail
  cases parent with
  | none => exact settles_finish b id _
  | some parent =>
    simp only
    split
    · rename_i hretire
      exact settles_silent (Inflight.requestsIn_of_eq (Inflight.retire?_eq_some hretire))
    · exact settles_abort b parent id _

/-- Keeping bars has nothing to do with the table of requests. -/
theorem inflight_keep (b : Broker) (r : Request) (bars : List Bar) :
    (b.keep r bars).1.inflight = b.inflight := by
  unfold keep
  split <;> rfl

theorem requestsIn_keep {c : Broker} {r : Request} {bars : List Bar}
    {result : Except AddFailure Nat} (h : b.keep r bars = (c, result)) :
    c.inflight.RequestsIn b.inflight := by
  have hkeep := inflight_keep b r bars
  rw [h] at hkeep
  exact Inflight.requestsIn_of_eq (congrArg Inflight.waiting hkeep)

theorem settles_arrive (b : Broker) (id : AssignedId) (r : Request) (bars : List Bar) :
    Settles b (b.arrive id r bars).1 (b.arrive id r bars).2 := by
  unfold arrive
  split
  · exact settles_silent (Inflight.requestsIn_of_eq rfl)
  · split
    · exact settles_finish b id _
    · split
      · rename_i c _ hkept
        exact (settles_finish c id _).after (requestsIn_keep hkept)
      · rename_i c _ hkept
        exact (settles_finish c id _).after (requestsIn_keep hkept)
      · rename_i c hkept
        exact settles_overflow (requestsIn_keep hkept)

theorem settles_arrivePart (b : Broker) (parent child : AssignedId) (r : Request) (bars : List Bar) :
    Settles b (b.arrivePart parent child r bars).1 (b.arrivePart parent child r bars).2 := by
  unfold arrivePart
  split
  · rename_i hretire
    exact settles_silent (Inflight.requestsIn_of_eq (Inflight.retire?_eq_some hretire))
  · split
    · exact settles_violation (Inflight.requestsIn_of_eq rfl) _
    · split
      · exact (settles_completePart _ parent child).after
          (Inflight.requestsIn_addToStash b.inflight parent bars)
      · split
        · rename_i c _ hkept
          exact (settles_completePart c parent child).after (requestsIn_keep hkept)
        · rename_i c _ hkept
          exact (settles_abort c parent child _).after (requestsIn_keep hkept)
        · rename_i c hkept
          exact settles_overflow (requestsIn_keep hkept)

/-- Whatever is delivered, only requests that are taken out of the table are answered. -/
theorem settles_deliver (b : Broker) (r : Request) (result : Except MarketError (List Bar)) :
    Settles b (b.deliver r result).1 (b.deliver r result).2 := by
  unfold deliver
  split
  · exact settles_violation (Inflight.requestsIn_of_eq rfl) _
  · exact settles_silent (Inflight.requestsIn_of_eq rfl)
  · exact settles_fail b _ _ _
  · split
    · exact settles_arrive b _ r _
    · exact settles_arrivePart b _ _ r _

/-- A request that is accepted waits under its number, and no other one is touched. -/
theorem waiting_of_submit {now : Instant} {r : Request} {a : Accepted}
    (h : b.submit now r = .ok (a, b')) (id : AssignedId) : b'.inflight.waiting.find? id
      = if id = a.assignedId then some { request := r.filed a.assignedId }
        else b.inflight.waiting.find? id := by
  have hsets : ∃ e : Entry, e.waiting = some { request := r.filed a.assignedId } ∧
      b.inflight.Sets a.assignedId e b'.inflight := by
    cases submit_cases h with
    | stored _ _ table => exact ⟨_, rfl, table⟩
    | external _ _ table => exact ⟨_, rfl, table⟩
    | split _ _ table => exact ⟨_, rfl, table⟩
  obtain ⟨e, he, hsets⟩ := hsets
  split
  · rename_i hid
    subst hid
    exact (congrArg Entry.waiting hsets.here).trans he
  · rename_i hid
    exact congrArg Entry.waiting (hsets.elsewhere id hid)

end Broker

end BarArchive
