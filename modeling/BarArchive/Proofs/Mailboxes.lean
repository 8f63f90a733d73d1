/-
Queues as mailboxes.

Whatever is done with a router, and in whatever order, all that it holds can be read off what
was done. The queue of an identity is the one that was made when the identity was registered
last, unless it was forgotten since; a queue is open until nobody reads it any more; and what
is in it are the messages that were put into it, in order, but for those that were taken from
its front.

**A message that is sent goes into the queue of its identity if there is one and it is open,
and an answer does if something can be sent for it: itself, or the news that it was too long.
Otherwise nothing changes at all.** All that is sent for answers keeps to the limit of frames.
A queue that loses its identity gets nothing from then on, and keeps what it has.
-/
import BarArchive.Proofs.Correspondence
import BarArchive.Proofs.Messages
import BarArchive.Proofs.Queues

namespace BarArchive

/-! ### Identities in front of messages -/

namespace Identity

theorem ofPart_part (i : Identity) : ofPart i.part = .ok i := by
  have hlength : i.part.length = 8 := by simp [part, Bytes.ofUInt64BE]
  have hword : Bytes.toNat i.part.reverse = i.word.toNat := by
    rw [part, Bytes.ofUInt64BE, List.reverse_reverse, Bytes.toNat_ofNat]
    exact Nat.mod_eq_of_lt i.word.toNat_lt
  rw [ofPart, if_pos hlength, hword, Nat.toUInt64_eq, UInt64.ofNat_toNat]

theorem ofPart_eq_ok {bs : Bytes} {i : Identity} : ofPart bs = .ok i ↔ bs = i.part := by
  constructor
  · intro h
    unfold ofPart at h
    split at h
    · rename_i hlength
      obtain rfl := Except.ok.inj h
      have hlt : Bytes.toNat bs.reverse < UInt64.size := by
        simpa [hlength] using Bytes.toNat_lt bs.reverse
      have hbytes := Bytes.ofNat_toNat bs.reverse
      rw [List.length_reverse, hlength] at hbytes
      show bs = (Bytes.ofNat 8 (Bytes.toNat bs.reverse).toUInt64.toNat).reverse
      rw [UInt64.toNat_ofNat_of_lt' hlt, hbytes, List.reverse_reverse]
    · cases h
  · rintro rfl
    exact ofPart_part i

/-- What can be routed are the messages with an identity in front. -/
theorem split_eq_ok {routed m : Message} {i : Identity} :
    split routed = .ok (i, m) ↔ routed = address i m := by
  cases routed with
  | nil => simp [split, address]
  | cons bs rest =>
    rw [split, address, List.cons.injEq, ← ofPart_eq_ok]
    cases ofPart bs <;> simp [Except.map]

end Identity

namespace Router

variable {o : Outlet} {a sent : Response} {m : Message}

/-! ### What is sent for an answer -/

theorem Sends.encoded (h : Sends o a sent m) :
    sent.toParts o.encoder = .ok m ∧ Frame.length m ≤ o.limit := by
  cases h with
  | asIs encoded fits => exact ⟨encoded, fits⟩
  | news _ _ told fits => exact ⟨told, fits⟩

theorem outgoing_eq_some : outgoing o a = some m ↔ ∃ sent, Sends o a sent m := by
  refine ⟨sends_of_outgoing, ?_⟩
  rintro ⟨sent, h⟩
  unfold outgoing
  cases h with
  | asIs encoded fits => rw [encoded]; exact if_pos fits
  | news encoded long told fits =>
    rw [encoded]
    simp [Nat.not_le.mpr long, told, Except.toOption, fits]

/-- What is sent for an answer may be written as a frame. -/
theorem Sends.framed (h : Sends o a sent m) : Frame.encode o.limit m = .ok (Frame.write m) := by
  obtain ⟨hparts, hfits⟩ := h.encoded
  have hne : m.isEmpty = false := by
    simp only [Response.toParts, bind_eq_ok, pure_eq_ok] at hparts
    obtain ⟨_, -, rfl⟩ := hparts
    rfl
  simp only [Frame.encode, hne, Frame.checkSize, Nat.not_lt.mpr hfits, if_false]
  rfl

/-! ### What was done -/

/-- What can be done with a router and the queues that it has made. -/
inductive Call where
  | register (i : Identity)
  | unregister (i : Identity)
  | dropQueue (p : Nat)
  | send (routed : Message)
  | reply (i : Identity) (a : Response)
  | receive (p : Nat)

/-- The router once something was done with it. -/
def apply (r : Router) : Call → Router
  | .register i => (r.register i).1
  | .unregister i => r.unregister i
  | .dropQueue p => r.dropQueue p
  | .send routed => (r.send routed).1
  | .reply i a => (r.reply i a).1
  | .receive p => (r.receive p).1

/-- A new router after all that was done with it, which is listed backwards. -/
def after (o : Outlet) : List Call → Router
  | [] => { toOutlet := o }
  | c :: past => (after o past).apply c

/-- How many queues were made. -/
def made : List Call → Nat
  | [] => 0
  | .register _ :: past => made past + 1
  | _ :: past => made past

/-- The queue that was made when an identity was registered last, unless it was forgotten since. -/
def seat? (i : Identity) : List Call → Option Nat
  | [] => none
  | .register j :: past => if j = i then some (made past) else seat? i past
  | .unregister j :: past => if j = i then none else seat? i past
  | _ :: past => seat? i past

/-- Whether a queue was made and not dropped. -/
def isOpen (p : Nat) : List Call → Bool
  | [] => false
  | .register _ :: past => made past == p || isOpen p past
  | .dropQueue q :: past => q != p && isOpen p past
  | _ :: past => isOpen p past

/-- The queue that takes messages for an identity. -/
def taker? (i : Identity) (past : List Call) : Option Nat :=
  (seat? i past).filter fun p => isOpen p past

/-- The message that is sent, and to whom. -/
def Call.routed? (o : Outlet) : Call → Option (Identity × Message)
  | .send routed => (Identity.split routed).toOption
  | .reply i a => (outgoing o a).map fun m => (i, m)
  | _ => none

/-- The messages that something puts into a queue. -/
def puts (o : Outlet) (past : List Call) (p : Nat) (c : Call) : List Message :=
  match c.routed? o with
  | some (i, m) => if taker? i past = some p then [m] else []
  | none => []

/-- All messages that were put into a queue. -/
def line (o : Outlet) (p : Nat) : List Call → List Message
  | [] => []
  | c :: past => line o p past ++ puts o past p c

/-- How many messages were taken from a queue. -/
def taken (o : Outlet) (p : Nat) : List Call → Nat
  | [] => 0
  | .receive q :: past =>
    if q = p ∧ taken o p past < (line o p past).length then taken o p past + 1
    else taken o p past
  | _ :: past => taken o p past

/-! ### What the router holds -/

/-- Whether a queue is open. -/
def opened (r : Router) (p : Nat) : Bool := ((r.queues[p]?).map (·.isOpen)).getD false

/-- What a router holds is what can be told from the past. -/
structure Tracks (o : Outlet) (past : List Call) (r : Router) : Prop where
  outlet : r.toOutlet = o
  seats : ∀ i, r.writers.find? i = seat? i past
  places : r.queues.length = made past
  opened : ∀ p, r.opened p = isOpen p past
  messages : ∀ p, r.messages p = (line o p past).drop (taken o p past)

variable {r : Router} {past : List Call}

theorem Tracks.openQueue?_eq (h : Tracks o past r) (i : Identity) :
    r.openQueue? i = taker? i past := by
  have hopen : r.opened = fun p => isOpen p past := funext h.opened
  rw [taker?, ← h.seats, ← hopen]
  rfl

theorem taken_le (o : Outlet) (p : Nat) (past : List Call) :
    taken o p past ≤ (line o p past).length := by
  induction past with
  | nil => exact Nat.le_refl _
  | cons c past ih =>
    have hgrown : (line o p past).length ≤ (line o p (c :: past)).length := by
      rw [line, List.length_append]
      exact Nat.le_add_right _ _
    cases c with
    | receive q =>
      rw [taken]
      split
      · rename_i hfront
        exact Nat.le_trans hfront.2 hgrown
      · exact Nat.le_trans ih hgrown
    | _ => exact Nat.le_trans ih hgrown

/-! ### One step -/

theorem opened_change (r : Router) (p : Nat) (g : Queue → Queue) (q : Nat) :
    (r.change p g).opened q
      = if p = q then ((r.queues[q]?).map fun queue => (g queue).isOpen).getD false
        else r.opened q := by
  unfold opened change
  rw [List.getElem?_modify]
  by_cases hq : p = q
  · simp [hq, Function.comp_def]
  · simp [hq]

/-- What happens to messages does not open or close a queue. -/
theorem opened_change_messages (r : Router) (p : Nat) (g : Queue → List Message) (q : Nat) :
    (r.change p fun queue => { queue with messages := g queue }).opened q = r.opened q := by
  rw [opened_change]
  exact ite_eq_right_iff.mpr fun _ => rfl

theorem opened_deliver (r : Router) (i : Identity) (m : Message) (q : Nat) :
    (r.deliver i m).1.opened q = r.opened q := by
  unfold deliver
  split
  · exact r.opened_change_messages _ _ q
  · rfl

theorem opened_register (r : Router) (i : Identity) (p : Nat) :
    (r.register i).1.opened p = (r.queues.length == p || r.opened p) := by
  show (((r.queues ++ [({} : Queue)])[p]?).map Queue.isOpen).getD false = _
  rcases Nat.lt_trichotomy p r.queues.length with hlt | rfl | hgt
  · rw [List.getElem?_append_left hlt, beq_eq_false_iff_ne.mpr (Nat.ne_of_gt hlt), Bool.false_or]
    rfl
  · simp
  · have hnone : r.queues[p]? = none := List.getElem?_eq_none (Nat.le_of_lt hgt)
    rw [List.getElem?_eq_none (by simp; omega), beq_eq_false_iff_ne.mpr (Nat.ne_of_lt hgt)]
    simp [opened, hnone]

/-- The router after a message was sent, if there was one. -/
def route (r : Router) : Option (Identity × Message) → Router × Bool
  | some (i, m) => r.deliver i m
  | none => (r, false)

theorem send_eq_route (r : Router) (o : Outlet) (routed : Message) :
    r.send routed = r.route ((Call.send routed).routed? o) := by
  show r.send routed = r.route (Identity.split routed).toOption
  unfold send
  cases Identity.split routed <;> rfl

theorem reply_eq_route (r : Router) (i : Identity) (a : Response) :
    r.reply i a = r.route ((Call.reply i a).routed? r.toOutlet) := by
  show r.reply i a = r.route ((outgoing r.toOutlet a).map fun m => (i, m))
  unfold reply
  cases outgoing r.toOutlet a <;> rfl

/-- What is put at the end of its queue is put at the end of its line. -/
theorem Tracks.route (h : Tracks o past r) {c : Call}
    (hseat : ∀ i, seat? i (c :: past) = seat? i past) (hmade : made (c :: past) = made past)
    (hopen : ∀ p, isOpen p (c :: past) = isOpen p past)
    (htaken : ∀ p, taken o p (c :: past) = taken o p past) :
    Tracks o (c :: past) (r.route (c.routed? o)).1 := by
  have hputs : r.Puts (r.route (c.routed? o)).1 (puts o past · c) ∧
      ∀ p, (r.route (c.routed? o)).1.opened p = r.opened p := by
    unfold puts
    cases c.routed? o with
    | none => exact ⟨r.puts_nothing fun _ => rfl, fun _ => rfl⟩
    | some sent =>
      simp only [← h.openQueue?_eq]
      exact ⟨r.puts_deliver sent.1 sent.2, r.opened_deliver sent.1 sent.2⟩
  refine ⟨hputs.1.outlet.trans h.outlet, fun i => ?_, ?_, fun p => ?_, fun p => ?_⟩
  · rw [hputs.1.writers, h.seats, hseat]
  · rw [hputs.1.places, h.places, hmade]
  · rw [hputs.2, h.opened, hopen]
  · rw [hputs.1.messages, h.messages, line, htaken,
      List.drop_append_of_le_length (taken_le o p past)]

theorem Tracks.receive (h : Tracks o past r) (q : Nat) :
    Tracks o (.receive q :: past) (r.receive q).1 := by
  have hline : ∀ p, line o p (.receive q :: past) = line o p past :=
    fun p => List.append_nil _
  have hmessages : ∀ p, (r.receive q).1.messages p
      = (line o p (.receive q :: past)).drop (taken o p (.receive q :: past)) := by
    intro p
    rw [messages_receive, h.messages, List.tail_drop, hline, taken]
    by_cases hp : q = p
    · rw [if_pos hp]
      split
      · rfl
      · -- all messages were taken before
        rename_i hall
        have hle : (line o p past).length ≤ taken o p past :=
          Nat.not_lt.mp fun hlt => hall ⟨hp, hlt⟩
        rw [List.drop_eq_nil_of_le hle, List.drop_eq_nil_of_le (Nat.le_succ_of_le hle)]
    · rw [if_neg hp, if_neg fun hboth => hp hboth.1]
  rcases r.receive_cases q with ⟨m, rest, -, hreceive⟩ | ⟨-, hsame⟩
  · refine ⟨?_, ?_, ?_, fun p => ?_, hmessages⟩ <;> rw [hreceive]
    · exact h.outlet
    · exact h.seats
    · exact (List.length_modify _ _ _).trans h.places
    · exact (r.opened_change_messages q _ p).trans (h.opened p)
  · refine ⟨?_, ?_, ?_, fun p => ?_, hmessages⟩ <;> rw [hsame]
    · exact h.outlet
    · exact h.seats
    · exact h.places
    · exact h.opened p

theorem Tracks.step (h : Tracks o past r) (c : Call) :
    Tracks o (c :: past) (r.apply c) := by
  -- what takes nothing and puts nothing leaves the lines as they are
  have hlines : ∀ p, line o p past ++ [] = line o p past := fun p => List.append_nil _
  cases c with
  | register i =>
    refine ⟨h.outlet, fun j => ?_, ?_, fun p => ?_, fun p => ?_⟩
    · show (r.writers.insert i r.queues.length).find? j = _
      rw [Table.find?_insert, h.places, h.seats]
      rfl
    · show (r.queues ++ [_]).length = made past + 1
      rw [List.length_append, h.places]
      rfl
    · show (r.register i).1.opened p = _
      rw [opened_register, h.places, h.opened]
      rfl
    · show (r.register i).1.messages p = _
      rw [messages_register, h.messages, ← hlines]
      rfl
  | unregister i =>
    refine ⟨h.outlet, fun j => ?_, h.places, h.opened, fun p => ?_⟩
    · show (r.writers.erase i).find? j = _
      rw [Table.find?_erase, h.seats]
      rfl
    · exact (h.messages p).trans (congrArg _ (hlines p).symm)
  | dropQueue q =>
    refine ⟨h.outlet, h.seats, (List.length_modify _ _ _).trans h.places, fun p => ?_, fun p => ?_⟩
    · show (r.change q fun queue => { queue with isOpen := false }).opened p = _
      rw [opened_change, h.opened]
      by_cases hq : q = p
      · subst hq
        cases r.queues[q]? <;> simp [isOpen]
      · simp [isOpen, hq]
    · show (r.dropQueue q).messages p = _
      rw [messages_dropQueue, h.messages, ← hlines]
      rfl
  | send routed =>
    rw [apply, send_eq_route r o]
    exact h.route (fun _ => rfl) rfl (fun _ => rfl) (fun _ => rfl)
  | reply i a =>
    rw [apply, reply_eq_route, h.outlet]
    exact h.route (fun _ => rfl) rfl (fun _ => rfl) (fun _ => rfl)
  | receive q => exact h.receive q

/-- All that a router holds can be told from the past. -/
theorem tracks_after (o : Outlet) (past : List Call) : Tracks o past (after o past) := by
  induction past with
  | nil => exact ⟨rfl, fun _ => rfl, rfl, fun _ => rfl, fun _ => rfl⟩
  | cons c past ih => exact ih.step c

/-! ### Queues without an identity -/

theorem made_le (c : Call) (past : List Call) : made past ≤ made (c :: past) := by
  cases c <;> simp [made]

/-- A queue has just been made for its identity, or it was that identity's before. -/
theorem seat_cases {c : Call} {i : Identity} {p : Nat} (h : seat? i (c :: past) = some p) :
    (c = .register i ∧ p = made past) ∨
      (c ≠ .register i ∧ c ≠ .unregister i ∧ seat? i past = some p) := by
  cases c with
  | register j =>
    rw [seat?] at h
    split at h
    · rename_i hj
      exact Or.inl ⟨congrArg Call.register hj, (Option.some.inj h).symm⟩
    · rename_i hj
      exact Or.inr ⟨fun hc => hj (Call.register.inj hc), nofun, h⟩
  | unregister j =>
    rw [seat?] at h
    split at h
    · cases h
    · rename_i hj
      exact Or.inr ⟨nofun, fun hc => hj (Call.unregister.inj hc), h⟩
  | _ => exact Or.inr ⟨nofun, nofun, h⟩

theorem lt_made_of_seat {i : Identity} {p : Nat} (h : seat? i past = some p) : p < made past := by
  induction past with
  | nil => cases h
  | cons c past ih =>
    rcases seat_cases h with ⟨rfl, rfl⟩ | ⟨-, -, hbefore⟩
    · exact Nat.lt_succ_self _
    · exact Nat.lt_of_lt_of_le (ih hbefore) (made_le c past)

/-- No queue belongs to two identities. -/
theorem seat_injective {i j : Identity} {p : Nat} (hi : seat? i past = some p)
    (hj : seat? j past = some p) : i = j := by
  induction past with
  | nil => cases hi
  | cons c past ih =>
    rcases seat_cases hi with ⟨hci, hpi⟩ | ⟨-, -, hi'⟩ <;>
      rcases seat_cases hj with ⟨hcj, hpj⟩ | ⟨-, -, hj'⟩
    · exact Call.register.inj (hci.symm.trans hcj)
    · exact absurd (lt_made_of_seat hj') (hpi ▸ Nat.lt_irrefl _)
    · exact absurd (lt_made_of_seat hi') (hpj ▸ Nat.lt_irrefl _)
    · exact ih hi' hj'

/-- A queue was made and belongs to no identity. -/
def Retired (p : Nat) (past : List Call) : Prop := p < made past ∧ ∀ i, seat? i past ≠ some p

/-- An identity that registers again, or is forgotten, leaves its queue. -/
theorem retired_of_seat {i : Identity} {p : Nat} (h : seat? i past = some p) {c : Call}
    (hc : c = .register i ∨ c = .unregister i) : Retired p (c :: past) := by
  have hlt := lt_made_of_seat h
  refine ⟨Nat.lt_of_lt_of_le hlt (made_le c past), fun j hj => ?_⟩
  rcases seat_cases hj with ⟨-, hnew⟩ | ⟨hregister, hunregister, hbefore⟩
  · exact Nat.ne_of_lt hlt hnew
  · obtain rfl := seat_injective h hbefore
    exact hc.elim hregister hunregister

theorem Retired.step {p : Nat} (h : Retired p past) (c : Call) : Retired p (c :: past) := by
  refine ⟨Nat.lt_of_lt_of_le h.1 (made_le c past), fun j hj => ?_⟩
  rcases seat_cases hj with ⟨-, hnew⟩ | ⟨-, -, hbefore⟩
  · exact Nat.ne_of_lt h.1 hnew
  · exact h.2 j hbefore

theorem Retired.puts_eq_nil {p : Nat} (h : Retired p past) (o : Outlet) (c : Call) :
    puts o past p c = [] := by
  unfold puts
  split
  · refine if_neg fun htaker => ?_
    exact h.2 _ (Option.filter_eq_some_iff.mp htaker).1
  · rfl

/-- Nothing is put into a queue that lost its identity. -/
theorem Retired.line_append {p : Nat} (h : Retired p past) (o : Outlet) (future : List Call) :
    line o p (future ++ past) = line o p past ∧ Retired p (future ++ past) := by
  induction future with
  | nil => exact ⟨rfl, h⟩
  | cons c future ih =>
    obtain ⟨hline, hretired⟩ := ih
    refine ⟨?_, hretired.step c⟩
    rw [List.cons_append, line, hline, hretired.puts_eq_nil, List.append_nil]

theorem taken_append {p : Nat} {future : List Call} (h : ∀ c ∈ future, c ≠ .receive p) :
    taken o p (future ++ past) = taken o p past := by
  induction future with
  | nil => rfl
  | cons c future ih =>
    have hrest := ih fun d hd => h d (List.mem_cons_of_mem c hd)
    cases c with
    | receive q =>
      have hq : q ≠ p := fun hq => h _ List.mem_cons_self (hq ▸ rfl)
      rw [List.cons_append, taken, if_neg fun hboth => hq hboth.1, hrest]
    | _ => exact hrest

/-! ### The result -/

theorem routed?_send {routed : Message} {i : Identity} :
    (Call.send routed).routed? o = some (i, m) ↔ routed = Identity.address i m := by
  rw [← Identity.split_eq_ok]
  show (Identity.split routed).toOption = some (i, m) ↔ _
  cases Identity.split routed <;> simp [Except.toOption]

theorem routed?_reply {i j : Identity} :
    (Call.reply i a).routed? o = some (j, m) ↔ i = j ∧ ∃ sent, Sends o a sent m := by
  show (outgoing o a).map (fun m => (i, m)) = some (j, m) ↔ _
  rw [← outgoing_eq_some]
  cases outgoing o a <;> simp [and_comm]

/-- What is put into a queue was sent as it is, or for an answer. -/
theorem mem_line {p : Nat} (hm : m ∈ line o p past) :
    (∃ i, Call.send (Identity.address i m) ∈ past) ∨
      ∃ i a sent, Call.reply i a ∈ past ∧ Sends o a sent m := by
  induction past with
  | nil => cases hm
  | cons c past ih =>
    rcases List.mem_append.mp hm with hbefore | hputs
    · rcases ih hbefore with ⟨i, hi⟩ | ⟨i, a, sent, hi, hsends⟩
      · exact Or.inl ⟨i, List.mem_cons_of_mem c hi⟩
      · exact Or.inr ⟨i, a, sent, List.mem_cons_of_mem c hi, hsends⟩
    · obtain ⟨i, hrouted⟩ : ∃ i, c.routed? o = some (i, m) := by
        unfold puts at hputs
        split at hputs
        · rename_i i m' hrouted
          split at hputs
          · obtain rfl := List.mem_singleton.mp hputs
            exact ⟨i, hrouted⟩
          · cases hputs
        · cases hputs
      cases c with
      | send routed =>
        obtain rfl := routed?_send.mp hrouted
        exact Or.inl ⟨i, List.mem_cons_self⟩
      | reply j a =>
        obtain ⟨-, sent, hsent⟩ := routed?_reply.mp hrouted
        exact Or.inr ⟨j, a, sent, List.mem_cons_self, hsent⟩
      | _ => cases hrouted

/-- A message that is routed is put into the queue that takes it, or nothing is done. -/
theorem Tracks.route_cases (h : Tracks o past r) (routed : Option (Identity × Message)) :
    (∃ i m p, routed = some (i, m) ∧ taker? i past = some p ∧
      r.route routed = (r.enqueue p m, true)) ∨
    ((∀ i m, routed = some (i, m) → taker? i past = none) ∧ r.route routed = (r, false)) := by
  cases routed with
  | none =>
    refine Or.inr ⟨fun i m hsent => ?_, rfl⟩
    cases hsent
  | some sent =>
    obtain ⟨i, m⟩ := sent
    have hopen := h.openQueue?_eq i
    cases htaker : taker? i past with
    | some p =>
      refine Or.inl ⟨i, m, p, rfl, htaker, ?_⟩
      rw [Router.route, deliver, hopen, htaker]
    | none =>
      refine Or.inr ⟨fun j m' hsent => ?_, ?_⟩
      · obtain ⟨rfl, -⟩ := Prod.mk.inj (Option.some.inj hsent)
        exact htaker
      · rw [Router.route, deliver, hopen, htaker]

theorem Tracks.queues_eq (h : Tracks o past r) :
    r.queues = (List.range (made past)).map fun p =>
      ⟨(line o p past).drop (taken o p past), isOpen p past⟩ := by
  refine List.ext_getElem (by simp [h.places]) fun p hp _ => ?_
  have hmessages := h.messages p
  have hopened := h.opened p
  rw [Router.messages, List.getElem?_eq_getElem hp] at hmessages
  rw [Router.opened, List.getElem?_eq_getElem hp] at hopened
  rw [List.getElem_map, List.getElem_range, ← hmessages, ← hopened]
  rfl

/--
What can be told of a router from all that was done with it. `sent` and `replied` say what a
message or an answer does: it is put at the end of the queue that takes messages for its
identity, or nothing changes.
-/
structure Mailboxes (o : Outlet) (past : List Call) (r : Router) : Prop where
  registered : ∀ i, r.writers.find? i = seat? i past
  queues : r.queues = (List.range (made past)).map fun p =>
    ⟨(line o p past).drop (taken o p past), isOpen p past⟩
  sent : ∀ routed,
    (∃ i m p, routed = Identity.address i m ∧ taker? i past = some p ∧
      r.send routed = (r.enqueue p m, true)) ∨
    ((∀ i m, routed = Identity.address i m → taker? i past = none) ∧
      r.send routed = (r, false))
  replied : ∀ i a,
    (∃ sent m p, Sends o a sent m ∧ taker? i past = some p ∧
      r.reply i a = (r.enqueue p m, true)) ∨
    ((∀ sent m, Sends o a sent m → taker? i past = none) ∧ r.reply i a = (r, false))
  framed : ∀ p, ∀ m ∈ line o p past, (∃ i, Call.send (Identity.address i m) ∈ past) ∨
    ∃ i a sent bs, Call.reply i a ∈ past ∧ Sends o a sent m ∧ Frame.encode o.limit m = .ok bs
  received : ∀ p m, (r.receive p).2 = .message m ↔
    (line o p past)[taken o p past]? = some m
  retired : ∀ i p, seat? i past = some p → ∀ c, c = .register i ∨ c = .unregister i →
    ∀ future, line o p (future ++ c :: past) = line o p past ∧
      ((∀ d ∈ future, d ≠ .receive p) →
        (after o (future ++ c :: past)).messages p = r.messages p)

/--
**A router is a set of mailboxes.** Whatever is done with it, a message goes to the end of the
queue of its identity if there is one and it is open, and else nowhere; what is sent for an
answer is the answer or the news that it was too long, and may be written as a frame; messages
leave a queue in the order in which they came; and a queue that lost its identity gets nothing
and keeps what it has.
-/
theorem mailboxes_after (o : Outlet) (past : List Call) :
    Mailboxes o past (after o past) := by
  have h := tracks_after o past
  refine ⟨h.seats, h.queues_eq, fun routed => ?_, fun i a => ?_, fun p m hm => ?_,
    fun p m => ?_, fun i p hseat c hc future => ?_⟩
  · rw [send_eq_route _ o]
    rcases h.route_cases ((Call.send routed).routed? o) with
      ⟨i, m, p, hrouted, htaker, hroute⟩ | ⟨hnone, hroute⟩
    · exact Or.inl ⟨i, m, p, routed?_send.mp hrouted, htaker, hroute⟩
    · exact Or.inr ⟨fun i m hrouted => hnone i m (routed?_send.mpr hrouted), hroute⟩
  · rw [reply_eq_route, h.outlet]
    rcases h.route_cases ((Call.reply i a).routed? o) with
      ⟨j, m, p, hrouted, htaker, hroute⟩ | ⟨hnone, hroute⟩
    · obtain ⟨rfl, sent, hsent⟩ := routed?_reply.mp hrouted
      exact Or.inl ⟨sent, m, p, hsent, htaker, hroute⟩
    · exact Or.inr ⟨fun sent m hsent => hnone i m (routed?_reply.mpr ⟨rfl, sent, hsent⟩), hroute⟩
  · refine (mem_line hm).imp_right ?_
    rintro ⟨i, a, sent, hreply, hsent⟩
    exact ⟨i, a, sent, _, hreply, hsent, hsent.framed⟩
  · rw [receive_eq_message, h.messages, ← List.head?_drop, List.head?_eq_some_iff]
  · obtain ⟨hline, -⟩ := (retired_of_seat hseat hc).line_append o future
    have hsame : line o p (c :: past) = line o p past ∧
        taken o p (c :: past) = taken o p past := by
      rcases hc with rfl | rfl <;> exact ⟨List.append_nil _, rfl⟩
    refine ⟨hline.trans hsame.1, fun hunread => ?_⟩
    rw [(tracks_after o _).messages, h.messages, hline, taken_append hunread, hsame.1, hsame.2]

end Router

namespace Sample

/-- An identity gets bars that are too long, registers again, gets a message and hangs up, and
is late for an answer. -/
def reconnected : List Router.Call :=
  [.reply (identity 1) (.failure 7 "late"), .dropQueue 1,
    .send (Identity.address (identity 1) [[1]]), .register (identity 1),
    .reply (identity 1) (.history numberedRequest [unevenBar]), .register (identity 1)]

/-- The news that the bars were too long. -/
def news : Message :=
  [Utf8.bytes "ERROR", [31, 0, 0, 0],
    Utf8.bytes "reply of 188 bytes exceeds the 100 byte frame limit"]

end Sample

namespace Router

/-- The first queue keeps the news for as long as nobody takes them, whatever is done. -/
theorem old_queue_keeps_news :
    (after { limit := 100 } Sample.reconnected).queues = [⟨[Sample.news], true⟩, ⟨[[[1]]], false⟩] ∧
    ∀ future, (∀ d ∈ future, d ≠ .receive 0) →
      (after { limit := 100 } (future ++ Sample.reconnected)).messages 0 = [Sample.news] := by
  have hnews : (after { limit := 100 } (Sample.reconnected.drop 4)).messages 0 = [Sample.news] := by
    decide +kernel
  refine ⟨by decide +kernel, fun future hunread => ?_⟩
  obtain ⟨-, hkept⟩ := (mailboxes_after { limit := 100 } (Sample.reconnected.drop 4)).retired
    (Sample.identity 1) 0 (by decide +kernel) (.register (Sample.identity 1)) (.inl rfl)
    (future ++ Sample.reconnected.take 3)
  rw [List.append_assoc] at hkept
  refine (hkept fun d hd => ?_).trans hnews
  rcases List.mem_append.mp hd with hfuture | hlate
  · exact hunread d hfuture
  · rintro rfl
    simp [Sample.reconnected] at hlate

end Router

end BarArchive
