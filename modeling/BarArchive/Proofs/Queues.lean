/-
What the router does to queues.

Two things can be seen of a router: the messages in each queue, and the queue that takes
messages for each identity, if one does. Every operation is described by what it does to
these two, and none of them needs to be looked into again.
-/
import BarArchive.Server.Router

namespace BarArchive

namespace Router

variable {r : Router}

/-- The messages in the queue at a place. -/
def messages (r : Router) (p : Nat) : List Message := ((r.queues[p]?).map (·.messages)).getD []

theorem openQueue?_eq_some {i : Identity} {p : Nat} : r.openQueue? i = some p ↔
    r.writers.find? i = some p ∧ ∃ q, r.queues[p]? = some q ∧ q.isOpen = true := by
  unfold openQueue?
  rw [Option.filter_eq_some_iff]
  refine and_congr_right fun _ => ?_
  cases r.queues[p]? <;> simp

/-! ### Coming and going -/

theorem messages_register (r : Router) (i : Identity) (p : Nat) :
    (r.register i).1.messages p = r.messages p := by
  show (((r.queues ++ [({} : Queue)])[p]?).map Queue.messages).getD [] = _
  by_cases hp : p < r.queues.length
  · rw [List.getElem?_append_left hp]
    rfl
  · have hnone : r.queues[p]? = none := List.getElem?_eq_none (Nat.le_of_not_lt hp)
    rw [List.getElem?_append_right (Nat.le_of_not_lt hp), messages, hnone]
    cases p - r.queues.length <;> rfl

/-- A new queue belongs to the identity that it was made for. -/
theorem openQueue?_register (hplaces : ∀ j p, r.writers.find? j = some p → p < r.queues.length)
    (i j : Identity) : (r.register i).1.openQueue? j
      = if j = i then some r.queues.length else r.openQueue? j := by
  have hwriters : (r.register i).1.writers.find? j
      = if i = j then some r.queues.length else r.writers.find? j := Table.find?_insert _ _ _ _
  unfold openQueue?
  rw [hwriters]
  by_cases hj : j = i
  · simp [hj, register, Option.filter]
  · rw [if_neg (Ne.symm hj), if_neg hj]
    cases hp : r.writers.find? j with
    | none => rfl
    | some p => simp [register, Option.filter, List.getElem?_append_left (hplaces j p hp)]

theorem openQueue?_unregister (r : Router) (i j : Identity) :
    (r.unregister i).openQueue? j = if j = i then none else r.openQueue? j := by
  unfold openQueue? unregister
  rw [Table.find?_erase]
  by_cases hj : j = i
  · simp [hj]
  · simp [hj, Ne.symm hj]

/-! ### One queue -/

/-- The router with a change to the queue at a place. -/
def change (r : Router) (p : Nat) (g : Queue → Queue) : Router :=
  { r with queues := r.queues.modify p g }

theorem messages_change (r : Router) (p : Nat) (g : Queue → Queue) (q : Nat) :
    (r.change p g).messages q = if p = q then ((r.queues[q]?).map fun queue => (g queue).messages).getD []
      else r.messages q := by
  unfold messages change
  rw [List.getElem?_modify]
  by_cases hq : p = q
  · simp [hq, Function.comp_def]
  · simp [hq]

/-- What happens to messages does not change who takes them. -/
theorem openQueue?_change (r : Router) (p : Nat) {g : Queue → Queue}
    (hg : ∀ queue, (g queue).isOpen = queue.isOpen) (i : Identity) :
    (r.change p g).openQueue? i = r.openQueue? i := by
  unfold openQueue? change
  congr 1
  funext place
  rw [List.getElem?_modify]
  cases r.queues[place]? with
  | none => rfl
  | some queue => by_cases hplace : p = place <;> simp [hplace, hg]

theorem messages_dropQueue (r : Router) (p q : Nat) :
    (r.dropQueue p).messages q = r.messages q := by
  refine (messages_change r p (fun queue => { queue with isOpen := false }) q).trans ?_
  split
  · rfl
  · rfl

/-- A queue that nobody reads takes no more messages. -/
theorem openQueue?_dropQueue {p q : Nat} {i : Identity}
    (h : (r.dropQueue p).openQueue? i = some q) : r.openQueue? i = some q := by
  obtain ⟨hwriter, queue, hqueue, hopen⟩ := openQueue?_eq_some.mp h
  change (r.queues.modify p _)[q]? = some queue at hqueue
  rw [List.getElem?_modify] at hqueue
  obtain ⟨before, hbefore, rfl⟩ := Option.map_eq_some_iff.mp hqueue
  refine openQueue?_eq_some.mpr ⟨hwriter, before, hbefore, ?_⟩
  split at hopen
  · cases hopen
  · exact hopen

/-- The message in front leaves its queue; one that is not there leaves everything as it is. -/
theorem receive_cases (r : Router) (p : Nat) :
    (∃ m rest, r.messages p = m :: rest ∧
      r.receive p = (r.change p fun queue => { queue with messages := rest }, .message m)) ∨
    (∀ m, (r.receive p).2 ≠ .message m) ∧ (r.receive p).1 = r := by
  unfold receive
  split
  · rename_i m rest _ hqueue
    exact Or.inl ⟨m, rest, by rw [messages, hqueue]; rfl, rfl⟩
  · right
    refine ⟨fun m => ?_, rfl⟩
    split <;> simp

theorem exists_queue_of_messages {p : Nat} {m : Message} {rest : List Message}
    (h : r.messages p = m :: rest) : ∃ queue, r.queues[p]? = some queue := by
  refine Option.ne_none_iff_exists'.mp fun hqueue => ?_
  simp [messages, hqueue] at h

theorem receive_eq_message {p : Nat} {m : Message} :
    (r.receive p).2 = .message m ↔ ∃ rest, r.messages p = m :: rest := by
  constructor
  · intro h
    rcases r.receive_cases p with ⟨_, rest, hfront, hreceive⟩ | ⟨hnone, -⟩
    · rw [hreceive] at h
      obtain rfl := Received.message.inj h
      exact ⟨rest, hfront⟩
    · exact absurd h (hnone m)
  · rintro ⟨rest, hfront⟩
    obtain ⟨⟨waiting, _⟩, hqueue⟩ := exists_queue_of_messages hfront
    rw [messages, hqueue] at hfront
    obtain rfl : waiting = m :: rest := hfront
    rw [receive, hqueue]

theorem messages_receive (r : Router) (p q : Nat) :
    (r.receive p).1.messages q = if p = q then (r.messages q).tail else r.messages q := by
  rcases r.receive_cases p with ⟨m, rest, hfront, hreceive⟩ | ⟨hnone, hsame⟩
  · obtain ⟨queue, hqueue⟩ := exists_queue_of_messages hfront
    rw [hreceive, messages_change]
    by_cases hp : p = q
    · subst hp
      simp [hqueue, hfront]
    · rw [if_neg hp, if_neg hp]
  · have hempty : r.messages p = [] := by
      cases hmessages : r.messages p with
      | nil => rfl
      | cons m rest => exact absurd (receive_eq_message.mpr ⟨rest, hmessages⟩) (hnone m)
    rw [hsame]
    by_cases hp : p = q
    · subst hp
      rw [if_pos rfl, hempty, List.tail_nil]
    · rw [if_neg hp]

/-! ### Sending -/

/-- Some messages were put at the end of queues, and nothing else was done. -/
structure Puts (r r' : Router) (more : Nat → List Message) : Prop where
  outlet : r'.toOutlet = r.toOutlet
  writers : r'.writers = r.writers
  places : r'.queues.length = r.queues.length
  openQueue : ∀ i, r'.openQueue? i = r.openQueue? i
  messages : ∀ p, r'.messages p = r.messages p ++ more p

theorem puts_nothing (r : Router) {more : Nat → List Message} (h : ∀ p, more p = []) :
    r.Puts r more where
  outlet := rfl
  writers := rfl
  places := rfl
  openQueue := fun _ => rfl
  messages := fun p => by rw [h, List.append_nil]

/-- A message goes into the queue of its identity, if that is open. -/
theorem puts_deliver (r : Router) (i : Identity) (m : Message) :
    r.Puts (r.deliver i m).1 fun p => if r.openQueue? i = some p then [m] else [] := by
  unfold deliver
  cases hopen : r.openQueue? i with
  | none => exact r.puts_nothing fun p => by simp
  | some place =>
    obtain ⟨-, queue, hqueue, -⟩ := openQueue?_eq_some.mp hopen
    show r.Puts (r.change place fun queue => { queue with messages := queue.messages ++ [m] }) _
    refine ⟨rfl, rfl, List.length_modify _ _ _, fun j => ?_, fun p => ?_⟩
    · refine r.openQueue?_change place ?_ j
      exact fun _ => rfl
    · rw [messages_change]
      by_cases hp : place = p
      · subst hp
        simp [messages, hqueue]
      · simp [hp]

/-- An answer puts what is sent for it into the queue of its identity, if that is open. -/
theorem puts_reply (r : Router) (i : Identity) (a : Response) : r.Puts (r.reply i a).1 fun p =>
    if r.openQueue? i = some p then (outgoing r.toOutlet a).toList else [] := by
  unfold reply
  cases hout : outgoing r.toOutlet a with
  | none => exact r.puts_nothing fun p => by simp
  | some m => exact r.puts_deliver i m

end Router

end BarArchive
