/-
Runs of the simulator.

A broadcast is a simulator with the broker that fetches for it, the fetches that were not
answered yet, and a log of what has happened. Each operation of the simulator is one step.
The broker works for others in between, a fetch may be answered at any time and with
anything, and frequencies may fire whenever they like, so that a run, which is a list of
moves, covers every order in which things can happen.

Request ids are used again once they are free. What the log says about a request id is
therefore a list of stories, one for each subscription that was taken under it.
-/
import BarArchive.Proofs.Numbers
import BarArchive.Proofs.Seats

namespace BarArchive

/-- Something that happened, as far as subscribers are concerned. -/
inductive Occurrence where
  | joined (x : UInt32) (fetch : Option AssignedId)
  | told (e : Event)
  | cancelled (x : UInt32)
  | ended

/--
One subscription: the fetch of the feed that it joined, what it was told, and how much of
this it had been told when it was cancelled or everything ended.
-/
structure Story where
  fetch : Option AssignedId
  news : List News := []
  silenced : Option Nat := none
deriving DecidableEq

namespace Story

/-- The stories of a request id once it was told something, which concerns the latest one. -/
def tell (stories : List Story) (n : News) : List Story :=
  match stories with
  | [] => [⟨none, [n], none⟩]
  | story :: older => { story with news := story.news ++ [n] } :: older

/-- The stories of a request id whose latest subscription is to hear nothing more. -/
def hush : List Story → List Story
  | [] => []
  | story :: older =>
    { story with silenced := story.silenced.or (some story.news.length) } :: older

/-- The stories of a request id, the latest first, after one more occurrence. -/
def read (x : UInt32) (stories : List Story) : Occurrence → List Story
  | .joined y fetch => if y = x then ⟨fetch, [], none⟩ :: stories else stories
  | .told e => if e.requestId = x then tell stories e.news else stories
  | .cancelled y => if y = x then hush stories else stories
  | .ended => hush stories

/-- Events are read as what they tell the request id. -/
theorem foldl_read_told (x : UInt32) (events : List Event) : ∀ stories : List Story,
    (events.map .told).foldl (read x) stories = (heard x events).foldl tell stories := by
  induction events with
  | nil => intro stories; rfl
  | cons e events ih =>
    intro stories
    by_cases hx : e.requestId = x <;> simpa [heard, read, hx] using ih _

end Story

/--
A simulator and its broker, the fetches without an answer and with the keys of their feeds,
the answers to the others, all fetches in their order, and the log. What the broker has
given out is counted.
-/
structure Broadcast where
  simulator : Simulator := {}
  broker : Broker := {}
  issued : Nat := 0
  awaited : List (SeriesKey × AssignedId) := []
  answers : Table AssignedId (Except BrokerError Reply) := .empty
  fetches : List AssignedId := []
  log : List Occurrence := []

namespace Broadcast

/-- What can happen next; the broker may at any time have worked for others. -/
inductive Move where
  | subscribe (now : Instant) (clock : Nat) (r : Subscription)
  | cancel (x : UInt32)
  | answer (k : SeriesKey) (fetch : AssignedId) (result : Except BrokerError Reply)
  | fire (f : Frequency)
  | shutDown
  | look
  | wake (now : Nat)
  | elsewhere (n : Nat) (b : Broker)

/-- A broadcast at its beginning. -/
def start (b : Broker) : Broadcast := { broker := b }

/-- The stories of a request id, the latest first. -/
def stories (w : Broadcast) (x : UInt32) : List Story := w.log.foldl (Story.read x) []

/-- The broadcast after a subscription was taken, with the fetch if that caused one. -/
def welcome (w : Broadcast) (k : SeriesKey) (x : UInt32) (s : Simulator) (b : Broker)
    (joined : Simulator.Joined) : Broadcast :=
  { w with
    simulator := s
    broker := b
    issued := w.issued + (joined.fetch.toList.flatMap Accepted.ids).length
    awaited := joined.fetch.toList.map (fun a => (k, a.assignedId)) ++ w.awaited
    fetches := w.fetches ++ joined.fetch.toList.map (·.assignedId)
    log := w.log ++ [.joined x ((s.seat? x).map (·.fetch))] }

/-- The broadcast after a step of the simulator and what subscribers were told in it. -/
def tell (w : Broadcast) (step : Simulator × List Event) : Broadcast :=
  { w with simulator := step.1, log := w.log ++ step.2.map .told }

/-- The broadcast in which a fetch was answered, before the simulator knows. -/
def hear (w : Broadcast) (k : SeriesKey) (fetch : AssignedId) (result : Except BrokerError Reply) :
    Broadcast :=
  { w with awaited := w.awaited.erase (k, fetch), answers := w.answers.insert fetch result }

/-- The broadcast with another schedule. -/
def reschedule (w : Broadcast) (schedule : Schedule) : Broadcast :=
  { w with simulator := { w.simulator with schedule } }

/-- The broadcast after a move, if the move can happen. -/
def step? (w : Broadcast) : Move → Option Broadcast
  | .subscribe now clock r =>
    match (Simulator.fetchFor r).key?, w.simulator.subscribe w.broker now clock r with
    | some k, .ok (s, b, joined) => some (w.welcome k r.requestId s b joined)
    | _, _ => some w
  | .cancel x =>
    let (s, wasThere) := w.simulator.cancel x
    some { w with simulator := s, log := w.log ++ if wasThere then [.cancelled x] else [] }
  | .answer k fetch result =>
    if (k, fetch) ∈ w.awaited then
      some ((w.hear k fetch result).tell (w.simulator.fill k fetch result))
    else none
  | .fire f => some (w.tell (w.simulator.tick f))
  | .shutDown => some { w with simulator := w.simulator.shutDown, log := w.log ++ [.ended] }
  | .look => some (w.reschedule w.simulator.schedule.nextDeadline.1)
  | .wake now => some (w.reschedule (w.simulator.schedule.popDue now).1)
  | .elsewhere n b =>
    if b.ids = (w.broker.ids.take n).2 then some { w with broker := b, issued := w.issued + n }
    else none

/-- The broadcast after a run, if every move of it can happen. -/
def run? (w : Broadcast) : List Move → Option Broadcast
  | [] => some w
  | m :: moves => (w.step? m).bind fun w => w.run? moves

/-- What every move preserves holds at the end of a run. -/
theorem run?_induction {P : Broadcast → Prop} (hstep : ∀ v m v', P v → v.step? m = some v' → P v')
    {moves : List Move} : ∀ {w w' : Broadcast}, P w → w.run? moves = some w' → P w' := by
  induction moves with
  | nil =>
    intro w w' hw hrun
    cases hrun
    exact hw
  | cons m moves ih =>
    intro w w' hw hrun
    obtain ⟨v, hv, hrest⟩ := Option.bind_eq_some_iff.mp hrun
    exact ih (hstep w m v hw hv) hrest

/-! ### What a move makes of a broadcast -/

/-- What each move makes of a broadcast, if it can happen. -/
inductive Makes (w : Broadcast) : Move → Broadcast → Prop
  | joined {now clock r k s b joined} (key : (Simulator.fetchFor r).key? = some k)
      (taken : w.simulator.subscribe w.broker now clock r = .ok (s, b, joined)) :
      Makes w (.subscribe now clock r) (w.welcome k r.requestId s b joined)
  | declined {now clock r} : Makes w (.subscribe now clock r) w
  | cancelled {x} : Makes w (.cancel x) { w with
      simulator := (w.simulator.cancel x).1
      log := w.log ++ if (w.simulator.cancel x).2 then [.cancelled x] else [] }
  | answered {k fetch result} (awaited : (k, fetch) ∈ w.awaited) :
      Makes w (.answer k fetch result)
        ((w.hear k fetch result).tell (w.simulator.fill k fetch result))
  | fired {f} : Makes w (.fire f) (w.tell (w.simulator.tick f))
  | ended : Makes w .shutDown
      { w with simulator := w.simulator.shutDown, log := w.log ++ [.ended] }
  | looked : Makes w .look (w.reschedule w.simulator.schedule.nextDeadline.1)
  | woken {now} : Makes w (.wake now) (w.reschedule (w.simulator.schedule.popDue now).1)
  | elsewhere {n b} (ids : b.ids = (w.broker.ids.take n).2) :
      Makes w (.elsewhere n b) { w with broker := b, issued := w.issued + n }

theorem makes_of_step {w w' : Broadcast} {m : Move} (h : w.step? m = some w') : w.Makes m w' := by
  cases m with
  | subscribe now clock r =>
    simp only [step?] at h
    split at h
    · rename_i k s b joined hkey htaken
      cases h
      exact .joined hkey htaken
    · cases h
      exact .declined
  | cancel x =>
    cases h
    exact .cancelled
  | answer k fetch result =>
    simp only [step?] at h
    split at h
    · rename_i hawaited
      cases h
      exact .answered hawaited
    · cases h
  | fire f =>
    cases h
    exact .fired
  | shutDown =>
    cases h
    exact .ended
  | look =>
    cases h
    exact .looked
  | wake now =>
    cases h
    exact .woken
  | elsewhere n b =>
    simp only [step?] at h
    split at h
    · rename_i hids
      cases h
      exact .elsewhere hids
    · cases h

/-! ### The numbers of fetches -/

/-- A move adds fetches at the end. -/
theorem fetches_step {w w' : Broadcast} {m : Move} (h : w.step? m = some w') :
    w.fetches <+: w'.fetches := by
  cases makes_of_step h with
  | joined => exact List.prefix_append _ _
  | _ => exact List.prefix_refl _

/-- The fetches of a run have numbers that the broker has given out one after the other. -/
theorem fetches_of_run {b : Broker} {moves : List Move} {w : Broadcast}
    (hrun : (start b).run? moves = some w) :
    w.broker.ids = (b.ids.take w.issued).2 ∧ w.fetches.Sublist (b.ids.take w.issued).1 := by
  refine run?_induction (P := fun w => w.broker.ids = (b.ids.take w.issued).2 ∧
    w.fetches.Sublist (b.ids.take w.issued).1) ?_ ⟨rfl, List.nil_sublist _⟩ hrun
  intro v m v' ⟨hids, hfetches⟩ hstep
  -- more numbers are given out, and a fetch has the first of them
  have hmore : ∀ (n : Nat) (given : List AssignedId) (ids : Allocator),
      (given, ids) = v.broker.ids.take n → ids = (b.ids.take (v.issued + n)).2 ∧
        ∀ taken, taken.Sublist given →
          (v.fetches ++ taken).Sublist (b.ids.take (v.issued + n)).1 := by
    intro n given ids hgiven
    rw [Allocator.take_add, ← hids, ← hgiven]
    exact ⟨rfl, fun taken htaken => hfetches.append htaken⟩
  cases makes_of_step hstep with
  | @joined now clock r k s b' joined hkey htaken =>
    obtain ⟨j, feed, schedule, -, -, -, -, -, -, hfetch⟩ := Simulator.subscribe_cases htaken
    rcases hfetch with ⟨a, -, hsubmit, hfetch, -⟩ | ⟨-, hbroker, hfetch⟩
    · obtain ⟨n, hn⟩ := World.admission_ids (Broker.submit_cases hsubmit)
      have hlength : a.ids.length = n :=
        (congrArg (·.1.length) hn).trans (Allocator.length_take n v.broker.ids)
      obtain ⟨hafter, hsublist⟩ := hmore n a.ids b'.ids hn
      have hfirst : [a.assignedId].Sublist a.ids := List.singleton_sublist.mpr List.mem_cons_self
      exact ⟨by simpa [welcome, hfetch, hlength] using hafter,
        by simpa [welcome, hfetch, hlength] using hsublist _ hfirst⟩
    · simpa [welcome, hfetch, hbroker] using ⟨hids, hfetches⟩
  | @elsewhere n b' hother =>
    obtain ⟨hafter, hsublist⟩ := hmore n _ b'.ids (Prod.ext rfl hother)
    exact ⟨hafter, by simpa using hsublist [] (List.nil_sublist _)⟩
  | _ => exact ⟨hids, hfetches⟩

/-- Fetches have different numbers as long as the broker has given out at most all words. -/
theorem nodup_of_issued {b : Broker} {moves : List Move} {w : Broadcast}
    (hrun : (start b).run? moves = some w) (hissued : w.issued ≤ 2 ^ 64) : w.fetches.Nodup :=
  (Allocator.nodup_take hissued b.ids).sublist (fetches_of_run hrun).2

end Broadcast

end BarArchive
