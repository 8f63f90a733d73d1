/-
The simulator's tables agree.

What the simulator knows is spread over three tables: the feeds with their subscribers, the
index from request ids to keys, and the schedule with the frequencies that fire. Four
operations let subscribers go, and each has to change all three. Here the agreement of the
tables is one structure, and every operation is shown to keep it.

What the simulator holds for one request id is its seat. Once the tables agree, an operation
is described by what it does to each seat and by what it tells whoever sits there, and
nothing about runs of the simulator needs to look into the tables again.
-/
import BarArchive.Replay.Simulator

namespace BarArchive

/-- Where a subscriber of a feed may be: at the start without bars, and among them otherwise. -/
def Subscriber.InPlace (x : Subscriber) : Option (List Bar) → Prop
  | none => x.state = .awaitingFill ∧ x.position = 0
  | some bars => x.state = .streaming ∧ x.position ≤ bars.length

theorem Feed.newcomer_inPlace (feed : Feed) : feed.newcomer.InPlace feed.bars := by
  cases hbars : feed.bars with
  | none => simp [Feed.newcomer, Subscriber.InPlace, hbars]
  | some bars => simp [Feed.newcomer, Subscriber.InPlace, hbars]

namespace Simulator

/-- The request id is a subscriber of the feed under the key. -/
def Subscribes (s : Simulator) (x : UInt32) (k : SeriesKey) : Prop :=
  ∃ feed, s.feeds.find? k = some feed ∧ feed.subscribers.contains x = true

/-- Feeds and index agree, and every subscriber is in its place. -/
structure Tidy (s : Simulator) : Prop where
  feeds : s.feeds.Distinct
  subscribers : ∀ {k feed}, s.feeds.find? k = some feed → feed.subscribers.Distinct
  index : ∀ x k, s.index.find? x = some k ↔ s.Subscribes x k
  places : ∀ {k feed x subscriber}, s.feeds.find? k = some feed →
    feed.subscribers.find? x = some subscriber → subscriber.InPlace feed.bars

/--
All tables of the simulator agree: also no feed is without subscribers, and the
frequencies that fire are those of the feeds.
-/
structure Consistent (s : Simulator) : Prop extends s.Tidy where
  inhabited : ∀ {k feed}, s.feeds.find? k = some feed → ∃ x, feed.subscribers.contains x = true
  scheduled : ∀ f, s.schedule.isActive f = true ↔
    ∃ k feed, s.feeds.find? k = some feed ∧ k.frequency = f

theorem isUsed_iff {s : Simulator} {f : Frequency} :
    s.isUsed f = true ↔ ∃ k feed, s.feeds.find? k = some feed ∧ k.frequency = f := by
  simp only [isUsed, List.any_eq_true, Table.mem_keys, Table.contains_iff, beq_iff_eq]
  constructor
  · rintro ⟨k, ⟨feed, hfeed⟩, hk⟩
    exact ⟨k, feed, hfeed, hk⟩
  · rintro ⟨k, feed, hfeed, hk⟩
    exact ⟨k, ⟨feed, hfeed⟩, hk⟩

/-- A request id is a subscriber of at most one feed. -/
theorem Tidy.subscribes_unique {s : Simulator} (h : s.Tidy) {x : UInt32} {j k : SeriesKey}
    (hj : s.Subscribes x j) (hk : s.Subscribes x k) : j = k :=
  Option.some.inj (((h.index x j).mpr hj).symm.trans ((h.index x k).mpr hk))

theorem consistent_empty {s : Simulator} (hfeeds : s.feeds = .empty) (hindex : s.index = .empty)
    (hschedule : ∀ f, s.schedule.isActive f = false) : s.Consistent where
  feeds := hfeeds ▸ Table.distinct_empty
  subscribers := fun hfeed => by simp [hfeeds] at hfeed
  index := fun x k => by simp [Subscribes, hfeeds, hindex]
  places := fun hfeed => by simp [hfeeds] at hfeed
  inhabited := fun hfeed => by simp [hfeeds] at hfeed
  scheduled := fun f => by simp [hfeeds, hschedule]

end Simulator

/-! ### Seats -/

/-- What the simulator holds for one request id: the feed that it reads, and how far it has come. -/
structure Seat where
  key : SeriesKey
  fetch : AssignedId
  bars : Option (List Bar)
  subscriber : Subscriber

namespace Seat

/-- What a subscriber is told when a frequency fires, and the subscriber after it. -/
def next? (t : Seat) (f : Frequency) : Option (News × Subscriber) :=
  if t.key.frequency = f then t.bars.bind t.subscriber.next else none

/-- A firing moves a seat on and tells its holder; whoever has no more bars leaves it. -/
def fired (t : Seat) (f : Frequency) : Option Seat × List News :=
  match t.next? f with
  | none => (some t, [])
  | some (n, subscriber) => (if n = .exhausted then none else some { t with subscriber }, [n])

/-- The seat once the bars of its feed have come. -/
def filled (t : Seat) (bars : List Bar) : Seat :=
  { t with bars := some bars, subscriber := { t.subscriber with state := .streaming } }

/-- The answer to a fetch fills the seats that wait for it, or empties them. -/
def answered (t : Seat) (k : SeriesKey) (fetch : AssignedId) (result : Except BrokerError Reply) :
    Option Seat × List News :=
  if t.key = k ∧ t.fetch = fetch then
    match result with
    | .ok reply => (some (t.filled reply.bars), [])
    | .error e => (none, [.failed e.message])
  else (some t, [])

end Seat

/-- What events tell a request id. -/
def heard (x : UInt32) (events : List Event) : List News :=
  events.filterMap fun e => if e.requestId = x then some e.news else none

theorem mem_heard {x : UInt32} {n : News} {events : List Event} :
    n ∈ heard x events ↔ ⟨x, n⟩ ∈ events := by
  unfold heard
  rw [List.mem_filterMap]
  constructor
  · rintro ⟨⟨id, m⟩, he, hx⟩
    split at hx
    · rename_i hid
      cases hx
      exact hid ▸ he
    · cases hx
  · intro he
    exact ⟨⟨x, n⟩, he, by simp⟩

theorem length_heard (x : UInt32) (events : List Event) :
    (heard x events).length = (events.map (·.requestId)).count x := by
  induction events with
  | nil => rfl
  | cons e events ih => by_cases hx : e.requestId = x <;> simpa [heard, hx] using ih

/-- News for different request ids reaches each of them once. -/
theorem heard_map_mk {ids : List UInt32} (h : ids.Nodup) (x : UInt32) (n : News) :
    heard x (ids.map fun id => ⟨id, n⟩) = if x ∈ ids then [n] else [] := by
  induction ids with
  | nil => rfl
  | cons id ids ih =>
    obtain ⟨hnew, hrest⟩ := List.nodup_cons.mp h
    have ih := ih hrest
    by_cases hx : id = x
    · subst hx
      simpa [heard, hnew] using ih
    · simpa [heard, hx, Ne.symm hx] using ih

namespace Simulator

/-- The seat of a request id. -/
def seat? (s : Simulator) (x : UInt32) : Option Seat := do
  let k ← s.index.find? x
  let feed ← s.feeds.find? k
  let subscriber ← feed.subscribers.find? x
  return ⟨k, feed.fetch, feed.bars, subscriber⟩

theorem seat?_eq_some {s : Simulator} {x : UInt32} {t : Seat} :
    s.seat? x = some t ↔ ∃ feed, s.index.find? x = some t.key ∧ s.feeds.find? t.key = some feed ∧
      feed.subscribers.find? x = some t.subscriber ∧ feed.fetch = t.fetch ∧ feed.bars = t.bars := by
  obtain ⟨k, fetch, bars, subscriber⟩ := t
  simp only [seat?, bind, pure, Option.bind_eq_some_iff, Option.some.injEq, Seat.mk.injEq]
  constructor
  · rintro ⟨_, hindex, feed, hfeed, _, hsubscriber, rfl, hfetch, hbars, rfl⟩
    exact ⟨feed, hindex, hfeed, hsubscriber, hfetch, hbars⟩
  · rintro ⟨feed, hindex, hfeed, hsubscriber, hfetch, hbars⟩
    exact ⟨k, hindex, feed, hfeed, subscriber, hsubscriber, rfl, hfetch, hbars, rfl⟩

/-- A subscriber has a seat in its feed. -/
theorem Tidy.seat?_of_find? {s : Simulator} (h : s.Tidy) {x : UInt32} {k : SeriesKey} {feed : Feed}
    {subscriber : Subscriber} (hfeed : s.feeds.find? k = some feed)
    (hsubscriber : feed.subscribers.find? x = some subscriber) :
    s.seat? x = some ⟨k, feed.fetch, feed.bars, subscriber⟩ :=
  seat?_eq_some.mpr ⟨feed, (h.index x k).mpr ⟨feed, hfeed, Table.contains_iff.mpr ⟨_, hsubscriber⟩⟩,
    hfeed, hsubscriber, rfl, rfl⟩

/-- Whoever is in the index has a seat. -/
theorem Tidy.seat?_of_index {s : Simulator} (h : s.Tidy) {x : UInt32} {k : SeriesKey}
    (hx : s.index.find? x = some k) : ∃ t, s.seat? x = some t ∧ t.key = k := by
  obtain ⟨feed, hfeed, hcontains⟩ := (h.index x k).mp hx
  obtain ⟨subscriber, hsubscriber⟩ := Table.contains_iff.mp hcontains
  exact ⟨_, h.seat?_of_find? hfeed hsubscriber, rfl⟩

theorem Tidy.seat?_eq_none {s : Simulator} (h : s.Tidy) {x : UInt32} :
    s.seat? x = none ↔ s.index.find? x = none := by
  constructor
  · intro hseat
    refine Option.eq_none_iff_forall_ne_some.mpr fun k hk => ?_
    obtain ⟨t, ht, -⟩ := h.seat?_of_index hk
    cases hseat.symm.trans ht
  · intro hindex
    simp [seat?, hindex]

/-- The subscribers of a feed are those who sit in it. -/
theorem Tidy.mem_subscribers {s : Simulator} (h : s.Tidy) {x : UInt32} {k : SeriesKey} {feed : Feed}
    (hfeed : s.feeds.find? k = some feed) :
    x ∈ feed.subscribers.keys ↔ ∃ t, s.seat? x = some t ∧ t.key = k := by
  rw [Table.mem_keys]
  constructor
  · exact fun hx => h.seat?_of_index ((h.index x k).mpr ⟨feed, hfeed, hx⟩)
  · rintro ⟨t, ht, rfl⟩
    obtain ⟨feed', -, hfeed', hsubscriber, -, -⟩ := seat?_eq_some.mp ht
    obtain rfl := Option.some.inj (hfeed.symm.trans hfeed')
    exact Table.contains_iff.mpr ⟨_, hsubscriber⟩

theorem Tidy.seat_inPlace {s : Simulator} (h : s.Tidy) {x : UInt32} {t : Seat}
    (ht : s.seat? x = some t) : t.subscriber.InPlace t.bars := by
  obtain ⟨feed, -, hfeed, hsubscriber, -, hbars⟩ := seat?_eq_some.mp ht
  exact hbars ▸ h.places hfeed hsubscriber

theorem state?_eq (s : Simulator) (x : UInt32) :
    s.state? x = (s.seat? x).map (·.subscriber.state) := by
  simp only [state?, seat?, bind, pure]
  cases s.index.find? x with
  | none => rfl
  | some k =>
    simp only [Option.bind_some]
    cases s.feeds.find? k with
    | none => rfl
    | some feed =>
      simp only [Option.bind_some]
      cases feed.subscribers.find? x <;> rfl

/-! ### Feeds that change without their subscribers -/

section Changed

variable {s s' : Simulator} {g : SeriesKey → Feed → Feed}

/-- The feeds may change as long as each keeps its subscribers, and they keep their places. -/
theorem Consistent.changed (h : s.Consistent) (hdistinct : s'.feeds.Distinct)
    (hfeeds : ∀ k, s'.feeds.find? k = (s.feeds.find? k).map (g k)) (hindex : s'.index = s.index)
    (hschedule : ∀ f, s'.schedule.isActive f = s.schedule.isActive f)
    (hsubscribers : ∀ k feed, s.feeds.find? k = some feed → (g k feed).subscribers.Distinct ∧
      ∀ x, (g k feed).subscribers.contains x = feed.subscribers.contains x)
    (hplaces : ∀ k feed x subscriber, s.feeds.find? k = some feed →
      (g k feed).subscribers.find? x = some subscriber → subscriber.InPlace (g k feed).bars) :
    s'.Consistent := by
  have hback : ∀ {k feed'}, s'.feeds.find? k = some feed' →
      ∃ feed, s.feeds.find? k = some feed ∧ g k feed = feed' := fun {k feed'} hfeed' =>
    Option.map_eq_some_iff.mp ((hfeeds k).symm.trans hfeed')
  constructor
  · constructor
    · exact hdistinct
    · intro k feed' hfeed'
      obtain ⟨feed, hfeed, rfl⟩ := hback hfeed'
      exact (hsubscribers k feed hfeed).1
    · intro x k
      rw [hindex, h.index]
      constructor
      · rintro ⟨feed, hfeed, hx⟩
        exact ⟨g k feed, by rw [hfeeds, hfeed]; rfl, ((hsubscribers k feed hfeed).2 x).trans hx⟩
      · rintro ⟨feed', hfeed', hx⟩
        obtain ⟨feed, hfeed, rfl⟩ := hback hfeed'
        exact ⟨feed, hfeed, ((hsubscribers k feed hfeed).2 x).symm.trans hx⟩
    · intro k feed' x subscriber hfeed' hsubscriber
      obtain ⟨feed, hfeed, rfl⟩ := hback hfeed'
      exact hplaces k feed x subscriber hfeed hsubscriber
  · intro k feed' hfeed'
    obtain ⟨feed, hfeed, rfl⟩ := hback hfeed'
    obtain ⟨x, hx⟩ := h.inhabited hfeed
    exact ⟨x, ((hsubscribers k feed hfeed).2 x).trans hx⟩
  · intro f
    rw [hschedule, h.scheduled]
    constructor
    · rintro ⟨k, feed, hfeed, hk⟩
      exact ⟨k, g k feed, by rw [hfeeds, hfeed]; rfl, hk⟩
    · rintro ⟨k, feed', hfeed', hk⟩
      obtain ⟨feed, hfeed, -⟩ := hback hfeed'
      exact ⟨k, feed, hfeed, hk⟩

/-- A seat changes as its feed and its subscriber in it do. -/
theorem seat?_changed (s' : Simulator) {p : Seat → Seat}
    (hfeeds : ∀ k, s'.feeds.find? k = (s.feeds.find? k).map (g k)) (hindex : s'.index = s.index)
    {x : UInt32} (hp : ∀ k feed, s.feeds.find? k = some feed →
      (g k feed).subscribers.find? x = (feed.subscribers.find? x).map fun subscriber =>
        (p ⟨k, feed.fetch, feed.bars, subscriber⟩).subscriber)
    (hself : ∀ k feed subscriber, s.feeds.find? k = some feed →
      feed.subscribers.find? x = some subscriber → p ⟨k, feed.fetch, feed.bars, subscriber⟩
        = ⟨k, (g k feed).fetch, (g k feed).bars,
          (p ⟨k, feed.fetch, feed.bars, subscriber⟩).subscriber⟩) :
    s'.seat? x = (s.seat? x).map p := by
  simp only [seat?, bind, pure, hindex, hfeeds]
  cases s.index.find? x with
  | none => rfl
  | some k =>
    simp only [Option.bind_some]
    cases hfeed : s.feeds.find? k with
    | none => rfl
    | some feed =>
      simp only [Option.map_some, Option.bind_some, hp k feed hfeed]
      cases hsubscriber : feed.subscribers.find? x with
      | none => rfl
      | some subscriber =>
        simp only [Option.map_some, Option.bind_some]
        rw [hself k feed subscriber hfeed hsubscriber]

end Changed

/-! ### Leaving -/

/-- The simulator without the feed of a key if nobody reads it; its frequency still fires. -/
def dropIfEmpty (s : Simulator) (k : SeriesKey) : Simulator :=
  match s.feeds.find? k with
  | some feed => if feed.subscribers.isEmpty then { s with feeds := s.feeds.erase k } else s
  | none => s

/-- Whether its frequency fires on has no influence on the other tables. -/
theorem removeIfEmpty_tables (s : Simulator) (k : SeriesKey) :
    (s.removeIfEmpty k).feeds = (s.dropIfEmpty k).feeds ∧ (s.removeIfEmpty k).index = s.index := by
  have hindex : (s.dropIfEmpty k).index = s.index := by
    unfold dropIfEmpty
    split
    · split <;> rfl
    · rfl
  unfold removeIfEmpty
  change (if (s.dropIfEmpty k).isUsed k.frequency then s.dropIfEmpty k else _).feeds = _ ∧
    (if (s.dropIfEmpty k).isUsed k.frequency then s.dropIfEmpty k else _).index = _
  split
  · exact ⟨rfl, hindex⟩
  · exact ⟨rfl, hindex⟩

theorem feeds_removeIfEmpty (s : Simulator) (k j : SeriesKey) :
    (s.removeIfEmpty k).feeds.find? j = if k = j then
        (s.feeds.find? j).filter fun feed => !feed.subscribers.isEmpty
      else s.feeds.find? j := by
  rw [(removeIfEmpty_tables s k).1, dropIfEmpty]
  by_cases hj : k = j
  · subst hj
    cases hfeed : s.feeds.find? k with
    | none => simp [hfeed]
    | some feed =>
      cases hempty : feed.subscribers.isEmpty with
      | true => simp [hempty, Table.find?_erase, Option.filter]
      | false => simp [hempty, hfeed, Option.filter]
  · rw [if_neg hj]
    split
    · split
      · simp [Table.find?_erase, hj]
      · rfl
    · rfl

theorem distinct_removeIfEmpty {s : Simulator} (h : s.feeds.Distinct) (k : SeriesKey) :
    (s.removeIfEmpty k).feeds.Distinct := by
  rw [(removeIfEmpty_tables s k).1, dropIfEmpty]
  split
  · split
    · exact h.erase k
    · exact h
  · exact h

/-- After a feed may have been removed, its frequency fires only as long as it is used. -/
theorem isActive_removeIfEmpty (s : Simulator) (k : SeriesKey) (f : Frequency) :
    (s.removeIfEmpty k).schedule.isActive f = (s.schedule.isActive f &&
      (decide (f ≠ k.frequency) || (s.removeIfEmpty k).isUsed k.frequency)) := by
  have hlast : ∀ s : Simulator, (if s.isUsed k.frequency then s else
      { s with schedule := (s.schedule.deactivate k.frequency).1 }).schedule.isActive f
        = (s.schedule.isActive f && (decide (f ≠ k.frequency) ||
          (if s.isUsed k.frequency then s else
            { s with schedule := (s.schedule.deactivate k.frequency).1 }).isUsed k.frequency)) := by
    intro s
    cases hused : s.isUsed k.frequency with
    | true => simp [hused]
    | false =>
      have hsame : ({ s with schedule := (s.schedule.deactivate k.frequency).1 } : Simulator).isUsed
          k.frequency = false := hused
      simp [hsame, Schedule.isActive_deactivate, Bool.and_comm]
  unfold removeIfEmpty
  rw [hlast]
  split
  · split <;> rfl
  · rfl

section Removed

variable {s : Simulator} {k : SeriesKey}

/-- Removing a feed that nobody reads brings order back if nothing else is out of order. -/
theorem Tidy.removeIfEmpty (h : s.Tidy) (hinhabited : ∀ {j feed}, j ≠ k →
      s.feeds.find? j = some feed → ∃ x, feed.subscribers.contains x = true)
    (hscheduled : ∀ f, s.schedule.isActive f = true ↔
      ∃ j feed, s.feeds.find? j = some feed ∧ j.frequency = f) :
    (s.removeIfEmpty k).Consistent := by
  have hback : ∀ {j feed}, (s.removeIfEmpty k).feeds.find? j = some feed →
      s.feeds.find? j = some feed ∧ (j = k → feed.subscribers.isEmpty = false) := by
    intro j feed hfeed
    rw [feeds_removeIfEmpty] at hfeed
    split at hfeed
    · obtain ⟨hfeed, hempty⟩ := Option.filter_eq_some_iff.mp hfeed
      exact ⟨hfeed, fun _ => by simpa using hempty⟩
    · rename_i hj
      exact ⟨hfeed, fun heq => absurd heq.symm hj⟩
  have hthere : ∀ {j feed}, s.feeds.find? j = some feed → feed.subscribers.isEmpty = false →
      (s.removeIfEmpty k).feeds.find? j = some feed := by
    intro j feed hfeed hempty
    rw [feeds_removeIfEmpty, hfeed]
    simp [hempty]
  have hsome : ∀ {feed : Feed}, feed.subscribers.isEmpty = false ↔
      ∃ x, feed.subscribers.contains x = true := by
    intro feed
    rw [← Bool.not_eq_true, Table.isEmpty_iff]
    simp
  constructor
  · constructor
    · exact distinct_removeIfEmpty h.feeds k
    · exact fun hfeed => h.subscribers (hback hfeed).1
    · intro x j
      rw [(removeIfEmpty_tables s k).2, h.index]
      constructor
      · rintro ⟨feed, hfeed, hx⟩
        exact ⟨feed, hthere hfeed (hsome.mpr ⟨x, hx⟩), hx⟩
      · rintro ⟨feed, hfeed, hx⟩
        exact ⟨feed, (hback hfeed).1, hx⟩
    · exact fun hfeed => h.places (hback hfeed).1
  · intro j feed hfeed
    by_cases hj : j = k
    · exact hsome.mp ((hback hfeed).2 hj)
    · exact hinhabited hj (hback hfeed).1
  · intro f
    rw [isActive_removeIfEmpty, Bool.and_eq_true, Bool.or_eq_true, decide_eq_true_eq, isUsed_iff,
      hscheduled]
    constructor
    · rintro ⟨⟨j, feed, hfeed, hj⟩, hkept⟩
      by_cases hf : f = k.frequency
      · obtain ⟨i, feed', hfeed', hi⟩ := hkept.resolve_left (not_not_intro hf)
        exact ⟨i, feed', hfeed', hi.trans hf.symm⟩
      · have hjk : j ≠ k := fun heq => hf (heq ▸ hj.symm)
        exact ⟨j, feed, hthere hfeed (hsome.mpr (hinhabited hjk hfeed)), hj⟩
    · rintro ⟨j, feed, hfeed, hj⟩
      refine ⟨⟨j, feed, (hback hfeed).1, hj⟩, ?_⟩
      by_cases hf : f = k.frequency
      · exact Or.inr ⟨j, feed, hfeed, hj.trans hf⟩
      · exact Or.inl hf

/-- Nobody sits in a feed that nobody reads. -/
theorem Tidy.seat?_removeIfEmpty (h : s.Tidy) (x : UInt32) :
    (s.removeIfEmpty k).seat? x = s.seat? x := by
  simp only [seat?, (removeIfEmpty_tables s k).2, bind]
  cases hindex : s.index.find? x with
  | none => rfl
  | some j =>
    obtain ⟨feed, hfeed, hx⟩ := (h.index x j).mp hindex
    have hempty : feed.subscribers.isEmpty = false := by
      rw [← Bool.not_eq_true, Table.isEmpty_iff]
      exact fun hnone => by rw [hnone x] at hx; cases hx
    by_cases hj : k = j <;> simp [feeds_removeIfEmpty, hj, hfeed, hempty, Option.filter]

end Removed

/-- Subscribers of one feed are gone from index and feed alike; the feed is still there. -/
structure Releases (s : Simulator) (k : SeriesKey) (gone : List UInt32) (s' : Simulator) : Prop where
  distinct : s'.feeds.Distinct
  schedule : s'.schedule = s.schedule
  leavers : ∀ x ∈ gone, s.index.find? x = some k
  index : ∀ x, s'.index.find? x = if x ∈ gone then none else s.index.find? x
  others : ∀ j, j ≠ k → s'.feeds.find? j = s.feeds.find? j
  feed : ∃ feed left, s.feeds.find? k = some feed ∧
    s'.feeds.find? k = some { feed with subscribers := left } ∧ left.Distinct ∧
    ∀ x, left.find? x = if x ∈ gone then none else feed.subscribers.find? x

section Released

variable {s s' : Simulator} {k : SeriesKey} {gone : List UInt32}

/-- The feeds before and after some were released, whichever feed it is. -/
theorem Releases.back (r : s.Releases k gone s') {j : SeriesKey} {feed' : Feed}
    (hfeed' : s'.feeds.find? j = some feed') : ∃ feed left, s.feeds.find? j = some feed ∧
      feed' = { feed with subscribers := left } ∧ (feed.subscribers.Distinct → left.Distinct) ∧
      ∀ x, left.find? x = if x ∈ gone ∧ j = k then none else feed.subscribers.find? x := by
  by_cases hj : j = k
  · subst hj
    obtain ⟨feed, left, hfeed, hleft, hdistinct, hfind⟩ := r.feed
    exact ⟨feed, left, hfeed, Option.some.inj (hfeed'.symm.trans hleft), fun _ => hdistinct,
      by simpa using hfind⟩
  · exact ⟨feed', feed'.subscribers, (r.others j hj).symm.trans hfeed', rfl, id, by simp [hj]⟩

theorem Releases.forth (r : s.Releases k gone s') {j : SeriesKey} {feed : Feed}
    (hfeed : s.feeds.find? j = some feed) : ∃ left,
      s'.feeds.find? j = some { feed with subscribers := left } ∧
      ∀ x, left.find? x = if x ∈ gone ∧ j = k then none else feed.subscribers.find? x := by
  by_cases hj : j = k
  · subst hj
    obtain ⟨feed', left, hfeed', hleft, -, hfind⟩ := r.feed
    obtain rfl := Option.some.inj (hfeed.symm.trans hfeed')
    exact ⟨left, hleft, by simpa using hfind⟩
  · exact ⟨feed.subscribers, (r.others j hj).trans hfeed, by simp [hj]⟩

theorem Tidy.released (h : s.Tidy) (r : s.Releases k gone s') : s'.Tidy := by
  constructor
  · exact r.distinct
  · intro j feed' hfeed'
    obtain ⟨feed, left, hfeed, rfl, hdistinct, -⟩ := r.back hfeed'
    exact hdistinct (h.subscribers hfeed)
  · intro x j
    rw [r.index]
    by_cases hx : x ∈ gone
    · simp only [hx, if_true, reduceCtorEq, false_iff]
      rintro ⟨feed', hfeed', hcontains⟩
      obtain ⟨feed, left, hfeed, rfl, -, hfind⟩ := r.back hfeed'
      obtain ⟨subscriber, hsubscriber⟩ := Table.contains_iff.mp hcontains
      rw [hfind] at hsubscriber
      -- it was subscribed under its own key only
      by_cases hj : j = k
      · simp [hx, hj] at hsubscriber
      · rw [if_neg fun hboth => hj hboth.2] at hsubscriber
        have hother := (h.index x j).mpr ⟨feed, hfeed, Table.contains_iff.mpr ⟨_, hsubscriber⟩⟩
        exact hj (Option.some.inj (hother.symm.trans (r.leavers x hx)))
    · rw [if_neg hx, h.index]
      constructor
      · rintro ⟨feed, hfeed, hcontains⟩
        obtain ⟨left, hleft, hfind⟩ := r.forth hfeed
        obtain ⟨subscriber, hsubscriber⟩ := Table.contains_iff.mp hcontains
        exact ⟨_, hleft, Table.contains_iff.mpr
          ⟨subscriber, (hfind x).trans (by simp [hx, hsubscriber])⟩⟩
      · rintro ⟨feed', hfeed', hcontains⟩
        obtain ⟨feed, left, hfeed, rfl, -, hfind⟩ := r.back hfeed'
        obtain ⟨subscriber, hsubscriber⟩ := Table.contains_iff.mp hcontains
        rw [hfind, if_neg fun hboth => hx hboth.1] at hsubscriber
        exact ⟨feed, hfeed, Table.contains_iff.mpr ⟨_, hsubscriber⟩⟩
  · intro j feed' x subscriber hfeed' hsubscriber
    obtain ⟨feed, left, hfeed, rfl, -, hfind⟩ := r.back hfeed'
    rw [hfind] at hsubscriber
    split at hsubscriber
    · cases hsubscriber
    · exact (h.places hfeed hsubscriber : subscriber.InPlace feed.bars)

theorem Tidy.seat?_released (h : s.Tidy) (r : s.Releases k gone s') (x : UInt32) :
    s'.seat? x = if x ∈ gone then none else s.seat? x := by
  by_cases hx : x ∈ gone
  · rw [if_pos hx, (h.released r).seat?_eq_none, r.index, if_pos hx]
  · rw [if_neg hx]
    simp only [seat?, bind, pure, r.index, if_neg hx]
    cases hindex : s.index.find? x with
    | none => rfl
    | some j =>
      obtain ⟨feed, hfeed, -⟩ := (h.index x j).mp hindex
      obtain ⟨left, hleft, hfind⟩ := r.forth hfeed
      simp [hleft, hfeed, hfind, hx]

/-- Subscribers who leave take their feed along if they were the last, and nothing else. -/
theorem Consistent.released (h : s.Consistent) (r : s.Releases k gone s') :
    (s'.removeIfEmpty k).Consistent := by
  refine (h.toTidy.released r).removeIfEmpty ?_ ?_
  · intro j feed hj hfeed
    exact h.inhabited ((r.others j hj).symm.trans hfeed)
  · intro f
    rw [r.schedule, h.scheduled]
    constructor
    · rintro ⟨j, feed, hfeed, hj⟩
      obtain ⟨left, hleft, -⟩ := r.forth hfeed
      exact ⟨j, _, hleft, hj⟩
    · rintro ⟨j, feed', hfeed', hj⟩
      obtain ⟨feed, -, hfeed, -⟩ := r.back hfeed'
      exact ⟨j, feed, hfeed, hj⟩

end Released

/-! ### Who leaves, and what is said -/

section Leaving

variable {s : Simulator} {k : SeriesKey}

/-- The simulator without a subscriber, before its feed is looked at. -/
def release (s : Simulator) (k : SeriesKey) (x : UInt32) : Simulator :=
  { s with
    feeds := s.feeds.modify k fun feed => { feed with subscribers := feed.subscribers.erase x }
    index := s.index.erase x }

theorem Tidy.release (h : s.Tidy) {x : UInt32} (hx : s.index.find? x = some k) :
    s.Releases k [x] (s.release k x) := by
  obtain ⟨feed, hfeed, -⟩ := (h.index x k).mp hx
  constructor
  · exact h.feeds.modify k _
  · rfl
  · simpa using hx
  · simp [Simulator.release, Table.find?_erase, eq_comm]
  · intro j hj
    simp [Simulator.release, Table.find?_modify, Ne.symm hj]
  · refine ⟨feed, feed.subscribers.erase x, hfeed, ?_, (h.subscribers hfeed).erase x, ?_⟩
    · simp [Simulator.release, Table.find?_modify, hfeed]
    · simp [Table.find?_erase, eq_comm]

theorem Consistent.remove (h : s.Consistent) {x : UInt32} (hx : s.index.find? x = some k) :
    (s.remove k x).Consistent :=
  h.released (h.toTidy.release hx)

theorem Consistent.seat?_remove (h : s.Consistent) {x : UInt32} (hx : s.index.find? x = some k)
    (y : UInt32) : (s.remove k x).seat? y = if y = x then none else s.seat? y := by
  have r := h.toTidy.release hx
  refine ((h.toTidy.released r).seat?_removeIfEmpty y).trans ((h.toTidy.seat?_released r y).trans ?_)
  simp

theorem Consistent.cancel (h : s.Consistent) (x : UInt32) : (s.cancel x).1.Consistent := by
  unfold Simulator.cancel
  split
  · rename_i k hx
    exact h.remove hx
  · exact h

/-- A cancel empties the seat, and succeeds if somebody sat there. -/
theorem Consistent.seat?_cancel (h : s.Consistent) (x y : UInt32) :
    (s.cancel x).1.seat? y = (if y = x then none else s.seat? y) ∧
      (s.cancel x).2 = (s.seat? x).isSome := by
  unfold Simulator.cancel
  split
  · rename_i k hx
    obtain ⟨t, ht, -⟩ := h.toTidy.seat?_of_index hx
    exact ⟨h.seat?_remove hx y, by rw [ht]; rfl⟩
  · rename_i hx
    have hnone := h.toTidy.seat?_eq_none.mpr hx
    refine ⟨?_, by rw [hnone]; rfl⟩
    split
    · rename_i hy
      exact hy ▸ hnone
    · rfl

/-- The simulator without any subscriber of a feed, before the feed is looked at. -/
def vacate (s : Simulator) (k : SeriesKey) (feed : Feed) : Simulator :=
  { s with
    feeds := s.feeds.insert k { feed with subscribers := .empty }
    index := feed.subscribers.keys.foldl Table.erase s.index }

theorem Tidy.vacate (h : s.Tidy) {feed : Feed} (hfeed : s.feeds.find? k = some feed) :
    s.Releases k feed.subscribers.keys (s.vacate k feed) := by
  constructor
  · exact h.feeds.insert k _
  · rfl
  · exact fun x hx => (h.index x k).mpr ⟨feed, hfeed, Table.mem_keys.mp hx⟩
  · exact Table.find?_foldl_erase feed.subscribers.keys s.index
  · intro j hj
    simp [Simulator.vacate, Table.find?_insert, Ne.symm hj]
  · refine ⟨feed, .empty, hfeed, by simp [Simulator.vacate, Table.find?_insert],
      Table.distinct_empty, fun x => ?_⟩
    simp only [Table.find?_empty, Table.mem_keys, Table.contains]
    cases feed.subscribers.find? x <;> simp

theorem Consistent.dismiss (h : s.Consistent) {feed : Feed} (hfeed : s.feeds.find? k = some feed)
    (message : String) : (s.dismiss k feed message).1.Consistent :=
  h.released (h.toTidy.vacate hfeed)

/-- Whoever sits in a feed that failed leaves its seat and is told why; nobody else notices. -/
theorem Consistent.seat?_dismiss (h : s.Consistent) {feed : Feed}
    (hfeed : s.feeds.find? k = some feed) (message : String) (x : UInt32) :
    (s.dismiss k feed message).1.seat? x = (s.seat? x).filter (·.key ≠ k) ∧
      heard x (s.dismiss k feed message).2
        = ((s.seat? x).filter (·.key = k)).toList.map fun _ => .failed message := by
  have hseat : (s.dismiss k feed message).1.seat? x
      = if x ∈ feed.subscribers.keys then none else s.seat? x :=
    ((h.toTidy.released (h.toTidy.vacate hfeed)).seat?_removeIfEmpty x).trans
      (h.toTidy.seat?_released (h.toTidy.vacate hfeed) x)
  have hheard : heard x (s.dismiss k feed message).2
      = if x ∈ feed.subscribers.keys then [.failed message] else [] :=
    heard_map_mk (h.subscribers hfeed) x (.failed message)
  rw [hseat, hheard]
  by_cases hx : x ∈ feed.subscribers.keys
  · obtain ⟨t, ht, hkey⟩ := (h.toTidy.mem_subscribers hfeed).mp hx
    simp [hx, ht, hkey, Option.filter]
  · have hother : ∀ t, s.seat? x = some t → t.key ≠ k := fun t ht hkey =>
      hx ((h.toTidy.mem_subscribers hfeed).mpr ⟨t, ht, hkey⟩)
    cases ht : s.seat? x with
    | none => simp [hx, Option.filter]
    | some t => simp [hx, hother t ht, Option.filter]

end Leaving

/-! ### Joining -/

section Joining

variable {s : Simulator} {k : SeriesKey} {feed : Feed} {x : UInt32}

/-- The simulator with one more subscriber of a feed. -/
def seated (s : Simulator) (k : SeriesKey) (feed : Feed) (x : UInt32) (schedule : Schedule) :
    Simulator :=
  { s with
    feeds := s.feeds.insert k { feed with subscribers := feed.subscribers.insert x feed.newcomer }
    index := s.index.insert x k
    schedule }

/-- The feed that a newcomer joins: the one that is there, or else a new one without subscribers. -/
def Joins (s : Simulator) (k : SeriesKey) (feed : Feed) : Prop :=
  s.feeds.find? k = some feed ∨ s.feeds.find? k = none ∧ feed.subscribers = .empty

/-- A subscription that is taken seats a newcomer in the feed of its key. -/
theorem subscribe_cases {b b' : Broker} {now : Instant} {clock : Nat} {r : Subscription}
    {s' : Simulator} {joined : Joined} (h : s.subscribe b now clock r = .ok (s', b', joined)) :
    ∃ k feed schedule, (fetchFor r).key? = some k ∧ s.index.find? r.requestId = none ∧
      s.Joins k feed ∧ s' = s.seated k feed r.requestId schedule ∧ joined.state = feed.newcomer.state ∧
      (∀ f, schedule.isActive f = true ↔ s.schedule.isActive f = true ∨
        f = k.frequency ∧ s.feeds.find? k = none) ∧
      ((∃ a, s.feeds.find? k = none ∧ b.submit now (fetchFor r) = .ok (a, b') ∧
          joined.fetch = some a ∧ feed = { fetch := a.assignedId }) ∨
        s.feeds.find? k = some feed ∧ b' = b ∧ joined.fetch = none) := by
  unfold subscribe at h
  by_cases hdown : s.isShutDown = true
  · rw [if_pos hdown] at h
    cases h
  rw [if_neg hdown] at h
  cases hkey : (fetchFor r).key? with
  | none =>
    rw [hkey] at h
    cases h
  | some k =>
    simp only [hkey] at h
    by_cases hthere : s.index.contains r.requestId = true
    · rw [if_pos hthere] at h
      cases h
    rw [if_neg hthere] at h
    have hnone : s.index.find? r.requestId = none := by
      simpa [Table.contains] using hthere
    cases hfeed : s.feeds.find? k with
    | some feed =>
      simp only [hfeed] at h
      cases h
      exact ⟨k, feed, s.schedule, rfl, hnone, Or.inl hfeed, rfl, rfl, by simp [hfeed],
        Or.inr ⟨hfeed, rfl, rfl⟩⟩
    | none =>
      simp only [hfeed] at h
      cases hsubmit : b.submit now (fetchFor r) with
      | error e =>
        rw [hsubmit] at h
        cases h
      | ok accepted =>
        rw [hsubmit] at h
        cases h
        refine ⟨k, { fetch := accepted.1.assignedId }, (s.schedule.activate k.frequency clock).1, rfl,
          hnone, Or.inr ⟨hfeed, rfl⟩, rfl, rfl, fun f => ?_, Or.inl ⟨accepted.1, hfeed, rfl, rfl, rfl⟩⟩
        rw [Schedule.isActive_activate, Bool.or_eq_true, decide_eq_true_eq, or_comm]
        simp [hfeed]

/-- The subscribers of a feed before a newcomer joins. -/
theorem Tidy.joins (h : s.Tidy) (hfeed : s.Joins k feed) : feed.subscribers.Distinct ∧
    (∀ y, feed.subscribers.contains y = true ↔ s.Subscribes y k) ∧
    ∀ y subscriber, feed.subscribers.find? y = some subscriber → subscriber.InPlace feed.bars := by
  rcases hfeed with hfeed | ⟨hfeed, hempty⟩
  · refine ⟨h.subscribers hfeed, fun y => ⟨fun hy => ⟨feed, hfeed, hy⟩, ?_⟩,
      fun y subscriber => h.places hfeed⟩
    rintro ⟨feed', hfeed', hy⟩
    obtain rfl := Option.some.inj (hfeed.symm.trans hfeed')
    exact hy
  · refine ⟨hempty ▸ Table.distinct_empty, fun y => ?_, fun y subscriber => ?_⟩
    · simp [hempty, Subscribes, hfeed, Table.contains]
    · simp [hempty]

theorem feeds_seated (s : Simulator) (k : SeriesKey) (feed : Feed) (x : UInt32)
    (schedule : Schedule) (j : SeriesKey) : (s.seated k feed x schedule).feeds.find? j
      = if k = j then some { feed with subscribers := feed.subscribers.insert x feed.newcomer }
        else s.feeds.find? j :=
  Table.find?_insert s.feeds k j _

/-- The tables agree about a newcomer that had no seat. -/
theorem Tidy.seated (h : s.Tidy) (hx : s.index.find? x = none) (hfeed : s.Joins k feed)
    (schedule : Schedule) : (s.seated k feed x schedule).Tidy := by
  obtain ⟨hdistinct, hsubscribes, hplaces⟩ := h.joins hfeed
  constructor
  · exact h.feeds.insert k _
  · intro j feed' hfeed'
    rw [feeds_seated] at hfeed'
    split at hfeed'
    · cases hfeed'
      exact hdistinct.insert x _
    · exact h.subscribers hfeed'
  · intro y j
    show (s.index.insert x k).find? y = some j ↔ _
    rw [Table.find?_insert, Subscribes, feeds_seated]
    by_cases hj : k = j
    · subst hj
      have hjoined : (feed.subscribers.insert x feed.newcomer).contains y = true ↔
          x = y ∨ feed.subscribers.contains y = true := by
        by_cases hy : x = y <;> simp [Table.contains, Table.find?_insert, hy]
      simp only [if_true, Option.some.injEq, exists_eq_left', hjoined, hsubscribes, ← h.index]
      by_cases hy : x = y <;> simp [hy]
    · rw [if_neg hj]
      by_cases hy : x = y
      · subst hy
        simp only [if_true, Option.some.injEq, hj, false_iff]
        intro hother
        cases hx.symm.trans ((h.index x j).mpr hother)
      · rw [if_neg hy]
        exact h.index y j
  · intro j feed' y subscriber hfeed' hsubscriber
    rw [feeds_seated] at hfeed'
    split at hfeed'
    · cases hfeed'
      rw [Table.find?_insert] at hsubscriber
      split at hsubscriber
      · cases hsubscriber
        exact feed.newcomer_inPlace
      · exact (hplaces y subscriber hsubscriber : subscriber.InPlace feed.bars)
    · exact h.places hfeed' hsubscriber

/-- A newcomer may take a seat if it has none, and its frequency fires from then on. -/
theorem Consistent.seated (h : s.Consistent) (hx : s.index.find? x = none) (hfeed : s.Joins k feed)
    {schedule : Schedule} (hschedule : ∀ f, schedule.isActive f = true ↔
      s.schedule.isActive f = true ∨ f = k.frequency ∧ s.feeds.find? k = none) :
    (s.seated k feed x schedule).Consistent := by
  constructor
  · exact h.toTidy.seated hx hfeed schedule
  · intro j feed' hfeed'
    rw [feeds_seated] at hfeed'
    split at hfeed'
    · cases hfeed'
      exact ⟨x, by simp [Table.contains, Table.find?_insert]⟩
    · exact h.inhabited hfeed'
  · intro f
    show schedule.isActive f = true ↔ _
    rw [hschedule, h.scheduled]
    constructor
    · rintro (⟨j, feed', hfeed', hj⟩ | ⟨hf, -⟩)
      · by_cases hk : k = j
        · exact ⟨k, _, by rw [feeds_seated, if_pos rfl], hk ▸ hj⟩
        · exact ⟨j, feed', by rw [feeds_seated, if_neg hk, hfeed'], hj⟩
      · exact ⟨k, _, by rw [feeds_seated, if_pos rfl], hf.symm⟩
    · rintro ⟨j, feed', hfeed', hj⟩
      rw [feeds_seated] at hfeed'
      split at hfeed'
      · rename_i hk
        subst hk
        rcases hfeed with hfeed | ⟨hfeed, -⟩
        · exact Or.inl ⟨k, feed, hfeed, hj⟩
        · exact Or.inr ⟨hj.symm, hfeed⟩
      · exact Or.inl ⟨j, feed', hfeed', hj⟩

theorem Consistent.seat?_seated (h : s.Consistent) (hfeed : s.Joins k feed) (schedule : Schedule)
    (y : UInt32) : (s.seated k feed x schedule).seat? y
      = if y = x then some ⟨k, feed.fetch, feed.bars, feed.newcomer⟩ else s.seat? y := by
  have hindex : (s.seated k feed x schedule).index.find? y
      = if x = y then some k else s.index.find? y := Table.find?_insert s.index x y k
  simp only [seat?, bind, pure, hindex, feeds_seated]
  by_cases hy : x = y
  · simp [hy, Table.find?_insert]
  · rw [if_neg hy, if_neg (Ne.symm hy)]
    cases hj : s.index.find? y with
    | none => rfl
    | some j =>
      obtain ⟨feed', hfeed', -⟩ := (h.index y j).mp hj
      by_cases hk : k = j
      · subst hk
        rcases hfeed with hfeed | ⟨hfeed, -⟩
        · simp [hfeed, Table.find?_insert, hy]
        · cases hfeed.symm.trans hfeed'
      · simp [hk]

end Joining

end Simulator

end BarArchive
