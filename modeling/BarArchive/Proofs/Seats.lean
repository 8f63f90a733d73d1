/-
What happens to a seat.

The answer to a fetch and the firing of a frequency act on each seat by itself: what becomes
of the seat, and what its holder hears, depends on the seat alone and not on who else is
there. An answer fills the seats that wait for it or empties them, and a firing moves a
seat on by one bar.
-/
import BarArchive.Proofs.Audience
import Mathlib.Data.List.Nodup

namespace BarArchive

/-! ### One feed -/

theorem Feed.find?_fill (feed : Feed) (bars : List Bar) (x : UInt32) :
    (feed.fill bars).subscribers.find? x
      = (feed.subscribers.find? x).map fun subscriber => { subscriber with state := .streaming } :=
  Table.find?_map feed.subscribers (fun _ subscriber => { subscriber with state := .streaming }) x

/-- The subscribers of a feed move on one by one. -/
theorem Feed.find?_advanced (feed : Feed) (x : UInt32) : feed.advanced.subscribers.find? x
    = (feed.subscribers.find? x).map fun subscriber =>
        ((feed.bars.bind subscriber.next).map (·.2)).getD subscriber := by
  cases hbars : feed.bars with
  | none => simp [Feed.advanced, hbars]
  | some bars =>
    have hfind := Table.find?_map feed.subscribers
      (fun _ subscriber => ((subscriber.next bars).map (·.2)).getD subscriber) x
    simpa [Feed.advanced, hbars] using hfind

theorem Feed.bars_advanced (feed : Feed) : feed.advanced.bars = feed.bars := by
  unfold Feed.advanced
  split <;> rfl

theorem Feed.fetch_advanced (feed : Feed) : feed.advanced.fetch = feed.fetch := by
  unfold Feed.advanced
  split <;> rfl

theorem Feed.distinct_advanced (feed : Feed) (h : feed.subscribers.Distinct) :
    feed.advanced.subscribers.Distinct := by
  unfold Feed.advanced
  split
  · exact h
  · rename_i bars _
    exact h.map fun _ subscriber => ((subscriber.next bars).map (·.2)).getD subscriber

/-- Whoever streams is told something. -/
theorem Subscriber.next_of_streaming {subscriber : Subscriber} (h : subscriber.state = .streaming)
    (bars : List Bar) : ∃ told, subscriber.next bars = some told := by
  unfold Subscriber.next
  rw [h]
  cases bars[subscriber.position]? with
  | none => exact ⟨_, rfl⟩
  | some b => exact ⟨_, rfl⟩

/-- A subscriber that was told something is in its place again. -/
theorem Subscriber.next_inPlace {subscriber next : Subscriber} {n : News} {bars : List Bar}
    (h : subscriber.InPlace (some bars)) (hnext : subscriber.next bars = some (n, next)) :
    next.InPlace (some bars) := by
  obtain ⟨hstate, hposition⟩ := h
  simp only [Subscriber.next, hstate] at hnext
  split at hnext
  · rename_i b hb
    cases hnext
    exact ⟨rfl, (List.getElem?_eq_some_iff.mp hb).1⟩
  · cases hnext
    exact ⟨hstate, hposition⟩

/-- What a feed tells a subscriber. -/
theorem Feed.heard_news {feed : Feed} (h : feed.subscribers.Distinct) (x : UInt32) :
    heard x feed.news = (((feed.subscribers.find? x).bind fun subscriber =>
      feed.bars.bind subscriber.next).map (·.1)).toList := by
  cases hbars : feed.bars with
  | none => simp [Feed.news, hbars, heard]
  | some bars =>
    have hone : heard x feed.news = feed.subscribers.entries.flatMap fun e =>
        if e.1 = x then ((e.2.next bars).map (·.1)).toList else [] := by
      simp only [Feed.news, hbars, heard, List.filterMap_filterMap]
      rw [List.filterMap_eq_flatMap_toList]
      congr 1
      funext e
      cases e.2.next bars with
      | none => simp
      | some told => by_cases hx : e.1 = x <;> simp [hx]
    rw [hone, h.flatMap_eq fun e _ he => if_neg he]
    cases feed.subscribers.find? x <;> simp

namespace Simulator

/-! ### Acting on seats one by one -/

/--
An operation acts on seats: the tables agree afterwards, and what becomes of a seat and
what its holder hears depends on the seat alone.
-/
structure Acts (s s' : Simulator) (events : List Event)
    (act : UInt32 → Seat → Option Seat × List News) : Prop where
  consistent : s'.Consistent
  seats : ∀ x, s'.seat? x = (s.seat? x).bind fun t => (act x t).1
  news : ∀ x, heard x events = ((s.seat? x).map fun t => (act x t).2).getD []

section Acting

variable {s : Simulator}

theorem Acts.congr {s' : Simulator} {events : List Event}
    {act act' : UInt32 → Seat → Option Seat × List News} (h : s.Acts s' events act)
    (hact : ∀ x t, s.seat? x = some t → act x t = act' x t) : s.Acts s' events act' where
  consistent := h.consistent
  seats := fun x => by
    rw [h.seats]
    cases ht : s.seat? x with
    | none => rfl
    | some t => simp [hact x t ht]
  news := fun x => by
    rw [h.news]
    cases ht : s.seat? x with
    | none => rfl
    | some t => simp [hact x t ht]

/-- What leaves every seat as it is may have happened while nothing did. -/
theorem Consistent.idle_acts (h : s.Consistent) {act : UInt32 → Seat → Option Seat × List News}
    (hact : ∀ x t, s.seat? x = some t → act x t = (some t, [])) : s.Acts s [] act where
  consistent := h
  seats := fun x => by
    cases ht : s.seat? x with
    | none => rfl
    | some t => simp [hact x t ht]
  news := fun x => by
    cases ht : s.seat? x with
    | none => rfl
    | some t => simp [hact x t ht, heard]

/-- When the bars of a feed come, its subscribers start with the first one. -/
theorem Consistent.load_acts (h : s.Consistent) {k : SeriesKey} {feed : Feed} (bars : List Bar)
    (hfeed : s.feeds.find? k = some feed) (hopen : feed.bars = none) :
    s.Acts { s with feeds := s.feeds.insert k (feed.fill bars) } [] fun _ t =>
      (some (if t.key = k then t.filled bars else t), []) := by
  have hfeeds : ∀ j, (s.feeds.insert k (feed.fill bars)).find? j
      = (s.feeds.find? j).map fun feed => if j = k then feed.fill bars else feed := by
    intro j
    rw [Table.find?_insert]
    by_cases hj : k = j
    · simp [← hj, hfeed]
    · simp [hj, Ne.symm hj]
  constructor
  · refine h.changed (h.feeds.insert k _) hfeeds rfl (fun _ => rfl) ?_ ?_
    · intro j feed' hfeed'
      split
      · refine ⟨(h.subscribers hfeed').map fun _ x => { x with state := .streaming }, fun x => ?_⟩
        rw [Table.contains, Feed.find?_fill, Option.isSome_map]
        rfl
      · exact ⟨h.subscribers hfeed', fun _ => rfl⟩
    · intro j feed' x subscriber hfeed'
      split
      · rename_i hj
        subst hj
        obtain rfl := Option.some.inj (hfeed.symm.trans hfeed')
        rw [Feed.find?_fill]
        intro hsubscriber
        obtain ⟨waiting, hwaiting, rfl⟩ := Option.map_eq_some_iff.mp hsubscriber
        have hplace := h.places hfeed hwaiting
        rw [hopen] at hplace
        exact ⟨rfl, by simp [hplace.2]⟩
      · exact h.places hfeed'
  · intro x
    have hseat : ({ s with feeds := s.feeds.insert k (feed.fill bars) } : Simulator).seat? x
        = (s.seat? x).map fun t => if t.key = k then t.filled bars else t := by
      refine seat?_changed { s with feeds := s.feeds.insert k (feed.fill bars) } hfeeds rfl
        (fun j feed' _ => ?_) fun j feed' subscriber _ _ => ?_
      · by_cases hj : j = k
        · simp [hj, Feed.find?_fill, Seat.filled]
        · simp [hj]
      · by_cases hj : j = k
        · simp [hj, Seat.filled, Feed.fill]
        · simp [hj]
    rw [hseat]
    cases s.seat? x <;> rfl
  · intro x
    cases s.seat? x <;> rfl

/-- The answer to a fetch acts on the seats of its feed, if that feed is still there. -/
theorem Consistent.fill_acts (h : s.Consistent) {k : SeriesKey} {fetch : AssignedId}
    (hopen : ∀ feed, s.feeds.find? k = some feed → feed.fetch = fetch → feed.bars = none)
    (result : Except BrokerError Reply) :
    s.Acts (s.fill k fetch result).1 (s.fill k fetch result).2 fun _ t =>
      t.answered k fetch result := by
  by_cases hstale : ∃ feed, s.feeds.find? k = some feed ∧ feed.fetch = fetch
  · obtain ⟨feed, hfeed, hfetch⟩ := hstale
    have hwaits : ∀ x t, s.seat? x = some t → t.key = k → t.fetch = fetch := by
      rintro x t ht rfl
      obtain ⟨feed', -, hfeed', -, hfetch', -⟩ := seat?_eq_some.mp ht
      obtain rfl := Option.some.inj (hfeed.symm.trans hfeed')
      exact hfetch'.symm.trans hfetch
    cases result with
    | error e =>
      have hfill : s.fill k fetch (.error e) = s.dismiss k feed e.message := by
        simp [fill, hfeed, hfetch]
      rw [hfill]
      refine ⟨h.dismiss hfeed e.message, fun x => ?_, fun x => ?_⟩
      · rw [(h.seat?_dismiss hfeed e.message x).1]
        cases ht : s.seat? x with
        | none => rfl
        | some t => by_cases hk : t.key = k <;> simp [Seat.answered, hk, hwaits x t ht, Option.filter]
      · rw [(h.seat?_dismiss hfeed e.message x).2]
        cases ht : s.seat? x with
        | none => rfl
        | some t => by_cases hk : t.key = k <;> simp [Seat.answered, hk, hwaits x t ht, Option.filter]
    | ok reply =>
      have hfill : s.fill k fetch (.ok reply)
          = ({ s with feeds := s.feeds.insert k (feed.fill reply.bars) }, []) := by
        simp [fill, hfeed, hfetch]
      rw [hfill]
      refine (h.load_acts reply.bars hfeed (hopen feed hfeed hfetch)).congr fun x t ht => ?_
      by_cases hk : t.key = k <;> simp [Seat.answered, hk, hwaits x t ht]
  · have hfill : s.fill k fetch result = (s, []) := by
      unfold fill
      split
      · rfl
      · rename_i feed hfeed
        exact if_pos fun hfetch => hstale ⟨feed, hfeed, hfetch⟩
    rw [hfill]
    refine h.idle_acts fun x t ht => if_neg ?_
    rintro ⟨rfl, rfl⟩
    obtain ⟨feed, -, hfeed, -, hfetch, -⟩ := seat?_eq_some.mp ht
    exact hstale ⟨feed, hfeed, hfetch⟩

end Acting

/-! ### Firing -/

section Firing

variable {s : Simulator} {f : Frequency}

/-- While those who leave are still there, all others have moved on by one bar. -/
theorem Consistent.advance (h : s.Consistent) (f : Frequency) : (s.advance f).Consistent ∧
    ∀ x, (s.advance f).seat? x = (s.seat? x).map fun t =>
      { t with subscriber := ((t.next? f).map (·.2)).getD t.subscriber } := by
  have hfeeds : ∀ k, (s.advance f).feeds.find? k = (s.feeds.find? k).map fun feed =>
      if k.frequency == f then feed.advanced else feed :=
    Table.find?_map s.feeds fun k feed => if k.frequency == f then feed.advanced else feed
  constructor
  · refine h.changed (h.feeds.map fun k feed => if k.frequency == f then feed.advanced else feed)
      hfeeds rfl (fun _ => rfl) ?_ ?_
    · intro k feed hfeed
      split
      · exact ⟨feed.distinct_advanced (h.subscribers hfeed), fun x => by
          rw [Table.contains, Feed.find?_advanced, Option.isSome_map]
          rfl⟩
      · exact ⟨h.subscribers hfeed, fun _ => rfl⟩
    · intro k feed x subscriber hfeed
      split
      · rw [Feed.find?_advanced, Feed.bars_advanced]
        intro hsubscriber
        obtain ⟨before, hbefore, rfl⟩ := Option.map_eq_some_iff.mp hsubscriber
        have hplace := h.places hfeed hbefore
        cases hbars : feed.bars with
        | none => simpa [hbars] using hplace
        | some bars =>
          rw [hbars] at hplace
          cases hnext : before.next bars with
          | none => simpa [hnext] using hplace
          | some told => simpa [hnext] using Subscriber.next_inPlace hplace hnext
      · exact h.places hfeed
  · intro x
    refine seat?_changed _ hfeeds rfl (fun k feed _ => ?_) fun k feed subscriber _ _ => ?_
    · by_cases hf : k.frequency = f <;> simp [Seat.next?, hf, Feed.find?_advanced]
    · by_cases hf : k.frequency = f <;> simp [hf, Feed.bars_advanced, Feed.fetch_advanced]

/-- A firing tells every subscriber what its seat has for it. -/
theorem Tidy.heard_firing (h : s.Tidy) (f : Frequency) (x : UInt32) :
    heard x ((s.firing f).map (·.2)) = (((s.seat? x).bind (·.next? f)).map (·.1)).toList := by
  have hsplit : heard x ((s.firing f).map (·.2)) = s.feeds.entries.flatMap fun e =>
      if e.1.frequency = f then heard x e.2.news else [] := by
    unfold heard firing
    rw [List.filterMap_map, List.filterMap_flatMap]
    congr 1
    funext e
    by_cases hf : e.1.frequency = f
    · simp [hf, List.filterMap_map]
    · simp [hf]
  have hfound : ∀ e ∈ s.feeds.entries, s.feeds.find? e.1 = some e.2 := fun e he =>
    h.feeds.mem_iff.mp he
  -- only the feed that the index has for the request id says anything to it
  have helsewhere : ∀ e ∈ s.feeds.entries, s.index.find? x ≠ some e.1 →
      (if e.1.frequency = f then heard x e.2.news else []) = [] := by
    intro e he hother
    have hnone : e.2.subscribers.find? x = none := Option.eq_none_iff_forall_ne_some.mpr
      fun subscriber hsubscriber => hother ((h.index x e.1).mpr
        ⟨e.2, hfound e he, Table.contains_iff.mpr ⟨subscriber, hsubscriber⟩⟩)
    rw [Feed.heard_news (h.subscribers (hfound e he)), hnone]
    simp
  rw [hsplit]
  cases hindex : s.index.find? x with
  | none =>
    rw [h.seat?_eq_none.mpr hindex]
    exact List.flatMap_eq_nil_iff.mpr fun e he => helsewhere e he (by simp [hindex])
  | some k =>
    obtain ⟨feed, hfeed, -⟩ := (h.index x k).mp hindex
    have hothers : ∀ e ∈ s.feeds.entries, e.1 ≠ k →
        (if e.1.frequency = f then heard x e.2.news else []) = [] := fun e he hk =>
      helsewhere e he fun heq => hk (Option.some.inj (hindex.symm.trans heq)).symm
    rw [h.feeds.flatMap_eq hothers, hfeed]
    simp only [Option.map_some, Option.getD_some, Feed.heard_news (h.subscribers hfeed), seat?,
      hindex, hfeed, bind, Option.bind_some]
    by_cases hf : k.frequency = f
    · cases feed.subscribers.find? x <;> simp [hf, Seat.next?]
    · cases feed.subscribers.find? x <;> simp [hf, Seat.next?]

/-- Everything that a firing tells goes to a subscriber of the feed that it comes from. -/
theorem Tidy.index_firing (h : s.Tidy) {k : SeriesKey} {e : Event} (he : (k, e) ∈ s.firing f) :
    s.index.find? e.requestId = some k := by
  obtain ⟨⟨j, feed⟩, hj, he⟩ := List.mem_flatMap.mp he
  split at he
  · obtain ⟨event, hevent, heq⟩ := List.mem_map.mp he
    obtain ⟨rfl, rfl⟩ := Prod.mk.inj heq
    have hfeed := h.feeds.mem_iff.mp hj
    refine (h.index event.requestId j).mpr ⟨feed, hfeed, ?_⟩
    unfold Feed.news at hevent
    split at hevent
    · cases hevent
    · obtain ⟨entry, hentry, htold⟩ := List.mem_filterMap.mp hevent
      obtain ⟨told, -, rfl⟩ := Option.map_eq_some_iff.mp htold
      exact Table.contains_iff.mpr ⟨_, (h.subscribers hfeed).mem_iff.mp hentry⟩
  · cases he

/-- Subscribers of any feeds may leave one after the other. -/
theorem Consistent.removeAll (gone : List (SeriesKey × Event)) : ∀ {s : Simulator}, s.Consistent →
    (gone.map (·.2.requestId)).Nodup →
    (∀ e ∈ gone, s.index.find? e.2.requestId = some e.1) →
    (gone.foldl (fun s e => s.remove e.1 e.2.requestId) s).Consistent ∧
      ∀ x, (gone.foldl (fun s e => s.remove e.1 e.2.requestId) s).seat? x
        = if x ∈ gone.map (·.2.requestId) then none else s.seat? x := by
  induction gone with
  | nil =>
    intro s h _ _
    exact ⟨h, fun x => by simp⟩
  | cons e gone ih =>
    intro s h hids hindex
    obtain ⟨hnew, hrest⟩ := List.nodup_cons.mp hids
    have he := hindex e List.mem_cons_self
    have hothers : ∀ e' ∈ gone, (s.remove e.1 e.2.requestId).index.find? e'.2.requestId
        = some e'.1 := by
      intro e' he'
      have hne : e'.2.requestId ≠ e.2.requestId := fun heq =>
        hnew (List.mem_map.mpr ⟨e', he', heq⟩)
      rw [Simulator.remove, (removeIfEmpty_tables _ _).2, Table.find?_erase, if_neg hne.symm]
      exact hindex e' (List.mem_cons_of_mem e he')
    obtain ⟨hconsistent, hseats⟩ := ih (h.remove he) hrest hothers
    refine ⟨hconsistent, fun x => ?_⟩
    rw [List.foldl_cons, hseats, h.seat?_remove he, List.map_cons]
    by_cases hx : x = e.2.requestId
    · simp [hx]
    · simp only [List.mem_cons, hx, false_or, if_false]

/-- Nobody is told two things by one firing. -/
theorem Tidy.nodup_firing (h : s.Tidy) (f : Frequency) :
    ((s.firing f).map (·.2.requestId)).Nodup := by
  refine List.nodup_iff_count_le_one.mpr fun x => ?_
  have hcount := length_heard x ((s.firing f).map (·.2))
  rw [List.map_map] at hcount
  rw [h.heard_firing] at hcount
  exact hcount ▸ Option.length_toList_le

/-- Every firing acts on each seat of its frequency that streams, and on no other. -/
theorem Consistent.tick_acts (h : s.Consistent) (f : Frequency) :
    s.Acts (s.tick f).1 (s.tick f).2 fun _ t => t.fired f := by
  obtain ⟨hadvanced, hseats⟩ := h.advance f
  let leaving := (s.firing f).filter fun e => e.2.news == .exhausted
  let staying := (s.firing f).filter fun e => !(e.2.news == .exhausted)
  have htick : s.tick f = (leaving.foldl (fun s e => s.remove e.1 e.2.requestId) (s.advance f),
      (staying ++ leaving).map (·.2)) := by
    simp only [tick, List.partition_eq_filter_filter]
    rfl
  have hindex : ∀ e ∈ leaving, (s.advance f).index.find? e.2.requestId = some e.1 := fun e he =>
    h.index_firing (List.mem_of_mem_filter he)
  have hids : (leaving.map (·.2.requestId)).Nodup :=
    (h.nodup_firing f).sublist (List.filter_sublist.map _)
  obtain ⟨hconsistent, hremoved⟩ := hadvanced.removeAll leaving hids hindex
  -- whoever leaves is told so, and nothing else
  have hleaves : ∀ x, x ∈ leaving.map (·.2.requestId) ↔
      ((s.seat? x).bind (·.next? f)).map (·.1) = some .exhausted := by
    intro x
    rw [← Option.mem_toList, ← h.heard_firing, mem_heard, List.mem_map, List.mem_map]
    constructor
    · rintro ⟨e, he, rfl⟩
      obtain ⟨he, hexhausted⟩ := List.mem_filter.mp he
      exact ⟨e, he, by rw [← eq_of_beq hexhausted]⟩
    · rintro ⟨e, he, heq⟩
      exact ⟨e, List.mem_filter.mpr ⟨he, by simp [heq]⟩, by rw [heq]⟩
  rw [htick]
  constructor
  · exact hconsistent
  · intro x
    rw [hremoved, hseats]
    simp only [hleaves]
    cases ht : s.seat? x with
    | none => simp
    | some t =>
      cases hnext : t.next? f with
      | none => simp [Seat.fired, hnext]
      | some told => by_cases hn : told.1 = .exhausted <;> simp [Seat.fired, hnext, hn]
  · intro x
    have hperm : (heard x ((staying ++ leaving).map (·.2))).Perm
        (((s.seat? x).bind (·.next? f)).map (·.1)).toList := by
      rw [← h.heard_firing]
      refine (List.Perm.map _ ?_).filterMap _
      exact List.perm_append_comm.trans (List.filter_append_perm _ _)
    cases ht : s.seat? x with
    | none => simpa [ht] using hperm
    | some t =>
      cases hnext : t.next? f with
      | none => simpa [ht, hnext, Seat.fired] using hperm
      | some told => simpa [ht, hnext, Seat.fired] using hperm

end Firing

end Simulator

end BarArchive
