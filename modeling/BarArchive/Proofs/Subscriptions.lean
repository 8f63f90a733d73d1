/-
What a subscription hears.

Along a run of the simulator every subscription is told the bars that its fetch brought, in
their order and each once; then that there are no more, and nothing after that. One whose
fetch fails is told so and nothing else, and one that is cancelled hears nothing more.

Two things are followed through the run. The tables of the simulator agree at all times, and for
each request id its seat, or that it has none, fits the stories that the log tells of it. Two
fetches of one run have different numbers, as long as the broker has given out at most all
words: a late answer to the first could otherwise be taken for an answer to the second.
-/
import BarArchive.Proofs.Broadcast

namespace BarArchive

/-- What a subscription may have been told, given the answer to its fetch, if there is one yet. -/
inductive Tells (answer : Option (Except BrokerError Reply)) : List News → Prop
  | nothing : Tells answer []
  | bars {reply k} (filled : answer = some (.ok reply)) (within : k ≤ reply.bars.length) :
      Tells answer ((reply.bars.take k).map .bar)
  | exhausted {reply} (filled : answer = some (.ok reply)) :
      Tells answer (reply.bars.map .bar ++ [.exhausted])
  | failed {e} (failed : answer = some (.error e)) : Tells answer [.failed e.message]

/-- Whether news is the last that a subscription hears. -/
def News.isFarewell : News → Bool
  | .bar _ => false
  | .exhausted | .failed _ => true

/-- Whether a subscription is over. -/
def Story.isOver (story : Story) : Bool :=
  story.silenced.isSome || story.news.any News.isFarewell

/-! ### One request id -/

/-- What has become of the fetch behind a seat: it is awaited, or has brought the seat's bars. -/
def Seat.Backed (t : Seat) (awaited : List (SeriesKey × AssignedId))
    (answers : Table AssignedId (Except BrokerError Reply)) : Prop :=
  match t.bars with
  | none => (t.key, t.fetch) ∈ awaited
  | some bars => ∃ reply, answers.find? t.fetch = some (.ok reply) ∧ reply.bars = bars

/-- The story of a subscription that still has its seat. -/
structure Story.Current (t : Seat) (story : Story) : Prop where
  fetch : story.fetch = some t.fetch
  news : story.news = ((t.bars.getD []).take t.subscriber.position).map .bar
  silenced : story.silenced = none

/-- The story of a subscription that is over, and after which nothing was told. -/
structure Story.Closed (answers : Table AssignedId (Except BrokerError Reply)) (story : Story) :
    Prop where
  told : ∃ fetch, story.fetch = some fetch ∧ Tells (answers.find? fetch) story.news
  ended : story.isOver = true
  silent : ∀ n, story.silenced = some n → story.news.length = n

/-- The stories of a request id fit its seat: all are over but that of the seat. -/
def Follows (answers : Table AssignedId (Except BrokerError Reply)) (stories : List Story) :
    Option Seat → Prop
  | none => ∀ story ∈ stories, story.Closed answers
  | some t => ∃ story older, stories = story :: older ∧ story.Current t ∧
      ∀ story ∈ older, story.Closed answers

section Following

variable {answers answers' : Table AssignedId (Except BrokerError Reply)} {stories : List Story}
  {awaited : List (SeriesKey × AssignedId)} {t : Seat}

theorem Tells.mono {answer answer' : Option (Except BrokerError Reply)} {news : List News}
    (h : Tells answer news) (hmore : ∀ r, answer = some r → answer' = some r) :
    Tells answer' news := by
  cases h with
  | nothing => exact .nothing
  | bars filled within => exact .bars (hmore _ filled) within
  | exhausted filled => exact .exhausted (hmore _ filled)
  | failed failed => exact .failed (hmore _ failed)

theorem Story.Closed.mono {story : Story} (h : story.Closed answers)
    (hmore : ∀ fetch r, answers.find? fetch = some r → answers'.find? fetch = some r) :
    story.Closed answers' where
  told := by
    obtain ⟨fetch, hfetch, htells⟩ := h.told
    exact ⟨fetch, hfetch, htells.mono (hmore fetch)⟩
  ended := h.ended
  silent := h.silent

/-- A seat is told the bar at its position, or that it has come to the end. -/
theorem Seat.next?_cases {f : Frequency} {told : News × Subscriber}
    (hplace : t.subscriber.InPlace t.bars) (hnext : t.next? f = some told) :
    ∃ bars, t.bars = some bars ∧
      ((∃ b, bars[t.subscriber.position]? = some b ∧
          told = (.bar b, { t.subscriber with position := t.subscriber.position + 1 })) ∨
        t.subscriber.position = bars.length ∧ told = (.exhausted, t.subscriber)) := by
  unfold Seat.next? at hnext
  split at hnext
  · obtain ⟨bars, hbars, hnext⟩ := Option.bind_eq_some_iff.mp hnext
    rw [hbars] at hplace
    obtain ⟨hstate, hposition⟩ := hplace
    refine ⟨bars, hbars, ?_⟩
    simp only [Subscriber.next, hstate] at hnext
    split at hnext
    · rename_i b hb
      cases hnext
      exact Or.inl ⟨b, hb, by simp [hstate]⟩
    · rename_i hnone
      cases hnext
      exact Or.inr ⟨Nat.le_antisymm hposition (List.getElem?_eq_none_iff.mp hnone), rfl⟩
  · cases hnext

/-- More answers do not change what is told already. -/
theorem Follows.mono {o : Option Seat} (h : Follows answers stories o)
    (hmore : ∀ fetch r, answers.find? fetch = some r → answers'.find? fetch = some r) :
    Follows answers' stories o := by
  cases o with
  | none => exact fun story hstory => (h story hstory).mono hmore
  | some t =>
    obtain ⟨story, older, rfl, hcurrent, holder⟩ := h
    exact ⟨story, older, rfl, hcurrent, fun story hstory => (holder story hstory).mono hmore⟩

/-- Whoever still has a seat was told the bars before its position. -/
theorem Story.Current.tells {story : Story} (h : story.Current t) (hbacked : t.Backed awaited answers)
    (hplace : t.subscriber.InPlace t.bars) : Tells (answers.find? t.fetch) story.news := by
  rw [h.news]
  unfold Seat.Backed at hbacked
  cases hbars : t.bars with
  | none => simpa using Tells.nothing
  | some bars =>
    rw [hbars] at hbacked hplace
    obtain ⟨reply, hreply, rfl⟩ := hbacked
    exact .bars hreply hplace.2

theorem Seat.Backed.mono {awaited' : List (SeriesKey × AssignedId)} (h : t.Backed awaited answers)
    (hawaited : ∀ e ∈ awaited, e ∈ awaited')
    (hmore : ∀ fetch r, answers.find? fetch = some r → answers'.find? fetch = some r) :
    t.Backed awaited' answers' := by
  unfold Seat.Backed at h ⊢
  split
  · rename_i hbars
    rw [hbars] at h
    exact hawaited _ h
  · rename_i hbars
    rw [hbars] at h
    obtain ⟨reply, hreply, heq⟩ := h
    exact ⟨reply, hmore _ _ hreply, heq⟩

theorem Seat.Backed.fired (h : t.Backed awaited answers) {f : Frequency} {t' : Seat}
    (hfired : (t.fired f).1 = some t') : t'.Backed awaited answers := by
  unfold Seat.fired at hfired
  split at hfired
  · cases hfired
    exact h
  · split at hfired
    · cases hfired
    · cases hfired
      exact h

theorem Seat.Backed.answered (h : t.Backed awaited answers) {k : SeriesKey} {fetch : AssignedId}
    {result : Except BrokerError Reply} {t' : Seat}
    (hmore : ∀ fetch r, answers.find? fetch = some r → answers'.find? fetch = some r)
    (hanswer : answers'.find? fetch = some result)
    (hanswered : (t.answered k fetch result).1 = some t') :
    t'.Backed (awaited.erase (k, fetch)) answers' := by
  unfold Seat.answered at hanswered
  split at hanswered
  · rename_i hwaits
    cases result with
    | ok reply =>
      cases hanswered
      exact ⟨reply, hwaits.2 ▸ hanswer, rfl⟩
    | error e => cases hanswered
  · rename_i hother
    cases hanswered
    unfold Seat.Backed at h ⊢
    cases hbars : t.bars with
    | none =>
      rw [hbars] at h
      refine (List.mem_erase_of_ne fun heq => hother ?_).mpr h
      exact ⟨congrArg Prod.fst heq, congrArg Prod.snd heq⟩
    | some bars =>
      rw [hbars] at h
      obtain ⟨reply, hreply, heq⟩ := h
      exact ⟨reply, hmore _ _ hreply, heq⟩

/-- A subscription that still has its seat is not over. -/
theorem Story.Current.isOver {story : Story} (h : story.Current t) : story.isOver = false := by
  have hbars : ∀ bars : List Bar, (bars.map News.bar).any News.isFarewell = false := by
    intro bars
    simp [News.isFarewell]
  rw [Story.isOver, h.silenced, h.news, hbars]
  rfl

/-- A new subscription starts a new story. -/
theorem Follows.join (h : Follows answers stories none) (hposition : t.subscriber.position = 0) :
    Follows answers (⟨some t.fetch, [], none⟩ :: stories) (some t) :=
  ⟨_, stories, rfl, ⟨rfl, by simp [hposition], rfl⟩, h⟩

/-- Whoever is silenced has no seat any more. -/
theorem Follows.hush {o : Option Seat} (h : Follows answers stories o)
    (htells : ∀ t, o = some t → t.Backed awaited answers ∧ t.subscriber.InPlace t.bars) :
    Follows answers (Story.hush stories) none := by
  cases o with
  | none =>
    cases stories with
    | nil => exact h
    | cons story older =>
      intro s hs
      rcases List.mem_cons.mp hs with rfl | hs
      · have hclosed := h story List.mem_cons_self
        refine ⟨hclosed.told, by simp [Story.isOver], fun n hn => ?_⟩
        cases hsilenced : story.silenced with
        | none => simpa [hsilenced] using hn
        | some m => exact hclosed.silent n (by simpa [hsilenced] using hn)
      · exact h s (List.mem_cons_of_mem story hs)
  | some t =>
    obtain ⟨story, older, rfl, hcurrent, holder⟩ := h
    obtain ⟨hbacked, hplace⟩ := htells t rfl
    intro s hs
    rcases List.mem_cons.mp hs with rfl | hs
    · exact ⟨⟨t.fetch, hcurrent.fetch, hcurrent.tells hbacked hplace⟩, by simp [Story.isOver],
        fun n hn => by simpa [hcurrent.silenced] using hn⟩
    · exact holder s hs

/-- A firing tells a seat its next bar, or that there is none. -/
theorem Follows.fired (h : Follows answers stories (some t)) (hbacked : t.Backed awaited answers)
    (hplace : t.subscriber.InPlace t.bars) (f : Frequency) :
    Follows answers ((t.fired f).2.foldl Story.tell stories) (t.fired f).1 := by
  cases hnext : t.next? f with
  | none => simpa [Seat.fired, hnext] using h
  | some told =>
    obtain ⟨story, older, rfl, hcurrent, holder⟩ := h
    obtain ⟨bars, hbars, hnews⟩ := Seat.next?_cases hplace hnext
    have hstory := hcurrent.news
    rw [hbars, Option.getD_some] at hstory
    unfold Seat.Backed at hbacked
    rw [hbars] at hbacked
    obtain ⟨reply, hreply, rfl⟩ := hbacked
    rcases hnews with ⟨b, hb, rfl⟩ | ⟨hall, rfl⟩
    · -- one more bar was told
      have hfired : t.fired f = (some { t with subscriber :=
          { t.subscriber with position := t.subscriber.position + 1 } }, [.bar b]) := by
        simp [Seat.fired, hnext]
      rw [hfired]
      refine ⟨_, older, rfl, ⟨hcurrent.fetch, ?_, hcurrent.silenced⟩, holder⟩
      simp [hbars, hstory, List.take_add_one, hb]
    · -- all bars were told before
      have hfired : t.fired f = (none, [.exhausted]) := by
        simp [Seat.fired, hnext]
      rw [hfired]
      intro s hs
      rcases List.mem_cons.mp hs with rfl | hs
      · refine ⟨⟨t.fetch, hcurrent.fetch, ?_⟩, by simp [Story.isOver, News.isFarewell],
          fun n hn => by simp [hcurrent.silenced] at hn⟩
        simpa [hstory, hall] using Tells.exhausted hreply
      · exact holder s hs

/-- The answer to the fetch of a seat lets it start, or ends it. -/
theorem Follows.answered (h : Follows answers stories (some t)) {k : SeriesKey} {fetch : AssignedId}
    {result : Except BrokerError Reply} (hplace : t.subscriber.InPlace t.bars)
    (hopen : t.key = k → t.fetch = fetch → t.bars = none)
    (hmore : ∀ fetch r, answers.find? fetch = some r → answers'.find? fetch = some r)
    (hanswer : answers'.find? fetch = some result) :
    Follows answers' ((t.answered k fetch result).2.foldl Story.tell stories)
      (t.answered k fetch result).1 := by
  by_cases hwaits : t.key = k ∧ t.fetch = fetch
  · have hbars := hopen hwaits.1 hwaits.2
    rw [hbars] at hplace
    obtain ⟨story, older, rfl, hcurrent, holder⟩ := h.mono hmore
    have hstory := hcurrent.news
    rw [hbars, Option.getD_none, List.take_nil, List.map_nil] at hstory
    cases result with
    | ok reply =>
      have hfilled : t.answered k fetch (.ok reply) = (some (t.filled reply.bars), []) :=
        if_pos hwaits
      rw [hfilled]
      refine ⟨story, older, rfl, ⟨hcurrent.fetch, ?_, hcurrent.silenced⟩, holder⟩
      simp [Seat.filled, hstory, hplace.2]
    | error e =>
      have hfailed : t.answered k fetch (.error e) = (none, [.failed e.message]) := if_pos hwaits
      rw [hfailed]
      intro s hs
      rcases List.mem_cons.mp hs with rfl | hs
      · refine ⟨⟨t.fetch, hcurrent.fetch, ?_⟩, by simp [Story.isOver, News.isFarewell],
          fun n hn => by simp [hcurrent.silenced] at hn⟩
        simpa [hstory] using Tells.failed (hwaits.2 ▸ hanswer)
      · exact holder s hs
  · have hother : t.answered k fetch result = (some t, []) := if_neg hwaits
    rw [hother]
    exact h.mono hmore

/-- Steps that act on seats keep stories and seats together, if they do for each seat. -/
theorem Follows.act {o : Option Seat} {act : Seat → Option Seat × List News}
    (h : Follows answers stories o)
    (hmore : ∀ fetch r, answers.find? fetch = some r → answers'.find? fetch = some r)
    (hact : ∀ t, o = some t → Follows answers stories (some t) →
      Follows answers' ((act t).2.foldl Story.tell stories) (act t).1) :
    Follows answers' (((o.map fun t => (act t).2).getD []).foldl Story.tell stories)
      (o.bind fun t => (act t).1) := by
  cases o with
  | none => exact h.mono hmore
  | some t => exact hact t rfl h

end Following

namespace Sample

/-- A broker that knows the source of the instrument and has nothing stored. -/
def replayBroker : Broker := { ids := .fresh, registry }

/-- A subscription to the first two days. -/
def subscription (x : UInt32) : Subscription where
  instrument := instrument
  frequency := .oneDay
  start := midnight 1
  stop := midnight 2
  requestId := x

/-- A reply that has the bar of a day. -/
def replyWith (day : Int) : Reply := ⟨request 1 2, [bar day]⟩

/--
A feed is torn down and founded again before its first fetch is answered, and the late
answer comes before the other one. A second reader joins when bars were told already.
-/
def replayRun : List Broadcast.Move :=
  [.subscribe 0 0 (subscription 7), .cancel 7, .subscribe 0 0 (subscription 7),
    .answer key (number 1) (.ok (replyWith 9)), .answer key (number 2) (.ok (replyWith 1)),
    .fire .oneDay, .subscribe 0 0 (subscription 8), .fire .oneDay]

end Sample

namespace Broadcast

/-! ### The whole broadcast -/

/--
A broadcast in good order: the tables agree, a fetch is awaited or was answered and not
both, each seat has its fetch behind it, and the stories of each request id fit its seat.
-/
structure Sound (w : Broadcast) : Prop where
  consistent : w.simulator.Consistent
  numbers : (w.awaited.map (·.2) ++ w.answers.keys).Perm w.fetches
  backed : ∀ x t, w.simulator.seat? x = some t → t.Backed w.awaited w.answers
  follows : ∀ x, Follows w.answers (w.stories x) (w.simulator.seat? x)

section Stepping

variable {w : Broadcast}

theorem sound_start (b : Broker) : (start b).Sound where
  consistent := Simulator.consistent_empty rfl rfl fun _ => rfl
  numbers := List.Perm.nil
  backed := fun x t ht => by cases ht
  follows := fun x story hstory => by cases hstory

theorem Sound.inPlace (h : w.Sound) {x : UInt32} {t : Seat} (ht : w.simulator.seat? x = some t) :
    t.subscriber.InPlace t.bars :=
  h.consistent.toTidy.seat_inPlace ht

/-- A seat whose fetch is awaited has no bars yet. -/
theorem Sound.bars_eq_none (h : w.Sound) (hfetches : w.fetches.Nodup) {x : UInt32} {t : Seat}
    (ht : w.simulator.seat? x = some t) {k : SeriesKey} (hawaited : (k, t.fetch) ∈ w.awaited) :
    t.bars = none := by
  have hbacked := h.backed x t ht
  unfold Seat.Backed at hbacked
  cases hbars : t.bars with
  | none => rfl
  | some bars =>
    rw [hbars] at hbacked
    obtain ⟨reply, hreply, -⟩ := hbacked
    have hanswered : t.fetch ∈ w.answers.keys :=
      Table.mem_keys.mpr (Table.contains_iff.mpr ⟨_, hreply⟩)
    exact absurd hanswered ((List.nodup_append'.mp (h.numbers.nodup_iff.mpr hfetches)).2.2
      (List.mem_map_of_mem hawaited))

theorem stories_tell (w : Broadcast) (step : Simulator × List Event) (x : UInt32) :
    (w.tell step).stories x = (heard x step.2).foldl Story.tell (w.stories x) := by
  show (w.log ++ step.2.map Occurrence.told).foldl (Story.read x) [] = _
  rw [List.foldl_append, Story.foldl_read_told]
  rfl

theorem Sound.joined (h : w.Sound) {now : Instant} {clock : Nat} {r : Subscription} {k : SeriesKey}
    {s : Simulator} {b : Broker} {joined : Simulator.Joined}
    (hkey : (Simulator.fetchFor r).key? = some k)
    (htaken : w.simulator.subscribe w.broker now clock r = .ok (s, b, joined)) :
    (w.welcome k r.requestId s b joined).Sound := by
  obtain ⟨j, feed, schedule, hj, hindex, hfeed, rfl, -, hschedule, hfetch⟩ :=
    Simulator.subscribe_cases htaken
  obtain rfl := Option.some.inj (hkey.symm.trans hj)
  have hseat : ∀ y, (w.welcome k r.requestId (w.simulator.seated k feed r.requestId schedule) b
      joined).simulator.seat? y = if y = r.requestId then
        some ⟨k, feed.fetch, feed.bars, feed.newcomer⟩ else w.simulator.seat? y :=
    h.consistent.seat?_seated hfeed schedule
  have hnone := h.consistent.toTidy.seat?_eq_none.mpr hindex
  constructor
  · exact h.consistent.seated hindex hfeed hschedule
  · rcases hfetch with ⟨a, -, -, hfetch, -⟩ | ⟨-, -, hfetch⟩
    · have hperm := (h.numbers.cons a.assignedId).trans (List.perm_append_singleton _ _).symm
      simpa [welcome, hfetch] using hperm
    · simpa [welcome, hfetch] using h.numbers
  · intro y t ht
    rw [hseat] at ht
    split at ht
    · cases ht
      rcases hfetch with ⟨a, -, -, hfetch, rfl⟩ | ⟨hthere, -, hfetch⟩
      · show (k, a.assignedId) ∈ joined.fetch.toList.map _ ++ w.awaited
        simp [hfetch]
      · -- somebody else sits in the feed already
        obtain ⟨z, hz⟩ := h.consistent.inhabited hthere
        obtain ⟨subscriber, hsubscriber⟩ := Table.contains_iff.mp hz
        have hbacked := h.backed z _ (h.consistent.toTidy.seat?_of_find? hthere hsubscriber)
        simpa [Seat.Backed, welcome, hfetch] using hbacked
    · exact (h.backed y t ht).mono (fun e he => List.mem_append_right _ he) fun _ _ => id
  · intro y
    have hstories : (w.welcome k r.requestId (w.simulator.seated k feed r.requestId schedule) b
        joined).stories y = if r.requestId = y then ⟨some feed.fetch, [], none⟩ :: w.stories y
          else w.stories y := by
      have hjoined := hseat r.requestId
      simp only [welcome] at hjoined
      simp [stories, welcome, List.foldl_append, Story.read, hjoined]
    rw [hstories, hseat]
    by_cases hy : y = r.requestId
    · subst hy
      rw [if_pos rfl, if_pos rfl]
      have hfollows : Follows w.answers (w.stories r.requestId) none :=
        hnone ▸ h.follows r.requestId
      exact hfollows.join (t := ⟨k, feed.fetch, feed.bars, feed.newcomer⟩) rfl
    · rw [if_neg hy, if_neg (Ne.symm hy)]
      exact h.follows y

theorem Sound.cancelled (h : w.Sound) (x : UInt32) : Sound { w with
    simulator := (w.simulator.cancel x).1
    log := w.log ++ if (w.simulator.cancel x).2 then [.cancelled x] else [] } := by
  have hseat := fun y => (h.consistent.seat?_cancel x y).1
  constructor
  · exact h.consistent.cancel x
  · exact h.numbers
  · intro y t ht
    have ht := (hseat y).symm.trans ht
    split at ht
    · cases ht
    · exact h.backed y t ht
  · intro y
    show Follows w.answers (List.foldl (Story.read y) [] _) ((w.simulator.cancel x).1.seat? y)
    rw [hseat, (h.consistent.seat?_cancel x y).2, List.foldl_append]
    have hfollows : Follows w.answers (w.log.foldl (Story.read y) []) (w.simulator.seat? y) :=
      h.follows y
    cases ht : w.simulator.seat? x with
    | none =>
      have hsame : (if y = x then none else w.simulator.seat? y) = w.simulator.seat? y := by
        split
        · rename_i hy
          rw [hy, ht]
        · rfl
      simpa [hsame] using hfollows
    | some t =>
      by_cases hy : y = x
      · subst hy
        simpa [Story.read] using hfollows.hush fun t ht => ⟨h.backed y t ht, h.inPlace ht⟩
      · simpa [Story.read, hy, Ne.symm hy] using hfollows

theorem Sound.answered (h : w.Sound) (hfetches : w.fetches.Nodup) {k : SeriesKey}
    {fetch : AssignedId} (hawaited : (k, fetch) ∈ w.awaited) (result : Except BrokerError Reply) :
    ((w.hear k fetch result).tell (w.simulator.fill k fetch result)).Sound := by
  have hnodup := h.numbers.nodup_iff.mpr hfetches
  have hunanswered : fetch ∉ w.answers.keys :=
    (List.nodup_append'.mp hnodup).2.2 (List.mem_map_of_mem hawaited)
  have hmore : ∀ fetch' r, w.answers.find? fetch' = some r →
      (w.answers.insert fetch result).find? fetch' = some r := by
    intro fetch' r hr
    rw [Table.find?_insert, if_neg, hr]
    rintro rfl
    exact hunanswered (Table.mem_keys.mpr (Table.contains_iff.mpr ⟨r, hr⟩))
  have hanswer : (w.answers.insert fetch result).find? fetch = some result := by
    rw [Table.find?_insert, if_pos rfl]
  have hopen : ∀ x t, w.simulator.seat? x = some t → t.key = k → t.fetch = fetch →
      t.bars = none := by
    rintro x t ht rfl rfl
    exact h.bars_eq_none hfetches ht hawaited
  have hunfilled : ∀ feed, w.simulator.feeds.find? k = some feed → feed.fetch = fetch →
      feed.bars = none := by
    rintro feed hfeed rfl
    obtain ⟨x, hx⟩ := h.consistent.inhabited hfeed
    obtain ⟨subscriber, hsubscriber⟩ := Table.contains_iff.mp hx
    exact hopen x _ (h.consistent.toTidy.seat?_of_find? hfeed hsubscriber) rfl rfl
  have hacts := h.consistent.fill_acts hunfilled result
  constructor
  · exact hacts.consistent
  · have hkeys : (w.answers.insert fetch result).keys = w.answers.keys ++ [fetch] :=
      (Table.keys_put fetch result w.answers.entries).trans (if_neg hunanswered)
    show ((w.awaited.erase (k, fetch)).map (·.2) ++ (w.answers.insert fetch result).keys).Perm
      w.fetches
    rw [hkeys, ← List.append_assoc]
    have htaken := ((List.perm_cons_erase hawaited).map (·.2)).append_right w.answers.keys
    exact (List.perm_append_singleton _ _).trans (htaken.symm.trans h.numbers)
  · intro x t' ht'
    obtain ⟨t, ht, hseat⟩ := Option.bind_eq_some_iff.mp ((hacts.seats x).symm.trans ht')
    exact (h.backed x t ht).answered hmore hanswer hseat
  · intro x
    rw [stories_tell]
    show Follows _ ((heard x (w.simulator.fill k fetch result).2).foldl Story.tell (w.stories x))
      ((w.simulator.fill k fetch result).1.seat? x)
    rw [hacts.news x, hacts.seats x]
    exact (h.follows x).act hmore fun t ht hfollows =>
      hfollows.answered (h.inPlace ht) (hopen x t ht) hmore hanswer

theorem Sound.fired (h : w.Sound) (f : Frequency) : (w.tell (w.simulator.tick f)).Sound := by
  have hacts := h.consistent.tick_acts f
  constructor
  · exact hacts.consistent
  · exact h.numbers
  · intro x t' ht'
    obtain ⟨t, ht, hfired⟩ := Option.bind_eq_some_iff.mp ((hacts.seats x).symm.trans ht')
    exact (h.backed x t ht).fired hfired
  · intro x
    rw [stories_tell]
    show Follows w.answers ((heard x (w.simulator.tick f).2).foldl Story.tell (w.stories x))
      ((w.simulator.tick f).1.seat? x)
    rw [hacts.news x, hacts.seats x]
    exact (h.follows x).act (fun _ _ => id) fun t ht hfollows =>
      hfollows.fired (h.backed x t ht) (h.inPlace ht) f

theorem Sound.ended (h : w.Sound) :
    Sound { w with simulator := w.simulator.shutDown, log := w.log ++ [.ended] } where
  consistent := Simulator.consistent_empty rfl rfl w.simulator.schedule.isActive_clear
  numbers := h.numbers
  backed := fun x t ht => by cases ht
  follows := fun x => by
    show Follows w.answers ((w.log ++ [Occurrence.ended]).foldl (Story.read x) []) none
    rw [List.foldl_append]
    exact (h.follows x).hush fun t ht => ⟨h.backed x t ht, h.inPlace ht⟩

theorem Sound.rescheduled (h : w.Sound) {schedule : Schedule}
    (hsame : ∀ f, schedule.isActive f = w.simulator.schedule.isActive f) :
    (w.reschedule schedule).Sound where
  consistent := { h.consistent with
    scheduled := fun f => by
      show schedule.isActive f = true ↔ _
      rw [hsame]
      exact h.consistent.scheduled f }
  numbers := h.numbers
  backed := h.backed
  follows := h.follows

theorem Sound.step {w' : Broadcast} {m : Move} (h : w.Sound) (hfetches : w.fetches.Nodup)
    (hstep : w.step? m = some w') : w'.Sound := by
  cases makes_of_step hstep with
  | joined hkey htaken => exact h.joined hkey htaken
  | declined => exact h
  | cancelled => exact h.cancelled _
  | answered hawaited => exact h.answered hfetches hawaited _
  | fired => exact h.fired _
  | ended => exact h.ended
  | looked => exact h.rescheduled w.simulator.schedule.isActive_nextDeadline
  | woken => exact h.rescheduled (w.simulator.schedule.isActive_popDue _)
  | elsewhere => exact ⟨h.consistent, h.numbers, h.backed, h.follows⟩

end Stepping

/-- A run whose fetches have different numbers keeps a broadcast in good order. -/
theorem sound_of_run {b : Broker} {moves : List Move} {w : Broadcast}
    (hrun : (start b).run? moves = some w) (hfetches : w.fetches.Nodup) : w.Sound := by
  refine run?_induction (P := fun w => w.fetches.Nodup → w.Sound) ?_ (fun _ => sound_start b) hrun
    hfetches
  intro v m v' hv hstep hnodup
  have hbefore := hnodup.sublist (fetches_step hstep).sublist
  exact (hv hbefore).step hbefore hstep

/-- The request id streams bars of this frequency. -/
def Streams (w : Broadcast) (x : UInt32) (f : Frequency) : Prop :=
  w.simulator.state? x = some .streaming ∧
    ∃ k, w.simulator.index.find? x = some k ∧ k.frequency = f

/--
Every subscription is served as it should be: it is told what the fetch of the feed that it
joined brought, and nothing once it is silenced; it is there as long as it is not over; a
firing has one piece of news for whoever streams at its frequency and none for anybody
else; and the answer to a fetch that no feed waits for changes nothing.
-/
structure Faithful (w : Broadcast) : Prop where
  told : ∀ x, ∀ story ∈ w.stories x, ∃ fetch, story.fetch = some fetch ∧
    Tells (w.answers.find? fetch) story.news
  silent : ∀ x, ∀ story ∈ w.stories x, ∀ n, story.silenced = some n → story.news.length = n
  present : ∀ x, w.simulator.index.contains x = true ↔
    ∃ story older, w.stories x = story :: older ∧ story.isOver = false
  fired : ∀ f x, w.Streams x f → ∃ n, heard x (w.simulator.tick f).2 = [n] ∧
    ((∃ b, n = .bar b) ∨ n = .exhausted)
  unfired : ∀ f x, ¬ w.Streams x f → heard x (w.simulator.tick f).2 = []
  stale : ∀ k fetch result, (∀ feed, w.simulator.feeds.find? k = some feed → feed.fetch ≠ fetch) →
    w.simulator.fill k fetch result = (w.simulator, [])

section Serving

variable {w : Broadcast}

/-- A seat has news waiting just if its holder streams at the frequency. -/
theorem Sound.streams_iff (h : w.Sound) (x : UInt32) (f : Frequency) :
    w.Streams x f ↔ ∃ t told, w.simulator.seat? x = some t ∧ t.next? f = some told := by
  unfold Streams
  rw [Simulator.state?_eq]
  constructor
  · rintro ⟨hstate, k, hindex, hfrequency⟩
    obtain ⟨t, ht, hstate⟩ := Option.map_eq_some_iff.mp hstate
    obtain ⟨-, hkey, -⟩ := Simulator.seat?_eq_some.mp ht
    obtain rfl := Option.some.inj (hkey.symm.trans hindex)
    have hplace := h.inPlace ht
    cases hbars : t.bars with
    | none =>
      rw [hbars] at hplace
      cases hstate.symm.trans hplace.1
    | some bars =>
      obtain ⟨told, htold⟩ := Subscriber.next_of_streaming hstate bars
      exact ⟨t, told, ht, by simp [Seat.next?, hfrequency, hbars, htold]⟩
  · rintro ⟨t, told, ht, hnext⟩
    obtain ⟨-, hkey, -⟩ := Simulator.seat?_eq_some.mp ht
    obtain ⟨bars, hbars, -⟩ := Seat.next?_cases (h.inPlace ht) hnext
    have hplace := h.inPlace ht
    rw [hbars] at hplace
    refine ⟨by simp [ht, hplace.1], t.key, hkey, ?_⟩
    unfold Seat.next? at hnext
    split at hnext
    · assumption
    · cases hnext

/-- A firing tells every request id what is waiting for it. -/
theorem Sound.heard_tick (h : w.Sound) (x : UInt32) (f : Frequency) :
    heard x (w.simulator.tick f).2
      = (((w.simulator.seat? x).bind (·.next? f)).map (·.1)).toList := by
  rw [(h.consistent.tick_acts f).news x]
  cases w.simulator.seat? x with
  | none => rfl
  | some t => cases hnext : t.next? f <;> simp [Seat.fired, hnext]

theorem Sound.story_cases (h : w.Sound) {x : UInt32} {story : Story}
    (hstory : story ∈ w.stories x) :
    (∃ t, w.simulator.seat? x = some t ∧ story.Current t) ∨ story.Closed w.answers := by
  have hfollows := h.follows x
  cases ht : w.simulator.seat? x with
  | none =>
    rw [ht] at hfollows
    exact Or.inr (hfollows story hstory)
  | some t =>
    rw [ht] at hfollows
    obtain ⟨current, older, hstories, hcurrent, holder⟩ := hfollows
    rw [hstories] at hstory
    rcases List.mem_cons.mp hstory with rfl | hstory
    · exact Or.inl ⟨t, rfl, hcurrent⟩
    · exact Or.inr (holder story hstory)

theorem Sound.faithful (h : w.Sound) : w.Faithful where
  told := by
    intro x story hstory
    rcases h.story_cases hstory with ⟨t, ht, hcurrent⟩ | hclosed
    · exact ⟨t.fetch, hcurrent.fetch, hcurrent.tells (h.backed x t ht) (h.inPlace ht)⟩
    · exact hclosed.told
  silent := by
    intro x story hstory n hn
    rcases h.story_cases hstory with ⟨t, ht, hcurrent⟩ | hclosed
    · cases hcurrent.silenced.symm.trans hn
    · exact hclosed.silent n hn
  present := by
    intro x
    have hfollows := h.follows x
    have hnone := h.consistent.toTidy.seat?_eq_none (x := x)
    cases ht : w.simulator.seat? x with
    | none =>
      rw [ht] at hfollows
      rw [Table.contains, hnone.mp ht]
      constructor
      · intro hthere
        cases hthere
      rintro ⟨story, older, hstories, hopen⟩
      have hclosed := hfollows story (hstories ▸ List.mem_cons_self)
      cases hopen.symm.trans hclosed.ended
    | some t =>
      rw [ht] at hfollows
      obtain ⟨current, older, hstories, hcurrent, -⟩ := hfollows
      obtain ⟨-, hkey, -⟩ := Simulator.seat?_eq_some.mp ht
      exact ⟨fun _ => ⟨current, older, hstories, hcurrent.isOver⟩, fun _ => by
        rw [Table.contains, hkey]
        rfl⟩
  fired := by
    intro f x hstreams
    obtain ⟨t, told, ht, hnext⟩ := (h.streams_iff x f).mp hstreams
    refine ⟨told.1, by simp [h.heard_tick, ht, hnext], ?_⟩
    obtain ⟨bars, -, ⟨b, -, rfl⟩ | ⟨-, rfl⟩⟩ := Seat.next?_cases (h.inPlace ht) hnext
    · exact Or.inl ⟨b, rfl⟩
    · exact Or.inr rfl
  unfired := by
    intro f x hidle
    rw [h.heard_tick]
    cases hnext : (w.simulator.seat? x).bind (·.next? f) with
    | none => rfl
    | some told =>
      obtain ⟨t, ht, hnext⟩ := Option.bind_eq_some_iff.mp hnext
      exact absurd ((h.streams_iff x f).mpr ⟨t, told, ht, hnext⟩) hidle
  stale := by
    intro k fetch result hother
    unfold Simulator.fill
    split
    · rfl
    · rename_i feed hfeed
      exact if_pos (hother feed hfeed)

end Serving

/--
**At any time of any run the tables of the simulator agree**: a request id is filed under a
key just if it is a subscriber of the feed of this key, and of no other; each feed has
subscribers; the frequencies that fire are those that have feeds; and subscribers wait at
the start of a feed without bars, and stream from within the bars of any other.
-/
theorem consistent_of_run {b : Broker} {moves : List Move} {w : Broadcast}
    (hrun : (start b).run? moves = some w) (hissued : w.issued ≤ 2 ^ 64) :
    w.simulator.Consistent ∧
      ∀ x j k, w.simulator.Subscribes x j → w.simulator.Subscribes x k → j = k := by
  have hsound := sound_of_run hrun (nodup_of_issued hrun hissued)
  exact ⟨hsound.consistent, fun x j k => hsound.consistent.toTidy.subscribes_unique⟩

/-- When a late answer has come and all readers but one have left, the tables agree. -/
theorem consistent_after_late_answer :
    ∃ w, (start Sample.replayBroker).run? Sample.replayRun = some w ∧ w.issued ≤ 2 ^ 64 ∧
      w.simulator.index.keys = [8] ∧ w.simulator.replaying = [.oneDay] ∧ w.simulator.Consistent ∧
      ∀ x j k, w.simulator.Subscribes x j → w.simulator.Subscribes x k → j = k := by
  obtain ⟨w, hrun, hissued, hindex, hreplaying⟩ :
      ∃ w, (start Sample.replayBroker).run? Sample.replayRun = some w ∧ w.issued ≤ 2 ^ 64 ∧
        w.simulator.index.keys = [8] ∧ w.simulator.replaying = [.oneDay] :=
    ⟨_, rfl, by decide, rfl, rfl⟩
  exact ⟨w, hrun, hissued, hindex, hreplaying, consistent_of_run hrun hissued⟩

/--
**Every subscription hears its series, whole and in order**: along every run, what any
subscription was told is the bars of the reply to the fetch of its feed from the first one
on, without a gap or a repetition; that there are no more, after the last of them; or that
the fetch failed, and then nothing else.
-/
theorem faithful_of_run {b : Broker} {moves : List Move} {w : Broadcast}
    (hrun : (start b).run? moves = some w) (hissued : w.issued ≤ 2 ^ 64) : w.Faithful :=
  (sound_of_run hrun (nodup_of_issued hrun hissued)).faithful

/--
A feed is torn down and founded again before the first fetch is answered; a second reader
joins when the first one has all bars already.
-/
theorem faithful_after_late_answer :
    ∃ w, (start Sample.replayBroker).run? Sample.replayRun = some w ∧ w.issued ≤ 2 ^ 64 ∧
      w.stories 7 = [⟨some (Sample.number 2), [.bar (Sample.bar 1), .exhausted], none⟩,
        ⟨some (Sample.number 1), [], some 0⟩] ∧
      w.stories 8 = [⟨some (Sample.number 2), [.bar (Sample.bar 1)], none⟩] ∧ w.Faithful := by
  obtain ⟨w, hrun, hissued, hseven, height⟩ :
      ∃ w, (start Sample.replayBroker).run? Sample.replayRun = some w ∧ w.issued ≤ 2 ^ 64 ∧
        w.stories 7 = [⟨some (Sample.number 2), [.bar (Sample.bar 1), .exhausted], none⟩,
          ⟨some (Sample.number 1), [], some 0⟩] ∧
        w.stories 8 = [⟨some (Sample.number 2), [.bar (Sample.bar 1)], none⟩] :=
    ⟨_, rfl, by decide, rfl, rfl⟩
  exact ⟨w, hrun, hissued, hseven, height, faithful_of_run hrun hissued⟩

end Broadcast

end BarArchive
