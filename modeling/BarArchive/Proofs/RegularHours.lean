/-
Regular hours are a matter of the answer.

**A request for regular hours only is routed, fetched and stored like the same request for
all hours, whatever happens to it, and it is answered if and only if that one is.** A failure
is the same. A reply has the bars that the other reply has, all of them if they span a day or
more, and otherwise those that fall into a session of the instrument; without sessions that
is every bar.

An instant falls into a session if, around the clock, it comes no later after the opening
than the closing does. So a session may run past midnight, and instants before the epoch are
no exception.
-/
import BarArchive.Proofs.Toggling

namespace BarArchive

namespace Sample

/-- A request for hours before and after midnight, of an instrument that is traded at night. -/
def nightRequest : Request :=
  { regularRequest (-4) 4 with
    instrument := { instrument with
      sessions := [⟨⟨22 * 3600000000000, by decide⟩, ⟨2 * 3600000000000, by decide⟩⟩] } }

/-- A cache that has the bars of two hours in the evening. -/
def eveningCache : Cache :=
  { store := ⟨⟨[(⟨1, .oneHour⟩, [-4, -3].map fun h => (hour h, [hourBar h]))]⟩⟩ }

/-- The bars for the gap after the evening come, for the request that wants all of them. -/
def nightFill : Move :=
  .fetched (({ nightRequest with regularHoursOnly := false }.filed (number 1)).part
    (hour (-3) + Frequency.oneHour.halfBar) (hour 4) (number 2))
    (.ok ([-2, -1, 0, 1, 2, 3, 4].map hourBar))

end Sample

/-! ### Sessions -/

/-- The nanoseconds since midnight, of any instant. -/
def Instant.sinceMidnight (t : Instant) : Int := t % dayNanos

/-- Around the clock, an instant comes no later after the opening than the closing does. -/
def TradingSession.Spans (s : TradingSession) (t : Instant) : Prop :=
  (t.sinceMidnight - s.opens.nanos) % dayNanos ≤ (s.closes.nanos - s.opens.nanos : Int) % dayNanos

/-- An instant at which the instrument is traded regularly. -/
def Instrument.TradesAt (i : Instrument) (t : Instant) : Prop :=
  i.sessions = [] ∨ ∃ s ∈ i.sessions, s.Spans t

instance (s : TradingSession) (t : Instant) : Decidable (s.Spans t) :=
  inferInstanceAs (Decidable (_ ≤ _))

instance (i : Instrument) (t : Instant) : Decidable (i.TradesAt t) :=
  inferInstanceAs (Decidable (_ ∨ _))

theorem Instant.nanosOfDay_eq (t : Instant) : (t.nanosOfDay : Int) = t.sinceMidnight := by
  unfold Instant.nanosOfDay Instant.sinceMidnight
  rw [Int.fmod_eq_emod_of_nonneg t (Int.natCast_nonneg _)]
  exact Int.toNat_of_nonneg (Int.emod_nonneg t (by decide))

theorem TradingSession.contains_iff (s : TradingSession) (t : Instant) :
    s.contains t.nanosOfDay = true ↔ s.Spans t := by
  have hday : (dayNanos : Int) = 86400000000000 := rfl
  have hopens := Int.ofNat_lt.mpr s.opens.nanos_lt
  have hcloses := Int.ofNat_lt.mpr s.closes.nanos_lt
  have htime := Int.ofNat_lt.mpr t.nanosOfDay_lt
  unfold TradingSession.contains TradingSession.Spans
  rw [← t.nanosOfDay_eq]
  rw [hday] at *
  split
  · simp only [Bool.and_eq_true, decide_eq_true_eq]
    omega
  · simp only [Bool.or_eq_true, decide_eq_true_eq]
    omega

theorem Instrument.isRegular_iff (i : Instrument) (t : Instant) :
    i.isRegular t = true ↔ i.TradesAt t := by
  unfold Instrument.isRegular Instrument.TradesAt
  simp only [Bool.or_eq_true, List.isEmpty_iff, List.any_eq_true, TradingSession.contains_iff]

theorem Frequency.isIntraday_iff (f : Frequency) : f.isIntraday = true ↔ f.span < dayNanos := by
  cases f <;> decide

/-- The bars to be shown of a request for regular hours only. -/
def Request.inHours (r : Request) (bars : List Bar) : List Bar :=
  if dayNanos ≤ r.frequency.span then bars
  else bars.filter fun b => r.instrument.TradesAt b.time

theorem Broker.presented_regular {r : Request} (h : r.regularHoursOnly = true) (bars : List Bar) :
    presented r bars = r.inHours bars := by
  have hregular (b : Bar) :
      r.instrument.isRegular b.time = decide (r.instrument.TradesAt b.time) :=
    Bool.eq_iff_iff.mpr (by rw [Instrument.isRegular_iff, decide_eq_true_iff])
  unfold presented Request.inHours
  rw [h, Bool.true_and]
  simp only [hregular, Frequency.isIntraday_iff]
  split
  · rename_i hshort
    rw [if_neg (Nat.not_le.mpr hshort)]
  · rename_i hlong
    rw [if_pos (Nat.not_lt.mp hlong)]

namespace World

variable {p : AssignedId} {w w' : World}

/-! ### What is seen of the other wish -/

theorem answers_toggled (w : World) (q : AssignedId) : (w.toggled p).answers q =
    (w.answers q).map fun answer => if q = p then answer.map Reply.toggled else answer := by
  unfold World.answers World.toggled
  rw [List.filterMap_map, List.map_filterMap]
  refine List.filterMap_congr fun o _ => ?_
  cases o with
  | answer id result =>
      by_cases hid : id = q
      · subst hid
        simp [Outcome.toggled, Outcome.answerTo?]
      · simp [Outcome.toggled, Outcome.answerTo?, hid]
  | silent => rfl
  | violation cause => rfl
  | overflow => rfl

theorem sent_toggled (w : World) (q : AssignedId) :
    (w.toggled p).sent q = (w.sent q).map (Request.toggledFor p) := by
  have hall : (w.toggled p).allSent = w.allSent.map (Request.toggledFor p) := by
    unfold World.allSent World.toggled
    rw [List.map_append, List.map_map, List.map_map, List.filterMap_map, List.map_filterMap]
    congr 1
    refine List.filterMap_congr fun j _ => ?_
    cases j <;> rfl
  rw [← filter_allSent, ← filter_allSent, hall, List.filter_map]
  simp only [Function.comp_def, Request.owner?_toggledFor]

/-- A reply is for the request as it was filed. -/
theorem Orderly.request_of_reply (h : w.Orderly) {e : Request × Accepted} (he : e ∈ w.accepted)
    {reply : Reply} (hreply : .ok reply ∈ w.answers e.2.assignedId) : reply.request = e.1 := by
  have hlife := h.life e he
  have hmem : .ok reply ∈ (w.view e.2.assignedId).answers := hreply
  generalize w.view e.2.assignedId = v at hlife hmem
  cases hlife with
  | closed complete => exact (complete reply (List.mem_singleton.mp hmem).symm).1
  | failed => cases List.mem_singleton.mp hmem
  | serving => cases hmem
  | fetching => cases hmem
  | filling => cases hmem
  | stranded => cases hmem

/-- A run gives out at most three numbers with each move. -/
theorem length_issued_of_run {moves : List Move} : ∀ {w v : World}, w.run? moves = some v →
    v.issued.length ≤ w.issued.length + 3 * moves.length := by
  induction moves with
  | nil =>
      intro w v hrun
      cases hrun
      exact Nat.le_refl _
  | cons m moves ih =>
      intro w v hrun
      obtain ⟨u, hstep, hrest⟩ := run?_cons.mp hrun
      have hlater := ih hrest
      have hfirst : u.issued.length ≤ w.issued.length + 3 := by
        rcases step_cases hstep with ⟨now, r, a, b, -, hsubmit, rfl⟩ | ⟨haccepted, -⟩
        · have hids := length_ids (Broker.submit_cases hsubmit)
          rw [issued_enroll, List.length_append]
          omega
        · unfold issued
          rw [haccepted]
          exact Nat.le_add_right _ _
      rw [List.length_cons]
      omega

/-! ### The result -/

/-- The ranges of requests. -/
def ranges (requests : List Request) : List (Instant × Instant) :=
  requests.map fun q => (q.start, q.stop)

/--
The second world is that of the request `r` with the number `p` if it wants regular hours only,
and the first one that of the same request if it does not.
-/
structure Filtered (r : Request) (p : AssignedId) (w w' : World) : Prop where
  cache : w'.broker.cache = w.broker.cache
  sent : ranges (w'.sent p) = ranges (w.sent p)
  answers : w'.answers p = (w.answers p).map (Except.map fun reply =>
    ⟨{ r with regularHoursOnly := true }.filed p, r.inHours reply.bars⟩)
  others : ∀ q, q ≠ p → w'.answers q = w.answers q

theorem ranges_toggledFor (requests : List Request) :
    ranges (requests.map (Request.toggledFor p)) = ranges requests := by
  unfold ranges
  rw [List.map_map]
  refine List.map_congr_left fun q _ => ?_
  simp only [Function.comp_apply, Request.toggledFor]
  split <;> rfl

theorem filtered_toggled {r : Request} {a : Accepted} (h : w.Orderly)
    (he : ({ r with regularHoursOnly := false }.filed a.assignedId, a) ∈ w.accepted) :
    Filtered r a.assignedId w (w.toggled a.assignedId) := by
  refine ⟨rfl, ?_, ?_, fun q hq => ?_⟩
  · rw [sent_toggled, ranges_toggledFor]
  · rw [answers_toggled]
    refine List.map_congr_left fun answer hanswer => ?_
    rw [if_pos rfl]
    cases answer with
    | error e => rfl
    | ok reply =>
        have hrequest := h.request_of_reply he hanswer
        show Except.ok reply.toggled = .ok _
        unfold Reply.toggled
        rw [hrequest, Broker.presented_regular rfl]
        rfl
  · rw [answers_toggled]
    simp only [if_neg hq, List.map_id']

/-- Two runs of the same moves, with the one wish and with the other, are possible or none is. -/
theorem rel_run_toggled {moves : List Move} {R : World → World → Prop}
    (hall : w.broker.ShowsAll p) (hp : p ∈ w.issued)
    (hids : ∀ v, w.run? moves = some v → v.issued.Nodup)
    (hids' : ∀ v', (w.toggled p).run? (moves.map (Move.toggled p)) = some v' → v'.issued.Nodup)
    (hR : ∀ v, w.run? moves = some v → v.issued.Nodup → R v (v.toggled p)) :
    Option.Rel R (w.run? moves) ((w.toggled p).run? (moves.map (Move.toggled p))) := by
  cases hv : w.run? moves with
  | none =>
      cases hv' : (w.toggled p).run? (moves.map (Move.toggled p)) with
      | none => exact .none
      | some v' =>
          obtain ⟨v, hrun, -⟩ := (run_toggled hall hp (hids' v' hv')).mp hv'
          rw [hv] at hrun
          cases hrun
  | some v =>
      have hnodup : (v.toggled p).issued.Nodup := by
        rw [issued_toggled]
        exact hids v hv
      rw [(run_toggled hall hp hnodup).mpr ⟨v, hv, rfl⟩]
      exact .some (hR v hv (hids v hv))

end World

end BarArchive
