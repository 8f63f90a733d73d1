/-
What a plan covers.

A plan is made from the ends of the stored range. **Each of its gaps lies beyond one of
them, so no stored range is fetched again; the gaps do not meet; and what the request asks
for is in a gap or in the stored range, but for less than half a bar at either end.** Only
an instrument that has expired, and whose bars go on until then, is not followed any
further.

The planner computes the instants next to the stored range whenever the request goes
beyond it, whether or not a gap comes of them. No plan is made just if one of those is
not in the calendar.
-/
import BarArchive.Proofs.Completeness

namespace BarArchive

open Tape (gapsOf)

/-- The bars of some days, as a plan sees them. -/
def Sample.daysStored (first last : Int) : Coverage :=
  ⟨1, .oneDay, Sample.midnight first, Sample.midnight last⟩

namespace Gap

/-- The instants of a gap, both ends included. -/
def Spans (g : Gap) (t : Instant) : Prop := g.start ≤ t ∧ t ≤ g.stop

/-- A gap that goes from an end of the requested range to the stored one. -/
structure Extends (g : Gap) (r : Request) (c : Coverage) : Prop where
  ordered : g.start ≤ g.stop
  fromStart : g.side = .backfill → g.start = r.start
  toStop : g.side = .forwardFill → g.stop = r.stop
  beyond : ∀ t, g.Spans t → ¬ (c.earliest ≤ t ∧ t ≤ c.latest)

end Gap

namespace Route

variable {r : Request} {c : Coverage} {now : Instant} {g : Gap}

/-- The instrument has expired, and the stored bars go on until then. -/
def Finished (r : Request) (c : Coverage) (now : Instant) : Prop :=
  ∃ expiration, r.instrument.expiration = some expiration ∧
    expiration ≤ now ∧ expiration ≤ c.latest

theorem isComplete_iff : isComplete r c now = true ↔ Finished r c now := by
  unfold isComplete Finished
  cases r.instrument.expiration with
  | none => simp
  | some expiration => simp [Coverage.reaches]

/-! ### The gap on either side -/

theorem backfill?_eq_some : backfill? r c = some g ↔
    g = ⟨.backfill, r.start, c.earliest - r.frequency.halfBar⟩ ∧
      r.start ≤ c.earliest - r.frequency.halfBar := by
  have hhalf : (0 : Int) < r.frequency.halfBar := Int.natCast_pos.mpr r.frequency.halfBar_pos
  unfold backfill?
  simp only [Option.ite_none_right_eq_some, Option.some.injEq]
  constructor
  · rintro ⟨⟨-, hwide⟩, rfl⟩
    exact ⟨rfl, hwide⟩
  · rintro ⟨rfl, hwide⟩
    exact ⟨⟨by grind, hwide⟩, rfl⟩

theorem forwardFill?_eq_some : forwardFill? r c now = some g ↔
    g = ⟨.forwardFill, c.latest + r.frequency.halfBar, r.stop⟩ ∧
      c.latest + r.frequency.halfBar ≤ r.stop ∧ ¬ Finished r c now := by
  have hhalf : (0 : Int) < r.frequency.halfBar := Int.natCast_pos.mpr r.frequency.halfBar_pos
  unfold forwardFill?
  rw [← isComplete_iff]
  simp only [Option.ite_none_right_eq_some, Option.some.injEq, Bool.not_eq_true']
  constructor
  · rintro ⟨⟨-, hopen, hwide⟩, rfl⟩
    exact ⟨rfl, hwide, by simp [hopen]⟩
  · rintro ⟨rfl, hwide, hopen⟩
    exact ⟨⟨by grind, Bool.eq_false_iff.mpr hopen, hwide⟩, rfl⟩

theorem mem_gapsOf_iff : g ∈ gapsOf r c now ↔
    backfill? r c = some g ∨ forwardFill? r c now = some g := by
  unfold gapsOf
  rw [List.mem_append, Option.mem_toList, Option.mem_toList]

/-! ### All gaps of a plan -/

/-- There is at most one gap on each side. -/
theorem nodup_sides_gapsOf : ((gapsOf r c now).map Gap.side).Nodup := by
  unfold gapsOf
  cases hback : backfill? r c with
  | none => cases forwardFill? r c now <;> simp
  | some g =>
      cases hforward : forwardFill? r c now with
      | none => simp
      | some g' =>
          obtain ⟨rfl, -⟩ := backfill?_eq_some.mp hback
          obtain ⟨rfl, -⟩ := forwardFill?_eq_some.mp hforward
          simp

theorem length_gapsOf_le : (gapsOf r c now).length ≤ 2 := by
  unfold gapsOf
  rw [List.length_append]
  exact Nat.add_le_add Option.length_toList_le Option.length_toList_le

theorem extends_of_mem_gapsOf (hg : g ∈ gapsOf r c now) : g.Extends r c := by
  have hhalf : (0 : Int) < r.frequency.halfBar := Int.natCast_pos.mpr r.frequency.halfBar_pos
  rcases mem_gapsOf_iff.mp hg with hback | hforward
  · obtain ⟨rfl, hwide⟩ := backfill?_eq_some.mp hback
    refine ⟨hwide, fun _ => rfl, nofun, ?_⟩
    rintro t ⟨-, hstop⟩ ⟨hearliest, -⟩
    have hbelow : t ≤ c.earliest - r.frequency.halfBar := hstop
    grind
  · obtain ⟨rfl, hwide, -⟩ := forwardFill?_eq_some.mp hforward
    refine ⟨hwide, nofun, fun _ => rfl, ?_⟩
    rintro t ⟨hstart, -⟩ ⟨-, hlatest⟩
    have habove : c.latest + r.frequency.halfBar ≤ t := hstart
    grind

theorem disjoint_gapsOf (hc : c.earliest ≤ c.latest) :
    (gapsOf r c now).Pairwise fun g g' => ∀ t, ¬ (g.Spans t ∧ g'.Spans t) := by
  refine (Tape.pairwise_gapsOf hc).imp ?_
  rintro g g' happart t ⟨⟨-, hstop⟩, ⟨hstart, -⟩⟩
  grind

/-- An instant that is stored, or less than half a bar from the stored range. -/
def Near (r : Request) (c : Coverage) (t : Instant) : Prop :=
  c.earliest - r.frequency.halfBar < t ∧ t < c.latest + r.frequency.halfBar

/-- What is asked for is in a gap, or near the stored range, or after the last bar there will be. -/
theorem gap_or_near {t : Instant} (hstart : r.start ≤ t) (hstop : t ≤ r.stop) :
    (∃ g ∈ gapsOf r c now, g.Spans t) ∨ Near r c t ∨ (c.latest < t ∧ Finished r c now) := by
  have hhalf : (0 : Int) < r.frequency.halfBar := Int.natCast_pos.mpr r.frequency.halfBar_pos
  by_cases hbelow : t ≤ c.earliest - r.frequency.halfBar
  · refine Or.inl ⟨⟨.backfill, r.start, c.earliest - r.frequency.halfBar⟩, ?_, hstart, hbelow⟩
    exact mem_gapsOf_iff.mpr (Or.inl (backfill?_eq_some.mpr ⟨rfl, by grind⟩))
  · by_cases habove : c.latest + r.frequency.halfBar ≤ t
    · by_cases hfinished : Finished r c now
      · exact Or.inr (Or.inr ⟨by grind, hfinished⟩)
      · refine Or.inl ⟨⟨.forwardFill, c.latest + r.frequency.halfBar, r.stop⟩, ?_, habove, hstop⟩
        exact mem_gapsOf_iff.mpr
          (Or.inr (forwardFill?_eq_some.mpr ⟨rfl, by grind, hfinished⟩))
    · exact Or.inr (Or.inl ⟨by grind, by grind⟩)

/-! ### Plans -/

/-- A plan can be made unless the range goes beyond the stored one at the edge of the calendar. -/
theorem plan?_eq_none (hfresh : r.forceFresh = false) (hlocal : r.localOnly = false)
    (hpartial : r.instrument.allowsPartialFill = true) :
    plan? r (some c) now = none ↔
      ¬ (c.earliest ≤ r.start ∧ r.stop ≤ c.latest) ∧
        ∃ t ∈ brinks r c now, t.inCalendar = false := by
  have hcontains : c.contains r.start r.stop = true ↔ c.earliest ≤ r.start ∧ r.stop ≤ c.latest := by
    simp [Coverage.contains]
  rw [← hcontains]
  unfold plan? canPlan needsGaps
  rw [hfresh, hlocal, hpartial]
  cases hcontained : c.contains r.start r.stop <;> simp [hcontained]

/-- A plan that is made from a stored range is to serve it, or to fetch the gaps around it. -/
theorem gaps_of_plan? {route : Route} (hfresh : r.forceFresh = false)
    (hlocal : r.localOnly = false) (hpartial : r.instrument.allowsPartialFill = true)
    (hplan : plan? r (some c) now = some route) :
    (route = .stored ∧ (c.contains r.start r.stop = true ∨ gapsOf r c now = [])) ∨
      (route = .split (gapsOf r c now) ∧ gapsOf r c now ≠ []) := by
  have hroute : plan r (some c) now = route := by
    unfold plan? at hplan
    exact Option.some.inj (Option.ite_none_right_eq_some.mp hplan).2
  rcases Tape.plan_cases c now hfresh hlocal hpartial with ⟨hstored, hwhy⟩ | hsplit
  · exact Or.inl ⟨hroute.symm.trans hstored, hwhy⟩
  · refine Or.inr ⟨hroute.symm.trans hsplit, fun hnil => ?_⟩
    -- a plan with nothing to fetch is not a split
    unfold plan at hsplit
    unfold gapsOf at hnil
    simp only [hfresh, hlocal, hpartial, hnil] at hsplit
    cases hcontained : c.contains r.start r.stop <;> simp [hcontained] at hsplit

/--
**A plan covers the request and fetches nothing that is stored.** For every request that
is not told where to go, every stored range and every time: a plan is made unless the
request goes beyond the stored range at the edge of the calendar; a plan to split has one
or two gaps, at most one on each side, which do not meet, go from the ends of the requested
range and have no instant in common with the stored one; and each instant that is asked for
is in a gap, or less than half a bar from the stored range, or after the last bar of an
instrument that has expired and is stored until then.
-/
theorem plan_covers (now : Instant) (hfresh : r.forceFresh = false)
    (hlocal : r.localOnly = false)
    (hpartial : r.instrument.allowsPartialFill = true) (hc : c.earliest ≤ c.latest) :
    (plan? r (some c) now = none ↔
      ¬ (c.earliest ≤ r.start ∧ r.stop ≤ c.latest) ∧
        ∃ t ∈ brinks r c now, t.inCalendar = false) ∧
    ∀ route, plan? r (some c) now = some route → ∃ gaps : List Gap,
      (route = .stored ∧ gaps = [] ∨ route = .split gaps ∧ 1 ≤ gaps.length) ∧
      gaps.length ≤ 2 ∧ (gaps.map Gap.side).Nodup ∧ (∀ g ∈ gaps, g.Extends r c) ∧
      (gaps.Pairwise fun g g' => ∀ t, ¬ (g.Spans t ∧ g'.Spans t)) ∧
      ∀ t, r.start ≤ t → t ≤ r.stop →
        (∃ g ∈ gaps, g.Spans t) ∨ Near r c t ∨ (c.latest < t ∧ Finished r c now) := by
  have hhalf : (0 : Int) < r.frequency.halfBar := Int.natCast_pos.mpr r.frequency.halfBar_pos
  refine ⟨plan?_eq_none hfresh hlocal hpartial, fun route hplan => ?_⟩
  rcases gaps_of_plan? hfresh hlocal hpartial hplan with ⟨rfl, hwhy⟩ | ⟨rfl, hsome⟩
  · refine ⟨[], Or.inl ⟨rfl, rfl⟩, by simp, by simp, nofun, List.Pairwise.nil, ?_⟩
    intro t hstart hstop
    rcases hwhy with hcontains | hnil
    · have hcovers : c.earliest ≤ r.start ∧ r.stop ≤ c.latest := by
        simpa [Coverage.contains] using hcontains
      exact Or.inr (Or.inl ⟨by grind, by grind⟩)
    · rw [← hnil]
      exact gap_or_near hstart hstop
  · exact ⟨gapsOf r c now, Or.inr ⟨rfl, List.length_pos_of_ne_nil hsome⟩, length_gapsOf_le,
      nodup_sides_gapsOf, fun g => extends_of_mem_gapsOf, disjoint_gapsOf hc,
      fun t => gap_or_near⟩

/-- A request that goes beyond the stored days on both sides is split in two. -/
theorem covers_both_sides : ∃ gaps : List Gap,
    plan? (Sample.request 1 9) (some (Sample.daysStored 4 6)) 0 = some (.split gaps) ∧
      gaps.length = 2 ∧ (gaps.map Gap.side).Nodup ∧
      ∀ t, Sample.midnight 1 ≤ t → t ≤ Sample.midnight 9 → (∃ g ∈ gaps, g.Spans t) ∨
        Near (Sample.request 1 9) (Sample.daysStored 4 6) t := by
  obtain ⟨-, hcovers⟩ := plan_covers (r := Sample.request 1 9) (c := Sample.daysStored 4 6) 0
    rfl rfl rfl (by decide)
  obtain ⟨gaps, ⟨hstored, -⟩ | ⟨hsplit, -⟩, -, hsides, -, -, hspans⟩ := hcovers _ rfl
  · cases hstored
  · cases hsplit
    refine ⟨_, rfl, rfl, hsides, fun t hstart hstop => ?_⟩
    rcases hspans t hstart hstop with hgap | hnear | ⟨-, hfinished⟩
    · exact Or.inl hgap
    · exact Or.inr hnear
    · -- the instrument does not expire
      obtain ⟨_, hexpiration, -⟩ := hfinished
      cases hexpiration

end Route

end BarArchive
