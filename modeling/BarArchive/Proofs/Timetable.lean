/-
The schedule is a timetable.

A timetable says of each frequency that is switched on when it fires next, and nothing
else. A schedule keeps more: its queue still holds the entries of frequencies that were
switched off, and of their earlier generations when they were switched on again. What the
two have in common is that a frequency that is on has exactly one entry of its generation,
at its deadline. This is so whatever is asked of them, and every answer is read off these
entries alone.

`popDue` takes all entries that are due at once. It comes to the same as taking them out
one at a time and putting each that counts back before the next one is looked at. That this
ends rests on every entry going back behind `now`.
-/
import BarArchive.Replay.Schedule
import Mathlib.Data.List.Sort
import Mathlib.Logic.Function.Basic

open scoped List

namespace BarArchive

namespace Schedule

/-- What can be asked of a schedule. -/
inductive Call where
  | activate (f : Frequency) (now : Nat)
  | deactivate (f : Frequency)
  | clear
  | nextDeadline
  | popDue (now : Nat)

/-- What a schedule answers. -/
inductive Answer where
  | changed (changed : Bool)
  | done
  | next (deadline : Option Nat)
  | due (frequencies : List Frequency)
deriving DecidableEq

/-- What a call makes of a schedule, and the answer. -/
def call (s : Schedule) : Call → Schedule × Answer
  | .activate f now => ((s.activate f now).1, .changed (s.activate f now).2)
  | .deactivate f => ((s.deactivate f).1, .changed (s.deactivate f).2)
  | .clear => (s.clear, .done)
  | .nextDeadline => (s.nextDeadline.1, .next s.nextDeadline.2)
  | .popDue now => ((s.popDue now).1, .due (s.popDue now).2)

end Schedule

/-! ### Timetables -/

/-- When each frequency fires next, if it is switched on. -/
abbrev Timetable := Frequency → Option Nat

namespace Timetable

/-- Everything is off. -/
def empty : Timetable := fun _ => none

/-- A frequency that is off fires one interval from now; one that is on is left alone. -/
def activate (d : Timetable) (f : Frequency) (now : Nat) : Timetable × Bool :=
  if (d f).isSome then (d, false)
  else (Function.update d f (some (now + f.replayInterval)), true)

/-- Switches a frequency off; says whether it was on. -/
def deactivate (d : Timetable) (f : Frequency) : Timetable × Bool :=
  (Function.update d f none, (d f).isSome)

/-- The deadlines with their frequencies. -/
def entries (d : Timetable) : List (Nat × Frequency) :=
  Frequency.all.filterMap fun f => (d f).map fun t => (t, f)

/-- The order of deadlines, and of frequencies where deadlines are the same. -/
def le (a b : Nat × Frequency) : Bool :=
  a.1 < b.1 || (a.1 == b.1 && a.2.number ≤ b.2.number)

/-- The earliest deadline. -/
def nextDeadline (d : Timetable) : Option Nat := (d.entries.map (·.1)).min?

/-- The frequencies whose deadline has come, in order. -/
def due (d : Timetable) (now : Nat) : List Frequency :=
  ((d.entries.filter fun a => a.1 ≤ now).mergeSort le).map (·.2)

/-- The timetable after all that is due was fired: one interval on, or one interval from now. -/
def advance (d : Timetable) (now : Nat) : Timetable := fun f => (d f).map fun t =>
  if now < t then t
  else if now < t + f.replayInterval then t + f.replayInterval
  else now + f.replayInterval

/-- What a call makes of a timetable, and the answer. -/
def call (d : Timetable) : Schedule.Call → Timetable × Schedule.Answer
  | .activate f now => ((d.activate f now).1, .changed (d.activate f now).2)
  | .deactivate f => ((d.deactivate f).1, .changed (d.deactivate f).2)
  | .clear => (empty, .done)
  | .nextDeadline => (d, .next d.nextDeadline)
  | .popDue now => (d.advance now, .due (d.due now))

variable {d : Timetable} {now : Nat}

theorem mem_entries {a : Nat × Frequency} : a ∈ d.entries ↔ d a.2 = some a.1 := by
  obtain ⟨t, f⟩ := a
  have hall : ∀ g : Frequency, g ∈ Frequency.all := by
    intro g
    cases g <;> decide
  unfold entries
  rw [List.mem_filterMap]
  constructor
  · rintro ⟨g, -, hg⟩
    obtain ⟨u, hu, heq⟩ := Option.map_eq_some_iff.mp hg
    cases heq
    exact hu
  · intro h
    exact ⟨f, hall f, by simp only [h, Option.map_some]⟩

/-- No frequency is listed twice. -/
theorem nodup_entries (d : Timetable) : (d.entries.map (·.2)).Nodup := by
  have hnames : d.entries.map (·.2) = Frequency.all.filter fun f => (d f).isSome := by
    unfold entries
    rw [List.map_filterMap, ← List.filterMap_eq_filter]
    refine List.filterMap_congr fun f _ => ?_
    cases h : d f <;> simp [Option.guard, h]
  rw [hnames]
  exact List.Nodup.filter _ (by decide)

theorem le_iff {a b : Nat × Frequency} :
    le a b = true ↔ a.1 < b.1 ∨ a.1 = b.1 ∧ a.2.number ≤ b.2.number := by
  unfold le
  simp only [Bool.or_eq_true, Bool.and_eq_true, decide_eq_true_eq, beq_iff_eq]

theorem le_trans {a b c : Nat × Frequency} (h : le a b = true) (h' : le b c = true) :
    le a c = true := by
  rw [le_iff] at *
  omega

theorem le_total (a b : Nat × Frequency) : (le a b || le b a) = true := by
  rw [Bool.or_eq_true, le_iff, le_iff]
  omega

theorem le_antisymm {a b : Nat × Frequency} (h : le a b = true) (h' : le b a = true) : a = b := by
  rw [le_iff] at h h'
  exact Prod.ext (by omega) (Frequency.number_injective (by omega))

/-- The frequencies that are due are those whose deadline has come, -/
theorem mem_due {f : Frequency} : f ∈ d.due now ↔ ∃ t, d f = some t ∧ t ≤ now := by
  unfold due
  simp only [List.mem_map, List.mem_mergeSort, List.mem_filter, mem_entries, decide_eq_true_eq]
  constructor
  · rintro ⟨a, ⟨ha, hle⟩, rfl⟩
    exact ⟨a.1, ha, hle⟩
  · rintro ⟨t, ht, hle⟩
    exact ⟨(t, f), ⟨ht, hle⟩, rfl⟩

/-- each of them once, -/
theorem nodup_due (d : Timetable) (now : Nat) : (d.due now).Nodup := by
  have hperm : (d.due now).Perm ((d.entries.filter fun a => a.1 ≤ now).map (·.2)) :=
    (List.mergeSort_perm _ le).map _
  rw [hperm.nodup_iff]
  exact (List.filter_sublist.map _).nodup d.nodup_entries

/-- in the order of their deadlines. -/
theorem sorted_due (d : Timetable) (now : Nat) : (d.due now).Pairwise fun f g =>
    ∀ t u, d f = some t → d g = some u → t < u ∨ (t = u ∧ f.number < g.number) := by
  have hnodup := d.nodup_due now
  unfold due at hnodup ⊢
  rw [List.Nodup, List.pairwise_map] at hnodup
  have hsorted := List.pairwise_mergeSort (fun a b c => le_trans (a := a) (b := b) (c := c))
    le_total (d.entries.filter fun a => a.1 ≤ now)
  rw [List.pairwise_map]
  refine (hsorted.and hnodup).imp_of_mem fun {a b} ha hb hab t u ht hu => ?_
  have hmem : ∀ {x : Nat × Frequency}, x ∈ (d.entries.filter fun a => a.1 ≤ now).mergeSort le →
      d x.2 = some x.1 := fun hx =>
    mem_entries.mp (List.mem_filter.mp (List.mem_mergeSort.mp hx)).1
  obtain rfl : a.1 = t := Option.some.inj ((hmem ha).symm.trans ht)
  obtain rfl : b.1 = u := Option.some.inj ((hmem hb).symm.trans hu)
  obtain ⟨hle, hne⟩ := hab
  have hnumber : a.2.number ≠ b.2.number := fun h => hne (Frequency.number_injective h)
  rw [le_iff] at hle
  omega

/-- What is known of entries whose frequencies differ is known of the timetable. -/
theorem perm_entries {as : List (Nat × Frequency)} (hnodup : (as.map (·.2)).Nodup)
    (hmem : ∀ a, a ∈ as ↔ d a.2 = some a.1) : as.Perm d.entries :=
  (List.perm_ext_iff_of_nodup hnodup.of_map d.nodup_entries.of_map).mpr fun a =>
    (hmem a).trans mem_entries.symm

theorem entries_empty : empty.entries = [] :=
  List.eq_nil_iff_forall_not_mem.mpr fun a ha => by
    have := mem_entries.mp ha
    unfold empty at this
    cases this

theorem entries_activate {f : Frequency} (hoff : d f = none) (t : Nat) :
    ((t, f) :: d.entries).Perm (entries (Function.update d f (some t))) := by
  have hnew : f ∉ d.entries.map (·.2) := by
    intro hf
    obtain ⟨a, ha, rfl⟩ := List.mem_map.mp hf
    rw [mem_entries.mp ha] at hoff
    cases hoff
  refine perm_entries (List.nodup_cons.mpr ⟨hnew, d.nodup_entries⟩) fun a => ?_
  rw [List.mem_cons, mem_entries, Function.update_apply]
  obtain ⟨u, g⟩ := a
  by_cases hg : g = f
  · subst hg
    simp only [hoff, Prod.mk.injEq, and_true, if_true, Option.some.injEq, reduceCtorEq, or_false]
    exact eq_comm
  · simp only [Prod.mk.injEq, hg, and_false, false_or, if_false]

theorem entries_deactivate (d : Timetable) (f : Frequency) :
    (d.entries.filter fun a => a.2 ≠ f).Perm (entries (d.deactivate f).1) := by
  refine perm_entries ((List.filter_sublist.map _).nodup d.nodup_entries) fun a => ?_
  rw [List.mem_filter, mem_entries]
  by_cases ha : a.2 = f <;> simp [deactivate, ha]

/-- An entry after all that is due was fired. -/
def moved (now : Nat) (a : Nat × Frequency) : Nat × Frequency :=
  (if now < a.1 then a.1 else Schedule.nextFiring a.2 a.1 now, a.2)

theorem advance_apply (d : Timetable) (now : Nat) (f : Frequency) :
    d.advance now f = (d f).map fun t => (moved now (t, f)).1 := by
  unfold advance moved Schedule.nextFiring
  refine congrFun (congrArg Option.map (funext fun t => ?_)) (d f)
  by_cases ht : t + f.replayInterval ≤ now
  · simp only [ht, if_true, Nat.not_lt.mpr ht, if_false]
  · simp only [ht, if_false, Nat.lt_of_not_le ht, if_true]

theorem entries_advance (d : Timetable) (now : Nat) :
    (d.entries.map (moved now)).Perm (entries (d.advance now)) := by
  have hnames : (d.entries.map (moved now)).map (·.2) = d.entries.map (·.2) := by
    rw [List.map_map]
    rfl
  refine perm_entries (hnames ▸ d.nodup_entries) fun a => ?_
  rw [List.mem_map, advance_apply, Option.map_eq_some_iff]
  constructor
  · rintro ⟨b, hb, rfl⟩
    exact ⟨b.1, mem_entries.mp hb, rfl⟩
  · rintro ⟨t, ht, hta⟩
    exact ⟨(t, a.2), mem_entries.mpr ht, Prod.ext hta rfl⟩

end Timetable

/-! ### The queue -/

namespace Firing

variable {a b c : Firing}

theorem before_iff : a.before b = true ↔ a.deadline < b.deadline ∨ a.deadline = b.deadline ∧
    (a.frequency.number < b.frequency.number ∨
      a.frequency = b.frequency ∧ a.generation ≤ b.generation) := by
  unfold before
  simp only [Bool.or_eq_true, Bool.and_eq_true, decide_eq_true_eq, beq_iff_eq]

theorem before_trans (h : a.before b = true) (h' : b.before c = true) : a.before c = true := by
  rw [before_iff] at *
  grind

theorem before_total (a b : Firing) : a.before b = true ∨ b.before a = true := by
  rw [before_iff, before_iff]
  rcases Nat.lt_trichotomy a.frequency.number b.frequency.number with hf | hf | hf
  · omega
  · have := Frequency.number_injective hf
    simp only [this, true_and]
    omega
  · omega

theorem deadline_le (h : a.before b = true) : a.deadline ≤ b.deadline := by
  rw [before_iff] at h
  omega

/-- The deadline of a firing, with its frequency. -/
def entry (e : Firing) : Nat × Frequency := (e.deadline, e.frequency)

/-- A firing at another deadline. -/
def put (e : Firing) (t : Nat) : Firing := { e with deadline := t }

theorem generation_put (e : Firing) (t : Nat) : (e.put t).generation = e.generation := rfl

theorem entry_put (e : Firing) (t : Nat) : (e.put t).entry = (t, e.frequency) := rfl

theorem entry_le (h : a.before b = true) : Timetable.le a.entry b.entry = true := by
  rw [before_iff] at h
  rw [Timetable.le_iff]
  rcases h with h | ⟨h, hf | ⟨hf, -⟩⟩
  · exact Or.inl h
  · exact Or.inr ⟨h, Nat.le_of_lt hf⟩
  · exact Or.inr ⟨h, Nat.le_of_eq (congrArg Frequency.number hf)⟩

end Firing

namespace Schedule

variable {s : Schedule} {e : Firing} {q : List Firing} {now : Nat}

theorem enqueue_perm (e : Firing) (q : List Firing) : (enqueue e q).Perm (e :: q) := by
  induction q with
  | nil => exact List.Perm.refl _
  | cons x rest ih =>
      unfold enqueue
      split
      · exact List.Perm.refl _
      · exact (ih.cons x).trans (List.Perm.swap e x rest)

theorem sorted_enqueue (h : q.Pairwise fun a b => a.before b = true) (e : Firing) :
    (enqueue e q).Pairwise fun a b => a.before b = true := by
  induction h with
  | nil => exact List.pairwise_singleton _ _
  | @cons x rest hx hrest ih =>
      unfold enqueue
      split
      next hbefore =>
        refine List.pairwise_cons.mpr ⟨fun y hy => ?_, List.pairwise_cons.mpr ⟨hx, hrest⟩⟩
        rcases List.mem_cons.mp hy with rfl | hy
        · exact hbefore
        · exact Firing.before_trans hbefore (hx y hy)
      next hbefore =>
        refine List.pairwise_cons.mpr ⟨fun y hy => ?_, ih⟩
        rcases List.mem_cons.mp ((enqueue_perm e rest).mem_iff.mp hy) with rfl | hy
        · exact (Firing.before_total y x).resolve_left hbefore
        · exact hx y hy

/-- In a sorted queue, what is due stands in front. -/
theorem due_in_front (h : q.Pairwise fun a b => a.before b = true) (now : Nat) :
    (q.takeWhile fun e => e.deadline ≤ now) = (q.filter fun e => e.deadline ≤ now) ∧
      (q.dropWhile fun e => e.deadline ≤ now) = q.filter fun e => now < e.deadline := by
  induction h with
  | nil => exact ⟨rfl, rfl⟩
  | @cons x rest hx _ ih =>
      by_cases hdue : x.deadline ≤ now
      · simp only [List.takeWhile_cons, List.dropWhile_cons, List.filter_cons, hdue, decide_true,
          if_true, Nat.not_lt.mpr hdue, decide_false, Bool.false_eq_true, if_false, ih, and_self]
      · have hrest : ∀ y ∈ rest, now < y.deadline := fun y hy =>
          Nat.lt_of_lt_of_le (Nat.lt_of_not_le hdue) (Firing.deadline_le (hx y hy))
        have hnone : (rest.filter fun e => e.deadline ≤ now) = [] :=
          List.filter_eq_nil_iff.mpr fun y hy => by simpa using hrest y hy
        have hall : (rest.filter fun e => now < e.deadline) = rest :=
          List.filter_eq_self.mpr fun y hy => by simpa using hrest y hy
        simp only [List.takeWhile_cons, List.dropWhile_cons, List.filter_cons, hdue, decide_false,
          Bool.false_eq_true, if_false, Nat.lt_of_not_le hdue, decide_true, if_true, hnone, hall,
          and_self]

/-! ### What a schedule and a timetable have in common -/

/-- The entries that count. -/
def current (s : Schedule) : List Firing := s.queue.filter s.isCurrent

/-- What is so of a schedule that keeps a timetable. -/
structure Keeps (s : Schedule) (d : Timetable) : Prop where
  /-- The queue is in order. -/
  sorted : s.queue.Pairwise fun a b => a.before b = true
  /-- No generation in the queue is still to come. -/
  past : ∀ e ∈ s.queue, e.generation ≤ s.generation
  /-- The same frequencies are on. -/
  switched : ∀ f, s.isActive f = (d f).isSome
  /-- The entries that count are those of the timetable. -/
  entries : (s.current.map Firing.entry).Perm d.entries

variable {d : Timetable}

theorem keeps_start : Keeps {} .empty where
  sorted := List.Pairwise.nil
  past e he := nomatch he
  switched f := rfl
  entries := by rw [Timetable.entries_empty]; exact List.Perm.nil

theorem Keeps.clear (s : Schedule) : Keeps s.clear .empty where
  sorted := List.Pairwise.nil
  past e he := nomatch he
  switched f := rfl
  entries := by rw [Timetable.entries_empty]; exact List.Perm.nil

/-- Generations are never used again: nothing in the queue counts for a frequency that is
switched on now. -/
theorem Keeps.activated (h : s.Keeps d) {f : Frequency} (hoff : s.isActive f = false) (t : Nat) :
    Keeps ⟨enqueue ⟨t, f, s.generation + 1⟩ s.queue, s.active.insert f (s.generation + 1),
      s.generation + 1⟩ (Function.update d f (some t)) := by
  set new : Firing := ⟨t, f, s.generation + 1⟩
  set s' : Schedule := ⟨enqueue new s.queue, s.active.insert f (s.generation + 1),
    s.generation + 1⟩ with hs'
  have hfind : ∀ g, s'.active.find? g = if f = g then some (s.generation + 1)
      else s.active.find? g := fun g => Table.find?_insert s.active f g (s.generation + 1)
  have hstale : s.active.find? f = none :=
    Option.not_isSome_iff_eq_none.mp fun hon => Bool.false_ne_true (hoff.symm.trans hon)
  have hd : d f = none :=
    Option.not_isSome_iff_eq_none.mp fun hon =>
      Bool.false_ne_true (hoff.symm.trans ((h.switched f).trans hon))
  have hself : s'.isCurrent new = true := by
    unfold isCurrent
    rw [hfind, if_pos rfl, beq_iff_eq]
  have hrest : ∀ e ∈ s.queue, s'.isCurrent e = s.isCurrent e := by
    intro e he
    unfold isCurrent
    rw [hfind]
    by_cases hf : f = e.frequency
    · have hpast := h.past e he
      have hne : s.generation + 1 ≠ e.generation := by omega
      simp [← hf, hstale, hne]
    · rw [if_neg hf]
  have hcurrent : s'.current.Perm (new :: s.current) := by
    refine ((enqueue_perm new s.queue).filter s'.isCurrent).trans (List.Perm.of_eq ?_)
    rw [List.filter_cons_of_pos hself, List.filter_congr hrest, current]
  refine ⟨sorted_enqueue h.sorted new, fun e he => ?_, fun g => ?_, ?_⟩
  · rcases List.mem_cons.mp ((enqueue_perm new s.queue).mem_iff.mp he) with rfl | he
    · exact Nat.le_refl _
    · exact Nat.le_succ_of_le (h.past e he)
  · unfold isActive Table.contains
    rw [hfind, Function.update_apply]
    by_cases hg : g = f
    · simp [hg]
    · rw [if_neg (Ne.symm hg), if_neg hg]
      exact h.switched g
  · exact (hcurrent.map Firing.entry).trans ((h.entries.cons _).trans
      (Timetable.entries_activate hd t))

theorem Keeps.activate (h : s.Keeps d) (f : Frequency) (now : Nat) :
    (s.activate f now).1.Keeps (d.activate f now).1 ∧
      (s.activate f now).2 = (d.activate f now).2 := by
  unfold Schedule.activate Timetable.activate
  rw [← h.switched f]
  cases hactive : s.isActive f with
  | true => exact ⟨h, rfl⟩
  | false => exact ⟨h.activated hactive _, rfl⟩

/-- The entry of a frequency that is switched off stays, but does not count any more. -/
theorem Keeps.deactivate (h : s.Keeps d) (f : Frequency) :
    (s.deactivate f).1.Keeps (d.deactivate f).1 ∧
      (s.deactivate f).2 = (d.deactivate f).2 := by
  refine ⟨⟨h.sorted, h.past, fun g => ?_, ?_⟩, h.switched f⟩
  · rw [isActive_deactivate, h.switched g]
    by_cases hg : g = f <;> simp [Timetable.deactivate, hg]
  · have hcurrent : (s.deactivate f).1.current = s.current.filter fun e => e.frequency ≠ f := by
      unfold current
      rw [List.filter_filter]
      refine List.filter_congr fun e _ => ?_
      unfold isCurrent Schedule.deactivate
      rw [Table.find?_erase]
      by_cases hf : f = e.frequency
      · simp [← hf]
      · simp [hf, Ne.symm hf]
    have hentries : (s.current.filter fun e => e.frequency ≠ f).map Firing.entry =
        (s.current.map Firing.entry).filter fun a => a.2 ≠ f := by
      rw [List.filter_map]
      rfl
    rw [hcurrent, hentries]
    exact (h.entries.filter _).trans (d.entries_deactivate f)

/-- Dropping firings that do not count changes nothing. -/
theorem Keeps.drop (h : s.Keeps d) (hsub : q.Sublist s.queue)
    (hcurrent : q.filter s.isCurrent = s.current) : Keeps { s with queue := q } d where
  sorted := h.sorted.sublist hsub
  past e he := h.past e (hsub.subset he)
  switched := h.switched
  entries := (congrArg (List.map Firing.entry) hcurrent) ▸ h.entries

/-- The first entry that counts is the earliest of them. -/
theorem Keeps.nextDeadline (h : s.Keeps d) :
    s.nextDeadline.1.Keeps d ∧ s.nextDeadline.2 = d.nextDeadline := by
  have hcurrent : (s.queue.dropWhile fun e => !s.isCurrent e).filter s.isCurrent = s.current := by
    have hsplit := congrArg (List.filter s.isCurrent)
      (List.takeWhile_append_dropWhile (p := fun e => !s.isCurrent e) (l := s.queue))
    rw [List.filter_append] at hsplit
    have hnone : (s.queue.takeWhile fun e => !s.isCurrent e).filter s.isCurrent = [] :=
      List.filter_eq_nil_iff.mpr fun e he => by
        simpa using List.all_eq_true.mp (List.all_takeWhile (l := s.queue)) e he
    rw [hnone, List.nil_append] at hsplit
    exact hsplit
  refine ⟨h.drop (List.dropWhile_sublist _) hcurrent, ?_⟩
  have hfirst : (s.queue.dropWhile fun e => !s.isCurrent e).head? = s.current.head? := by
    rw [← hcurrent]
    have := List.head?_dropWhile_not (fun e => !s.isCurrent e) s.queue
    cases hq : s.queue.dropWhile fun e => !s.isCurrent e with
    | nil => rfl
    | cons e rest =>
        rw [hq] at this
        rw [List.filter_cons_of_pos (by simpa using this)]
        rfl
  have hsorted : s.current.Pairwise fun a b => a.before b = true := h.sorted.filter _
  have hdeadlines : (s.current.map (·.deadline)).Perm (d.entries.map (·.1)) := by
    have := h.entries.map (·.1)
    rwa [List.map_map] at this
  change Option.map (·.deadline) (s.queue.dropWhile fun e => !s.isCurrent e).head? = _
  rw [hfirst, Timetable.nextDeadline]
  cases hc : s.current with
  | nil =>
      rw [hc] at hdeadlines
      rw [hdeadlines.nil_eq.symm]
      rfl
  | cons e rest =>
      rw [hc] at hdeadlines hsorted
      refine Eq.symm (List.min?_eq_some_iff.mpr ⟨hdeadlines.subset List.mem_cons_self, ?_⟩)
      intro t ht
      obtain ⟨e', he', rfl⟩ := List.mem_map.mp (hdeadlines.symm.subset ht)
      rcases List.mem_cons.mp he' with rfl | he'
      · exact Nat.le_refl _
      · exact Firing.deadline_le ((List.pairwise_cons.mp hsorted).1 e' he')

/-! ### Firing what is due -/

/-- A firing that was due, as it is queued again. -/
def again (now : Nat) (e : Firing) : Firing := e.put (nextFiring e.frequency e.deadline now)

/-- It is not due any more. -/
theorem lt_again (now : Nat) (e : Firing) : now < (again now e).deadline := by
  have := e.frequency.replayInterval_pos
  change now < if e.deadline + e.frequency.replayInterval ≤ now then
    now + e.frequency.replayInterval else e.deadline + e.frequency.replayInterval
  split <;> omega

theorem entry_again (h : e.deadline ≤ now) :
    (again now e).entry = Timetable.moved now e.entry := by
  have hdue : ¬ now < e.entry.1 := Nat.not_lt.mpr h
  rw [again, Firing.entry_put, Timetable.moved, if_neg hdue]
  rfl

/-- Whether it counts does not depend on the deadline. -/
theorem isCurrent_put (s : Schedule) (e : Firing) (t : Nat) :
    s.isCurrent (e.put t) = s.isCurrent e := rfl

/-- The queue with some firings queued again. -/
def requeue (now : Nat) (es q : List Firing) : List Firing :=
  es.foldl (fun q e => enqueue (again now e) q) q

theorem requeue_perm (now : Nat) (es : List Firing) :
    ∀ q, (requeue now es q).Perm (es.map (again now) ++ q) := by
  induction es with
  | nil => exact fun q => List.Perm.refl q
  | cons e es ih =>
      intro q
      calc requeue now es (enqueue (again now e) q)
        _ ~ es.map (again now) ++ enqueue (again now e) q := ih _
        _ ~ es.map (again now) ++ again now e :: q := (enqueue_perm _ q).append_left _
        _ ~ again now e :: (es.map (again now) ++ q) := List.perm_middle

theorem sorted_requeue (now : Nat) (es : List Firing) :
    ∀ {q : List Firing}, q.Pairwise (fun a b => a.before b = true) →
      (requeue now es q).Pairwise fun a b => a.before b = true := by
  induction es with
  | nil => exact fun h => h
  | cons e es ih => exact fun h => ih (sorted_enqueue h (again now e))

/-- What is due and what is not, for a queue that is in order. -/
theorem popDue_of_sorted (h : s.queue.Pairwise fun a b => a.before b = true) (now : Nat) :
    let due := s.current.filter fun e => e.deadline ≤ now
    let later := s.queue.filter fun e => now < e.deadline
    s.popDue now = ({ s with queue := requeue now due later }, due.map (·.frequency)) := by
  intro due later
  obtain ⟨hdue, hlater⟩ := due_in_front h now
  have hcurrent : (s.queue.filter fun e => e.deadline ≤ now).filter s.isCurrent =
      s.current.filter fun e => e.deadline ≤ now := by
    rw [current, List.filter_filter, List.filter_filter]
    exact List.filter_congr fun e _ => Bool.and_comm _ _
  change _ = ({ s with queue := requeue now (s.current.filter _) (s.queue.filter _) },
    (s.current.filter _).map _)
  rw [← hcurrent, ← hdue, ← hlater]
  rfl

/-- What counts is due or is left in the queue. -/
theorem due_later_perm (s : Schedule) (now : Nat) :
    ((s.current.filter fun e => e.deadline ≤ now) ++
      (s.queue.filter fun e => now < e.deadline).filter s.isCurrent) ~ s.current := by
  have hlater : (s.queue.filter fun e => now < e.deadline).filter s.isCurrent =
      s.current.filter fun e => !decide (e.deadline ≤ now) := by
    rw [current, List.filter_filter, List.filter_filter]
    refine List.filter_congr fun e _ => ?_
    rw [Bool.and_comm]
    simp only [← decide_not, Nat.not_le]
  rw [hlater]
  exact List.filter_append_perm _ _

/-- What fires is due in the timetable, and in the same order. -/
theorem Keeps.fires (h : s.Keeps d) (now : Nat) :
    (s.current.filter fun e => e.deadline ≤ now).map (·.frequency) = d.due now := by
  set due := s.current.filter fun e => e.deadline ≤ now with hdue
  have hperm : due.map Firing.entry ~
      (d.entries.filter fun a => a.1 ≤ now).mergeSort Timetable.le := by
    have hfilter : due.map Firing.entry =
        (s.current.map Firing.entry).filter fun a => a.1 ≤ now := by
      rw [List.filter_map]
      rfl
    rw [hfilter]
    exact (h.entries.filter _).trans (List.mergeSort_perm _ _).symm
  have hsorted : (due.map Firing.entry).Pairwise fun a b => Timetable.le a b = true :=
    List.pairwise_map.mpr (((h.sorted.filter _).filter _).imp Firing.entry_le)
  have hmerged := List.pairwise_mergeSort
    (fun a b c => Timetable.le_trans (a := a) (b := b) (c := c)) Timetable.le_total
    (d.entries.filter fun a => a.1 ≤ now)
  calc due.map (·.frequency)
    _ = (due.map Firing.entry).map (·.2) := by rw [List.map_map]; rfl
    _ = d.due now := by
        rw [hperm.eq_of_pairwise (fun a b _ _ => Timetable.le_antisymm) hsorted hmerged]
        rfl

/-- What fired goes back to where the timetable has it next. -/
theorem Keeps.requeued (h : s.Keeps d) (now : Nat) :
    let due := s.current.filter fun e => e.deadline ≤ now
    let later := s.queue.filter fun e => now < e.deadline
    Keeps { s with queue := requeue now due later } (d.advance now) := by
  intro due later
  refine ⟨sorted_requeue now due (h.sorted.filter _), fun e he => ?_, fun f => ?_, ?_⟩
  · rcases List.mem_append.mp ((requeue_perm now due later).mem_iff.mp he) with he | he
    · obtain ⟨e', he', rfl⟩ := List.mem_map.mp he
      have hold := h.past e' (List.mem_filter.mp (List.mem_filter.mp he').1).1
      exact (Firing.generation_put e' _).trans_le hold
    · exact h.past e (List.mem_filter.mp he).1
  · rw [Timetable.advance_apply, Option.isSome_map]
    exact h.switched f
  · have hmoved : ∀ e ∈ due, (again now e).entry = Timetable.moved now e.entry :=
      fun e he => entry_again (of_decide_eq_true (List.mem_filter.mp he).2)
    have hleft : ∀ e ∈ later, e.entry = Timetable.moved now e.entry := by
      intro e he
      have hlt : now < e.deadline := of_decide_eq_true (List.mem_filter.mp he).2
      exact Prod.ext (if_pos hlt).symm rfl
    have hcurrent : (due.map (again now) ++ later).filter s.isCurrent =
        due.map (again now) ++ later.filter s.isCurrent := by
      rw [List.filter_append, List.filter_map]
      refine congrArg (fun l => l.map (again now) ++ later.filter s.isCurrent)
        (List.filter_eq_self.mpr fun e he => ?_)
      exact (s.isCurrent_put e _).trans (List.mem_filter.mp (List.mem_filter.mp he).1).2
    calc ((requeue now due later).filter s.isCurrent).map Firing.entry
      _ ~ ((due.map (again now) ++ later).filter s.isCurrent).map Firing.entry :=
          ((requeue_perm now due later).filter _).map _
      _ = (due ++ later.filter s.isCurrent).map fun e => Timetable.moved now e.entry := by
          rw [hcurrent, List.map_append, List.map_append, List.map_map]
          exact congrArg₂ _ (List.map_congr_left hmoved)
            (List.map_congr_left fun e he => hleft e (List.mem_filter.mp he).1)
      _ ~ s.current.map fun e => Timetable.moved now e.entry := (s.due_later_perm now).map _
      _ = (s.current.map Firing.entry).map (Timetable.moved now) := by
          rw [List.map_map]
          rfl
      _ ~ d.entries.map (Timetable.moved now) := h.entries.map _
      _ ~ (d.advance now).entries := d.entries_advance now

theorem Keeps.popDue (h : s.Keeps d) (now : Nat) :
    (s.popDue now).1.Keeps (d.advance now) ∧ (s.popDue now).2 = d.due now := by
  rw [popDue_of_sorted h.sorted]
  exact ⟨h.requeued now, h.fires now⟩

/-! ### Taking out one firing at a time -/

/-- The firings that are due are taken out of the queue one at a time. One that does not count is
dropped; one that counts is queued again before the next is looked at. Nothing that is queued
again is due, so there is less that is due after each. -/
def drain (s : Schedule) (now : Nat) : List Firing → List Firing × List Frequency
  | [] => ([], [])
  | e :: q =>
    if e.deadline ≤ now then
      if s.isCurrent e then
        let (left, fired) := drain s now (enqueue (again now e) q)
        (left, e.frequency :: fired)
      else drain s now q
    else (e :: q, [])
termination_by q => q.countP fun e => e.deadline ≤ now
decreasing_by
  · rename_i hdue _
    have hagain : ¬ (again now e).deadline ≤ now := Nat.not_le.mpr (lt_again now e)
    rw [(enqueue_perm (again now e) q).countP_eq, List.countP_cons_of_neg (by simpa using hagain),
      List.countP_cons_of_pos (by simpa using hdue)]
    exact Nat.lt_succ_self _
  · rename_i hdue _
    rw [List.countP_cons_of_pos (by simpa using hdue)]
    exact Nat.lt_succ_self _

/-- A firing that is not due is queued behind all in front that are. -/
theorem enqueue_behind (h : now < e.deadline) (q : List Firing) :
    ((enqueue e q).takeWhile fun e => e.deadline ≤ now) = (q.takeWhile fun e => e.deadline ≤ now) ∧
      ((enqueue e q).dropWhile fun e => e.deadline ≤ now) =
        enqueue e (q.dropWhile fun e => e.deadline ≤ now) := by
  have hlate : ¬ e.deadline ≤ now := Nat.not_le.mpr h
  induction q with
  | nil => simp [enqueue, hlate]
  | cons x rest ih =>
      by_cases hx : x.deadline ≤ now
      · have hnot : e.before x = false := by
          rw [Bool.eq_false_iff]
          exact fun hbefore => hlate (Nat.le_trans (Firing.deadline_le hbefore) hx)
        rw [enqueue, hnot]
        simpa [hx] using ih
      · by_cases hbefore : e.before x = true <;> simp [enqueue, hbefore, hlate, hx]

/-- Taking out everything at once comes to the same. -/
theorem popDue_eq_drain (s : Schedule) (now : Nat) :
    s.popDue now = ({ s with queue := (s.drain now s.queue).1 }, (s.drain now s.queue).2) := by
  suffices h : ∀ q, s.drain now q =
      (requeue now ((q.takeWhile fun e => e.deadline ≤ now).filter s.isCurrent)
          (q.dropWhile fun e => e.deadline ≤ now),
        ((q.takeWhile fun e => e.deadline ≤ now).filter s.isCurrent).map (·.frequency)) by
    rw [h]
    rfl
  intro q
  induction q using drain.induct s now with
  | case1 => rw [drain]; rfl
  | case2 e q hdue hcurrent left fired hdrain ih =>
      obtain ⟨htake, hdrop⟩ := enqueue_behind (lt_again now e) q
      rw [htake, hdrop] at ih
      rw [drain, if_pos hdue, if_pos hcurrent, ih]
      simp [hdue, hcurrent, requeue]
  | case3 e q hdue hcurrent ih =>
      rw [drain, if_pos hdue, if_neg hcurrent, ih]
      simp [hdue, hcurrent]
  | case4 e q hdue =>
      rw [drain, if_neg hdue]
      simp [hdue, requeue]

/-! ### Whatever is asked -/

theorem Keeps.call (h : s.Keeps d) (c : Call) :
    (s.call c).1.Keeps (d.call c).1 ∧ (s.call c).2 = (d.call c).2 := by
  cases c with
  | activate f now => exact ⟨(h.activate f now).1, congrArg Answer.changed (h.activate f now).2⟩
  | deactivate f => exact ⟨(h.deactivate f).1, congrArg Answer.changed (h.deactivate f).2⟩
  | clear => exact ⟨Keeps.clear s, rfl⟩
  | nextDeadline => exact ⟨h.nextDeadline.1, congrArg Answer.next h.nextDeadline.2⟩
  | popDue now => exact ⟨(h.popDue now).1, congrArg Answer.due (h.popDue now).2⟩

/-- The schedule without the firings that do not count. -/
def swept (s : Schedule) : Schedule := { s with queue := s.current }

/-- **A schedule answers as a timetable does, whatever it is asked in whatever order and at
whatever instants.** What is due are the frequencies whose deadline has come, each once, in the
order of their deadlines; taking them out one at a time ends, with the same result. The firings
that do not count change no answer to anything that may be asked from here on. -/
theorem answers_as_timetable (calls : List Call) :
    let s := (answered call {} calls).1
    let d := (answered Timetable.call .empty calls).1
    (answered call {} calls).2 = (answered Timetable.call .empty calls).2 ∧
      (∀ now,
        (∀ f, f ∈ d.due now ↔ ∃ t, d f = some t ∧ t ≤ now) ∧
        (d.due now).Nodup ∧
        ((d.due now).Pairwise fun f g => ∀ t u, d f = some t → d g = some u →
          t < u ∨ (t = u ∧ f.number < g.number)) ∧
        s.popDue now = ({ s with queue := (s.drain now s.queue).1 }, (s.drain now s.queue).2)) ∧
      ∀ later, (answered call s later).2 = (answered call s.swept later).2 := by
  intro s d
  have hcall : ∀ (s : Schedule) (d : Timetable) (c : Call), s.Keeps d →
      (s.call c).1.Keeps (d.call c).1 ∧ (s.call c).2 = (d.call c).2 := fun s d c h => h.call c
  obtain ⟨hkeeps, hanswers⟩ := answered_alike hcall calls keeps_start
  refine ⟨hanswers, fun now => ⟨fun f => Timetable.mem_due, d.nodup_due now, d.sorted_due now,
    s.popDue_eq_drain now⟩, fun later => ?_⟩
  have hswept : s.swept.Keeps d := by
    refine hkeeps.drop List.filter_sublist ?_
    rw [current, List.filter_filter]
    exact List.filter_congr fun e _ => Bool.and_self _
  calc (answered call s later).2
    _ = (answered Timetable.call d later).2 := (answered_alike hcall later hkeeps).2
    _ = (answered call s.swept later).2 := (answered_alike hcall later hswept).2.symm

end Schedule
end BarArchive
