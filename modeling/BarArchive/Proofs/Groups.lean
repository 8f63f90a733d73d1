/-
Series seen through their groups.

A series is determined by the group that it has at each instant, the empty one where it
has none. Every operation on series is described here by the groups of its result, and
nothing that is built on them looks at the lists again: putting a group sets it at one
instant, grouping bars selects those of each instant, laying a series over another one
prefers its groups, and cutting a range out empties the groups outside it.

What makes this possible is the shape that all series have. The groups ascend strictly,
none is empty, the bars of a group have its time, and a group of anything but trades is
a single bar.
-/
import BarArchive.Series
import Mathlib.Data.List.Induction
import Mathlib.Data.List.Perm.Basic

namespace BarArchive

namespace Series

variable {f : Frequency} {s : Series}

/-- The shape of a series of the frequency `f`. -/
structure Grouped (f : Frequency) (s : Series) : Prop where
  sorted : s.Pairwise (·.1 < ·.1)
  nonempty : ∀ e ∈ s, e.2 ≠ []
  timed : ∀ e ∈ s, ∀ b ∈ e.2, b.time = e.1
  single : f ≠ .tick → ∀ e ∈ s, e.2.length ≤ 1

/-- The group at an instant; it is empty if the series has none there. -/
def groupAt (s : Series) (t : Instant) : List Bar := (s.find? t).getD []

/-! ### Groups and entries -/

theorem grouped_nil (f : Frequency) : Grouped f [] where
  sorted := List.Pairwise.nil
  nonempty := fun e he => by cases he
  timed := fun e he => by cases he
  single := fun _ e he => by cases he

theorem Grouped.sublist {s' : Series} (h : Grouped f s) (hs : s'.Sublist s) : Grouped f s' where
  sorted := h.sorted.sublist hs
  nonempty := fun e he => h.nonempty e (hs.subset he)
  timed := fun e he => h.timed e (hs.subset he)
  single := fun hf e he => h.single hf e (hs.subset he)

theorem Grouped.tail {e : Instant × List Bar} (h : Grouped f (e :: s)) : Grouped f s :=
  h.sublist (List.sublist_cons_self e s)

theorem groupAt_nil (t : Instant) : groupAt [] t = [] := rfl

theorem groupAt_cons (u : Instant) (g : List Bar) (s : Series) (t : Instant) :
    groupAt ((u, g) :: s) t = if u = t then g else groupAt s t := by
  show (if u = t then some g else find? t s).getD [] = _
  by_cases h : u = t
  · rw [if_pos h, if_pos h]
    rfl
  · rw [if_neg h, if_neg h]
    rfl

theorem mem_of_groupAt {t : Instant} (h : groupAt s t ≠ []) : (t, groupAt s t) ∈ s := by
  induction s with
  | nil => exact absurd rfl h
  | cons e s ih =>
      obtain ⟨u, g⟩ := e
      rw [groupAt_cons] at h ⊢
      by_cases hu : u = t
      · rw [if_pos hu]
        rw [← hu]
        exact List.mem_cons_self
      · rw [if_neg hu] at h ⊢
        exact List.mem_cons_of_mem _ (ih h)

/-- Below the first key there are no groups. -/
theorem groupAt_of_lt {t : Instant} (h : ∀ e ∈ s, t < e.1) : groupAt s t = [] := by
  by_contra hne
  exact absurd (h _ (mem_of_groupAt hne)) (Int.lt_irrefl t)

theorem Grouped.groupAt_of_mem {e : Instant × List Bar} (h : Grouped f s) (he : e ∈ s) :
    groupAt s e.1 = e.2 := by
  induction s with
  | nil => cases he
  | cons d s ih =>
      obtain ⟨u, g⟩ := d
      rw [groupAt_cons]
      rcases List.mem_cons.mp he with rfl | he
      · rw [if_pos rfl]
      · have hlt : u < e.1 := (List.pairwise_cons.mp h.sorted).1 e he
        rw [if_neg (Int.ne_of_lt hlt)]
        exact ih h.tail he

/-- The bars of a group have its time. -/
theorem Grouped.time_eq {t : Instant} {b : Bar} (h : Grouped f s) (hb : b ∈ groupAt s t) :
    b.time = t :=
  h.timed _ (mem_of_groupAt (List.ne_nil_of_mem hb)) b hb

theorem Grouped.length_groupAt (h : Grouped f s) (hf : f ≠ .tick) (t : Instant) :
    (groupAt s t).length ≤ 1 := by
  by_cases hne : groupAt s t = []
  · rw [hne]
    exact Nat.zero_le 1
  · exact h.single hf _ (mem_of_groupAt hne)

/-- Series with the same groups are the same. -/
theorem Grouped.ext {s' : Series} (h : Grouped f s) (h' : Grouped f s')
    (heq : ∀ t, groupAt s t = groupAt s' t) : s = s' := by
  have hmem : ∀ {r r' : Series}, Grouped f r → (∀ t, groupAt r t = groupAt r' t) →
      ∀ e ∈ r, e ∈ r' := by
    intro r r' hr hrr e he
    have hat := hr.groupAt_of_mem he
    have hne : groupAt r' e.1 ≠ [] := by
      rw [← hrr, hat]
      exact hr.nonempty e he
    have hin := mem_of_groupAt hne
    rw [← hrr, hat] at hin
    exact hin
  have hnodup : ∀ {r : Series}, Grouped f r → r.Nodup := fun hr =>
    hr.sorted.imp fun hlt heq => absurd (heq ▸ hlt) (Int.lt_irrefl _)
  have hperm : s.Perm s' := (List.perm_ext_iff_of_nodup (hnodup h) (hnodup h')).mpr fun e =>
    ⟨hmem h heq e, hmem h' (fun t => (heq t).symm) e⟩
  refine hperm.eq_of_pairwise (fun a b _ _ hab hba => ?_) h.sorted h'.sorted
  exact absurd (Int.lt_trans hab hba) (Int.lt_irrefl _)

/-! ### Putting a group -/

theorem mem_put {t : Instant} {g : List Bar} {e : Instant × List Bar} (h : e ∈ put t g s) :
    e = (t, g) ∨ e ∈ s := by
  induction s with
  | nil => exact Or.inl (List.mem_singleton.mp h)
  | cons d s ih =>
      obtain ⟨u, k⟩ := d
      unfold put at h
      by_cases hlt : t < u
      · rw [if_pos hlt] at h
        exact List.mem_cons.mp h
      · rw [if_neg hlt] at h
        by_cases heq : t = u
        · rw [if_pos heq] at h
          exact (List.mem_cons.mp h).imp id (List.mem_cons_of_mem _)
        · rw [if_neg heq] at h
          rcases List.mem_cons.mp h with rfl | h
          · exact Or.inr List.mem_cons_self
          · exact (ih h).imp id (List.mem_cons_of_mem _)

theorem sorted_put (t : Instant) (g : List Bar) (h : s.Pairwise (·.1 < ·.1)) :
    (put t g s).Pairwise (·.1 < ·.1) := by
  induction s with
  | nil => exact List.pairwise_singleton _ _
  | cons d s ih =>
      obtain ⟨u, k⟩ := d
      obtain ⟨hhead, htail⟩ := List.pairwise_cons.mp h
      unfold put
      by_cases hlt : t < u
      · rw [if_pos hlt]
        refine List.pairwise_cons.mpr ⟨fun e he => ?_, h⟩
        rcases List.mem_cons.mp he with rfl | he
        · exact hlt
        · exact Int.lt_trans hlt (hhead e he)
      · rw [if_neg hlt]
        by_cases heq : t = u
        · rw [if_pos heq]
          exact List.pairwise_cons.mpr ⟨fun e he => heq ▸ hhead e he, htail⟩
        · rw [if_neg heq]
          refine List.pairwise_cons.mpr ⟨fun e he => ?_, ih htail⟩
          rcases mem_put he with rfl | he
          · show u < t
            exact Int.lt_iff_le_and_ne.mpr ⟨Int.not_lt.mp hlt, Ne.symm heq⟩
          · exact hhead e he

theorem Grouped.put {t : Instant} {g : List Bar} (h : Grouped f s) (hne : g ≠ [])
    (htime : ∀ b ∈ g, b.time = t) (hsingle : f ≠ .tick → g.length ≤ 1) : Grouped f (put t g s) where
  sorted := sorted_put t g h.sorted
  nonempty := fun e he => by
    rcases mem_put he with rfl | he
    · exact hne
    · exact h.nonempty e he
  timed := fun e he => by
    rcases mem_put he with rfl | he
    · exact htime
    · exact h.timed e he
  single := fun hf e he => by
    rcases mem_put he with rfl | he
    · exact hsingle hf
    · exact h.single hf e he

theorem Grouped.groupAt_put (h : Grouped f s) (t u : Instant) (g : List Bar) :
    groupAt (Series.put t g s) u = if t = u then g else groupAt s u := by
  unfold groupAt
  rw [find?_put t u g s h.sorted]
  by_cases htu : t = u
  · rw [if_pos htu, if_pos htu]
    rfl
  · rw [if_neg htu, if_neg htu]

/-! ### Grouping bars -/

/-- The bars of a batch that end up at an instant: all trades, but of other bars the last one. -/
def slot (f : Frequency) (bars : List Bar) (t : Instant) : List Bar :=
  if f = .tick then bars.filter (·.time = t) else (bars.filter (·.time = t)).getLast?.toList

theorem mem_slot {bars : List Bar} {t : Instant} {b : Bar} (h : b ∈ slot f bars t) :
    b ∈ bars ∧ b.time = t := by
  have hmem : b ∈ bars.filter (·.time = t) := by
    unfold slot at h
    by_cases hf : f = .tick
    · rw [if_pos hf] at h
      exact h
    · rw [if_neg hf, Option.mem_toList] at h
      exact List.mem_of_getLast? h
  simpa using hmem

theorem slot_eq_nil {bars : List Bar} {t : Instant} :
    slot f bars t = [] ↔ ∀ b ∈ bars, b.time ≠ t := by
  have hfilter : bars.filter (·.time = t) = [] ↔ ∀ b ∈ bars, b.time ≠ t := by
    simp [List.filter_eq_nil_iff]
  unfold slot
  by_cases hf : f = .tick
  · rw [if_pos hf]
    exact hfilter
  · rw [if_neg hf, ← hfilter]
    simp

/-- A batch with at most one bar for an instant keeps it. -/
theorem slot_eq_filter {bars : List Bar} {t : Instant}
    (h : f ≠ .tick → (bars.filter (·.time = t)).length ≤ 1) :
    slot f bars t = bars.filter (·.time = t) := by
  unfold slot
  by_cases hf : f = .tick
  · rw [if_pos hf]
  · rw [if_neg hf]
    have hlength := h hf
    cases hfilter : bars.filter (·.time = t) with
    | nil => rfl
    | cons b rest =>
        rw [hfilter, List.length_cons] at hlength
        have hrest : rest = [] := List.length_eq_zero_iff.mp (by omega)
        rw [hrest]
        rfl

/-- What ends up at an instant of a range is not touched by leaving out bars outside it. -/
theorem slot_range (f : Frequency) (bars : List Bar) (start stop t : Instant) :
    slot f (bars.filter fun b => start ≤ b.time && b.time ≤ stop) t
      = if start ≤ t ∧ t ≤ stop then slot f bars t else [] := by
  by_cases ht : start ≤ t ∧ t ≤ stop
  · have hfilter : (bars.filter fun b => start ≤ b.time && b.time ≤ stop).filter (·.time = t)
        = bars.filter (·.time = t) := by
      rw [List.filter_filter]
      refine List.filter_congr fun b _ => ?_
      by_cases hb : b.time = t
      · simp [hb, ht]
      · simp [hb]
    rw [if_pos ht]
    unfold slot
    rw [hfilter]
  · rw [if_neg ht]
    refine slot_eq_nil.mpr fun b hb hbt => ht ?_
    have hin := (List.mem_filter.mp hb).2
    simpa [hbt] using hin

theorem slot_append_singleton (bars : List Bar) (b : Bar) (t : Instant) :
    slot f (bars ++ [b]) t = if b.time = t then
      (if f = .tick then slot f bars t ++ [b] else [b]) else slot f bars t := by
  unfold slot
  rw [List.filter_append]
  by_cases ht : b.time = t
  · by_cases hf : f = .tick
    · simp [ht, hf]
    · simp [ht, hf]
  · simp [ht]

theorem group_append_singleton (bars : List Bar) (b : Bar) :
    group f (bars ++ [b]) = push f (group f bars) b := by
  unfold group
  rw [List.foldl_append]
  rfl

/-- Grouping makes a series, whose groups are what ends up at each instant. -/
theorem group_spec (f : Frequency) (bars : List Bar) :
    Grouped f (group f bars) ∧ ∀ t, groupAt (group f bars) t = slot f bars t := by
  induction bars using List.reverseRecOn with
  | nil => exact ⟨grouped_nil f, fun t => by by_cases hf : f = .tick <;> simp [slot, hf, group, groupAt, find?]⟩
  | append_singleton bars b ih =>
      obtain ⟨hgrouped, hgroups⟩ := ih
      have hold : (Series.find? b.time (group f bars)).getD [] = slot f bars b.time :=
        hgroups b.time
      rw [group_append_singleton]
      unfold push
      rw [hold]
      constructor
      · refine hgrouped.put ?_ ?_ ?_
        · by_cases hf : f = .tick
          · simp [hf]
          · simp [hf]
        · intro c hc
          by_cases hf : f = .tick
          · rw [if_pos hf] at hc
            rcases List.mem_append.mp hc with hc | hc
            · exact (mem_slot hc).2
            · rw [List.mem_singleton.mp hc]
          · rw [if_neg hf] at hc
            rw [List.mem_singleton.mp hc]
        · intro hf
          rw [if_neg hf]
          exact Nat.le_refl 1
      · intro t
        rw [hgrouped.groupAt_put, slot_append_singleton, hgroups]
        by_cases ht : b.time = t
        · rw [if_pos ht, if_pos ht, ht]
        · rw [if_neg ht, if_neg ht]

theorem grouped_group (f : Frequency) (bars : List Bar) : Grouped f (group f bars) :=
  (group_spec f bars).1

theorem groupAt_group (f : Frequency) (bars : List Bar) (t : Instant) :
    groupAt (group f bars) t = slot f bars t :=
  (group_spec f bars).2 t

/-! ### One series over another -/

/-- Laying a series over another one prefers its groups. -/
theorem Grouped.overlay_spec {fresh : Series} (h : Grouped f s) (hfresh : Grouped f fresh) :
    Grouped f (overlay s fresh) ∧ ∀ t, groupAt (overlay s fresh) t =
      if groupAt fresh t = [] then groupAt s t else groupAt fresh t := by
  induction fresh generalizing s with
  | nil => exact ⟨h, fun t => rfl⟩
  | cons e fresh ih =>
      obtain ⟨u, g⟩ := e
      have hg : g ≠ [] := hfresh.nonempty _ List.mem_cons_self
      have hput : Grouped f (Series.put u g s) :=
        h.put hg (hfresh.timed _ List.mem_cons_self) fun hf => hfresh.single hf _ List.mem_cons_self
      obtain ⟨hgrouped, hgroups⟩ := ih hput hfresh.tail
      refine ⟨hgrouped, fun t => ?_⟩
      show groupAt (overlay (Series.put u g s) fresh) t = _
      rw [hgroups, h.groupAt_put, groupAt_cons]
      by_cases hu : u = t
      · have hlater : groupAt fresh t = [] := groupAt_of_lt fun e he =>
          hu ▸ (List.pairwise_cons.mp hfresh.sorted).1 e he
        rw [if_pos hlater, if_pos hu, if_pos hu, if_neg hg]
      · rw [if_neg hu, if_neg hu]

/-- Series that have no instant in common may be laid over a third one in either order. -/
theorem Grouped.overlay_comm {x y : Series} (h : Grouped f s) (hx : Grouped f x)
    (hy : Grouped f y) (hapart : ∀ t, groupAt x t ≠ [] → groupAt y t = []) :
    overlay (overlay s x) y = overlay (overlay s y) x := by
  obtain ⟨hsx, hgroupsx⟩ := h.overlay_spec hx
  obtain ⟨hsy, hgroupsy⟩ := h.overlay_spec hy
  obtain ⟨hsxy, hgroupsxy⟩ := hsx.overlay_spec hy
  obtain ⟨hsyx, hgroupsyx⟩ := hsy.overlay_spec hx
  refine hsxy.ext hsyx fun t => ?_
  rw [hgroupsxy, hgroupsyx, hgroupsx, hgroupsy]
  by_cases htx : groupAt x t = []
  · rw [if_pos htx, if_pos htx]
  · rw [if_neg htx, if_neg htx, if_pos (hapart t htx)]

/-- All groups of `s` are earlier than those of `s'`. -/
def Precedes (s s' : Series) : Prop := ∀ e ∈ s, ∀ d ∈ s', e.1 < d.1

/-- A series has no groups at the instants of one that it precedes. -/
theorem Precedes.groupAt_eq_nil {s' : Series} {t : Instant} (h : Precedes s s')
    (ht : groupAt s t ≠ []) : groupAt s' t = [] := by
  by_contra hne
  exact absurd (h _ (mem_of_groupAt ht) _ (mem_of_groupAt hne)) (Int.lt_irrefl t)

theorem Grouped.append {s' : Series} (h : Grouped f s) (h' : Grouped f s')
    (hprecedes : Precedes s s') : Grouped f (s ++ s') where
  sorted := List.pairwise_append.mpr ⟨h.sorted, h'.sorted, hprecedes⟩
  nonempty := List.forall_mem_append.mpr ⟨h.nonempty, h'.nonempty⟩
  timed := List.forall_mem_append.mpr ⟨h.timed, h'.timed⟩
  single := fun hf => List.forall_mem_append.mpr ⟨h.single hf, h'.single hf⟩

theorem Grouped.groupAt_append (h : Grouped f s) (s' : Series) (t : Instant) :
    groupAt (s ++ s') t = if groupAt s t = [] then groupAt s' t else groupAt s t := by
  induction s with
  | nil => rfl
  | cons e s ih =>
      obtain ⟨u, g⟩ := e
      have hg : g ≠ [] := h.nonempty _ List.mem_cons_self
      rw [List.cons_append, groupAt_cons, groupAt_cons, ih h.tail]
      by_cases hu : u = t
      · rw [if_pos hu, if_pos hu, if_neg hg]
      · rw [if_neg hu, if_neg hu]

/-- Laying earlier groups over a series puts them in front of it. -/
theorem Grouped.overlay_before {fresh : Series} (h : Grouped f s) (hfresh : Grouped f fresh)
    (hprecedes : Precedes fresh s) : overlay s fresh = fresh ++ s := by
  obtain ⟨hover, hgroups⟩ := h.overlay_spec hfresh
  refine hover.ext (hfresh.append h hprecedes) fun t => ?_
  rw [hgroups, hfresh.groupAt_append]

/-- Laying later groups over a series puts them behind it. -/
theorem Grouped.overlay_after {fresh : Series} (h : Grouped f s) (hfresh : Grouped f fresh)
    (hprecedes : Precedes s fresh) : overlay s fresh = s ++ fresh := by
  obtain ⟨hover, hgroups⟩ := h.overlay_spec hfresh
  refine hover.ext (h.append hfresh hprecedes) fun t => ?_
  rw [hgroups, h.groupAt_append]
  by_cases ht : groupAt s t = []
  · rw [if_pos ht]
    by_cases htf : groupAt fresh t = []
    · rw [if_pos htf, ht, htf]
    · rw [if_neg htf]
  · rw [if_neg ht, if_pos (hprecedes.groupAt_eq_nil ht)]

/-- What was laid over a series is what the series should be if it has the groups of that. -/
theorem Grouped.overlay_eq_iff_subset {fresh whole : Series} (h : Grouped f s)
    (hfresh : Grouped f fresh) (hwhole : Grouped f whole)
    (helsewhere : ∀ t, groupAt fresh t = [] → groupAt whole t = groupAt s t) :
    overlay s fresh = whole ↔ fresh ⊆ whole := by
  obtain ⟨hover, hgroups⟩ := h.overlay_spec hfresh
  constructor
  · rintro rfl e he
    have hne : groupAt fresh e.1 ≠ [] := by
      rw [hfresh.groupAt_of_mem he]
      exact hfresh.nonempty e he
    have hat : groupAt (overlay s fresh) e.1 = e.2 := by
      rw [hgroups, if_neg hne, hfresh.groupAt_of_mem he]
    have hmem := mem_of_groupAt (hat ▸ hfresh.nonempty e he)
    rw [hat] at hmem
    exact hmem
  · intro hsubset
    refine hover.ext hwhole fun t => ?_
    rw [hgroups]
    by_cases ht : groupAt fresh t = []
    · rw [if_pos ht, helsewhere t ht]
    · rw [if_neg ht]
      exact (hwhole.groupAt_of_mem (hsubset (mem_of_groupAt ht))).symm

/-- A series with bars laid over it: where there are such bars, they have the say. -/
def lay (f : Frequency) (s : Series) (bars : List Bar) : Series := overlay s (group f bars)

theorem Grouped.lay_spec (h : Grouped f s) (bars : List Bar) : Grouped f (lay f s bars) ∧
    ∀ t, groupAt (lay f s bars) t = if slot f bars t = [] then groupAt s t else slot f bars t := by
  obtain ⟨hgrouped, hgroups⟩ := h.overlay_spec (grouped_group f bars)
  refine ⟨hgrouped, fun t => ?_⟩
  show groupAt (overlay s (group f bars)) t = _
  rw [hgroups, groupAt_group]

/-- Of two batches, the later one has the say; trades of both stay if both have some. -/
theorem slot_append (f : Frequency) (bars later : List Bar) (t : Instant) :
    slot f (bars ++ later) t = if f = .tick then slot f bars t ++ slot f later t
      else if slot f later t = [] then slot f bars t else slot f later t := by
  unfold slot
  rw [List.filter_append]
  by_cases hf : f = .tick
  · simp [hf]
  · simp only [hf, if_false, List.getLast?_append]
    cases (later.filter (·.time = t)).getLast? with
    | none => simp
    | some b => simp

/-- Batches that have no bars for the same instant. -/
def TimesApart (bars later : List Bar) : Prop := ∀ b ∈ bars, ∀ c ∈ later, b.time ≠ c.time

theorem TimesApart.slot_eq_nil {bars later : List Bar} {t : Instant} (h : TimesApart bars later)
    (hlater : slot f later t ≠ []) : slot f bars t = [] := by
  obtain ⟨c, hc⟩ := List.exists_mem_of_ne_nil _ hlater
  obtain ⟨hmem, htime⟩ := mem_slot hc
  exact Series.slot_eq_nil.mpr fun b hb hbt => h b hb c hmem (hbt.trans htime.symm)

/-- Batches that are laid one after the other may be laid at once, unless they share trades. -/
theorem Grouped.lay_append {bars later : List Bar} (h : Grouped f s)
    (hapart : f = .tick → TimesApart bars later) :
    lay f (lay f s bars) later = lay f s (bars ++ later) := by
  obtain ⟨hgrouped, hgroups⟩ := h.lay_spec bars
  obtain ⟨hgrouped', hgroups'⟩ := hgrouped.lay_spec later
  obtain ⟨hgrouped'', hgroups''⟩ := h.lay_spec (bars ++ later)
  refine hgrouped'.ext hgrouped'' fun t => ?_
  rw [hgroups', hgroups'', hgroups, slot_append]
  by_cases hlater : slot f later t = []
  · simp [hlater]
  · by_cases hf : f = .tick
    · -- the earlier batch has no trades at an instant that the later one has
      have hearlier : slot f bars t = [] := (hapart hf).slot_eq_nil hlater
      simp [hf ▸ hearlier, hf ▸ hlater, hf]
    · simp [hlater, hf]

/-- Batches without a common instant may be laid in either order. -/
theorem Grouped.lay_comm {bars later : List Bar} (h : Grouped f s)
    (hapart : TimesApart bars later) : lay f s (bars ++ later) = lay f s (later ++ bars) := by
  have hslot : ∀ t, slot f (bars ++ later) t = slot f (later ++ bars) t := by
    intro t
    rw [slot_append, slot_append]
    by_cases hlater : slot f later t = []
    · simp [hlater]
    · have hearlier : slot f bars t = [] := hapart.slot_eq_nil hlater
      simp [hearlier, hlater]
  obtain ⟨hgrouped, hgroups⟩ := h.lay_spec (bars ++ later)
  obtain ⟨hgrouped', hgroups'⟩ := h.lay_spec (later ++ bars)
  refine hgrouped.ext hgrouped' fun t => ?_
  rw [hgroups, hgroups', hslot]

/-! ### Ranges and bars -/

theorem Grouped.within (h : Grouped f s) (start stop : Instant) : Grouped f (within start stop s) :=
  h.sublist List.filter_sublist

theorem groupAt_within (s : Series) (start stop t : Instant) :
    groupAt (Series.within start stop s) t
      = if start ≤ t ∧ t ≤ stop then groupAt s t else [] := by
  unfold Series.within
  induction s with
  | nil =>
      rw [List.filter_nil, groupAt_nil]
      split <;> rfl
  | cons e s ih =>
      obtain ⟨u, g⟩ := e
      rw [List.filter_cons]
      by_cases hu : start ≤ u ∧ u ≤ stop
      · rw [if_pos (by simpa using hu), groupAt_cons, groupAt_cons, ih]
        by_cases heq : u = t
        · rw [if_pos heq, if_pos heq, if_pos (heq ▸ hu)]
        · rw [if_neg heq, if_neg heq]
      · rw [if_neg (by simpa using hu), groupAt_cons, ih]
        by_cases heq : u = t
        · rw [if_neg (heq ▸ hu), if_neg (heq ▸ hu)]
        · rw [if_neg heq]

/-- A range is cut out of a series and of the bars laid over it, or of both together. -/
theorem Grouped.lay_within (h : Grouped f s) (start stop : Instant) (bars : List Bar) :
    lay f (Series.within start stop s) (bars.filter fun b => start ≤ b.time && b.time ≤ stop)
      = Series.within start stop (lay f s bars) := by
  obtain ⟨hgrouped, hgroups⟩ := h.lay_spec bars
  obtain ⟨hcut, hcutGroups⟩ := (h.within start stop).lay_spec
    (bars.filter fun b => start ≤ b.time && b.time ≤ stop)
  refine hcut.ext (hgrouped.within start stop) fun t => ?_
  rw [hcutGroups, groupAt_within, groupAt_within, hgroups, slot_range]
  by_cases ht : start ≤ t ∧ t ≤ stop
  · rw [if_pos ht, if_pos ht, if_pos ht]
  · rw [if_neg ht, if_pos rfl, if_neg ht, if_neg ht]

/-- The bars of a series that have a time are its group. -/
theorem Grouped.filter_bars (h : Grouped f s) (t : Instant) :
    s.bars.filter (·.time = t) = groupAt s t := by
  induction s with
  | nil => rfl
  | cons e s ih =>
      obtain ⟨u, g⟩ := e
      have hbars : bars ((u, g) :: s) = g ++ bars s := List.flatMap_cons
      have htimed := h.timed _ List.mem_cons_self
      rw [hbars, List.filter_append, ih h.tail, groupAt_cons]
      by_cases hu : u = t
      · have hlater : groupAt s t = [] := groupAt_of_lt fun e he =>
          hu ▸ (List.pairwise_cons.mp h.sorted).1 e he
        have hall : g.filter (·.time = t) = g :=
          List.filter_eq_self.mpr fun b hb => by simp [htimed b hb, hu]
        rw [if_pos hu, hlater, hall, List.append_nil]
      · have hnone : g.filter (·.time = t) = [] :=
          List.filter_eq_nil_iff.mpr fun b hb => by simp [htimed b hb, hu]
        rw [if_neg hu, hnone, List.nil_append]

theorem Grouped.mem_bars {b : Bar} (h : Grouped f s) : b ∈ s.bars ↔ b ∈ groupAt s b.time := by
  rw [← h.filter_bars, List.mem_filter]
  simp

/-- An instant has a group if and only if a bar has its time. -/
theorem Grouped.groupAt_ne_nil (h : Grouped f s) {t : Instant} :
    groupAt s t ≠ [] ↔ ∃ b ∈ s.bars, b.time = t := by
  rw [← h.filter_bars, ne_eq, List.filter_eq_nil_iff]
  simp

/-- The bars of a series ascend; unless they are trades, no two of them share a time. -/
theorem Grouped.ascending (h : Grouped f s) :
    s.bars.Pairwise (·.time ≤ ·.time) ∧ (f ≠ .tick → s.bars.Pairwise (·.time < ·.time)) := by
  induction s with
  | nil => exact ⟨List.Pairwise.nil, fun _ => List.Pairwise.nil⟩
  | cons e s ih =>
      obtain ⟨u, g⟩ := e
      obtain ⟨hle, hlt⟩ := ih h.tail
      have hbars : bars ((u, g) :: s) = g ++ bars s := List.flatMap_cons
      have htimed : ∀ b ∈ g, b.time = u := h.timed _ List.mem_cons_self
      have hlater : ∀ b ∈ g, ∀ c ∈ bars s, b.time < c.time := by
        intro b hb c hc
        obtain ⟨d, hd, hcd⟩ := List.mem_flatMap.mp hc
        rw [htimed b hb, h.tail.timed d hd c hcd]
        exact (List.pairwise_cons.mp h.sorted).1 d hd
      rw [hbars]
      constructor
      · refine List.pairwise_append.mpr ⟨?_, hle, fun b hb c hc => Int.le_of_lt (hlater b hb c hc)⟩
        refine List.pairwise_of_forall_mem_list fun b hb c hc => ?_
        exact Int.le_of_eq ((htimed b hb).trans (htimed c hc).symm)
      · intro hf
        refine List.pairwise_append.mpr ⟨?_, hlt hf, hlater⟩
        have hlength : g.length ≤ 1 := h.single hf _ List.mem_cons_self
        cases g with
        | nil => exact List.Pairwise.nil
        | cons b rest =>
            rw [List.length_cons] at hlength
            have hrest : rest = [] := List.length_eq_zero_iff.mp (by omega)
            rw [hrest]
            exact List.pairwise_singleton _ b

/-- The bars of a series, grouped, are the series. -/
theorem Grouped.group_bars (h : Grouped f s) : group f s.bars = s := by
  refine (grouped_group f _).ext h fun t => ?_
  rw [groupAt_group, slot_eq_filter, h.filter_bars]
  intro hf
  rw [h.filter_bars]
  exact h.length_groupAt hf t

/-- Ascending bars that agree at every instant are the same. -/
theorem eq_of_times {bars bars' : List Bar} (h : bars.Pairwise (·.time ≤ ·.time))
    (h' : bars'.Pairwise (·.time ≤ ·.time))
    (heq : ∀ t, bars.filter (·.time = t) = bars'.filter (·.time = t)) : bars = bars' := by
  have hmem : ∀ {l l' : List Bar}, (∀ t, l.filter (·.time = t) = l'.filter (·.time = t)) →
      ∀ b ∈ l, b ∈ l' := fun hl b hb =>
    List.mem_of_mem_filter (hl b.time ▸ List.mem_filter.mpr ⟨hb, by simp⟩)
  induction bars generalizing bars' with
  | nil =>
      refine (List.eq_nil_iff_forall_not_mem.mpr fun b hb => ?_).symm
      exact List.not_mem_nil (hmem (fun t => (heq t).symm) b hb)
  | cons b bars ih =>
      cases bars' with
      | nil => exact absurd (hmem heq b List.mem_cons_self) List.not_mem_nil
      | cons c bars' =>
          obtain ⟨hfirst, hrest⟩ := List.pairwise_cons.mp h
          obtain ⟨hfirst', hrest'⟩ := List.pairwise_cons.mp h'
          -- both bars are first in their list, so they have the same time
          have htime : b.time = c.time := by
            have hbc : b.time ≤ c.time := by
              rcases List.mem_cons.mp (hmem (fun t => (heq t).symm) c List.mem_cons_self) with hc | hc
              · exact Int.le_of_eq (congrArg Bar.time hc.symm)
              · exact hfirst c hc
            have hcb : c.time ≤ b.time := by
              rcases List.mem_cons.mp (hmem heq b List.mem_cons_self) with hb | hb
              · exact Int.le_of_eq (congrArg Bar.time hb.symm)
              · exact hfirst' b hb
            exact Int.le_antisymm hbc hcb
          have hhead := heq b.time
          rw [List.filter_cons_of_pos (by simp), List.filter_cons_of_pos (by simp [htime])] at hhead
          obtain rfl := (List.cons.inj hhead).1
          refine congrArg (b :: ·) (ih hrest hrest' fun t => ?_)
          have htail := heq t
          by_cases ht : b.time = t
          · rw [List.filter_cons_of_pos (by simpa using ht),
              List.filter_cons_of_pos (by simpa using ht)] at htail
            exact (List.cons.inj htail).2
          · rw [List.filter_cons_of_neg (by simpa using ht),
              List.filter_cons_of_neg (by simpa using ht)] at htail
            exact htail

/-! ### Bounds -/

theorem bounds?_eq_none : bounds? s = none ↔ s = [] := by
  cases s with
  | nil => exact ⟨fun _ => rfl, fun _ => rfl⟩
  | cons e s => simp [bounds?, List.getLast?_cons]

/-- The bounds of a series have groups, and no group lies beyond them. -/
theorem Grouped.bounds?_spec {first last : Instant} (h : Grouped f s)
    (hbounds : bounds? s = some (first, last)) :
    groupAt s first ≠ [] ∧ groupAt s last ≠ [] ∧
      ∀ t, groupAt s t ≠ [] → first ≤ t ∧ t ≤ last := by
  unfold bounds? at hbounds
  cases hhead : s.head? with
  | none => simp [hhead] at hbounds
  | some a =>
      cases hlast : s.getLast? with
      | none => simp [hlast] at hbounds
      | some b =>
          simp only [hhead, hlast, Option.some.injEq, Prod.mk.injEq] at hbounds
          obtain ⟨rfl, rfl⟩ := hbounds
          have ha : a ∈ s := List.mem_of_head? hhead
          have hb : b ∈ s := List.mem_of_getLast? hlast
          refine ⟨?_, ?_, fun t ht => ?_⟩
          · rw [h.groupAt_of_mem ha]
            exact h.nonempty a ha
          · rw [h.groupAt_of_mem hb]
            exact h.nonempty b hb
          · have hmem := mem_of_groupAt ht
            have hsorted : s.Pairwise (·.1 ≤ ·.1) := h.sorted.imp Int.le_of_lt
            constructor
            · obtain ⟨rest, rfl⟩ := List.head?_eq_some_iff.mp hhead
              rcases List.mem_cons.mp hmem with heq | hmem
              · exact Int.le_of_eq (congrArg Prod.fst heq).symm
              · exact (List.pairwise_cons.mp hsorted).1 _ hmem
            · obtain ⟨rest, rfl⟩ := List.getLast?_eq_some_iff.mp hlast
              rcases List.mem_append.mp hmem with hmem | hmem
              · exact (List.pairwise_append.mp hsorted).2.2 _ hmem b (List.mem_singleton.mpr rfl)
              · exact Int.le_of_eq (congrArg Prod.fst (List.mem_singleton.mp hmem))

end Series

end BarArchive
