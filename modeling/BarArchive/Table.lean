/-
Finite tables: what is filed under which key.

A table is a list of entries with different keys, in the order in which the keys were
first filed. The view of a table is `find?`; each operation is described by what it
does to that view.

What is kept in tables is known from outside by the answers that it gives when it is called,
one call after the other. Two ways of keeping it answer alike as soon as their states can be
related in such a way that one call, made to both, gives the same answer and leaves related
states.
-/

namespace BarArchive

/-- Entries with different keys. -/
structure Table (κ α : Type) where
  entries : List (κ × α) := []

namespace Table

variable {κ α β : Type} [DecidableEq κ]

/-- The table without entries. -/
def empty : Table κ α := ⟨[]⟩

instance : Inhabited (Table κ α) := ⟨empty⟩

/-- The first entry under a key. -/
def lookup (k : κ) : List (κ × α) → Option α
  | [] => none
  | (k', a) :: rest => if k' = k then some a else lookup k rest

/-- The entries with `a` under `k`: in the place of the old entry, or at the end. -/
def put (k : κ) (a : α) : List (κ × α) → List (κ × α)
  | [] => [(k, a)]
  | (k', b) :: rest => if k' = k then (k, a) :: rest else (k', b) :: put k a rest

/-- What is filed under a key. -/
def find? (t : Table κ α) (k : κ) : Option α := lookup k t.entries

/-- Whether something is filed under a key. -/
def contains (t : Table κ α) (k : κ) : Bool := (t.find? k).isSome

/-- Files `a` under `k`, in place of what was there. -/
def insert (t : Table κ α) (k : κ) (a : α) : Table κ α := ⟨put k a t.entries⟩

/-- Removes what is filed under a key. -/
def erase (t : Table κ α) (k : κ) : Table κ α := ⟨t.entries.filter fun e => e.1 ≠ k⟩

/-- Changes what is filed under a key, if anything is. -/
def modify (t : Table κ α) (k : κ) (f : α → α) : Table κ α :=
  match t.find? k with
  | some a => t.insert k (f a)
  | none => t

/-- The keys in their order. -/
def keys (t : Table κ α) : List κ := t.entries.map (·.1)

/-- What is filed, in the order of the keys. -/
def values (t : Table κ α) : List α := t.entries.map (·.2)

/-- The number of entries. -/
def size (t : Table κ α) : Nat := t.entries.length

/-- Whether there are no entries. -/
def isEmpty (t : Table κ α) : Bool := t.entries.isEmpty

/-! ### What the operations do to the view -/

@[simp] theorem find?_empty (k : κ) : (empty : Table κ α).find? k = none := rfl

theorem lookup_put (k k' : κ) (a : α) (es : List (κ × α)) :
    lookup k' (put k a es) = if k = k' then some a else lookup k' es := by
  induction es with
  | nil => simp [put, lookup]
  | cons e es ih =>
    obtain ⟨j, b⟩ := e
    by_cases hj : j = k
    · subst hj
      by_cases hk : j = k' <;> simp [put, lookup, hk]
    · by_cases hk : k = k'
      · subst hk
        simp [put, lookup, hj, ih]
      · simp [put, lookup, hj, ih, hk]

theorem find?_insert (t : Table κ α) (k k' : κ) (a : α) :
    (t.insert k a).find? k' = if k = k' then some a else t.find? k' :=
  lookup_put k k' a t.entries

theorem put_put (k : κ) (a b : α) (es : List (κ × α)) : put k b (put k a es) = put k b es := by
  induction es with
  | nil => simp [put]
  | cons e es ih =>
    obtain ⟨j, c⟩ := e
    by_cases hj : j = k
    · simp [put, hj]
    · simp [put, hj, ih]

/-- Of two entries that are filed under one key, the later one stays. -/
theorem insert_insert (t : Table κ α) (k : κ) (a b : α) :
    (t.insert k a).insert k b = t.insert k b :=
  congrArg Table.mk (put_put k a b t.entries)

theorem put_lookup {k : κ} {a : α} {es : List (κ × α)} (h : lookup k es = some a) :
    put k a es = es := by
  induction es with
  | nil => cases h
  | cons e es ih =>
    obtain ⟨j, c⟩ := e
    by_cases hj : j = k
    · simp only [lookup, hj, if_true, Option.some.injEq] at h
      simp [put, hj, h]
    · simp only [lookup, hj, if_false] at h
      simp [put, hj, ih h]

/-- Filing what is filed already changes nothing. -/
theorem insert_find? {t : Table κ α} {k : κ} {a : α} (h : t.find? k = some a) :
    t.insert k a = t :=
  congrArg Table.mk (put_lookup h)

theorem lookup_filter (k k' : κ) (es : List (κ × α)) :
    lookup k' (es.filter fun e => e.1 ≠ k) = if k = k' then none else lookup k' es := by
  induction es with
  | nil => simp [lookup]
  | cons e es ih =>
    obtain ⟨j, b⟩ := e
    by_cases hj : j = k
    · subst hj
      by_cases hk : j = k'
      · simp_all
      · simp_all [lookup]
    · by_cases hk : k = k'
      · subst hk
        simp_all [lookup]
      · by_cases hj' : j = k' <;> simp_all [lookup]

theorem find?_erase (t : Table κ α) (k k' : κ) :
    (t.erase k).find? k' = if k = k' then none else t.find? k' :=
  lookup_filter k k' t.entries

theorem find?_modify (t : Table κ α) (k k' : κ) (f : α → α) :
    (t.modify k f).find? k' = if k = k' then (t.find? k').map f else t.find? k' := by
  by_cases hk : k = k'
  · subst hk
    cases h : t.find? k with
    | none => simp [modify, h]
    | some a => simp [modify, h, find?_insert]
  · cases h : t.find? k with
    | none => simp [modify, h, hk]
    | some a => simp [modify, h, find?_insert, hk]

/-- A table without anything to find has no entries. -/
theorem entries_eq_nil {t : Table κ α} (h : ∀ k, t.find? k = none) : t.entries = [] := by
  cases hes : t.entries with
  | nil => rfl
  | cons e es =>
    have hfound := h e.1
    simp [find?, hes, lookup] at hfound

/-- Whatever is said about entries one by one is said about what is found. -/
theorem find?_map (t : Table κ α) (g : κ → α → β) (k : κ) :
    (⟨t.entries.map fun e => (e.1, g e.1 e.2)⟩ : Table κ β).find? k = (t.find? k).map (g k) := by
  obtain ⟨es⟩ := t
  induction es with
  | nil => rfl
  | cons e es ih =>
    by_cases he : e.1 = k
    · simp [find?, lookup, he]
    · simpa [find?, lookup, he] using ih

/-- Removing keys one after the other removes them all. -/
theorem find?_foldl_erase (ks : List κ) (t : Table κ α) (k : κ) :
    (ks.foldl erase t).find? k = if k ∈ ks then none else t.find? k := by
  induction ks generalizing t with
  | nil => simp
  | cons j ks ih =>
    rw [List.foldl_cons, ih, find?_erase]
    by_cases hj : j = k
    · simp [hj]
    · simp [hj, Ne.symm hj]

theorem contains_iff {t : Table κ α} {k : κ} : t.contains k = true ↔ ∃ a, t.find? k = some a :=
  Option.isSome_iff_exists

theorem mem_keys {t : Table κ α} {k : κ} : k ∈ t.keys ↔ t.contains k = true := by
  obtain ⟨es⟩ := t
  induction es with
  | nil => simp [keys, contains, find?, lookup]
  | cons e es ih =>
    by_cases he : e.1 = k
    · simp [keys, contains, find?, lookup, he]
    · simpa [keys, contains, find?, lookup, he, Ne.symm he] using ih

theorem isEmpty_iff {t : Table κ α} : t.isEmpty = true ↔ ∀ k, t.contains k = false := by
  constructor
  · intro h k
    have hnil : t.entries = [] := List.isEmpty_iff.mp h
    simp [contains, find?, hnil, lookup]
  · intro h
    exact List.isEmpty_iff.mpr (entries_eq_nil fun k => Option.isNone_iff_eq_none.mp (by
      simpa [contains] using h k))

/-! ### Tables that keep what they promise -/

/-- No key has two entries. -/
def Distinct (t : Table κ α) : Prop := t.keys.Nodup

omit [DecidableEq κ] in
theorem distinct_empty : (empty : Table κ α).Distinct := List.Pairwise.nil

/-- What is found is an entry, and every entry is found. -/
theorem Distinct.mem_iff {t : Table κ α} (h : t.Distinct) {k : κ} {a : α} :
    (k, a) ∈ t.entries ↔ t.find? k = some a := by
  obtain ⟨es⟩ := t
  induction es with
  | nil => simp [find?, lookup]
  | cons e es ih =>
    obtain ⟨hnew, hrest⟩ := List.nodup_cons.mp h
    by_cases he : e.1 = k
    · obtain ⟨j, b⟩ := e
      obtain rfl : j = k := he
      have hnone : (j, a) ∉ es := fun ha => hnew (List.mem_map.mpr ⟨(j, a), ha, rfl⟩)
      simp [find?, lookup, hnone, eq_comm]
    · have hne : (k, a) ≠ e := fun heq => he (heq ▸ rfl)
      simpa [find?, lookup, he, hne] using ih hrest

theorem Distinct.erase {t : Table κ α} (h : t.Distinct) (k : κ) : (t.erase k).Distinct :=
  List.Pairwise.sublist (List.filter_sublist.map _) h

theorem keys_put (k : κ) (a : α) (es : List (κ × α)) :
    (put k a es).map (·.1) = if k ∈ es.map (·.1) then es.map (·.1) else es.map (·.1) ++ [k] := by
  induction es with
  | nil => simp [put]
  | cons e es ih =>
    by_cases he : e.1 = k
    · simp [put, he]
    · by_cases hk : k ∈ es.map (·.1) <;> simp_all [put, eq_comm]

theorem Distinct.insert {t : Table κ α} (h : t.Distinct) (k : κ) (a : α) :
    (t.insert k a).Distinct := by
  show ((put k a t.entries).map (·.1)).Nodup
  rw [keys_put]
  split
  · exact h
  · rename_i hk
    refine List.nodup_append.mpr ⟨h, List.pairwise_singleton _ _, fun j hj i hi hji => hk ?_⟩
    obtain rfl := List.mem_singleton.mp hi
    exact hji ▸ hj

theorem Distinct.modify {t : Table κ α} (h : t.Distinct) (k : κ) (g : α → α) :
    (t.modify k g).Distinct := by
  unfold Table.modify
  split
  · exact h.insert k _
  · exact h

omit [DecidableEq κ] in
theorem Distinct.map {t : Table κ α} (h : t.Distinct) (g : κ → α → β) :
    (⟨t.entries.map fun e => (e.1, g e.1 e.2)⟩ : Table κ β).Distinct := by
  show ((t.entries.map fun e => (e.1, g e.1 e.2)).map (·.1)).Nodup
  rw [List.map_map]
  exact h

/-- What only one entry contributes to is what that entry contributes. -/
theorem Distinct.flatMap_eq {t : Table κ α} (h : t.Distinct) {g : κ × α → List β} {k : κ}
    (hg : ∀ e ∈ t.entries, e.1 ≠ k → g e = []) :
    t.entries.flatMap g = ((t.find? k).map fun a => g (k, a)).getD [] := by
  obtain ⟨es⟩ := t
  induction es with
  | nil => rfl
  | cons e es ih =>
    obtain ⟨hnew, hrest⟩ := List.nodup_cons.mp h
    have htail := fun e' he' => hg e' (List.mem_cons_of_mem e he')
    by_cases he : e.1 = k
    · obtain ⟨j, b⟩ := e
      obtain rfl : j = k := he
      have hnil : es.flatMap g = [] := List.flatMap_eq_nil_iff.mpr fun e' he' =>
        htail e' he' fun hj => hnew (List.mem_map.mpr ⟨e', he', hj⟩)
      simp [find?, lookup, hnil]
    · rw [List.flatMap_cons, hg e List.mem_cons_self he, List.nil_append]
      simpa [find?, lookup, he] using ih hrest htail

end Table

/-! ### Calls and answers -/

section Calls

variable {σ τ γ α : Type}

/-- The state after some calls that are made one after the other, and the answers in order. -/
def answered (call : σ → γ → σ × α) : σ → List γ → σ × List α
  | s, [] => (s, [])
  | s, c :: calls =>
    let (s', answer) := call s c
    let (end_, answers) := answered call s' calls
    (end_, answer :: answers)

/-- What is so for one call is so for any number of calls. -/
theorem answered_alike {call : σ → γ → σ × α} {call' : τ → γ → τ × α} {R : σ → τ → Prop}
    (hcall : ∀ s t c, R s t → R (call s c).1 (call' t c).1 ∧ (call s c).2 = (call' t c).2)
    (calls : List γ) : ∀ {s : σ} {t : τ}, R s t →
      R (answered call s calls).1 (answered call' t calls).1 ∧
        (answered call s calls).2 = (answered call' t calls).2 := by
  induction calls with
  | nil =>
      intro s t h
      exact ⟨h, rfl⟩
  | cons c calls ih =>
      intro s t h
      obtain ⟨hstate, hanswer⟩ := hcall s t c h
      obtain ⟨hlast, hanswers⟩ := ih hstate
      exact ⟨hlast, List.cons_eq_cons.mpr ⟨hanswer, hanswers⟩⟩

end Calls

end BarArchive
