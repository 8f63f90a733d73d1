/-
What arrives of a message.

A message may tell its points in time by moments and its times of day by readings, leap seconds
included, and what is read from the wire tells them by instants and times of day. Both are the
same message in other terms: `map` exchanges the terms and touches nothing else.

What arrives of a message has the instants of its moments and the whole seconds of its readings,
and it lacks the numbers that the broker gave a request. Told by moments again, an instant is
the moment outside leap seconds that it is taken for.
-/
import BarArchive.Wire.Message

namespace BarArchive

variable {τ τ' τ'' κ κ' κ'' : Type}

/-! ### Other terms -/

/-- A session in other terms. -/
def TradingSession.map (g : κ → κ') (s : TradingSession κ) : TradingSession κ' :=
  ⟨g s.opens, g s.closes⟩

/-- An instrument in other terms. -/
def Instrument.map (f : τ → τ') (g : κ → κ') (i : Instrument τ κ) : Instrument τ' κ' :=
  { i with expiration := i.expiration.map f, sessions := i.sessions.map (.map g) }

/-- A request in other terms. -/
def Request.map (f : τ → τ') (g : κ → κ') (r : Request τ κ) : Request τ' κ' :=
  { r with instrument := r.instrument.map f g, start := f r.start, stop := f r.stop }

/-- A bar in other terms. -/
def Bar.map (f : τ → τ') (b : Bar τ) : Bar τ' :=
  { b with time := f b.time, opened := b.opened.map f }

/-- Bars to be stored in other terms. -/
def Addition.map (f : τ → τ') (g : κ → κ') (a : Addition τ κ) : Addition τ' κ' :=
  { a with instrument := a.instrument.map f g, bars := a.bars.map (.map f) }

/-- What is stored in other terms. -/
def Coverage.map (f : τ → τ') (c : Coverage τ) : Coverage τ' :=
  { c with earliest := f c.earliest, latest := f c.latest }

/-- A question in other terms. -/
def Query.map (f : τ → τ') (g : κ → κ') : Query τ κ → Query τ' κ'
  | history r => history (r.map f g)
  | push a => push (a.map f g)
  | coverage q => coverage q

/-- An answer in other terms. -/
def Response.map (f : τ → τ') (g : κ → κ') : Response τ κ → Response τ' κ'
  | history r bars => history (r.map f g) (bars.map (.map f))
  | pushAccepted => pushAccepted
  | pushRejected text => pushRejected text
  | coverage requestId c => coverage requestId (c.map (.map f))
  | failure requestId text => failure requestId text

section Composition

variable (f : τ → τ') (f' : τ' → τ'') (g : κ → κ') (g' : κ' → κ'')

theorem Instrument.map_map (i : Instrument τ κ) :
    (i.map f g).map f' g' = i.map (f' ∘ f) (g' ∘ g) := by
  simp [map, Function.comp_def, TradingSession.map]

theorem Request.map_map (r : Request τ κ) :
    (r.map f g).map f' g' = r.map (f' ∘ f) (g' ∘ g) := by
  simp [map, Instrument.map_map]

theorem Bar.map_map (b : Bar τ) : (b.map f).map f' = b.map (f' ∘ f) := by
  simp [map]

theorem Addition.map_map (a : Addition τ κ) :
    (a.map f g).map f' g' = a.map (f' ∘ f) (g' ∘ g) := by
  simp [map, Instrument.map_map, Function.comp_def, Bar.map_map]

theorem Coverage.map_map (c : Coverage τ) : (c.map f).map f' = c.map (f' ∘ f) := rfl

theorem Query.map_map (q : Query τ κ) : (q.map f g).map f' g' = q.map (f' ∘ f) (g' ∘ g) := by
  cases q with
  | history r => exact congrArg history (r.map_map f f' g g')
  | push a => exact congrArg push (a.map_map f f' g g')
  | coverage q => rfl

theorem Response.map_map (a : Response τ κ) :
    (a.map f g).map f' g' = a.map (f' ∘ f) (g' ∘ g) := by
  cases a with
  | history r bars => simp [map, Request.map_map, Function.comp_def, Bar.map_map]
  | pushAccepted => rfl
  | pushRejected text => rfl
  | coverage requestId c => simp [map, Function.comp_def, Coverage.map_map]
  | failure requestId text => rfl

end Composition

/-! ### What arrives -/

/-- A request without the numbers that the broker gave it. -/
def Request.bare (r : Request τ κ) : Request τ κ := { r with assignedId := none, parentId := none }

/-- A question without the numbers that the broker gave its request. -/
def Query.bare : Query τ κ → Query τ κ
  | history r => history r.bare
  | q => q

/-- An answer without the numbers that the broker gave its request. -/
def Response.bare : Response τ κ → Response τ κ
  | history r bars => history r.bare bars
  | a => a

section Received

variable [Dated τ] [Timed κ]

/-- A session as it arrives. -/
def TradingSession.received (s : TradingSession κ) : TradingSession := s.map Timed.wholeSeconds

/-- An instrument as it arrives. -/
def Instrument.received (i : Instrument τ κ) : Instrument := i.map Dated.instant Timed.wholeSeconds

/-- A request as it arrives. -/
def Request.received (r : Request τ κ) : Request := r.bare.map Dated.instant Timed.wholeSeconds

/-- A bar as it arrives. -/
def Bar.received (b : Bar τ) : Bar := b.map Dated.instant

/-- Bars to be stored as they arrive. -/
def Addition.received (a : Addition τ κ) : Addition := a.map Dated.instant Timed.wholeSeconds

/-- What is stored as it arrives. -/
def Coverage.received (c : Coverage τ) : Coverage := c.map Dated.instant

/-- A question as it arrives. -/
def Query.received (q : Query τ κ) : Query := q.bare.map Dated.instant Timed.wholeSeconds

/-- An answer as it arrives. -/
def Response.received (a : Response τ κ) : Response := a.bare.map Dated.instant Timed.wholeSeconds

end Received

/-- An instant arrives as it is. -/
@[simp] theorem map_dated_instant (t : Option Instant) : t.map Dated.instant = t :=
  congrFun Option.map_id t

theorem Bar.received_eq_self (b : Bar) : b.received = b := by
  rw [received, map, map_dated_instant]
  rfl

/-! ### Moments -/

/-- An instrument told by moments. -/
def Instrument.dated (i : Instrument) : Instrument Moment Reading :=
  i.map Instant.moment TimeOfDay.reading

/-- A request told by moments. -/
def Request.dated (r : Request) : Request Moment Reading := r.map Instant.moment TimeOfDay.reading

/-- A bar told by moments. -/
def Bar.dated (b : Bar) : Bar Moment := b.map Instant.moment

/-- Bars to be stored, told by moments. -/
def Addition.dated (a : Addition) : Addition Moment Reading :=
  a.map Instant.moment TimeOfDay.reading

/-- A question told by moments. -/
def Query.dated (q : Query) : Query Moment Reading := q.map Instant.moment TimeOfDay.reading

/-- An answer told by moments. -/
def Response.dated (a : Response) : Response Moment Reading :=
  a.map Instant.moment TimeOfDay.reading

/-- What arrives of a question has its moments outside leap seconds and its readings at whole
seconds. -/
theorem Query.dated_received (q : Query Moment Reading) :
    q.received.dated = q.bare.map Moment.settled Reading.wholeSecond := by
  have hreading : TimeOfDay.reading ∘ Timed.wholeSeconds = Reading.wholeSecond :=
    funext Timed.reading_wholeSeconds
  rw [dated, received, map_map, hreading]
  rfl

theorem Response.dated_received (a : Response Moment Reading) :
    a.received.dated = a.bare.map Moment.settled Reading.wholeSecond := by
  have hreading : TimeOfDay.reading ∘ Timed.wholeSeconds = Reading.wholeSecond :=
    funext Timed.reading_wholeSeconds
  rw [dated, received, map_map, hreading]
  rfl

/-! ### Instants told by moments are written as they were -/

theorem Describe.instant_moment (field : String) (t : Instant) :
    Describe.instant field t.moment = Describe.instant field t := by
  have hinstant : Dated.instant t.moment = Dated.instant t := Moment.instant_moment t
  rw [Describe.instant, Describe.instant, hinstant]
  rfl

theorem Describe.optionalInstant_moment (field : String) (t : Option Instant) :
    Describe.optionalInstant field (t.map Instant.moment) = Describe.optionalInstant field t := by
  cases t with
  | none => rfl
  | some t => exact congrArg (Except.map some) (Describe.instant_moment field t)

theorem Instrument.describe_dated (i : Instrument) : i.dated.describe = i.describe := by
  have hsessions : (i.sessions.map (.map TimeOfDay.reading)).map TradingSession.describe
      = i.sessions.map TradingSession.describe := List.map_map
  simp only [describe, dated, map, Describe.optionalInstant_moment, hsessions]

theorem Request.describe_dated (r : Request) : r.dated.describe = r.describe := by
  have hinstrument : (r.instrument.map Instant.moment TimeOfDay.reading).describe
      = r.instrument.describe := r.instrument.describe_dated
  simp only [describe, dated, map, Describe.instant_moment, hinstrument]

theorem Bar.describe_dated (b : Bar) : b.dated.describe = b.describe := by
  simp only [describe, dated, map, Describe.instant_moment, Describe.optionalInstant_moment]

theorem Addition.describe_dated (a : Addition) : a.dated.describe = a.describe := by
  have hinstrument : (a.instrument.map Instant.moment TimeOfDay.reading).describe
      = a.instrument.describe := a.instrument.describe_dated
  have hbars : (a.bars.map (.map Instant.moment)).mapM Bar.describe = a.bars.mapM Bar.describe := by
    rw [List.mapM_map]
    exact congrArg (a.bars.mapM ·) (funext Bar.describe_dated)
  simp only [describe, dated, map, hinstrument, hbars]

theorem Query.toParts_dated (q : Query) : q.dated.toParts = q.toParts := by
  have hfields : q.dated.fields = q.fields := by
    cases q with
    | history r => exact congrArg (Except.map RequestDescriptor.fields) r.describe_dated
    | push a => exact congrArg (Except.map AdditionDescriptor.fields) a.describe_dated
    | coverage q => rfl
  have htag : q.dated.tag = q.tag := by cases q <;> rfl
  rw [toParts, toParts, hfields, htag]

end BarArchive
