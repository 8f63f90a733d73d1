/-
Messages survive the wire.

A message goes through three forms: what it means, its descriptor, and the fields of the
descriptor as bytes. Fields and descriptors come through as they are. Describing is where
something can be lost or refused: an instant that 64 bits do not hold is refused, session
times lose what they have below a second, moments lose that they are within a leap second, and
the numbers that the broker gave a request are not sent at all. `received` says what is left,
and what was understood once has nothing left to lose, so that it can be sent on as it is.

Bars travel in a block, and nothing depends on how the writer of the block compresses: any
block will do that expands to the bytes of the bars.
-/
import BarArchive.Proofs.Arrival
import BarArchive.Proofs.Descriptors
import BarArchive.Wire.Message
import Mathlib.Data.List.Forall2

namespace BarArchive

/-! ### Steps that may fail -/

section Steps

variable {α β : Type}

theorem bind_eq_ok {x : Except WireError α} {f : α → Except WireError β} {b : β} :
    (x >>= f) = .ok b ↔ ∃ a, x = .ok a ∧ f a = .ok b := by
  cases x <;> simp [bind, Except.bind]

theorem ok_bind {a : α} {f : α → Except WireError β} : (Except.ok a >>= f) = f a := rfl

theorem map_eq_ok {x : Except WireError α} {f : α → β} {b : β} :
    x.map f = .ok b ↔ ∃ a, x = .ok a ∧ f a = b := by
  cases x <;> simp [Except.map]

theorem pure_eq_ok {a b : α} : (pure a : Except WireError α) = .ok b ↔ a = b := by
  simp [pure, Except.pure]

/-- All of a list come through if each of its elements does. -/
theorem mapM_eq_ok {f : α → Except WireError β} {as : List α} {bs : List β} :
    as.mapM f = .ok bs ↔ List.Forall₂ (fun a b => f a = .ok b) as bs := by
  induction as generalizing bs with
  | nil => rw [List.mapM_nil, pure_eq_ok, List.forall₂_nil_left_iff, eq_comm]
  | cons a as ih =>
      rw [List.mapM_cons, List.forall₂_cons_left_iff]
      simp only [bind_eq_ok, pure_eq_ok, ih]
      constructor
      · rintro ⟨b, hb, rest, hrest, rfl⟩
        exact ⟨b, rest, hb, hrest, rfl⟩
      · rintro ⟨b, rest, hb, hrest, rfl⟩
        exact ⟨b, hb, rest, hrest, rfl⟩

theorem exists_mapM {f : α → Except WireError β} {as : List α} (h : ∀ a ∈ as, ∃ b, f a = .ok b) :
    ∃ bs, as.mapM f = .ok bs := by
  induction as with
  | nil => exact ⟨[], rfl⟩
  | cons a as ih =>
      obtain ⟨b, hb⟩ := h a List.mem_cons_self
      obtain ⟨bs, hbs⟩ := ih fun c hc => h c (List.mem_cons_of_mem a hc)
      exact ⟨b :: bs, mapM_eq_ok.mpr (.cons hb (mapM_eq_ok.mp hbs))⟩

theorem exists_of_mapM {f : α → Except WireError β} {as : List α} {bs : List β}
    (h : as.mapM f = .ok bs) {b : β} (hb : b ∈ bs) : ∃ a, f a = .ok b := by
  have hall := mapM_eq_ok.mp h
  clear h
  induction hall with
  | nil => cases hb
  | cons hfirst _ ih =>
      rcases List.mem_cons.mp hb with rfl | hb
      · exact ⟨_, hfirst⟩
      · exact ih hb

end Steps

variable {τ κ : Type} [Dated τ] [Timed κ]

/-! ### Numbers -/

theorem Understand.frequency_number (f : Frequency) :
    Understand.frequency (Int32.ofNat f.number) = .ok f := by
  cases f <;> rfl

theorem Understand.adjustment_number (m : AdjustmentMode) :
    Understand.adjustment (Int32.ofNat m.number) = .ok m := by
  cases m <;> rfl

/-- A point in time can be described exactly if 64 bits hold its instant, which is not changed
by that. -/
theorem Describe.instant_eq_ok {field : String} {t : τ} {v : Int64} :
    Describe.instant field t = .ok v ↔ v.toInt = Dated.instant t := by
  have hfits : (Dated.instant t).fits ↔ -2 ^ 63 ≤ Dated.instant t ∧ Dated.instant t < 2 ^ 63 := by
    simp [Instant.fits]
  unfold Describe.instant
  constructor
  · intro h
    split at h
    · obtain ⟨hlow, hhigh⟩ := hfits.mp ‹_›
      obtain rfl := Except.ok.inj h
      exact Int64.toInt_ofInt_of_le hlow hhigh
    · cases h
  · intro h
    rw [if_pos (hfits.mpr (h ▸ ⟨v.le_toInt, v.toInt_lt⟩)), ← h, Int64.ofInt_toInt]

theorem Describe.optionalInstant_eq_ok {field : String} {t : Option τ} {v : Option Int64} :
    Describe.optionalInstant field t = .ok v ↔ v.map Int64.toInt = t.map Dated.instant := by
  cases t with
  | none => simp [Describe.optionalInstant, eq_comm]
  | some t =>
      rw [Describe.optionalInstant]
      cases v with
      | none => cases Describe.instant field t <;> simp [Except.map]
      | some v =>
          have hinstant : Describe.instant field t = .ok v ↔ v.toInt = Dated.instant t :=
            Describe.instant_eq_ok
          rw [Option.map_some, Option.map_some, Option.some.injEq, ← hinstant]
          cases Describe.instant field t <;> simp [Except.map]

theorem Understand.decimal_toBytes (field : String) (x : Decimal) :
    Understand.decimal field x.toBytes = .ok x := by
  rw [Understand.decimal, Decimal.ofBytes?_toBytes]

theorem Understand.optionalDecimal_toBytes (field : String) (x : Option Decimal) :
    Understand.optionalDecimal field (x.map Decimal.toBytes) = .ok x := by
  cases x with
  | none => rfl
  | some x => 
    rw [Option.map_some, Understand.optionalDecimal, Understand.decimal_toBytes]
    rfl

theorem Understand.timeOfDay_seconds (field : String) (t : κ) :
    Understand.timeOfDay field (Timed.seconds t).toUInt32 = .ok (Timed.wholeSeconds t) := by
  have hword : (Timed.seconds t).toUInt32.toNat = Timed.seconds t :=
    UInt32.toNat_ofNat_of_lt' (Nat.lt_trans (Timed.seconds_lt t) (by decide))
  rw [Understand.timeOfDay, hword, Timed.ofSeconds?_seconds]

theorem Understand.wholeSeconds_of_timeOfDay {field : String} {n : UInt32} {t : TimeOfDay}
    (h : Understand.timeOfDay field n = .ok t) : Timed.wholeSeconds t = t := by
  unfold Understand.timeOfDay at h
  split at h
  · obtain rfl := Except.ok.inj h
    exact Timed.wholeSeconds_of_ofSeconds? ‹_›
  · cases h

/-! ### Instruments -/

theorem SessionDescriptor.meaning_describe (s : TradingSession κ) :
    s.describe.meaning = .ok s.received := by
  simp only [meaning, TradingSession.describe, Understand.timeOfDay_seconds]
  rfl

theorem SessionDescriptor.received_of_meaning {d : SessionDescriptor} {s : TradingSession}
    (h : d.meaning = .ok s) : s.received = s := by
  simp only [meaning, bind_eq_ok, pure_eq_ok] at h
  obtain ⟨opens, hopens, closes, hcloses, rfl⟩ := h
  rw [TradingSession.received, TradingSession.map, Understand.wholeSeconds_of_timeOfDay hopens,
    Understand.wholeSeconds_of_timeOfDay hcloses]

theorem FutureDescriptor.meaning_describe (f : ContinuousFuture) : f.describe.meaning = .ok f := by
  simp only [meaning, ContinuousFuture.describe, Understand.adjustment_number]
  rfl

theorem InstrumentDescriptor.meaning_describe {i : Instrument τ κ} {d : InstrumentDescriptor}
    (h : i.describe = .ok d) : d.meaning = .ok i.received := by
  simp only [Instrument.describe, bind_eq_ok, pure_eq_ok, Describe.optionalInstant_eq_ok] at h
  obtain ⟨expiration, hexpiration, rfl⟩ := h
  have hfuture : (i.continuousFuture.map ContinuousFuture.describe).mapM FutureDescriptor.meaning =
      .ok i.continuousFuture := by
    cases i.continuousFuture with
    | none => rfl
    | some f => simp [FutureDescriptor.meaning_describe]
  have hsessions : (i.sessions.map TradingSession.describe).mapM SessionDescriptor.meaning =
      .ok (i.sessions.map TradingSession.received) := by
    rw [mapM_eq_ok, List.forall₂_map_left_iff, List.forall₂_map_right_iff, List.forall₂_same]
    exact fun s _ => SessionDescriptor.meaning_describe s
  simp only [meaning, hfuture, hsessions, hexpiration]
  rfl

theorem InstrumentDescriptor.describe_of_meaning {d : InstrumentDescriptor} {i : Instrument}
    (h : d.meaning = .ok i) : i.received = i ∧ ∃ e, i.describe = .ok e := by
  simp only [meaning, bind_eq_ok, pure_eq_ok] at h
  obtain ⟨future, -, sessions, hsessions, rfl⟩ := h
  have hwhole : sessions.map TradingSession.received = sessions := by
    refine (List.map_congr_left fun s hs => ?_).trans (List.map_id sessions)
    obtain ⟨e, he⟩ := exists_of_mapM hsessions hs
    exact SessionDescriptor.received_of_meaning he
  refine ⟨?_, ?_⟩
  · have hmap : sessions.map (TradingSession.map Timed.wholeSeconds) = sessions := hwhole
    simp only [Instrument.received, Instrument.map, map_dated_instant, hmap]
  · simp only [Instrument.describe, bind_eq_ok, pure_eq_ok, Describe.optionalInstant_eq_ok,
      map_dated_instant]
    exact ⟨_, d.expiration, rfl, rfl⟩

theorem Understand.describe_of_instrument {d : Option InstrumentDescriptor} {i : Instrument}
    (h : Understand.instrument d = .ok i) : i.received = i ∧ ∃ e, i.describe = .ok e := by
  cases d with
  | none => cases h
  | some d => exact InstrumentDescriptor.describe_of_meaning h

/-! ### Requests -/

theorem RequestDescriptor.meaning_describe {r : Request τ κ} {d : RequestDescriptor}
    (h : r.describe = .ok d) : d.meaning = .ok r.received := by
  simp only [Request.describe, bind_eq_ok, pure_eq_ok, Describe.instant_eq_ok] at h
  obtain ⟨instrument, hinstrument, start, hstart, stop, hstop, rfl⟩ := h
  simp only [meaning, Understand.instrument, InstrumentDescriptor.meaning_describe hinstrument,
    Understand.frequency_number, hstart, hstop]
  rfl

theorem RequestDescriptor.describe_of_meaning {d : RequestDescriptor} {r : Request}
    (h : d.meaning = .ok r) : r.received = r ∧ ∃ e, r.describe = .ok e := by
  simp only [meaning, bind_eq_ok, pure_eq_ok] at h
  obtain ⟨instrument, hinstrument, frequency, -, rfl⟩ := h
  obtain ⟨hreceived, described, hdescribed⟩ := Understand.describe_of_instrument hinstrument
  refine ⟨?_, ?_⟩
  · have hmap : instrument.map Dated.instant Timed.wholeSeconds = instrument := hreceived
    simp only [Request.received, Request.bare, Request.map, hmap]
    rfl
  · simp only [Request.describe, bind_eq_ok, pure_eq_ok, Describe.instant_eq_ok]
    exact ⟨_, described, hdescribed, d.start, rfl, d.stop, rfl, rfl⟩

/-! ### Bars -/

theorem BarDescriptor.meaning_describe {b : Bar τ} {d : BarDescriptor}
    (h : b.describe = .ok d) : d.meaning = .ok b.received := by
  simp only [Bar.describe, bind_eq_ok, pure_eq_ok, Describe.instant_eq_ok,
    Describe.optionalInstant_eq_ok] at h
  obtain ⟨time, htime, opened, hopened, rfl⟩ := h
  simp only [meaning, Understand.frequency_number, Understand.decimal_toBytes,
    Understand.optionalDecimal_toBytes, htime, hopened]
  rfl

theorem BarDescriptor.describe_of_meaning {d : BarDescriptor} {b : Bar}
    (h : d.meaning = .ok b) : ∃ e, b.describe = .ok e := by
  simp only [meaning, bind_eq_ok, pure_eq_ok] at h
  obtain ⟨_, -, _, -, _, -, _, -, _, -, _, -, _, -, _, -, _, -, _, -, _, -, rfl⟩ := h
  simp only [Bar.describe, bind_eq_ok, pure_eq_ok, Describe.instant_eq_ok,
    Describe.optionalInstant_eq_ok, map_dated_instant]
  exact ⟨_, d.time, rfl, d.opened, rfl, rfl⟩

theorem BarDescriptor.mapM_meaning {bars : List (Bar τ)} {ds : List BarDescriptor}
    (h : bars.mapM Bar.describe = .ok ds) : ds.mapM meaning = .ok (bars.map Bar.received) :=
  mapM_eq_ok.mpr (List.forall₂_map_right_iff.mpr
    ((mapM_eq_ok.mp h).flip.imp fun _ _ => meaning_describe))

/-! ### Additions and coverage -/

theorem AdditionDescriptor.meaning_describe {a : Addition τ κ} {d : AdditionDescriptor}
    (h : a.describe = .ok d) : d.meaning = .ok a.received := by
  simp only [Addition.describe, bind_eq_ok, pure_eq_ok] at h
  obtain ⟨instrument, hinstrument, bars, hbars, rfl⟩ := h
  simp only [meaning, Understand.instrument, InstrumentDescriptor.meaning_describe hinstrument,
    Understand.frequency_number, BarDescriptor.mapM_meaning hbars]
  rfl

theorem AdditionDescriptor.describe_of_meaning {d : AdditionDescriptor} {a : Addition}
    (h : d.meaning = .ok a) : a.received = a ∧ ∃ e, a.describe = .ok e := by
  simp only [meaning, bind_eq_ok, pure_eq_ok] at h
  obtain ⟨instrument, hinstrument, frequency, -, bars, hbars, rfl⟩ := h
  obtain ⟨hreceived, described, hdescribed⟩ := Understand.describe_of_instrument hinstrument
  obtain ⟨ds, hds⟩ : ∃ ds, bars.mapM Bar.describe = .ok ds := by
    refine exists_mapM fun b hb => ?_
    obtain ⟨e, he⟩ := exists_of_mapM hbars hb
    exact BarDescriptor.describe_of_meaning he
  refine ⟨?_, ?_⟩
  · have hmap : instrument.map Dated.instant Timed.wholeSeconds = instrument := hreceived
    have hbars : bars.map (Bar.map Dated.instant) = bars :=
      (List.map_congr_left fun b _ => b.received_eq_self).trans (List.map_id bars)
    simp only [Addition.received, Addition.map, hmap, hbars]
  · simp only [Addition.describe, bind_eq_ok, pure_eq_ok]
    exact ⟨_, described, hdescribed, ds, hds, rfl⟩

theorem CoverageQueryDescriptor.meaning_describe (q : CoverageQuery) :
    q.describe.meaning = .ok q := by
  simp only [meaning, CoverageQuery.describe, Understand.frequency_number]
  rfl

theorem CoverageDescriptor.meaning_describe {requestId : UInt32} {c : Option (Coverage τ)}
    {d : CoverageDescriptor} (h : Coverage.describe requestId c = .ok d) :
    d.requestId = requestId ∧ d.meaning = .ok (c.map Coverage.received) := by
  cases c with
  | none =>
      obtain rfl := Except.ok.inj h
      exact ⟨rfl, rfl⟩
  | some c =>
      simp only [Coverage.describe, CoverageQueryDescriptor.answer, bind_eq_ok, pure_eq_ok,
        Option.map_some, Describe.optionalInstant_eq_ok, Option.map_eq_some_iff] at h
      obtain ⟨_, ⟨earliest, rfl, hearliest⟩, _, ⟨latest, rfl, hlatest⟩, rfl⟩ := h
      refine ⟨rfl, ?_⟩
      simp only [meaning, Understand.frequency_number, hearliest, hlatest]
      rfl

/-! ### Questions -/

/--
Parts that a memory with 64-bit addresses holds.

Every message that exists is one of these. The bound is there because the parts of a message
are lists of any length here, and the length of a descriptor within a descriptor is written
in 64 bits.
-/
def Message.Fits (m : Message) : Prop := ∀ part ∈ m, part.length < 2 ^ 64

instance (m : Message) : Decidable m.Fits :=
  inferInstanceAs (Decidable (∀ part ∈ m, part.length < 2 ^ 64))

theorem Message.descriptor_writeAll {α : Type} {f : List Field → Option α} {fs : List Field} {d : α}
    (hknown : Field.AllKnown fs) (hsize : (Field.writeAll fs).length < 2 ^ 64)
    (hread : f fs = some d) :
    Message.descriptor f (Field.writeAll fs) = .ok d := by
  rw [Message.descriptor, Field.readAll?_writeAll hknown hsize, Option.bind_some, hread]

theorem Query.ofParts_toParts {q : Query τ κ} {m : Message} (h : q.toParts = .ok m) (hfits : m.Fits) :
    Query.ofParts m = .ok q.received := by
  simp only [toParts, bind_eq_ok, pure_eq_ok] at h
  obtain ⟨fs, hfs, rfl⟩ := h
  have hsize : (Field.writeAll fs).length < 2 ^ 64 := hfits _ (by simp)
  have htag : Message.tag [q.tag.part, Field.writeAll fs] = .ok q.tag :=
    MessageTag.ofPart_part q.tag
  have hbody : Message.part [q.tag.part, Field.writeAll fs] q.tag 1 = .ok (Field.writeAll fs) := rfl
  simp only [ofParts, htag, hbody, ok_bind]
  cases q with
  | history r =>
      obtain ⟨d, hd, rfl⟩ := map_eq_ok.mp hfs
      have hread : RequestDescriptor.ofFields? Field.depthLimit d.fields = some d :=
        d.ofFields?_fields hsize
      simp only [tag, Message.descriptor_writeAll d.allKnown_fields hsize hread, ok_bind,
        RequestDescriptor.meaning_describe hd]
      rfl
  | push a =>
      obtain ⟨d, hd, rfl⟩ := map_eq_ok.mp hfs
      have hread : AdditionDescriptor.ofFields? Field.depthLimit d.fields = some d :=
        d.ofFields?_fields hsize
      simp only [tag, Message.descriptor_writeAll d.allKnown_fields hsize hread, ok_bind,
        AdditionDescriptor.meaning_describe hd]
      rfl
  | coverage c =>
      obtain rfl := Except.ok.inj hfs
      have hread := CoverageQueryDescriptor.ofFields?_fields c.describe
      simp only [tag, Message.descriptor_writeAll c.describe.allKnown_fields hsize hread, ok_bind,
        CoverageQueryDescriptor.meaning_describe]
      rfl

/-- A question that was understood can be asked, and does not change on the way. -/
theorem Query.toParts_of_ofParts {m : Message} {q : Query} (h : Query.ofParts m = .ok q) :
    q.received = q ∧ ∃ n, q.toParts = .ok n := by
  simp only [ofParts, bind_eq_ok] at h
  obtain ⟨t, -, body, -, h⟩ := h
  cases t with
  | historyRequest =>
      simp only [bind_eq_ok, pure_eq_ok] at h
      obtain ⟨d, -, r, hr, rfl⟩ := h
      obtain ⟨hreceived, e, he⟩ := RequestDescriptor.describe_of_meaning hr
      refine ⟨congrArg history hreceived, ?_⟩
      simp only [toParts, fields, he, Except.map, ok_bind, pure_eq_ok, exists_eq']
  | push =>
      simp only [bind_eq_ok, pure_eq_ok] at h
      obtain ⟨d, -, r, hr, rfl⟩ := h
      obtain ⟨hreceived, e, he⟩ := AdditionDescriptor.describe_of_meaning hr
      refine ⟨congrArg push hreceived, ?_⟩
      simp only [toParts, fields, he, Except.map, ok_bind, pure_eq_ok, exists_eq']
  | coverageRequest =>
      simp only [bind_eq_ok, pure_eq_ok] at h
      obtain ⟨d, -, r, hr, rfl⟩ := h
      exact ⟨rfl, _, rfl⟩
  | _ => cases h

/-! ### Blocks of bars -/

namespace BarBlock

theorem deserialize_serialize {bars : List (Bar τ)} {bs : Bytes} (h : serialize bars = .ok bs)
    (hsize : bs.length < 2 ^ 64) : deserialize bs = .ok (bars.map Bar.received) := by
  simp only [serialize, bind_eq_ok, pure_eq_ok] at h
  obtain ⟨ds, hds, rfl⟩ := h
  have hfields : Field.readAll? Field.depthLimit (Field.writeAll (BarDescriptor.listFields ds)) =
      some (BarDescriptor.listFields ds) :=
    Field.readAll?_writeAll (BarDescriptor.allKnown_listFields ds) hsize
  have hlist : BarDescriptor.listOfFields? Field.depthLimit (BarDescriptor.listFields ds) =
      some ds :=
    BarDescriptor.listOfFields?_listFields ds hsize
  rw [deserialize, hfields, Option.bind_some, hlist]
  exact BarDescriptor.mapM_meaning hds

/-- **Bars come out of every block that expands to what they were written as.** -/
theorem unpack_of_expand {bars : List (Bar τ)} {bs payload : Bytes} (h : serialize bars = .ok bs)
    (hlength : bs.length ≤ maxLength) (hexpand : Block.expand? bs.length payload = some bs) :
    unpack ⟨bs.length.toUInt32, payload⟩ = .ok (bars.map Bar.received) := by
  have hsmall : bs.length < 2 ^ 32 := Nat.lt_of_le_of_lt hlength (by decide)
  have hword : bs.length.toUInt32.toNat = bs.length := UInt32.toNat_ofNat_of_lt' hsmall
  have hbars := deserialize_serialize h (by omega)
  unfold unpack
  by_cases hzero : bs.length.toUInt32 = 0
  · rw [hzero] at hword
    obtain rfl := List.length_eq_zero_iff.mp hword.symm
    -- a block of no length is not even expanded, but no bars are written as no bytes
    have hnone : deserialize [] = .ok [] := rfl
    rw [if_pos hzero, ← hbars, hnone]
  · simp only [if_neg hzero, hword, hexpand, if_true, hbars]

theorem pack_eq_ok {encoder : Block.Encoder} {bars : List (Bar τ)} {block : BarBlock} :
    pack bars encoder = .ok block ↔ ∃ bs, serialize bars = .ok bs ∧ bs.length ≤ maxLength ∧
      block = ⟨bs.length.toUInt32, encoder.shrink bs⟩ := by
  unfold pack
  rw [bind_eq_ok]
  refine exists_congr fun bs => and_congr_right fun _ => ?_
  split
  · rename_i hlarge
    simp [Nat.not_le.mpr hlarge]
  · rename_i hsmall
    rw [pure_eq_ok, eq_comm]
    simp [Nat.not_lt.mp hsmall]

theorem lengthOfPart_lengthPart (block : BarBlock) :
    lengthOfPart block.lengthPart = .ok block.length := by
  have hword : Bytes.uint32? block.lengthPart = some (block.length, []) :=
    Bytes.uint32?_eq_some.mpr (List.append_nil _).symm
  rw [lengthOfPart, hword]

end BarBlock

/-! ### Answers -/

namespace Response

theorem ofParts_historyParts {r : Request τ κ} {d : RequestDescriptor} (hd : r.describe = .ok d)
    (hsize : (Field.writeAll d.fields).length < 2 ^ 64) (block : BarBlock) :
    ofParts [MessageTag.historyReply.part, Field.writeAll d.fields, block.lengthPart,
      block.payload] = block.unpack.map (history r.received) := by
  have hread : RequestDescriptor.ofFields? Field.depthLimit d.fields = some d :=
    RequestDescriptor.ofFields?_fields d hsize
  simp only [ofParts, Message.tag, MessageTag.ofPart_part, historyOfParts, Message.part,
    List.getElem?_cons_succ, List.getElem?_cons_zero, ok_bind,
    Message.descriptor_writeAll d.allKnown_fields hsize hread,
    RequestDescriptor.meaning_describe hd, BarBlock.lengthOfPart_lengthPart]
  rfl

theorem ofParts_history {r : Request τ κ} {d : RequestDescriptor} {bars : List Bar} {block : BarBlock}
    (hd : r.describe = .ok d) (hsize : (Field.writeAll d.fields).length < 2 ^ 64)
    (hbars : block.unpack = .ok bars) :
    ofParts [MessageTag.historyReply.part, Field.writeAll d.fields, block.lengthPart,
      block.payload] = .ok (history r.received bars) := by
  rw [ofParts_historyParts hd hsize, hbars]
  rfl

theorem ofParts_toParts {encoder : Block.Encoder} {a : Response τ κ} {m : Message}
    (h : a.toParts encoder = .ok m) (hfits : m.Fits) : ofParts m = .ok a.received := by
  simp only [toParts, bind_eq_ok, pure_eq_ok] at h
  obtain ⟨body, hbody, rfl⟩ := h
  cases a with
  | history r bars =>
      simp only [Response.body, bind_eq_ok, pure_eq_ok, BarBlock.pack_eq_ok] at hbody
      obtain ⟨d, hd, _, ⟨bs, hbs, hlength, rfl⟩, rfl⟩ := hbody
      have hsize : (Field.writeAll d.fields).length < 2 ^ 64 := hfits _ (by simp)
      exact ofParts_history hd hsize
        (BarBlock.unpack_of_expand hbs hlength (encoder.expand_shrink bs))
  | pushAccepted =>
      obtain rfl := Except.ok.inj hbody
      rfl
  | pushRejected text =>
      obtain rfl := Except.ok.inj hbody
      simp only [ofParts, tag, pushOfParts, Message.part, List.getElem?_cons_succ,
        List.getElem?_cons_zero, ok_bind, MessageTag.ofPart_part, Utf8.lossy_bytes]
      rfl
  | coverage requestId c =>
      simp only [Response.body, bind_eq_ok, pure_eq_ok] at hbody
      obtain ⟨d, hd, rfl⟩ := hbody
      have hsize : (Field.writeAll d.fields).length < 2 ^ 64 := hfits _ (by simp)
      obtain ⟨hid, hmeaning⟩ := CoverageDescriptor.meaning_describe hd
      simp only [ofParts, tag, coverageOfParts, Message.part, List.getElem?_cons_succ,
        List.getElem?_cons_zero, ok_bind,
        Message.descriptor_writeAll d.allKnown_fields hsize d.ofFields?_fields, hid, hmeaning]
      rfl
  | failure requestId text =>
      obtain rfl := Except.ok.inj hbody
      have hword : Bytes.uint32? (Bytes.ofUInt32 requestId) = some (requestId, []) :=
        Bytes.uint32?_eq_some.mpr (List.append_nil _).symm
      simp only [ofParts, tag, failureOfParts, failedId, hword, Message.part,
        List.getElem?_cons_succ, List.getElem?_cons_zero, ok_bind, Option.map_some, Option.getD_some, Utf8.lossy_bytes]
      rfl

end Response

namespace Sample

/-- A request that loses what a request can lose: its numbers and the fractions of its sessions. -/
def numberedRequest : Request where
  instrument := {
    id := some (-4)
    symbol := "ESZ4"
    datasource := "IB"
    expiration := some 1734728400000000000
    continuousFuture := some ⟨"ES", .ratio⟩
    sessions := [⟨⟨1500000000, by decide⟩, ⟨3000000001, by decide⟩⟩] }
  frequency := .oneDay
  start := -1
  stop := 86400000000000
  save := false
  requestId := 31
  assignedId := some ⟨5⟩
  parentId := some ⟨6⟩

/-- A bar of four times the same price, which is below zero. -/
def evenBar : Bar :=
  { instrument := 7, frequency := .tick, time := 0,
    prices := .all ⟨true, 5, 1, by decide, by decide⟩ }

/-- What `evenBar` is written as. -/
def evenBytes : Bytes :=
  let price := [16, 0, 0, 1, 128, 5, 0, 0, 0, 0, 0, 0, 0, 0, 0, 0, 0]
  [10, 74, 8, 7] ++ [42, 50, 58, 66].flatMap (· :: price)

/-- A block of `evenBar` that copies what the prices have in common. -/
def evenBlock : Bytes :=
  [198, 10, 74, 8, 7, 42, 16, 0, 0, 1, 128, 5, 0, 1, 0, 29, 50, 18, 0, 29, 58, 18, 0, 28, 66, 18, 0,
    16, 0]

/-- What `numberedRequest` is written as. -/
def numberedDescriptor : RequestDescriptor where
  instrument := some {
    id := some (-4)
    symbol := "ESZ4"
    datasource := "IB"
    expiration := some 1734728400000000000
    future := some ⟨"ES", 2⟩
    sessions := [⟨1, 3⟩] }
  frequency := 11
  start := -1
  stop := 86400000000000
  forceFresh := false
  localOnly := false
  save := some false
  regularHoursOnly := false
  requestId := 31

/-- A moment within the last leap second of 2016. -/
def leapMoment : Moment := ⟨17166, ⟨⟨86399, 1500000000⟩, by decide, by decide⟩⟩

/-- The same request told by moments, the first of them within a leap second. -/
def leapRequest : Request Moment Reading := { numberedRequest.dated with start := leapMoment }

/-- The parts of `leapRequest`. -/
def leapParts : Message :=
  [MessageTag.historyRequest.part,
    Field.writeAll { numberedDescriptor with start := 1483228800500000000 }.fields]

/-- One of four prices that have no byte of their coefficients in common. -/
def unevenPrice (n : Fin 4) : Decimal where
  negative := false
  coefficient := 0x0c0b0a090807060504030201 + n.val * 0x101010101010101010101010
  scale := n.val + 1
  coefficient_lt := by omega
  scale_le := by omega

/-- A bar of these prices, with no four bytes that come twice, so that no block of it can copy. -/
def unevenBar : Bar where
  instrument := 1
  frequency := .oneDay
  time := 1
  prices := ⟨unevenPrice 0, unevenPrice 1, unevenPrice 2, unevenPrice 3⟩

/-- What `unevenBar` is written as. -/
def unevenBytes : Bytes :=
  [10, 78, 8, 1, 16, 11, 24, 1] ++ [(42, 1), (50, 2), (58, 3), (66, 4)].flatMap fun (key, scale) =>
    [key, 16, 0, 0, scale, 0] ++ (List.range 12).map fun k => 16 * (scale - 1) + 1 + k.toUInt8

/-- The parts of an answer that brings `unevenBar` for `leapRequest`. -/
def leapAnswerParts : Message :=
  [MessageTag.historyReply.part,
    Field.writeAll { numberedDescriptor with start := 1483228800500000000 }.fields, [80, 0, 0, 0],
    240 :: 65 :: unevenBytes]

end Sample

/--
**Messages survive the wire.** Whatever can be written is read back, but for the numbers that the
broker gave a request, what its session times have below a second, and leap seconds: a moment is
read as the moment outside leap seconds that has the same instant, and so it comes through just
if it is outside leap seconds itself. Any writer of blocks will do for bars. And whatever is read
as a question can be written, and is then read as the same question.
-/
theorem messages_survive_the_wire (encoder : Block.Encoder) :
    (∀ (q : Query Moment Reading) (m : Message), q.toParts = .ok m → m.Fits →
      (Query.ofParts m).map Query.dated = .ok (q.bare.map Moment.settled Reading.wholeSecond)) ∧
    (∀ (a : Response Moment Reading) (m : Message), a.toParts encoder = .ok m → m.Fits →
      (Response.ofParts m).map Response.dated
        = .ok (a.bare.map Moment.settled Reading.wholeSecond)) ∧
    (∀ x : Moment, x.settled.instant = x.instant ∧ x.settled.isLeap = false ∧
      (x.settled = x ↔ x.isLeap = false)) ∧
    (∀ (m : Message) (q : Query), Query.ofParts m = .ok q →
      ∃ n, q.dated.toParts = .ok n ∧ (n.Fits → Query.ofParts n = .ok q)) := by
  refine ⟨fun q m h hfits => ?_, fun a m h hfits => ?_, fun x => ?_, fun m q h => ?_⟩
  · rw [Query.ofParts_toParts h hfits, ← Query.dated_received]
    rfl
  · rw [Response.ofParts_toParts h hfits, ← Response.dated_received]
    rfl
  · exact ⟨x.instant_settled, Moment.isLeap_moment x.instant, x.settled_eq_self_iff⟩
  · obtain ⟨hreceived, n, hn⟩ := Query.toParts_of_ofParts h
    refine ⟨n, q.toParts_dated.trans hn, fun hfits => ?_⟩
    rw [Query.ofParts_toParts hn hfits, hreceived]

/-- A request that loses its numbers, the fractions of its sessions and a leap second, an answer
that brings a bar for it, and a question that was read from parts of another make. -/
theorem messages_survive_with_fractions :
    (Query.history Sample.leapRequest).toParts = .ok Sample.leapParts ∧
    (Query.ofParts Sample.leapParts).map Query.dated = .ok (.history { Sample.leapRequest with
      instrument := { Sample.leapRequest.instrument with
        sessions := [⟨⟨⟨1, 0⟩, by decide, by decide⟩, ⟨⟨3, 0⟩, by decide, by decide⟩⟩] }
      start := ⟨17167, ⟨⟨0, 500000000⟩, by decide, by decide⟩⟩
      assignedId := none
      parentId := none }) ∧
    (Response.history Sample.leapRequest [Sample.unevenBar.dated]).toParts .plain
      = .ok Sample.leapAnswerParts ∧
    (Response.ofParts Sample.leapAnswerParts).map Response.dated = .ok (.history
      (Sample.leapRequest.bare.map Moment.settled Reading.wholeSecond)
      [Sample.unevenBar.dated]) ∧
    ∃ n, (Query.coverage ⟨⟨-4, .oneHour⟩, 8⟩).dated.toParts = .ok n ∧
      Query.ofParts n = .ok (.coverage ⟨⟨-4, .oneHour⟩, 8⟩) := by
  obtain ⟨hquery, hresponse, -, hread⟩ := messages_survive_the_wire .plain
  have hparts : (Query.history Sample.leapRequest).toParts = .ok Sample.leapParts := by
    decide +kernel
  have hanswer : (Response.history Sample.leapRequest [Sample.unevenBar.dated]).toParts .plain
      = .ok Sample.leapAnswerParts := by decide +kernel
  refine ⟨hparts, ?_, hanswer, ?_, ?_⟩
  · exact (hquery _ _ hparts (by decide +kernel)).trans (by decide +kernel)
  · exact (hresponse _ _ hanswer (by decide +kernel)).trans (by decide +kernel)
  · obtain ⟨n, hn, hfits⟩ := hread
      [MessageTag.coverageRequest.part, [24, 8, 16, 10, 8, 252, 255, 255, 255, 15]]
      (.coverage ⟨⟨-4, .oneHour⟩, 8⟩) (by decide +kernel)
    obtain rfl := Except.ok.inj (hn.symm.trans (rfl : _ = Except.ok [_, Field.writeAll _]))
    exact ⟨_, hn, hfits (by decide +kernel)⟩

/-- A request that starts within a leap second is read as one that starts in the second after
it. -/
theorem leap_second_lost : ¬ ∀ (q : Query Moment Reading) (m : Message), q.toParts = .ok m →
    m.Fits → (Query.ofParts m).map Query.dated = .ok (q.bare.map id Reading.wholeSecond) := by
  intro hall
  have hread := hall (.history Sample.leapRequest) Sample.leapParts (by decide +kernel)
    (by decide +kernel)
  revert hread
  decide +kernel

end BarArchive
