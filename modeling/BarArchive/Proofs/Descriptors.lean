/-
Descriptors come through the wire as they are.

For every descriptor, each of its fields has a number of its own, so a reader that looks
under a number finds what was written there and nothing else. Descriptors that hold other
ones need the bound on the size: the length of what they hold is written in 64 bits.
-/
import BarArchive.Proofs.Fields
import BarArchive.Wire.Descriptor

namespace BarArchive

open Value (ofInt32 ofInt64 ofUInt32 ofBool ofText)
open Fields (int32_ofInt32 bool_ofBool plainNumber?_of_kept plainText?_of_kept plainChunk?_of_kept
  last?_of_optional merged?_of_values nested?_of_values)

/-- What is written one by one and read back one by one is the same list. -/
theorem mapM_map_eq_some {α β : Type} {f : β → Option α} {g : α → β} {as : List α}
    (h : ∀ a ∈ as, f (g a) = some a) : (as.map g).mapM f = some as := by
  induction as with
  | nil => rfl
  | cons a as ih =>
      have hrest := ih fun b hb => h b (List.mem_cons_of_mem a hb)
      rw [List.map_cons, List.mapM_cons, h a List.mem_cons_self, hrest]
      rfl

/-! ### Sessions and continuous futures -/

namespace SessionDescriptor

@[simp] theorem allKnown_fields (d : SessionDescriptor) : Field.AllKnown d.fields := by
  simp [fields, ofUInt32]

theorem ofFields?_fields (d : SessionDescriptor) : ofFields? d.fields = some d := by
  have hopens : Fields.plainNumber? d.fields 1 = some d.opens.toUInt64 :=
    plainNumber?_of_kept (by simp [fields, ofUInt32])
  have hcloses : Fields.plainNumber? d.fields 2 = some d.closes.toUInt64 :=
    plainNumber?_of_kept (by simp [fields, ofUInt32])
  rw [ofFields?, hopens, hcloses]
  simp

end SessionDescriptor

namespace FutureDescriptor

@[simp] theorem allKnown_fields (d : FutureDescriptor) : Field.AllKnown d.fields := by
  simp [fields, ofInt32, ofText]

theorem ofFields?_fields (d : FutureDescriptor) : ofFields? d.fields = some d := by
  have hroot : Fields.plainText? d.fields 1 = some d.root := plainText?_of_kept (by simp [fields])
  have hadjustment : Fields.plainNumber? d.fields 2 = some d.adjustment.toInt64.toUInt64 :=
    plainNumber?_of_kept (by simp [fields, ofInt32])
  rw [ofFields?, hroot, hadjustment]
  simp [int32_ofInt32]

end FutureDescriptor

/-! ### Instruments -/

namespace InstrumentDescriptor

@[simp] theorem allKnown_fields (d : InstrumentDescriptor) : Field.AllKnown d.fields := by
  simp [fields, ofInt32, ofInt64, ofText, Field.nested]

theorem ofFields?_fields {depth : Nat} (d : InstrumentDescriptor)
    (hsize : (Field.writeAll d.fields).length < 2 ^ 64) : ofFields? depth d.fields = some d := by
  have hid : Fields.optionalNumber? d.fields 1 = some (d.id.map fun v => v.toInt64.toUInt64) :=
    last?_of_optional ofInt32 (fun _ => rfl) (by simp [fields])
  have hsymbol : Fields.plainText? d.fields 2 = some d.symbol :=
    plainText?_of_kept (by simp [fields])
  have hdatasource : Fields.plainText? d.fields 3 = some d.datasource :=
    plainText?_of_kept (by simp [fields])
  have hexpiration : Fields.optionalNumber? d.fields 4 = some (d.expiration.map Int64.toUInt64) :=
    last?_of_optional ofInt64 (fun _ => rfl) (by simp [fields])
  have hfuture : Fields.merged? (depth - 1) d.fields 5 =
      some (d.future.map FutureDescriptor.fields) :=
    merged?_of_values hsize (by simp) (by simp [fields, Function.comp_def])
  have hfutures : (d.future.map FutureDescriptor.fields).mapM FutureDescriptor.ofFields? =
      some d.future := by
    cases d.future <;> simp [FutureDescriptor.ofFields?_fields]
  have hsession : Fields.nested? (depth - 1) d.fields 6 =
      some (d.sessions.map SessionDescriptor.fields) :=
    nested?_of_values hsize (by simp) (by simp [fields])
  have hsessions : (d.sessions.map SessionDescriptor.fields).mapM SessionDescriptor.ofFields? =
      some d.sessions :=
    mapM_map_eq_some fun s _ => SessionDescriptor.ofFields?_fields s
  rw [ofFields?, hid, hsymbol, hdatasource, hexpiration, hfuture, hsession]
  simp [hfutures, hsessions, Function.comp_def, int32_ofInt32]

/-- An instrument within another descriptor. -/
theorem mapM_ofFields? (depth : Nat) {fs : List Field} {n : Nat} {d : Option InstrumentDescriptor}
    (hsize : (Field.writeAll fs).length < 2 ^ 64)
    (hvalues : Fields.values fs n = (d.map fun i => Field.nested i.fields).toList) :
    (d.map fields).mapM (ofFields? depth) = some d := by
  cases d with
  | none => rfl
  | some i =>
      have hmem : Field.nested i.fields ∈ Fields.values fs n := by simp [hvalues]
      have hlength := Fields.length_of_nested hmem
      simp [ofFields?_fields i (by omega)]

end InstrumentDescriptor

/-! ### Requests -/

namespace RequestDescriptor

theorem allKnown_fields (d : RequestDescriptor) : Field.AllKnown d.fields := by
  have hsave : ∀ v ∈ d.save.map ofBool, v ≠ .other := by cases d.save <;> simp [ofBool]
  simpa [fields, ofInt32, ofInt64, ofUInt32, ofBool, Field.nested] using hsave

theorem ofFields?_fields {depth : Nat} (d : RequestDescriptor)
    (hsize : (Field.writeAll d.fields).length < 2 ^ 64) : ofFields? depth d.fields = some d := by
  have hvalues : Fields.values d.fields 1 =
      (d.instrument.map fun i => Field.nested i.fields).toList := by simp [fields]
  have hinstrument : Fields.merged? (depth - 1) d.fields 1 =
      some (d.instrument.map InstrumentDescriptor.fields) :=
    merged?_of_values hsize (by simp) (by simp [hvalues, Function.comp_def])
  have hinstruments := InstrumentDescriptor.mapM_ofFields? (depth - 1) hsize hvalues
  have hfrequency : Fields.plainNumber? d.fields 2 = some d.frequency.toInt64.toUInt64 :=
    plainNumber?_of_kept (by simp [fields, ofInt32])
  have hstart : Fields.plainNumber? d.fields 3 = some d.start.toUInt64 :=
    plainNumber?_of_kept (by simp [fields, ofInt64])
  have hstop : Fields.plainNumber? d.fields 4 = some d.stop.toUInt64 :=
    plainNumber?_of_kept (by simp [fields, ofInt64])
  have hforceFresh : Fields.plainNumber? d.fields 5 = some (if d.forceFresh then 1 else 0) :=
    plainNumber?_of_kept (by simp [fields, ofBool])
  have hlocalOnly : Fields.plainNumber? d.fields 6 = some (if d.localOnly then 1 else 0) :=
    plainNumber?_of_kept (by simp [fields, ofBool])
  have hsave : Fields.optionalNumber? d.fields 7 =
      some (d.save.map fun v => if v then 1 else 0) :=
    last?_of_optional ofBool (fun _ => rfl) (by simp [fields])
  have hregular : Fields.plainNumber? d.fields 8 = some (if d.regularHoursOnly then 1 else 0) :=
    plainNumber?_of_kept (by simp [fields, ofBool])
  have hrequestId : Fields.plainNumber? d.fields 9 = some d.requestId.toUInt64 :=
    plainNumber?_of_kept (by simp [fields, ofUInt32])
  rw [ofFields?, hinstrument, hfrequency, hstart, hstop, hforceFresh, hlocalOnly, hsave, hregular,
    hrequestId]
  simp [hinstruments, Function.comp_def, int32_ofInt32, bool_ofBool]

end RequestDescriptor

/-! ### Bars -/

namespace BarDescriptor

@[simp] theorem allKnown_fields (d : BarDescriptor) : Field.AllKnown d.fields := by
  simp [fields, ofInt32, ofInt64]

theorem ofFields?_fields (d : BarDescriptor) : ofFields? d.fields = some d := by
  have hinstrument : Fields.plainNumber? d.fields 1 = some d.instrument.toInt64.toUInt64 :=
    plainNumber?_of_kept (by simp [fields, ofInt32])
  have hfrequency : Fields.plainNumber? d.fields 2 = some d.frequency.toInt64.toUInt64 :=
    plainNumber?_of_kept (by simp [fields, ofInt32])
  have htime : Fields.plainNumber? d.fields 3 = some d.time.toUInt64 :=
    plainNumber?_of_kept (by simp [fields, ofInt64])
  have hopened : Fields.optionalNumber? d.fields 4 = some (d.opened.map Int64.toUInt64) :=
    last?_of_optional ofInt64 (fun _ => rfl) (by simp [fields])
  have hopening : Fields.plainChunk? d.fields 5 = some d.opening :=
    plainChunk?_of_kept (by simp [fields])
  have hhigh : Fields.plainChunk? d.fields 6 = some d.high :=
    plainChunk?_of_kept (by simp [fields])
  have hlow : Fields.plainChunk? d.fields 7 = some d.low :=
    plainChunk?_of_kept (by simp [fields])
  have hclosing : Fields.plainChunk? d.fields 8 = some d.closing :=
    plainChunk?_of_kept (by simp [fields])
  have hvolume : Fields.optionalNumber? d.fields 9 = some (d.volume.map Int64.toUInt64) :=
    last?_of_optional ofInt64 (fun _ => rfl) (by simp [fields])
  have hopenInterest : Fields.optionalNumber? d.fields 10 =
      some (d.openInterest.map fun v => v.toInt64.toUInt64) :=
    last?_of_optional ofInt32 (fun _ => rfl) (by simp [fields])
  have hchunk {n : Nat} {bs : Option Bytes}
      (h : Fields.values d.fields n = (bs.map Value.bytes).toList) :
      Fields.optionalChunk? d.fields n = some bs := by
    have hlast : Fields.optionalChunk? d.fields n = some (bs.map id) :=
      last?_of_optional Value.bytes (fun _ => rfl) h
    rwa [Option.map_id] at hlast
  have hdividend : Fields.optionalChunk? d.fields 11 = some d.dividend := hchunk (by simp [fields])
  have hsplit : Fields.optionalChunk? d.fields 12 = some d.split := hchunk (by simp [fields])
  have hadjustedOpening : Fields.optionalChunk? d.fields 13 = some d.adjustedOpening :=
    hchunk (by simp [fields])
  have hadjustedHigh : Fields.optionalChunk? d.fields 14 = some d.adjustedHigh :=
    hchunk (by simp [fields])
  have hadjustedLow : Fields.optionalChunk? d.fields 15 = some d.adjustedLow :=
    hchunk (by simp [fields])
  have hadjustedClosing : Fields.optionalChunk? d.fields 16 = some d.adjustedClosing :=
    hchunk (by simp [fields])
  rw [ofFields?, hinstrument, hfrequency, htime, hopened, hopening, hhigh, hlow, hclosing, hvolume,
    hopenInterest, hdividend, hsplit, hadjustedOpening, hadjustedHigh, hadjustedLow,
    hadjustedClosing]
  simp [Function.comp_def, int32_ofInt32]

theorem allKnown_listFields (ds : List BarDescriptor) : Field.AllKnown (listFields ds) := by
  simp [listFields, Field.nested]

theorem listOfFields?_listFields {depth : Nat} (ds : List BarDescriptor)
    (hsize : (Field.writeAll (listFields ds)).length < 2 ^ 64) :
    listOfFields? depth (listFields ds) = some ds := by
  have hbars : Fields.nested? (depth - 1) (listFields ds) 1 = some (ds.map fields) :=
    nested?_of_values hsize (by simp) (by simp [listFields])
  have hall : (ds.map fields).mapM ofFields? = some ds :=
    mapM_map_eq_some fun d _ => ofFields?_fields d
  rw [listOfFields?, hbars]
  simp [hall]

end BarDescriptor

/-! ### Additions and coverage -/

namespace AdditionDescriptor

theorem allKnown_fields (d : AdditionDescriptor) : Field.AllKnown d.fields := by
  simp [fields, ofInt32, ofBool, Field.nested]

theorem ofFields?_fields {depth : Nat} (d : AdditionDescriptor)
    (hsize : (Field.writeAll d.fields).length < 2 ^ 64) : ofFields? depth d.fields = some d := by
  have hvalues : Fields.values d.fields 1 =
      (d.instrument.map fun i => Field.nested i.fields).toList := by simp [fields]
  have hinstrument : Fields.merged? (depth - 1) d.fields 1 =
      some (d.instrument.map InstrumentDescriptor.fields) :=
    merged?_of_values hsize (by simp) (by simp [hvalues, Function.comp_def])
  have hinstruments := InstrumentDescriptor.mapM_ofFields? (depth - 1) hsize hvalues
  have hfrequency : Fields.plainNumber? d.fields 2 = some d.frequency.toInt64.toUInt64 :=
    plainNumber?_of_kept (by simp [fields, ofInt32])
  have hbar : Fields.nested? (depth - 1) d.fields 3 = some (d.bars.map BarDescriptor.fields) :=
    nested?_of_values hsize (by simp) (by simp [fields])
  have hbars : (d.bars.map BarDescriptor.fields).mapM BarDescriptor.ofFields? = some d.bars :=
    mapM_map_eq_some fun b _ => BarDescriptor.ofFields?_fields b
  have hoverwrite : Fields.plainNumber? d.fields 4 = some (if d.overwrite then 1 else 0) :=
    plainNumber?_of_kept (by simp [fields, ofBool])
  rw [ofFields?, hinstrument, hfrequency, hbar, hoverwrite]
  simp [hinstruments, hbars, int32_ofInt32, bool_ofBool]

end AdditionDescriptor

namespace CoverageQueryDescriptor

theorem allKnown_fields (d : CoverageQueryDescriptor) : Field.AllKnown d.fields := by
  simp [fields, ofInt32, ofUInt32]

theorem ofFields?_fields (d : CoverageQueryDescriptor) : ofFields? d.fields = some d := by
  have hinstrument : Fields.plainNumber? d.fields 1 = some d.instrument.toInt64.toUInt64 :=
    plainNumber?_of_kept (by simp [fields, ofInt32])
  have hfrequency : Fields.plainNumber? d.fields 2 = some d.frequency.toInt64.toUInt64 :=
    plainNumber?_of_kept (by simp [fields, ofInt32])
  have hrequestId : Fields.plainNumber? d.fields 3 = some d.requestId.toUInt64 :=
    plainNumber?_of_kept (by simp [fields, ofUInt32])
  rw [ofFields?, hinstrument, hfrequency, hrequestId]
  simp [int32_ofInt32]

end CoverageQueryDescriptor

namespace CoverageDescriptor

theorem allKnown_fields (d : CoverageDescriptor) : Field.AllKnown d.fields := by
  simp [fields, ofInt32, ofInt64, ofUInt32]

theorem ofFields?_fields (d : CoverageDescriptor) : ofFields? d.fields = some d := by
  have hinstrument : Fields.plainNumber? d.fields 1 = some d.instrument.toInt64.toUInt64 :=
    plainNumber?_of_kept (by simp [fields, ofInt32])
  have hfrequency : Fields.plainNumber? d.fields 2 = some d.frequency.toInt64.toUInt64 :=
    plainNumber?_of_kept (by simp [fields, ofInt32])
  have hearliest : Fields.optionalNumber? d.fields 3 = some (d.earliest.map Int64.toUInt64) :=
    last?_of_optional ofInt64 (fun _ => rfl) (by simp [fields])
  have hlatest : Fields.optionalNumber? d.fields 4 = some (d.latest.map Int64.toUInt64) :=
    last?_of_optional ofInt64 (fun _ => rfl) (by simp [fields])
  have hrequestId : Fields.plainNumber? d.fields 5 = some d.requestId.toUInt64 :=
    plainNumber?_of_kept (by simp [fields, ofUInt32])
  rw [ofFields?, hinstrument, hfrequency, hearliest, hlatest, hrequestId]
  simp [Function.comp_def, int32_ofInt32]

end CoverageDescriptor

end BarArchive
