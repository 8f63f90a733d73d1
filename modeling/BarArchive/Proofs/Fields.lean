/-
Lists of fields come through the wire as they are.

A list of known fields is read back from its bytes, field by field. After that nothing
needs the bytes any more: what a reader looks for under a number is settled by the values
under that number, and each way of writing a field goes with one way of looking for it.

The one condition is on the size. The length of a text or of a descriptor is a number of
64 bits, so a descriptor of 2 ^ 64 bytes or more, which no memory holds, would not come
through.
-/
import BarArchive.Wire.Field

namespace BarArchive

/-! ### Reading fields back -/

namespace Field

/-- A field of a kind and with a number that a descriptor can have. -/
structure Known (f : Field) : Prop where
  positive : 0 < f.number
  small : f.number < 2 ^ 29
  kept : f.value ≠ .other

/-- Fields of which every one is known. -/
def AllKnown (fs : List Field) : Prop := ∀ f ∈ fs, f.Known

@[simp] theorem allKnown_append {fs gs : List Field} :
    AllKnown (fs ++ gs) ↔ AllKnown fs ∧ AllKnown gs := List.forall_mem_append

@[simp] theorem allKnown_repeated {n : Nat} {vs : List Value} (hpositive : 0 < n)
    (hsmall : n < 2 ^ 29) : AllKnown (repeated n vs) ↔ ∀ v ∈ vs, v ≠ .other := by
  unfold AllKnown repeated
  rw [List.forall_mem_map]
  exact forall₂_congr fun v _ => ⟨Known.kept, fun hkept => ⟨hpositive, hsmall, hkept⟩⟩

@[simp] theorem allKnown_optional {n : Nat} {v : Option Value} (hpositive : 0 < n)
    (hsmall : n < 2 ^ 29) : AllKnown (optional n v) ↔ ∀ w ∈ v, w ≠ .other := by
  have hrepeated : AllKnown (optional n v) ↔ ∀ w ∈ v.toList, w ≠ .other :=
    allKnown_repeated hpositive hsmall
  simpa using hrepeated

@[simp] theorem allKnown_plain {n : Nat} {v : Value} (hpositive : 0 < n) (hsmall : n < 2 ^ 29) :
    AllKnown (plain n v) ↔ v ≠ .other := by
  unfold plain AllKnown
  split
  · rename_i hzero
    have hkept : v ≠ .other := by rintro rfl; cases hzero
    exact iff_of_true (List.forall_mem_nil _) hkept
  · rw [List.forall_mem_singleton]
    exact ⟨Known.kept, fun hkept => ⟨hpositive, hsmall, hkept⟩⟩

theorem key?_write {number kind : Nat} (hpositive : 0 < number) (hsmall : number < 2 ^ 29)
    (hkind : kind < 8) (rest : Bytes) :
    key? (Varint.write (number * 8 + kind) ++ rest) = some (number, kind, rest) := by
  have hword : number * 8 + kind < 2 ^ 64 := by omega
  have hkey : 8 ≤ number * 8 + kind ∧ number * 8 + kind < 2 ^ 32 := by omega
  have hnumber : (number * 8 + kind) / 8 = number := by omega
  have hrest : (number * 8 + kind) % 8 = kind := by omega
  rw [key?, Varint.read?_write _ _ hword]
  simp only [Option.bind_eq_bind, Option.bind_some, if_pos hkey, hnumber, hrest]

/-- A field is read back from its bytes, whatever comes after them. -/
theorem read?_write {depth : Nat} {f : Field} (h : f.Known) (hsize : f.write.length < 2 ^ 64)
    (rest : Bytes) : read? depth (f.write ++ rest) = some (f, rest) := by
  obtain ⟨number, value⟩ := f
  obtain ⟨hpositive, hsmall, hkept⟩ := h
  simp only at hpositive hsmall
  cases value with
  | other => exact absurd rfl hkept
  | number v =>
      have hkey := key?_write hpositive hsmall (by decide : 0 < 8) (Varint.write v.toNat ++ rest)
      have hvalue : v.toNat.toUInt64 = v := UInt64.ofNat_toNat
      rw [Nat.add_zero] at hkey
      simp only [write]
      rw [List.append_assoc, read?, hkey]
      simp [value?, Varint.read?_write _ _ v.toNat_lt, hvalue]
  | bytes bs =>
      have hlength : bs.length < 2 ^ 64 := by
        simp only [write, List.length_append] at hsize
        omega
      have hsplit : Bytes.split? bs.length (bs ++ rest) = some (bs, rest) :=
        Bytes.split?_eq_some.mpr ⟨rfl, rfl⟩
      simp only [write]
      rw [List.append_assoc, List.append_assoc, read?,
        key?_write hpositive hsmall (by decide : 2 < 8)]
      simp [value?, Varint.read?_write _ _ hlength, hsplit]

theorem write_ne_nil {f : Field} (h : f.Known) : f.write ≠ [] := by
  have hvarint : ∀ n, Varint.write n ≠ [] := by
    intro n
    rw [Varint.write]
    split <;> exact List.cons_ne_nil _ _
  obtain ⟨number, value⟩ := f
  cases value with
  | other => exact absurd rfl h.kept
  | number v => simp [write, hvarint]
  | bytes bs => simp [write, hvarint]

theorem readWithin_writeAll {depth : Nat} {fs : List Field} (hknown : AllKnown fs)
    (hsize : (writeAll fs).length < 2 ^ 64) : ∀ {fuel : Nat}, (writeAll fs).length ≤ fuel →
    readWithin depth fuel (writeAll fs) = some fs := by
  induction fs with
  | nil => intro fuel _; cases fuel <;> rfl
  | cons f fs ih =>
      intro fuel hfuel
      have hall : writeAll (f :: fs) = f.write ++ writeAll fs := rfl
      have hsome := write_ne_nil (hknown f List.mem_cons_self)
      have hpos := List.length_pos_iff.mpr hsome
      rw [hall] at hsize hfuel ⊢
      rw [List.length_append] at hsize hfuel
      obtain ⟨fuel, rfl⟩ : ∃ n, fuel = n + 1 := ⟨fuel - 1, by omega⟩
      have hread : read? depth (f.write ++ writeAll fs) = some (f, writeAll fs) :=
        read?_write (hknown f List.mem_cons_self) (by omega) (writeAll fs)
      have hrest := ih (fun g hg => hknown g (List.mem_cons_of_mem f hg)) (by omega)
        (by omega : (writeAll fs).length ≤ fuel)
      rw [readWithin, hread]
      · simp [hrest]
      · simp [hsome]

/-- **A list of known fields is read back from its bytes.** -/
theorem readAll?_writeAll {depth : Nat} {fs : List Field} (hknown : AllKnown fs)
    (hsize : (writeAll fs).length < 2 ^ 64) : readAll? depth (writeAll fs) = some fs :=
  readWithin_writeAll hknown hsize (Nat.le_refl _)

end Field

/-! ### Values under a number -/

/-- The values of a field that is left out when it is zero or empty. -/
def Value.kept (v : Value) : List Value := if v.isZero then [] else [v]

namespace Fields

@[simp] theorem values_append (fs gs : List Field) (n : Nat) :
    values (fs ++ gs) n = values fs n ++ values gs n := by
  simp [values]

@[simp] theorem values_plain (m n : Nat) (v : Value) :
    values (Field.plain m v) n = if m = n then v.kept else [] := by
  unfold values Field.plain Value.kept
  by_cases hmn : m = n <;> cases v.isZero <;> simp [hmn]

@[simp] theorem values_repeated (m n : Nat) (vs : List Value) :
    values (Field.repeated m vs) n = if m = n then vs else [] := by
  unfold values Field.repeated
  by_cases hmn : m = n <;> simp [hmn, List.filter_map, Function.comp_def]

@[simp] theorem values_optional (m n : Nat) (v : Option Value) :
    values (Field.optional m v) n = if m = n then v.toList else [] :=
  values_repeated m n v.toList

/-! ### Looking for what was written -/

theorem last?_of_kept {α : Type} {f : Value → Option α} {v : Value} {a zero : α}
    (hf : f v = some a) (hzero : v.isZero → a = zero) (hvalues : values fs n = v.kept) :
    (last? f fs n).map (·.getD zero) = some a := by
  rw [last?, hvalues, Value.kept]
  cases hv : v.isZero with
  | true => simp [hzero hv]
  | false => simp [hf]

theorem last?_of_optional {α β : Type} {f : Value → Option β} (g : α → Value) {k : α → β}
    {a : Option α} (hf : ∀ a, f (g a) = some (k a)) (hvalues : values fs n = (a.map g).toList) :
    last? f fs n = some (a.map k) := by
  rw [last?, hvalues]
  cases a <;> simp [hf]

theorem plainNumber?_of_kept {u : UInt64} (h : values fs n = (Value.number u).kept) :
    plainNumber? fs n = some u :=
  last?_of_kept rfl (by simp [Value.isZero]) h

theorem plainChunk?_of_kept {bs : Bytes} (h : values fs n = (Value.bytes bs).kept) :
    plainChunk? fs n = some bs :=
  last?_of_kept rfl (by simp [Value.isZero]) h

theorem plainText?_of_kept {s : String} (h : values fs n = (Value.ofText s).kept) :
    plainText? fs n = some s := by
  have htext : text? (.ofText s) = some s := Utf8.text?_bytes s
  refine last?_of_kept htext (fun hzero => ?_) h
  have hempty : Utf8.bytes s = [] := List.isEmpty_iff.mp hzero
  have hnothing : Utf8.text? [] = some "" := Utf8.text?_bytes ""
  exact Option.some.inj ((hempty ▸ Utf8.text?_bytes s).symm.trans hnothing)

/-- A descriptor within a descriptor is no longer than the one that it is in. -/
theorem length_of_nested {d : List Field} (h : Field.nested d ∈ values fs n) :
    (Field.writeAll d).length ≤ (Field.writeAll fs).length := by
  obtain ⟨f, hf, hvalue⟩ := List.mem_map.mp h
  have hwrite : f.write.length ≤ (Field.writeAll fs).length := by
    rw [Field.writeAll, List.flatMap_def]
    exact (List.sublist_flatten_of_mem (List.mem_map_of_mem (List.mem_filter.mp hf).1)).length_le
  have hbytes : (Field.writeAll d).length ≤ f.write.length := by
    unfold Field.write
    rw [hvalue]
    simp only [Field.nested, List.length_append]
    omega
  omega

theorem nested?_of_values {depth : Nat} {ds : List (List Field)}
    (hsize : (Field.writeAll fs).length < 2 ^ 64) (hknown : ∀ d ∈ ds, Field.AllKnown d)
    (hvalues : values fs n = ds.map Field.nested) : nested? depth fs n = some ds := by
  have hread : ∀ d ∈ ds, Field.readAll? depth (Field.writeAll d) = some d := by
    intro d hd
    have hlength := length_of_nested (hvalues ▸ List.mem_map_of_mem hd)
    exact Field.readAll?_writeAll (hknown d hd) (by omega)
  rw [nested?, hvalues]
  clear hvalues hknown
  induction ds with
  | nil => rfl
  | cons d ds ih =>
      have hfirst := hread d List.mem_cons_self
      have hrest := ih fun d hd => hread d (List.mem_cons_of_mem _ hd)
      rw [List.map_cons, List.mapM_cons, hrest]
      simp [Field.nested, chunk?, hfirst]

theorem merged?_of_values {depth : Nat} {d : Option (List Field)}
    (hsize : (Field.writeAll fs).length < 2 ^ 64) (hknown : ∀ e ∈ d, Field.AllKnown e)
    (hvalues : values fs n = (d.map Field.nested).toList) : merged? depth fs n = some d := by
  have hnested : nested? depth fs n = some d.toList :=
    nested?_of_values hsize (by simpa using hknown) (by cases d <;> exact hvalues)
  rw [merged?, hnested]
  cases d <;> simp

/-! ### Numbers -/

/-- A signed number of 32 bits is what the lowest bits of the widened one say. -/
theorem int32_ofInt32 (v : Int32) : int32 v.toInt64.toUInt64 = v := by
  have hlow : (v.toBitVec.signExtend 64).setWidth 32 = v.toBitVec := by
    ext i hi
    have hwide : i < 64 := by omega
    rw [BitVec.getElem_setWidth, BitVec.getLsbD_signExtend]
    simp [hi, hwide]
  exact Int32.toBitVec_inj.mp hlow

theorem bool_ofBool (b : Bool) : bool (if b then 1 else 0) = b := by
  cases b <;> rfl

end Fields

end BarArchive
