/-
Frames do not depend on how their bytes are cut.

A reader gets the bytes of a stream in pieces and looks for a frame whenever a piece has
come. What it finds is settled by the bytes that it looks at: once they are enough for a
frame or for a refusal, more bytes after them change nothing. Until then it keeps less
than a frame at the limit and the width of one more length.

So the messages that come out are those of the whole stream, wherever it is cut, and a
stream of frames gives back the messages that it was made of. The last part needs the
limit to be below 2 ^ 32: a length has 32 bits on the wire, and a part of more bytes would
be written with the wrong one.
-/
import BarArchive.Wire.Frame

namespace BarArchive.Frame

variable {limit : Nat}

/-! ### Lengths -/

@[simp] theorem length_writePart (part : Bytes) :
    (writePart part).length = lengthWidth + part.length := by
  rw [writePart, List.length_append, Bytes.length_ofUInt32, lengthWidth]

theorem length_eq (parts : Message) :
    length parts = lengthWidth + (parts.flatMap writePart).length := by
  induction parts with
  | nil => rfl
  | cons part parts ih =>
      have hcons : length (part :: parts) = lengthWidth + part.length + length parts := rfl
      rw [hcons, ih, List.flatMap_cons, List.length_append, length_writePart]
      omega

/-- The bytes of a frame are as many as its length says. -/
theorem length_write (parts : Message) : (write parts).length = length parts := by
  rw [length_eq, write, List.length_append, Bytes.length_ofUInt32, lengthWidth]

/-- Every part takes at least the room of its length. -/
theorem least_le_length (parts : Message) :
    lengthWidth + parts.length * lengthWidth ≤ length parts := by
  rw [length_eq]
  induction parts with
  | nil => simp
  | cons part parts ih =>
      rw [List.flatMap_cons, List.length_append, length_writePart, List.length_cons, Nat.succ_mul]
      omega

/-- The count of the parts and their lengths have room in the 32 bits that they are written in. -/
structure FitsWords (parts : Message) : Prop where
  count : parts.length < 2 ^ 32
  lengths : ∀ part ∈ parts, part.length < 2 ^ 32

theorem length_add_le_of_mem {part : Bytes} {parts : Message} (h : part ∈ parts) :
    part.length + 2 * lengthWidth ≤ length parts := by
  rw [length_eq]
  induction parts with
  | nil => cases h
  | cons first parts ih =>
      rw [List.flatMap_cons, List.length_append, length_writePart]
      rcases List.mem_cons.mp h with rfl | hrest
      · omega
      · have hlast := ih hrest
        omega

/-- A frame of fewer than `2 ^ 32 + 8` bytes has no count and no length of more than 32 bits. -/
theorem fitsWords_of_length {parts : Message} (h : length parts < 2 ^ 32 + 8) :
    FitsWords parts := by
  constructor
  · have hleast := least_le_length parts
    unfold lengthWidth at hleast
    omega
  · intro part hpart
    have hle := length_add_le_of_mem hpart
    unfold lengthWidth at hle
    omega

/-- A message may be sent if it has parts and its frame keeps to the limit. -/
theorem encode_eq_ok {parts : Message} {bs : Bytes} :
    encode limit parts = .ok bs ↔ parts ≠ [] ∧ length parts ≤ limit ∧ bs = write parts := by
  cases parts with
  | nil => simp [encode]
  | cons part parts =>
      by_cases hlimit : limit < length (part :: parts)
      · simp [encode, checkSize, hlimit, bind, Except.bind, Nat.not_le.mpr hlimit]
      · simp [encode, checkSize, hlimit, bind, Except.bind, pure, Except.pure, Nat.not_lt.mp hlimit,
          eq_comm]

/-! ### What reading comes to

Reading looks at the length of a part, at the part, and at the parts after it. These are
the ways in which that can go, for a part and for the count in front of all parts.
-/

/-- What is found in bytes where `count + 1` parts of a frame may begin. -/
inductive Reads (limit count size : Nat) : Bytes → Found → Prop
  | short {bs} (few : bs.length < lengthWidth) : Reads limit count size bs .incomplete
  | refused {n rest} (large : limit < size + lengthWidth + n.toNat) :
      Reads limit count size (Bytes.ofUInt32 n ++ rest)
        (.refused (.frameTooLarge (size + lengthWidth + n.toNat) limit))
  | cut {n rest} (fits : size + lengthWidth + n.toNat ≤ limit) (few : rest.length < n.toNat) :
      Reads limit count size (Bytes.ofUInt32 n ++ rest) .incomplete
  | part {part rest} (word : part.length < 2 ^ 32)
      (fits : size + lengthWidth + part.length ≤ limit) :
      Reads limit count size (writePart part ++ rest)
        ((readParts limit count (size + lengthWidth + part.length) rest).cons part)

/-- What is found in bytes where a frame may begin. -/
inductive Decodes (limit : Nat) : Bytes → Found → Prop
  | short {bs} (few : bs.length < lengthWidth) : Decodes limit bs .incomplete
  | empty {rest} : Decodes limit (Bytes.ofUInt32 0 ++ rest)
      (.refused (.malformedFrame "frame has no parts"))
  | refused {count rest} (some : count ≠ 0)
      (large : limit < lengthWidth + count.toNat * lengthWidth) :
      Decodes limit (Bytes.ofUInt32 count ++ rest)
        (.refused (.frameTooLarge (lengthWidth + count.toNat * lengthWidth) limit))
  | parts {count rest} (some : count ≠ 0)
      (fits : lengthWidth + count.toNat * lengthWidth ≤ limit) :
      Decodes limit (Bytes.ofUInt32 count ++ rest) (readParts limit count.toNat lengthWidth rest)

theorem toUInt32_length {l : List UInt8} {n : UInt32} (h : l.length = n.toNat) :
    l.length.toUInt32 = n := by
  rw [h, Nat.toUInt32_eq, UInt32.ofNat_toNat]

theorem reads_iff {count size : Nat} {bs : Bytes} {found : Found} :
    readParts limit (count + 1) size bs = found ↔ Reads limit count size bs found := by
  constructor
  · rintro rfl
    rw [readParts]
    cases hword : Bytes.uint32? bs with
    | none => exact .short (Bytes.uint32?_eq_none.mp hword)
    | some word =>
        obtain ⟨n, rest⟩ := word
        obtain rfl := Bytes.uint32?_eq_some.mp hword
        simp only
        by_cases hlimit : limit < size + lengthWidth + n.toNat
        · rw [if_pos hlimit]
          exact .refused hlimit
        · rw [if_neg hlimit]
          cases hsplit : Bytes.split? n.toNat rest with
          | none => exact .cut (Nat.not_lt.mp hlimit) (Bytes.split?_eq_none.mp hsplit)
          | some pieces =>
              obtain ⟨part, after⟩ := pieces
              obtain ⟨rfl, hpart⟩ := Bytes.split?_eq_some.mp hsplit
              have hreads : Reads limit count size (writePart part ++ after) _ :=
                .part (hpart ▸ n.toNat_lt) (hpart ▸ Nat.not_lt.mp hlimit)
              rwa [writePart, toUInt32_length hpart, hpart, List.append_assoc] at hreads
  · intro h
    cases h with
    | short few => rw [readParts, Bytes.uint32?_eq_none.mpr few]
    | refused large =>
        rw [readParts, Bytes.uint32?_eq_some.mpr rfl]
        simp only
        rw [if_pos large]
    | cut fits few =>
        rw [readParts, Bytes.uint32?_eq_some.mpr rfl]
        simp only
        rw [if_neg (Nat.not_lt.mpr fits), Bytes.split?_eq_none.mpr few]
    | @part part rest word fits =>
        have hn : part.length.toUInt32.toNat = part.length := UInt32.toNat_ofNat_of_lt' word
        rw [readParts, writePart, List.append_assoc, Bytes.uint32?_eq_some.mpr rfl]
        simp only
        rw [hn, if_neg (Nat.not_lt.mpr fits), Bytes.split?_eq_some.mpr ⟨rfl, rfl⟩]

theorem decodes_iff {bs : Bytes} {found : Found} :
    decode limit bs = found ↔ Decodes limit bs found := by
  constructor
  · rintro rfl
    rw [decode]
    cases hword : Bytes.uint32? bs with
    | none => exact .short (Bytes.uint32?_eq_none.mp hword)
    | some word =>
        obtain ⟨count, rest⟩ := word
        obtain rfl := Bytes.uint32?_eq_some.mp hword
        simp only
        by_cases hcount : count = 0
        · subst hcount
          exact .empty
        · rw [if_neg hcount]
          by_cases hlimit : limit < lengthWidth + count.toNat * lengthWidth
          · rw [if_pos hlimit]
            exact .refused hcount hlimit
          · rw [if_neg hlimit]
            exact .parts hcount (Nat.not_lt.mp hlimit)
  · intro h
    cases h with
    | short few => rw [decode, Bytes.uint32?_eq_none.mpr few]
    | empty => rw [decode, Bytes.uint32?_eq_some.mpr rfl]; rfl
    | refused some large =>
        rw [decode, Bytes.uint32?_eq_some.mpr rfl]
        simp only
        rw [if_neg some, if_pos large]
    | parts some fits =>
        rw [decode, Bytes.uint32?_eq_some.mpr rfl]
        simp only
        rw [if_neg some, if_neg (Nat.not_lt.mpr fits)]

/-! ### More bytes -/

/-- What is found once more bytes have come, if it was settled before. -/
def Found.extend (x : Bytes) : Found → Found
  | .frame parts rest => .frame parts (rest ++ x)
  | found => found

theorem Found.extend_cons (x part : Bytes) (found : Found) :
    (found.cons part).extend x = (found.extend x).cons part := by
  cases found <;> rfl

theorem Found.cons_eq_incomplete {part : Bytes} {found : Found} :
    found.cons part = .incomplete ↔ found = .incomplete := by
  cases found <;> simp [Found.cons]

theorem readParts_append {count : Nat} (x : Bytes) : ∀ {size : Nat} {bs : Bytes},
    readParts limit count size bs ≠ .incomplete →
    readParts limit count size (bs ++ x) = (readParts limit count size bs).extend x := by
  induction count with
  | zero => intro size bs _; rfl
  | succ count ih =>
      intro size bs h
      have hreads := reads_iff.mp (rfl : readParts limit (count + 1) size bs = _)
      generalize readParts limit (count + 1) size bs = found at h hreads
      rw [reads_iff]
      cases hreads with
      | short => exact absurd rfl h
      | cut => exact absurd rfl h
      | refused large =>
          rw [List.append_assoc]
          exact .refused large
      | part word fits =>
          have hrest := ih fun hrest => h (Found.cons_eq_incomplete.mpr hrest)
          rw [List.append_assoc, Found.extend_cons, ← hrest]
          exact .part word fits

/-- Bytes after those that settled what is found change nothing. -/
theorem decode_append {bs : Bytes} (h : decode limit bs ≠ .incomplete) (x : Bytes) :
    decode limit (bs ++ x) = (decode limit bs).extend x := by
  have hdecodes := decodes_iff.mp (rfl : decode limit bs = _)
  generalize decode limit bs = found at h hdecodes
  rw [decodes_iff]
  cases hdecodes with
  | short => exact absurd rfl h
  | empty =>
      rw [List.append_assoc]
      exact .empty
  | refused some large =>
      rw [List.append_assoc]
      exact .refused some large
  | parts some fits =>
      rw [List.append_assoc, ← readParts_append x h]
      exact .parts some fits

/-! ### Frames that are found -/

theorem readParts_frame {count : Nat} : ∀ {size : Nat} {bs rest : Bytes} {parts : Message},
    size ≤ limit → readParts limit count size bs = .frame parts rest →
    parts.length = count ∧ bs = parts.flatMap writePart ++ rest ∧
      size + (parts.flatMap writePart).length ≤ limit ∧ ∀ part ∈ parts, part.length < 2 ^ 32 := by
  induction count with
  | zero =>
      intro size bs rest parts hsize h
      obtain ⟨rfl, rfl⟩ := Found.frame.inj h
      exact ⟨rfl, rfl, hsize, nofun⟩
  | succ count ih =>
      intro size bs rest parts hsize h
      have hreads := reads_iff.mp h
      generalize hfound : Found.frame parts rest = found at hreads
      cases hreads with
      | short => cases hfound
      | refused => cases hfound
      | cut => cases hfound
      | @part part behind word fits =>
          cases hrest : readParts limit count (size + lengthWidth + part.length) behind with
          | incomplete => rw [hrest] at hfound; cases hfound
          | refused e => rw [hrest] at hfound; cases hfound
          | frame others rest' =>
              rw [hrest] at hfound
              obtain ⟨rfl, rfl⟩ := Found.frame.inj hfound
              obtain ⟨hcount, hbehind, hfits, hwords⟩ := ih fits hrest
              refine ⟨congrArg (· + 1) hcount, ?_, ?_, List.forall_mem_cons.mpr ⟨word, hwords⟩⟩
              · rw [hbehind, List.flatMap_cons, List.append_assoc]
              · rw [List.flatMap_cons, List.length_append, length_writePart]
                omega

/-- A frame that is found has parts, its fields fit, it keeps to the limit, and it is at the front. -/
theorem frame_of_decode {bs rest : Bytes} {parts : Message}
    (h : decode limit bs = .frame parts rest) :
    parts ≠ [] ∧ FitsWords parts ∧ length parts ≤ limit ∧ bs = write parts ++ rest := by
  have hdecodes := decodes_iff.mp h
  generalize hfound : Found.frame parts rest = found at hdecodes
  cases hdecodes with
  | short => cases hfound
  | empty => cases hfound
  | refused => cases hfound
  | @parts count behind some fits =>
      obtain ⟨hcount, hbehind, hlength, hwords⟩ := readParts_frame (by omega) hfound.symm
      refine ⟨?_, ⟨hcount ▸ count.toNat_lt, hwords⟩, length_eq parts ▸ hlength, ?_⟩
      · rintro rfl
        exact some (UInt32.toNat_inj.mp hcount.symm)
      · rw [hbehind, write, hcount, Nat.toUInt32_eq, UInt32.ofNat_toNat, List.append_assoc]

/-- A frame that is found may be sent, and its bytes are at the front. -/
theorem encode_of_decode {bs rest : Bytes} {parts : Message}
    (h : decode limit bs = .frame parts rest) :
    encode limit parts = .ok (write parts) ∧ bs = write parts ++ rest := by
  obtain ⟨hsome, -, hfits, hbs⟩ := frame_of_decode h
  exact ⟨encode_eq_ok.mpr ⟨hsome, hfits, rfl⟩, hbs⟩

/-! ### Frames that are not there yet -/

theorem readParts_incomplete {count : Nat} : ∀ {size : Nat} {bs : Bytes}, size ≤ limit →
    readParts limit count size bs = .incomplete → size + bs.length < limit + lengthWidth := by
  induction count with
  | zero => intro size bs _ h; cases h
  | succ count ih =>
      intro size bs hsize h
      have hreads := reads_iff.mp h
      generalize hfound : Found.incomplete = found at hreads
      cases hreads with
      | short few => omega
      | refused => cases hfound
      | cut fits few =>
          rw [List.length_append, Bytes.length_ofUInt32]
          unfold lengthWidth at *
          omega
      | part word fits =>
          have hrest := ih fits (Found.cons_eq_incomplete.mp hfound.symm)
          rw [List.length_append, length_writePart]
          omega

/-- A reader that waits has less than a frame at the limit and one more length. -/
theorem length_of_incomplete {bs : Bytes} (h : decode limit bs = .incomplete) :
    bs.length < limit + lengthWidth := by
  have hdecodes := decodes_iff.mp h
  generalize hfound : Found.incomplete = found at hdecodes
  cases hdecodes with
  | short few => omega
  | empty => cases hfound
  | refused => cases hfound
  | parts some fits =>
      rw [List.length_append, Bytes.length_ofUInt32]
      exact readParts_incomplete (by omega : lengthWidth ≤ limit) hfound.symm

/-! ### Frames that are written -/

theorem readParts_write (rest : Bytes) {parts : Message}
    (hwords : ∀ part ∈ parts, part.length < 2 ^ 32) :
    ∀ {size : Nat}, size + (parts.flatMap writePart).length ≤ limit →
    readParts limit parts.length size (parts.flatMap writePart ++ rest) = .frame parts rest := by
  induction parts with
  | nil => intro size _; rfl
  | cons part parts ih =>
      intro size hfits
      rw [List.flatMap_cons, List.length_append, length_writePart] at hfits
      have hreads : Reads limit parts.length size
          (writePart part ++ (parts.flatMap writePart ++ rest)) _ :=
        .part (hwords part List.mem_cons_self) (by omega)
      rw [ih (fun part hpart => hwords part (List.mem_cons_of_mem _ hpart)) (by omega)] at hreads
      rw [List.length_cons, List.flatMap_cons, List.append_assoc]
      exact reads_iff.mpr hreads

/-- A frame that may be sent is found again, whatever comes after it. -/
theorem decode_write {parts : Message} (hwords : FitsWords parts) (hsome : parts ≠ [])
    (hfits : length parts ≤ limit) (rest : Bytes) :
    decode limit (write parts ++ rest) = .frame parts rest := by
  have hleast := least_le_length parts
  have hcount : parts.length.toUInt32.toNat = parts.length :=
    UInt32.toNat_ofNat_of_lt' hwords.count
  have hzero : parts.length.toUInt32 ≠ 0 := by
    intro hzero
    rw [hzero] at hcount
    exact hsome (List.length_eq_zero_iff.mp hcount.symm)
  rw [write, List.append_assoc, decodes_iff]
  have hdecodes : Decodes limit
      (Bytes.ofUInt32 parts.length.toUInt32 ++ (parts.flatMap writePart ++ rest)) _ :=
    .parts hzero (by rw [hcount]; exact Nat.le_trans hleast hfits)
  rw [length_eq] at hfits
  rwa [hcount, readParts_write rest hwords.lengths hfits] at hdecodes

/-! ### Taking frames out of a buffer -/

theorem take_eq_frame {bs rest : Bytes} {parts : Message} :
    take limit bs = (rest, .ok (some parts)) ↔ decode limit bs = .frame parts rest := by
  unfold take
  cases decode limit bs <;> simp [and_comm]

theorem take_eq_none {bs left : Bytes} :
    take limit bs = (left, .ok none) ↔ left = bs ∧ decode limit bs = .incomplete := by
  unfold take
  cases decode limit bs <;> simp [eq_comm]

theorem take_eq_error {bs left : Bytes} {e : WireError} :
    take limit bs = (left, .error e) ↔ left = bs ∧ decode limit bs = .refused e := by
  unfold take
  cases decode limit bs <;> simp [eq_comm]

theorem length_lt_of_take {bs rest : Bytes} {parts : Message}
    (h : take limit bs = (rest, .ok (some parts))) : rest.length < bs.length := by
  have hbs := (encode_of_decode (take_eq_frame.mp h)).2
  have hwidth := least_le_length parts
  rw [hbs, List.length_append, length_write]
  unfold lengthWidth at hwidth
  omega

/-- What came out of a buffer, what is left in it, and the refusal that it ended with, if any. -/
structure Drained where
  messages : List Message
  left : Bytes
  refusal : Option WireError
deriving DecidableEq

/-- The same with messages that came out before. -/
def Drained.after (before : List Message) (d : Drained) : Drained :=
  { d with messages := before ++ d.messages }

/-- Takes messages out of a buffer until there is no whole frame in it. -/
def drain (limit : Nat) (buffer : Bytes) : Drained :=
  match h : take limit buffer with
  | (left, .ok none) => ⟨[], left, none⟩
  | (left, .error e) => ⟨[], left, some e⟩
  | (left, .ok (some parts)) =>
    have : left.length < buffer.length := length_lt_of_take h
    (drain limit left).after [parts]
termination_by buffer.length

/-- Takes out what there is after each chunk that comes, up to a refusal. -/
def feed (limit : Nat) (buffer : Bytes) : List Bytes → Drained
  | [] => ⟨[], buffer, none⟩
  | chunk :: chunks =>
    let d := drain limit (buffer ++ chunk)
    if d.refusal.isSome then d else (feed limit d.left chunks).after d.messages

theorem drain_incomplete {bs : Bytes} (h : decode limit bs = .incomplete) :
    drain limit bs = ⟨[], bs, none⟩ := by
  have htake := take_eq_none.mpr ⟨rfl, h⟩
  rw [drain]
  split <;> simp_all

theorem drain_refused {bs : Bytes} {e : WireError} (h : decode limit bs = .refused e) :
    drain limit bs = ⟨[], bs, some e⟩ := by
  have htake := take_eq_error.mpr ⟨rfl, h⟩
  rw [drain]
  split <;> simp_all

theorem drain_frame {bs rest : Bytes} {parts : Message} (h : decode limit bs = .frame parts rest) :
    drain limit bs = (drain limit rest).after [parts] := by
  have htake := take_eq_frame.mpr h
  rw [drain]
  split <;> simp_all

/-- Induction on what comes out of a buffer: nothing, a refusal, or a message before the rest. -/
theorem drain_induction (limit : Nat) {motive : Bytes → Prop}
    (incomplete : ∀ bs, decode limit bs = .incomplete → motive bs)
    (refused : ∀ bs e, decode limit bs = .refused e → motive bs)
    (frame : ∀ bs parts rest, decode limit bs = .frame parts rest → motive rest → motive bs)
    (bs : Bytes) : motive bs := by
  induction bs using drain.induct limit with
  | case1 bs left h => exact incomplete bs (take_eq_none.mp h).2
  | case2 bs left e h => exact refused bs e (take_eq_error.mp h).2
  | case3 bs left parts h _ ih => exact frame bs parts left (take_eq_frame.mp h) ih

/-- What was taken out stays so, and the rest is taken out of what was left and came after. -/
theorem drain_append (bs x : Bytes) (h : (drain limit bs).refusal = none) :
    drain limit (bs ++ x) =
      (drain limit ((drain limit bs).left ++ x)).after (drain limit bs).messages := by
  induction bs using drain_induction limit with
  | incomplete bs hbs =>
      rw [drain_incomplete hbs]
      rfl
  | refused bs e hbs =>
      rw [drain_refused hbs] at h
      cases h
  | frame bs parts rest hbs ih =>
      have hmore : decode limit (bs ++ x) = .frame parts (rest ++ x) := by
        rw [decode_append (by rw [hbs]; nofun), hbs]
        rfl
      rw [drain_frame hbs] at h ⊢
      rw [drain_frame hmore, ih h]
      rfl

/-- Once something is refused, more bytes only lie behind it. -/
theorem drain_append_of_refusal (bs x : Bytes) (h : (drain limit bs).refusal ≠ none) :
    drain limit (bs ++ x) = { drain limit bs with left := (drain limit bs).left ++ x } := by
  induction bs using drain_induction limit with
  | incomplete bs hbs =>
      rw [drain_incomplete hbs] at h
      exact absurd rfl h
  | refused bs e hbs =>
      have hmore : decode limit (bs ++ x) = .refused e := by
        rw [decode_append (by rw [hbs]; nofun), hbs]
        rfl
      rw [drain_refused hbs, drain_refused hmore]
  | frame bs parts rest hbs ih =>
      have hmore : decode limit (bs ++ x) = .frame parts (rest ++ x) := by
        rw [decode_append (by rw [hbs]; nofun), hbs]
        rfl
      rw [drain_frame hbs] at h ⊢
      rw [drain_frame hmore, ih h]
      rfl

/-- A buffer that was drained gives nothing more. -/
theorem drain_left (bs : Bytes) (h : (drain limit bs).refusal = none) :
    drain limit (drain limit bs).left = ⟨[], (drain limit bs).left, none⟩ := by
  induction bs using drain_induction limit with
  | incomplete bs hbs => rw [drain_incomplete hbs, drain_incomplete hbs]
  | refused bs e hbs =>
      rw [drain_refused hbs] at h
      cases h
  | frame bs parts rest hbs ih =>
      rw [drain_frame hbs] at h ⊢
      exact ih h

/-! ### Streams -/

/-- **Chunks that come one after the other give what their bytes give at once**: the same
messages and the same refusal, and without one the same bytes are left. -/
theorem feed_eq_drain {buffer : Bytes} (chunks : List Bytes)
    (hbuffer : drain limit buffer = ⟨[], buffer, none⟩) :
    (feed limit buffer chunks).messages = (drain limit (buffer ++ chunks.flatten)).messages ∧
    (feed limit buffer chunks).refusal = (drain limit (buffer ++ chunks.flatten)).refusal ∧
    ((feed limit buffer chunks).refusal = none →
      feed limit buffer chunks = drain limit (buffer ++ chunks.flatten)) := by
  induction chunks generalizing buffer with
  | nil => simp [feed, hbuffer]
  | cons chunk chunks ih =>
      rw [List.flatten_cons, ← List.append_assoc]
      by_cases hrefusal : (drain limit (buffer ++ chunk)).refusal = none
      · rw [drain_append _ _ hrefusal, feed]
        simp only [hrefusal, Option.isSome_none, Bool.false_eq_true, if_false]
        obtain ⟨hmessages, hrefusals, hall⟩ := ih (drain_left _ hrefusal)
        refine ⟨congrArg (_ ++ ·) hmessages, hrefusals, fun hnone => ?_⟩
        rw [hall hnone]
      · have hsome := Option.isSome_iff_ne_none.mpr hrefusal
        rw [drain_append_of_refusal _ _ hrefusal, feed, if_pos hsome]
        exact ⟨rfl, rfl, fun hnone => absurd hnone hrefusal⟩

theorem drain_nil : drain limit [] = ⟨[], [], none⟩ :=
  drain_incomplete (decodes_iff.mpr (.short (by decide)))

/-- The frames of messages one behind the other give the messages back and leave nothing. -/
theorem drain_encodings (hsmall : limit < 2 ^ 32) {messages : List Message} {encodings : List Bytes}
    (h : messages.mapM (encode limit) = .ok encodings) :
    drain limit encodings.flatten = ⟨messages, [], none⟩ := by
  induction messages generalizing encodings with
  | nil =>
      obtain rfl := Except.ok.inj h
      exact drain_nil
  | cons message messages ih =>
      rw [List.mapM_cons] at h
      cases hfirst : encode limit message with
      | error e =>
          rw [hfirst] at h
          cases h
      | ok bs =>
          cases hrest : messages.mapM (encode limit) with
          | error e =>
              rw [hfirst, hrest] at h
              cases h
          | ok others =>
              rw [hfirst, hrest] at h
              obtain rfl := Except.ok.inj h
              obtain ⟨hsome, hfits, rfl⟩ := encode_eq_ok.mp hfirst
              have hwords : FitsWords message := fitsWords_of_length (by omega)
              rw [List.flatten_cons, drain_frame (decode_write hwords hsome hfits _), ih hrest]
              rfl

/-- **Frames do not depend on how the stream is cut.** A frame that is taken is what `encode`
makes of its parts, under the same limit; frames and refusals stay what they are when more
bytes come, a refusal and a frame that is not whole take nothing, and a reader that waits
has fewer than `limit + 4` bytes. A message that is refused leaves its buffer alone. So the
chunks of a stream of frames, however they are cut, give back its messages in order. -/
theorem frames_independent_of_cuts (limit : Nat) :
    (∀ b rest parts, take limit b = (rest, .ok (some parts)) →
      (∃ bs, encode limit parts = .ok bs ∧ b = bs ++ rest) ∧
      ∀ x, take limit (b ++ x) = (rest ++ x, .ok (some parts))) ∧
    (∀ b left e, take limit b = (left, .error e) →
      left = b ∧ ∀ x, take limit (b ++ x) = (b ++ x, .error e)) ∧
    (∀ b left, take limit b = (left, .ok none) → left = b ∧ b.length < limit + 4) ∧
    (∀ buffer parts left e, put limit buffer parts = (left, .error e) → left = buffer) ∧
    (limit < 2 ^ 32 → ∀ messages encodings chunks,
      messages.mapM (encode limit) = .ok encodings → chunks.flatten = encodings.flatten →
      feed limit [] chunks = ⟨messages, [], none⟩) := by
  refine ⟨fun b rest parts h => ?_, fun b left e h => ?_, fun b left h => ?_,
    fun buffer parts left e h => ?_, fun hsmall messages encodings chunks hencode hcut => ?_⟩
  · have hframe := take_eq_frame.mp h
    refine ⟨⟨write parts, encode_of_decode hframe⟩, fun x => take_eq_frame.mpr ?_⟩
    rw [decode_append (by rw [hframe]; nofun), hframe]
    rfl
  · obtain ⟨hleft, hrefused⟩ := take_eq_error.mp h
    refine ⟨hleft, fun x => take_eq_error.mpr ⟨rfl, ?_⟩⟩
    rw [decode_append (by rw [hrefused]; nofun), hrefused]
    rfl
  · obtain ⟨hleft, hincomplete⟩ := take_eq_none.mp h
    exact ⟨hleft, length_of_incomplete hincomplete⟩
  · unfold put at h
    cases hencode : encode limit parts with
    | ok bs => rw [hencode] at h; cases h
    | error e' => rw [hencode] at h; exact (congrArg Prod.fst h).symm
  · have hdrain := drain_encodings hsmall hencode
    obtain ⟨-, hrefusal, hall⟩ := feed_eq_drain chunks (drain_nil : drain limit [] = _)
    rw [List.nil_append, hcut, hdrain] at hrefusal hall
    exact hall hrefusal

/-- A stream of two messages that is cut inside a length, inside a part and between parts, a
message that is taken before the next one has come, and a message and a frame beyond the limit. -/
theorem frames_of_pieces :
    feed 64 [] [[2, 0], [0, 0, 1, 0, 0, 0, 72, 0, 0, 0, 0, 1, 0, 0, 0, 2, 0], [], [0, 0, 7], [9]] =
      ⟨[[[72], []], [[7, 9]]], [], none⟩ ∧
    take 64 ([1, 0, 0, 0, 1, 0, 0, 0, 5] ++ [1, 0]) = ([1, 0], .ok (some [[5]])) ∧
    take 64 ([1, 0, 0, 0, 57, 0, 0, 0] ++ [3]) =
      ([1, 0, 0, 0, 57, 0, 0, 0, 3], .error (.frameTooLarge 65 64)) ∧
    [1, 0, 0, 0, 2, 0].length < 64 + 4 ∧
    (put 8 [6] [[1]]).1 = [6] := by
  obtain ⟨hframe, herror, hnone, -, hfeed⟩ := frames_independent_of_cuts 64
  obtain ⟨-, -, -, hput, -⟩ := frames_independent_of_cuts 8
  refine ⟨?_, ?_, ?_, ?_, ?_⟩
  · exact hfeed (by decide) _
      [[2, 0, 0, 0, 1, 0, 0, 0, 72, 0, 0, 0, 0], [1, 0, 0, 0, 2, 0, 0, 0, 7, 9]] _ rfl rfl
  · exact (hframe [1, 0, 0, 0, 1, 0, 0, 0, 5] [] [[5]] rfl).2 [1, 0]
  · exact (herror [1, 0, 0, 0, 57, 0, 0, 0] _ _ rfl).2 [3]
  · exact (hnone [1, 0, 0, 0, 2, 0] _ rfl).2
  · exact hput [6] [[1]] _ (.frameTooLarge 9 8) rfl

end BarArchive.Frame
