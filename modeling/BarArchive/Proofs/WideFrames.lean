/-
Frames whose fields are too narrow.

The count of the parts and their lengths are written in 32 bits, and the only thing that
stands before the writing is the limit on the whole frame, which is a word of 64 bits. As
long as the limit is below `2 ^ 32 + 8`, no frame that keeps to it has a field that does not
fit. From there on a single part of `2 ^ 32` bytes keeps to the limit, its length is written
as zero, and a reader takes the bytes after it for the next frame.

A field fits if and only if it is written as it is, and a frame is read back if and only if
all its fields fit.
-/
import BarArchive.Proofs.Framing
import BarArchive.Server.Config

namespace BarArchive

/-! ### Limits that can be set -/

/-- Decimal digits are read as the number that they write. -/
theorem Digits.continueFrom_digits {cs : List Char} (hdigits : ∀ c ∈ cs, c.isDigit = true) :
    ∀ n, continueFrom n cs = (Nat.ofDigitChars 10 cs n, []) := by
  induction cs with
  | nil => intro n; rfl
  | cons c cs ih =>
      intro n
      have hc : value? c = some (c.toNat - '0'.toNat) := if_pos (hdigits c List.mem_cons_self)
      rw [continueFrom, hc, Nat.ofDigitChars_cons]
      exact ih (fun d hd => hdigits d (List.mem_cons_of_mem c hd)) _

theorem Digits.nat?_toDigits (n : Nat) : nat? (Nat.toDigits 10 n) = some n := by
  have hsome : (Nat.toDigits 10 n).isEmpty = false := by
    simp [List.isEmpty_eq_false_iff, Nat.toDigits_ne_nil]
  have hdigits : ∀ c ∈ Nat.toDigits 10 n, c.isDigit = true :=
    fun _ hc => Nat.isDigit_of_mem_toDigits (by decide) (by decide) hc
  have hread := continueFrom_digits hdigits 0
  rw [Nat.ofDigitChars_toDigits (by decide) (by decide)] at hread
  rw [nat?, hsome, hread]
  rfl

theorem Blank.trim_of_forall {cs : List Char} (h : ∀ c ∈ cs, isBlank c = false) : trim cs = cs := by
  have hkeep : ∀ ds : List Char, (∀ c ∈ ds, isBlank c = false) → dropLeading ds = ds := by
    intro ds hds
    cases ds with
    | nil => rfl
    | cons d ds => exact List.dropWhile_cons_of_neg (by simp [hds d List.mem_cons_self])
  rw [trim, hkeep cs h, hkeep cs.reverse fun c hc => h c (List.mem_reverse.mp hc),
    List.reverse_reverse]

theorem Blank.isBlank_of_isDigit {c : Char} (h : c.isDigit = true) : isBlank c = false := by
  have hc : 48 ≤ c.toNat ∧ c.toNat ≤ 57 := by
    simpa [Char.isDigit, UInt32.le_iff_toNat_le] using h
  simp [isBlank, singles]
  omega

namespace Config

/-- The digits of a word are read as this word. -/
theorem number?_repr (n : UInt64) : number? n.toNat.repr = some n := by
  have hdigits : ∀ c ∈ Nat.toDigits 10 n.toNat, c.isDigit = true :=
    fun _ hc => Nat.isDigit_of_mem_toDigits (by decide) (by decide) hc
  have htrim : Blank.trim n.toNat.repr.toList = Nat.toDigits 10 n.toNat := by
    rw [Nat.toList_repr]
    exact Blank.trim_of_forall fun c hc => Blank.isBlank_of_isDigit (hdigits c hc)
  have hplus : ∀ rest, Nat.toDigits 10 n.toNat ≠ '+' :: rest := by
    intro rest h
    exact absurd (hdigits '+' (h ▸ List.mem_cons_self)) (by decide)
  have hread : number? n.toNat.repr
      = ((Digits.nat? (Nat.toDigits 10 n.toNat)).filter fun n => n < 2 ^ 64).map Nat.toUInt64 := by
    unfold number?
    rw [htrim]
    split
    · rename_i rest h
      exact absurd h (hplus rest)
    · rfl
  have hword : decide (n.toNat < 2 ^ 64) = true := decide_eq_true n.toNat_lt
  rw [hread, Digits.nat?_toDigits, Option.filter_some, if_pos hword, Option.map_some,
    Nat.toUInt64_eq, UInt64.ofNat_toNat]

/-- Digits may be the value of a variable. -/
theorem settable_repr (n : Nat) : EnvFile.settable n.repr = true := by
  have hnul : '\x00' ∉ Nat.toDigits 10 n := fun hmem =>
    absurd (Nat.isDigit_of_mem_toDigits (by decide) (by decide) hmem) (by decide)
  simpa [EnvFile.settable, Nat.toList_repr] using hnul

/-- The variables that set the limit and nothing else. -/
def limitOnly (limit : UInt64) : Environment := ⟨[("HDS_MAX_FRAME_BYTES", limit.toNat.repr)]⟩

theorem load_limitOnly {limit : UInt64} (h : limit ≠ 0) :
    load (limitOnly limit) none = .ok { maxFrameBytes := limit } := by
  simp [load, limitOnly, settable_repr, ofEnvironment, setting, Table.find?, Table.lookup,
    number?_repr, positive, h, bind, Except.bind, pure, Except.pure]

theorem exists_of_bind {α β : Type} {x : Except ConfigError α} {f : α → Except ConfigError β} {b : β}
    (h : (x >>= f) = .ok b) : ∃ a, x = .ok a ∧ f a = .ok b := by
  cases x with
  | error e => cases h
  | ok a => exact ⟨a, rfl, h⟩

theorem ne_zero_of_positive {name : String} {n : UInt64} (h : positive name n = .ok ()) : n ≠ 0 := by
  rintro rfl
  cases h

theorem maxFrameBytes_of_environment {env : Environment} {c : Config}
    (h : ofEnvironment env = .ok c) : c.maxFrameBytes ≠ 0 := by
  -- the four settings can be read, and then the two that must be positive are
  obtain ⟨listen, -, h⟩ := exists_of_bind h
  obtain ⟨maxFrameBytes, -, h⟩ := exists_of_bind h
  obtain ⟨reconnectSeconds, -, h⟩ := exists_of_bind h
  obtain ⟨logFormat, -, h⟩ := exists_of_bind h
  obtain ⟨_, hframe, h⟩ := exists_of_bind h
  obtain ⟨_, -, h⟩ := exists_of_bind h
  cases h
  exact ne_zero_of_positive hframe

theorem maxFrameBytes_of_load {env : Environment} {file : Option String} {c : Config}
    (h : load env file = .ok c) : c.maxFrameBytes ≠ 0 := by
  simp only [load, bind, Except.bind, throw, throwThe, MonadExceptOf.throw] at h
  split at h
  · cases h
  · split at h
    · cases h
    · exact maxFrameBytes_of_environment h

/-- Every limit but zero can be set, and no other. -/
theorem limit_accepted_iff (limit : UInt64) :
    (∃ env file c, load env file = .ok c ∧ c.maxFrameBytes = limit) ↔ limit ≠ 0 := by
  constructor
  · rintro ⟨env, file, c, hload, rfl⟩
    exact maxFrameBytes_of_load hload
  · intro h
    exact ⟨limitOnly limit, none, _, load_limitOnly h, rfl⟩

end Config

namespace Frame

/-! ### Fields -/

/-- The bytes of a frame with this count and these lengths in front of the parts. -/
def layout (count : UInt32) (lengths : List UInt32) (parts : Message) : Bytes :=
  Bytes.ofUInt32 count ++ (lengths.zip parts).flatMap fun e => Bytes.ofUInt32 e.1 ++ e.2

/-- Bytes that are a frame of these parts and tell their true count and lengths. -/
def Truthful (parts : Message) (bs : Bytes) : Prop :=
  ∃ count lengths, bs = layout count lengths parts ∧ count.toNat = parts.length ∧
    lengths.map (·.toNat) = parts.map (·.length)

theorem write_eq_layout (parts : Message) :
    write parts = layout parts.length.toUInt32 (parts.map (·.length.toUInt32)) parts := by
  have hparts : ∀ rest : Message, rest.flatMap writePart
      = ((rest.map (·.length.toUInt32)).zip rest).flatMap
          fun e => Bytes.ofUInt32 e.1 ++ e.2 := by
    intro rest
    induction rest with
    | nil => rfl
    | cons part rest ih =>
        rw [List.map_cons, List.zip_cons_cons, List.flatMap_cons, List.flatMap_cons, ih]
        rfl
  rw [write, layout, hparts]

/-- A frame tells the truth just if the count and the lengths fit into their fields. -/
theorem truthful_write_iff {parts : Message} : Truthful parts (write parts) ↔ FitsWords parts := by
  constructor
  · rintro ⟨count, lengths, -, hcount, hlengths⟩
    refine ⟨hcount ▸ count.toNat_lt, fun part hpart => ?_⟩
    have hmem : part.length ∈ lengths.map (·.toNat) :=
      hlengths ▸ List.mem_map_of_mem (f := List.length) hpart
    obtain ⟨word, -, hword⟩ := List.mem_map.mp hmem
    exact hword ▸ word.toNat_lt
  · intro h
    refine ⟨_, _, write_eq_layout parts, UInt32.toNat_ofNat_of_lt' h.count, ?_⟩
    rw [List.map_map]
    exact List.map_congr_left fun part hpart => UInt32.toNat_ofNat_of_lt' (h.lengths part hpart)

/-- A frame is read back just if the count and the lengths fit into their fields. -/
theorem decode_write_iff {limit : Nat} {parts : Message} (hsome : parts ≠ [])
    (hfits : length parts ≤ limit) :
    decode limit (write parts) = .frame parts [] ↔ FitsWords parts := by
  constructor
  · intro h
    exact (frame_of_decode h).2.1
  · intro h
    have hread := decode_write h hsome hfits []
    rwa [List.append_nil] at hread

/-! ### A part that is too long -/

/-- A message of one part, whose length is the first that does not fit into its field. -/
def overlong : Message := [List.replicate (2 ^ 32) 0]

theorem length_overlong : length overlong = 2 ^ 32 + 8 := by
  rw [length_eq, overlong, List.flatMap_cons, List.flatMap_nil, List.append_nil, length_writePart,
    List.length_replicate, lengthWidth]

theorem not_fitsWords_overlong : ¬FitsWords overlong := by
  intro h
  have hlength := h.lengths (List.replicate (2 ^ 32) 0) List.mem_cons_self
  rw [List.length_replicate] at hlength
  exact Nat.lt_irrefl _ hlength

theorem encode_overlong {limit : Nat} (h : 2 ^ 32 + 8 ≤ limit) :
    encode limit overlong = .ok (write overlong) :=
  encode_eq_ok.mpr ⟨List.cons_ne_nil _ _, length_overlong ▸ h, rfl⟩

/-- The only length in it is written as zero, as if the part were empty. -/
theorem write_overlong : write overlong = write [[]] ++ List.replicate (2 ^ 32) 0 := by
  have hlength : (2 ^ 32 : Nat).toUInt32 = 0 := by decide
  rw [write, overlong, List.flatMap_cons, List.flatMap_nil, List.append_nil, writePart,
    List.length_replicate, hlength, ← List.append_assoc]
  rfl

/-- A reader finds an empty part, and takes the bytes of the part for what comes next. -/
theorem decode_overlong {limit : Nat} (h : 8 ≤ limit) :
    decode limit (write overlong) = .frame [[]] (List.replicate (2 ^ 32) 0) := by
  have hwords : FitsWords [[]] := fitsWords_of_length (by decide)
  have hlength : length [[]] ≤ limit := h
  rw [write_overlong]
  exact decode_write hwords (List.cons_ne_nil _ _) hlength _

/-- **Fields tell the truth just if they are wide enough.** A limit can be set just if it is not
zero. Under it, the count and the lengths in a frame that may be sent are those of its parts just
if they fit into 32 bits, and a reader finds these parts just if they do; and all frames that may
be sent are so just if the limit is below `2 ^ 32 + 8`. -/
theorem fields_true_iff (limit : UInt64) :
    ((∃ env file c, Config.load env file = .ok c ∧ c.maxFrameBytes = limit) ↔ limit ≠ 0) ∧
    (∀ parts bs, encode limit.toNat parts = .ok bs →
      (Truthful parts bs ↔ FitsWords parts) ∧
      (decode limit.toNat bs = .frame parts [] ↔ FitsWords parts)) ∧
    ((∀ parts bs, encode limit.toNat parts = .ok bs →
      Truthful parts bs ∧ decode limit.toNat bs = .frame parts []) ↔
        limit.toNat < 2 ^ 32 + 8) := by
  refine ⟨Config.limit_accepted_iff limit, ?_, ?_, ?_⟩
  · intro parts bs hencode
    obtain ⟨hsome, hfits, rfl⟩ := encode_eq_ok.mp hencode
    exact ⟨truthful_write_iff, decode_write_iff hsome hfits⟩
  · intro hall
    refine Nat.lt_of_not_le fun hwide => ?_
    obtain ⟨htrue, -⟩ := hall overlong _ (encode_overlong hwide)
    exact not_fitsWords_overlong (truthful_write_iff.mp htrue)
  · intro hnarrow parts bs hencode
    obtain ⟨hsome, hfits, rfl⟩ := encode_eq_ok.mp hencode
    have hwords : FitsWords parts := fitsWords_of_length (Nat.lt_of_le_of_lt hfits hnarrow)
    exact ⟨truthful_write_iff.mpr hwords, (decode_write_iff hsome hfits).mpr hwords⟩

/-- A frame of two parts and the frame whose length does not fit, under the limit that just lets
the second one through. -/
theorem fields_of_overlong :
    (Truthful [[72, 73], []] (write [[72, 73], []]) ∧
      decode (2 ^ 32 + 8) (write [[72, 73], []]) = .frame [[72, 73], []] []) ∧
    ¬Truthful overlong (write overlong) ∧
      decode (2 ^ 32 + 8) (write overlong) ≠ .frame overlong [] := by
  have hlimit : (4294967304 : UInt64).toNat = 2 ^ 32 + 8 := by decide
  obtain ⟨-, hfields, -⟩ := fields_true_iff 4294967304
  rw [hlimit] at hfields
  have hshort : encode (2 ^ 32 + 8) [[72, 73], []] = .ok (write [[72, 73], []]) := rfl
  have hwords : FitsWords [[72, 73], []] := fitsWords_of_length (by decide)
  obtain ⟨htrue, hread⟩ := hfields _ _ hshort
  obtain ⟨htrue', hread'⟩ := hfields _ _ (encode_overlong (Nat.le_refl _))
  exact ⟨⟨htrue.mpr hwords, hread.mpr hwords⟩, fun h => not_fitsWords_overlong (htrue'.mp h),
    fun h => not_fitsWords_overlong (hread'.mp h)⟩

/-- With the limit set to `2 ^ 32 + 8`, a part of `2 ^ 32` bytes may be sent. Its length is written
as zero, and the reader finds an empty part with the bytes of the part behind it. -/
theorem overlong_part_misread : ∃ c : Config,
    Config.load ⟨[("HDS_MAX_FRAME_BYTES", "4294967304")]⟩ none = .ok c ∧
    encode c.maxFrameBytes.toNat [List.replicate (2 ^ 32) 0]
      = .ok (write [List.replicate (2 ^ 32) 0]) ∧
    ¬Truthful [List.replicate (2 ^ 32) 0] (write [List.replicate (2 ^ 32) 0]) ∧
    decode c.maxFrameBytes.toNat (write [List.replicate (2 ^ 32) 0])
      = .frame [[]] (List.replicate (2 ^ 32) 0) := by
  refine ⟨{ maxFrameBytes := 4294967304 }, ?_, encode_overlong (by decide), ?_,
    decode_overlong (by decide)⟩
  · have hlimit : (4294967304 : UInt64) ≠ 0 := by decide
    have hload := Config.load_limitOnly hlimit
    exact hload
  · exact fun h => not_fitsWords_overlong (truthful_write_iff.mp h)

end Frame

end BarArchive
