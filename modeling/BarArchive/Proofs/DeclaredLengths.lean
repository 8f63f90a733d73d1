/-
Lengths told beside a block.

A block of bars travels with the length that the bars have when they are expanded, and the
reader is to refuse bars whose length was told wrong. How many bytes come out of a block does
not depend on the limit that is set: a limit below that number lets nothing come out, any
other one lets all of it come out, and then the numbers are compared. So a length that is too
small and one that is too great are both refused, with errors of their own.

Length zero is not. A block of that length is taken to hold no bars without being expanded,
and so **of all wrong lengths zero, and no other, is accepted: bars for which it is told are
read as no bars, and an answer that brings them as one that brings none.**
-/
import BarArchive.Proofs.Messages

namespace BarArchive

/-! ### Blocks under another limit -/

namespace Block

theorem size_copy (distance n : Nat) (out : Array UInt8) :
    (copy distance n out).size = out.size + n := by
  induction n generalizing out with
  | zero => rfl
  | succ n ih =>
    rw [copy, ih, Array.size_push]
    omega

/--
A limit has no say in what comes out of a block, only in whether it comes out: it does just if
it keeps to the limit.
-/
theorem expandWithin_of_limit {limit : Nat} (fuel : Nat) : ∀ {out r : Array UInt8} {block : Bytes},
    expandWithin limit fuel out block = some r → out.size ≤ r.size ∧
      ∀ limit', expandWithin limit' fuel out block = if r.size ≤ limit' then some r else none := by
  induction fuel with
  | zero => intro out r block h; cases h
  | succ fuel ih =>
    intro out r block h
    cases block with
    | nil => cases h
    | cons token rest =>
      simp only [expandWithin, Option.bind_eq_bind, Option.bind_eq_some_iff, Prod.exists] at h
      obtain ⟨count, rest', hcount, literals, tail, hliterals, h⟩ := h
      simp only [expandWithin, hcount, hliterals, Option.bind_eq_bind, Option.bind_some]
      have hgrown : out.size ≤ (literals.foldl Array.push out).size := by simp
      generalize literals.foldl Array.push out = grown at h hgrown ⊢
      split at h
      · cases h
      split at h
      · -- the last run has no copy
        rename_i hlast
        obtain rfl := Option.some.inj h
        refine ⟨hgrown, fun limit' => ?_⟩
        by_cases hlimit : grown.size ≤ limit'
        · rw [if_pos hlimit, if_neg (Nat.not_lt.mpr hlimit), if_pos hlast]
        · rw [if_neg hlimit, if_pos (Nat.lt_of_not_le hlimit)]
      · rename_i hmore
        simp only [Option.bind_eq_some_iff, Prod.exists] at h
        obtain ⟨distance, rest₁, hdistance, more, rest₂, hlength, h⟩ := h
        split at h
        · cases h
        rename_i hcopy
        obtain ⟨hsize, hrest⟩ := ih h
        rw [size_copy] at hsize
        refine ⟨by omega, fun limit' => ?_⟩
        simp only [hdistance, hlength, Option.bind_some, if_neg hmore, hrest]
        by_cases hlimit : r.size ≤ limit'
        · have hfits : ¬ (distance = 0 ∨ grown.size < distance ∨
              limit' < grown.size + (more + shortest)) := by omega
          rw [if_neg (by omega), if_neg hfits]
        · rw [if_neg hlimit, ite_self, ite_self]

theorem expand?_of_limit {limit : Nat} {block bs : Bytes} (h : expand? limit block = some bs)
    (limit' : Nat) : expand? limit' block = if bs.length ≤ limit' then some bs else none := by
  obtain ⟨r, hr, rfl⟩ := Option.map_eq_some_iff.mp h
  unfold expand?
  rw [(expandWithin_of_limit _ hr).2 limit', Array.length_toList]
  split <;> rfl

end Block

/-! ### Lengths that are wrong -/

namespace BarBlock

variable {encoder : Block.Encoder}

/-- Bars are written as bytes, and no bars as none. -/
theorem serialize_eq_nil {bars : List Bar} (h : serialize bars = .ok []) : bars = [] := by
  have hnone : deserialize [] = .ok [] := rfl
  have hbars := deserialize_serialize h (by decide)
  rw [hnone] at hbars
  exact List.map_eq_nil_iff.mp (Except.ok.inj hbars).symm

/-- A packed block expands to what the bars are written as, which is as long as it says. -/
theorem expand?_of_pack {bars : List Bar} {block : BarBlock} (h : pack bars encoder = .ok block) :
    ∃ bs, serialize bars = .ok bs ∧ bs.length = block.length.toNat ∧
      Block.expand? block.length.toNat block.payload = some bs := by
  obtain ⟨bs, hbs, hlength, rfl⟩ := pack_eq_ok.mp h
  have hword : bs.length.toUInt32.toNat = bs.length :=
    UInt32.toNat_ofNat_of_lt' (Nat.lt_of_le_of_lt hlength (by decide))
  refine ⟨bs, hbs, hword.symm, ?_⟩
  show Block.expand? bs.length.toUInt32.toNat (encoder.shrink bs) = some bs
  rw [hword, encoder.expand_shrink]

/-- A packed block has no length just if it has no bars. -/
theorem length_eq_zero_iff {bars : List Bar} {block : BarBlock} (h : pack bars encoder = .ok block) :
    block.length = 0 ↔ bars = [] := by
  constructor
  · intro hzero
    obtain ⟨bs, hbs, hlength, -⟩ := expand?_of_pack h
    rw [hzero] at hlength
    obtain rfl := List.length_eq_zero_iff.mp hlength
    exact serialize_eq_nil hbs
  · rintro rfl
    have hempty : pack ([] : List Bar) encoder = .ok ⟨0, encoder.shrink []⟩ := rfl
    rw [← Except.ok.inj (hempty.symm.trans h)]

/-- What is read from a block of bars whose length was told wrong. -/
def misread (length declared : UInt32) : Except WireError (List Bar) :=
  if declared = 0 then .ok []
  else if declared < length then .error .undecompressible
  else .error (.lengthMismatch declared.toNat length.toNat)

theorem exists_misread_eq_ok (length declared : UInt32) :
    (∃ got, misread length declared = .ok got) ↔ declared = 0 := by
  unfold misread
  split
  · simpa
  · split <;> simpa

theorem unpack_of_limit {payload bs : Bytes} {length : UInt32}
    (h : Block.expand? length.toNat payload = some bs) (hlength : bs.length = length.toNat)
    {declared : UInt32} (hwrong : declared ≠ length) :
    unpack ⟨declared, payload⟩ = misread length declared := by
  have hne : ¬ bs.length = declared.toNat := by
    rw [hlength]
    exact fun heq => hwrong (UInt32.toNat_inj.mp heq.symm)
  have hlt : declared < length ↔ declared.toNat < bs.length := by
    rw [hlength, UInt32.lt_iff_toNat_lt]
  unfold unpack misread
  rw [Block.expand?_of_limit h]
  by_cases hzero : declared = 0
  · rw [if_pos hzero, if_pos hzero]
  rw [if_neg hzero, if_neg hzero]
  by_cases hshort : declared.toNat < bs.length
  · rw [if_neg (Nat.not_le.mpr hshort), if_pos (hlt.mpr hshort)]
  · rw [if_pos (Nat.not_lt.mp hshort), if_neg (mt hlt.mp hshort), ← hlength]
    exact if_neg hne

/--
**Zero is accepted as the length of any bars, and no other wrong length is.** Told zero, the
reader makes no bars of a block of bars; told less than there is, it cannot expand the block;
told more, it names both lengths. The block may be any one that expands as the packed one does,
and what becomes of the bars becomes of an answer that brings them.
-/
theorem wrong_length_accepted_iff {bars : List Bar} {block : BarBlock} {payload : Bytes}
    (h : pack bars encoder = .ok block)
    (hpayload : Block.expand? block.length.toNat payload
      = Block.expand? block.length.toNat block.payload)
    {declared : UInt32} (hwrong : declared ≠ block.length) :
    unpack ⟨declared, payload⟩ = misread block.length declared ∧
    ((∃ got, unpack ⟨declared, payload⟩ = .ok got) ↔ declared = 0) ∧
    (declared = 0 → bars ≠ []) ∧
    (∀ (r : Request) (t d n p : Bytes),
      (Response.history r bars).toParts encoder = .ok [t, d, n, p] → d.length < 2 ^ 64 →
      Response.ofParts [t, d, lengthPart ⟨declared, payload⟩, payload]
        = (misread block.length declared).map (Response.history r.received)) := by
  obtain ⟨bs, -, hlength, hbs⟩ := expand?_of_pack h
  have hread := unpack_of_limit (hpayload.trans hbs) hlength hwrong
  refine ⟨hread, ?_, ?_, fun r t d n p hparts hsize => ?_⟩
  · rw [hread]
    exact exists_misread_eq_ok block.length declared
  · rintro rfl hnone
    exact hwrong ((length_eq_zero_iff h).mpr hnone).symm
  · simp only [Response.toParts, Response.body, bind_eq_ok, pure_eq_ok] at hparts
    obtain ⟨_, ⟨e, he, _, -, rfl⟩, hparts⟩ := hparts
    simp only [List.cons.injEq] at hparts
    obtain ⟨rfl, rfl, -⟩ := hparts
    rw [← hread]
    exact Response.ofParts_historyParts he hsize ⟨declared, payload⟩

/-- Told zero as the length of a bar, the reader is content with no bars. -/
theorem not_all_wrong_lengths_refused : ¬ ∀ (encoder : Block.Encoder) (bars : List Bar)
    (block : BarBlock) (declared : UInt32), bars ≠ [] → pack bars encoder = .ok block →
      declared ≠ block.length → ∃ e, unpack ⟨declared, block.payload⟩ = .error e := by
  intro hall
  have hpacked : pack [Sample.unevenBar] .plain = .ok ⟨80, 240 :: 65 :: Sample.unevenBytes⟩ := by
    decide +kernel
  obtain ⟨e, he⟩ := hall .plain _ _ 0 (by simp) hpacked (by decide)
  cases he

/--
A bar in a block that copies, its length told as zero, four bytes too small and four too great.
-/
theorem wrong_lengths_of_evenBlock :
    pack [Sample.evenBar] .plain = .ok ⟨76, Block.literals Sample.evenBytes⟩ ∧
    Block.expand? 76 Sample.evenBlock = Block.expand? 76 (Block.literals Sample.evenBytes) ∧
    unpack ⟨72, Sample.evenBlock⟩ = .error .undecompressible ∧
    unpack ⟨80, Sample.evenBlock⟩ = .error (.lengthMismatch 80 76) ∧
    Response.ofParts [MessageTag.historyReply.part,
        Field.writeAll Sample.numberedDescriptor.fields, [0, 0, 0, 0], Sample.evenBlock]
      = .ok (.history Sample.numberedRequest.received []) := by
  have hpacked : pack [Sample.evenBar] .plain = .ok ⟨76, Block.literals Sample.evenBytes⟩ := by
    decide +kernel
  have hexpand : Block.expand? 76 Sample.evenBlock
      = Block.expand? 76 (Block.literals Sample.evenBytes) := by decide +kernel
  have hparts : (Response.history Sample.numberedRequest [Sample.evenBar]).toParts .plain
      = .ok [MessageTag.historyReply.part, Field.writeAll Sample.numberedDescriptor.fields,
        [76, 0, 0, 0], Block.literals Sample.evenBytes] := by decide +kernel
  obtain ⟨hshort, -⟩ :=
    wrong_length_accepted_iff hpacked hexpand (show (72 : UInt32) ≠ 76 by decide)
  obtain ⟨hlong, -⟩ :=
    wrong_length_accepted_iff hpacked hexpand (show (80 : UInt32) ≠ 76 by decide)
  obtain ⟨-, -, -, hanswer⟩ :=
    wrong_length_accepted_iff hpacked hexpand (show (0 : UInt32) ≠ 76 by decide)
  exact ⟨hpacked, hexpand, hshort, hlong, hanswer _ _ _ _ _ hparts (by decide +kernel)⟩

end BarBlock

end BarArchive
