/-
Numbers are given out once.

The allocator counts, and scrambles what it counted. Each step of scrambling can be
undone, so different counts give different numbers, and numbers differ until the count has
gone once through all words of 64 bits. In a run all numbers come from one allocator, one
after the other, and so they differ as long as there are at most as many as words.
-/
import BarArchive.Proofs.Order

namespace BarArchive

/-! ### Scrambling -/

/-- A word is determined by the word xor its own upper bits. -/
theorem xorShift_injective {k x y : UInt64} (hpos : 0 < k.toNat % 64)
    (h : xorShift k x = xorShift k y) : x = y := by
  -- where the two words differ is a word that equals its own upper bits
  have hdiff : x ^^^ y = (x ^^^ y) >>> k := by
    rw [UInt64.shiftRight_xor]
    calc x ^^^ y = (x ^^^ x >>> k) ^^^ (x >>> k ^^^ y) := by
          rw [UInt64.xor_assoc, ← UInt64.xor_assoc (x >>> k), UInt64.xor_self, UInt64.zero_xor]
      _ = (y ^^^ y >>> k) ^^^ (x >>> k ^^^ y) := congrArg (· ^^^ (x >>> k ^^^ y)) h
      _ = x >>> k ^^^ y >>> k := by
          rw [UInt64.xor_comm y (y >>> k), UInt64.xor_comm (x >>> k) y, UInt64.xor_assoc,
            ← UInt64.xor_assoc y y, UInt64.xor_self, UInt64.zero_xor, UInt64.xor_comm]
  have hnat : (x ^^^ y).toNat = (x ^^^ y).toNat / 2 ^ (k.toNat % 64) := by
    conv_lhs => rw [hdiff, UInt64.toNat_shiftRight, Nat.shiftRight_eq_div_pow]
  have hpow : 1 < 2 ^ (k.toNat % 64) := Nat.one_lt_two_pow (by omega)
  have hzero : (x ^^^ y).toNat = 0 := by
    by_contra hne
    have hlt := Nat.div_lt_self (Nat.pos_of_ne_zero hne) hpow
    omega
  have hxor : x ^^^ y = 0 := UInt64.toNat_inj.mp hzero
  exact UInt64.xor_eq_zero_iff.mp hxor

/-- Multiplication by a word that has an inverse can be undone. -/
theorem mul_injective {x y c : UInt64} (inverse : UInt64) (hc : c * inverse = 1) (h : x * c = y * c) :
    x = y := by
  have hundo : ∀ z : UInt64, z * c * inverse = z := fun z => by
    rw [UInt64.mul_assoc, hc, UInt64.mul_one]
  rw [← hundo x, h, hundo y]

theorem scramble_injective {x y : UInt64} (h : scramble x = scramble y) : x = y := by
  unfold scramble at h
  have h₁ := xorShift_injective (by decide) h
  have h₂ := mul_injective 0x319642b2d24d8ec3 (by decide) h₁
  have h₃ := xorShift_injective (by decide) h₂
  have h₄ := mul_injective 0x96de1b173f119089 (by decide) h₃
  exact xorShift_injective (by decide) h₄

/-! ### What an allocator gives out -/

namespace Allocator

/-- The numbers given out one after the other are those of successive counts. -/
theorem take_eq (n : Nat) : ∀ a : Allocator, a.take n
    = ((List.range n).map fun i => ⟨scramble (a.counter + UInt64.ofNat i)⟩,
        ⟨a.counter + UInt64.ofNat n⟩) := by
  induction n with
  | zero =>
    intro a
    simp [take]
  | succ n ih =>
    intro a
    have hsucc : ∀ i : Nat, a.counter + 1 + UInt64.ofNat i = a.counter + UInt64.ofNat (i + 1) := by
      intro i
      rw [UInt64.add_assoc, UInt64.add_comm 1, UInt64.ofNat_add]
      rfl
    simp only [take, next, ih, hsucc, List.range_succ_eq_map, List.map_cons, List.map_map]
    simp [Function.comp_def]

theorem length_take (n : Nat) (a : Allocator) : (a.take n).1.length = n := by
  rw [take_eq]
  simp

/-- Taking numbers in two goes is taking them in one. -/
theorem take_add (m n : Nat) (a : Allocator) : a.take (m + n)
    = ((a.take m).1 ++ ((a.take m).2.take n).1, ((a.take m).2.take n).2) := by
  induction m generalizing a with
  | zero => simp [take]
  | succ m ih =>
    rw [Nat.succ_add]
    simp only [take, ih, List.cons_append]

/-- Up to as many numbers as there are words differ. -/
theorem nodup_take {n : Nat} (hn : n ≤ 2 ^ 64) (a : Allocator) : (a.take n).1.Nodup := by
  rw [take_eq]
  show List.Pairwise (· ≠ ·) (List.map _ _)
  rw [List.pairwise_map]
  refine List.nodup_range.imp_of_mem fun {i j} hi hj hne heq => hne ?_
  have hcount := scramble_injective (congrArg AssignedId.word heq)
  have hword : UInt64.ofNat i = UInt64.ofNat j := UInt64.add_right_inj a.counter |>.mp hcount
  have hnat := congrArg UInt64.toNat hword
  have hi' := List.mem_range.mp hi
  have hj' := List.mem_range.mp hj
  rw [UInt64.toNat_ofNat', UInt64.toNat_ofNat', Nat.mod_eq_of_lt (by omega),
    Nat.mod_eq_of_lt (by omega)] at hnat
  exact hnat

end Allocator

/-! ### What a run gives out -/

/-- The parts of a request are numbered from the allocator on. -/
theorem Broker.partsFor_take (r : Request) : ∀ (gaps : List Gap) (ids : Allocator),
    (numbers (partsFor r gaps ids).1, (partsFor r gaps ids).2) = ids.take gaps.length := by
  intro gaps
  induction gaps with
  | nil => intro ids; rfl
  | cons g gaps ih =>
    intro ids
    have hrest := ih ids.next.2
    have hids : numbers (partsFor r gaps ids.next.2).1 = (ids.next.2.take gaps.length).1 :=
      congrArg Prod.fst hrest
    have hnext : (partsFor r gaps ids.next.2).2 = (ids.next.2.take gaps.length).2 :=
      congrArg Prod.snd hrest
    show (ids.next.1 :: numbers (partsFor r gaps ids.next.2).1, (partsFor r gaps ids.next.2).2) = _
    rw [hids, hnext]
    rfl

namespace World

/-- An accepted request has the next numbers of the allocator. -/
theorem admission_ids {b b' : Broker} {now : Instant} {r : Request} {a : Accepted}
    (h : Broker.Admission b now r (a, b')) : ∃ n, (a.ids, b'.ids) = b.ids.take n := by
  cases h with
  | @stored k p ids t' next routed table =>
    refine ⟨1, ?_⟩
    simp only [Allocator.take, next]
    rfl
  | @external k p ids slot t' next routed table =>
    refine ⟨1, ?_⟩
    simp only [Allocator.take, next]
    rfl
  | @split k p ids gaps slot t' next routed table =>
    refine ⟨gaps.length + 1, ?_⟩
    have hparts := Broker.partsFor_take (r.filed p) gaps ids
    have hall : (Broker.partsFor (r.filed p) gaps ids).1.filter Request.isPart
        = (Broker.partsFor (r.filed p) gaps ids).1 := Broker.partsFor_all p gaps ids
    simp only [Allocator.take, next, ← hparts, Accepted.ids, Work.requests, hall]
    rfl

/-- A request takes at most three numbers: its own, and one for the gap on either side. -/
theorem length_ids {b b' : Broker} {now : Instant} {r : Request} {a : Accepted}
    (h : Broker.Admission b now r (a, b')) : a.ids.length ≤ 3 := by
  cases h with
  | stored => exact Nat.le_add_left 1 2
  | external => exact Nat.le_add_left 1 2
  | @split k p ids gaps slot t' next routed table =>
    obtain ⟨-, -, -, c, -, -, hgaps⟩ := Broker.plan_gaps routed.gaps
    have hranges := congrArg List.length (Broker.partsFor_ranges (r.filed p) gaps ids)
    rw [List.length_map, List.length_map] at hranges
    have hback : (Route.backfill? r c).toList.length ≤ 1 := Option.length_toList_le
    have hforward : (Route.forwardFill? r c now).toList.length ≤ 1 := Option.length_toList_le
    have htwo : gaps.length ≤ 2 := by
      rw [hgaps, List.length_append]
      omega
    unfold Accepted.ids Work.requests
    simp only [Broker.partsFor_all, List.length_cons]
    have hfew := List.length_filterMap_le (·.assignedId) (Broker.partsFor (r.filed p) gaps ids).1
    omega

/-- A move gives out the next numbers of the allocator, or none. -/
theorem issued_step {w w' : World} {m : Move} (h : w.step? m = some w') : ∃ n,
    w'.issued.Perm (w.issued ++ (w.broker.ids.take n).1) ∧
      w'.broker.ids = (w.broker.ids.take n).2 := by
  rcases step_cases h with ⟨now, r, a, b, rfl, hsubmit, rfl⟩ | ⟨haccepted, -⟩
  · obtain ⟨n, hn⟩ := admission_ids (Broker.submit_cases hsubmit)
    refine ⟨n, ?_, congrArg Prod.snd hn⟩
    rw [issued_enroll, ← hn]
    exact List.perm_append_comm
  · refine ⟨0, ?_, ids_step h haccepted⟩
    unfold issued
    rw [haccepted]
    exact (List.append_nil _).symm ▸ List.Perm.refl _

/-- All numbers of a run are the first ones of its allocator. -/
theorem issued_of_run {moves : List Move} : ∀ {w w' : World}, w.run? moves = some w' → ∃ n,
    w'.issued.Perm (w.issued ++ (w.broker.ids.take n).1) := by
  induction moves with
  | nil =>
    intro w w' hrun
    cases hrun
    exact ⟨0, (List.append_nil _).symm ▸ List.Perm.refl _⟩
  | cons m moves ih =>
    intro w w' hrun
    obtain ⟨v, hstep, hrest⟩ := run?_cons.mp hrun
    obtain ⟨m, hm, hids⟩ := issued_step hstep
    obtain ⟨n, hn⟩ := ih hrest
    refine ⟨m + n, hn.trans ?_⟩
    rw [hids, Allocator.take_add, ← List.append_assoc]
    exact hm.append_right _

/-- **The numbers that a run gives out differ**, up to as many as there are words of 64 bits. -/
theorem nodup_of_length {cache : Cache} {ids : Allocator} {registry : Registry}
    {moves : List Move} {w : World} (hrun : (start cache ids registry).run? moves = some w)
    (hlength : w.issued.length ≤ 2 ^ 64) : w.issued.Nodup := by
  obtain ⟨n, hn⟩ := issued_of_run hrun
  have hperm : w.issued.Perm (ids.take n).1 := hn
  rw [hperm.nodup_iff]
  refine Allocator.nodup_take ?_ ids
  rw [hperm.length_eq, Allocator.length_take] at hlength
  exact hlength

/-- A run goes on with a request that is accepted. -/
theorem run?_submit {before after : List Move} {v w w' : World} {now : Instant} {r : Request}
    {a : Accepted} {b : Broker} (hbefore : v.run? before = some w)
    (hsubmit : w.broker.submit now r = .ok (a, b))
    (hafter : (w.enroll r a b).run? after = some w') :
    v.run? (before ++ .submit now r :: after) = some w' :=
  run?_append.mpr ⟨w, hbefore, run?_cons.mpr ⟨_, step_enroll hsubmit, hafter⟩⟩

/-- A request gets numbers that are new, while there are some left for it and two gaps. -/
theorem nodup_enroll {cache : Cache} {ids : Allocator} {registry : Registry} {before : List Move}
    {w : World} {now : Instant} {r : Request} {a : Accepted} {b : Broker}
    (hbefore : (start cache ids registry).run? before = some w)
    (hsubmit : w.broker.submit now r = .ok (a, b)) (hlength : w.issued.length + 3 ≤ 2 ^ 64) :
    (w.enroll r a b).issued.Nodup := by
  have hfew := length_ids (Broker.submit_cases hsubmit)
  have hnone : (w.enroll r a b).run? [] = some (w.enroll r a b) := rfl
  have hrun := run?_submit hbefore hsubmit hnone
  refine nodup_of_length hrun ?_
  rw [issued_enroll, List.length_append]
  omega

end World

end BarArchive
