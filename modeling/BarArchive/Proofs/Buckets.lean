/-
What a limiter grants while no time passes.

The buckets of a limiter come into being one by one, and the limits of a source can be set
again at any time. What is granted can still be read off the calls alone: the bucket of a
source holds as many tokens as the source takes at once, less those that it was granted
since its limits were last set. Calls that name other sources have no part in this.

Calls are kept with their outcomes, the latest first, and time stands still.
-/
import BarArchive.Source.RateLimiter

namespace BarArchive

/-! ### Counting the tokens of a bucket -/

namespace Bucket

/-- The bucket of a source with these limits when `n` tokens are left in it. -/
def holding (pacing : Pacing) (now n : Nat) : Bucket :=
  { full pacing now with parts := n * tokenParts }

/-- The most tokens that a source with these limits can be granted at once. -/
def room (pacing : Pacing) : Nat := max 1 pacing.burst

theorem full_eq_holding (pacing : Pacing) (now : Nat) :
    full pacing now = holding pacing now (room pacing) := rfl

/-- As long as no time passes, nothing is put back. -/
theorem refill_holding {pacing : Pacing} {now n : Nat} (hn : n ≤ room pacing) :
    (holding pacing now n).refill now = holding pacing now n := by
  have hparts : n * tokenParts ≤ max 1 pacing.burst * tokenParts :=
    Nat.mul_le_mul_right tokenParts hn
  simp only [refill, holding, full, Nat.sub_self, Nat.zero_mul, Nat.add_zero]
  rw [Nat.min_eq_right hparts]

/-- A bucket with tokens gives one of them away. -/
theorem take_holding_succ {pacing : Pacing} {now n : Nat} (hn : n + 1 ≤ room pacing) :
    (holding pacing now (n + 1)).take now = (holding pacing now n, none) := by
  have hparts : tokenParts ≤ (holding pacing now (n + 1)).parts :=
    Nat.le_mul_of_pos_left tokenParts (Nat.succ_pos n)
  have hleft : (n + 1) * tokenParts - tokenParts = n * tokenParts := by
    rw [Nat.succ_mul, Nat.add_sub_cancel]
  unfold take
  rw [refill_holding hn]
  simp only [if_pos hparts]
  rw [holding, holding, hleft]

/-- A bucket without tokens stays as it is. -/
theorem take_holding_zero (pacing : Pacing) (now : Nat) :
    ∃ wait, (holding pacing now 0).take now = (holding pacing now 0, some wait) := by
  have hparts : ¬tokenParts ≤ (holding pacing now 0).parts := by
    show ¬tokenParts ≤ 0 * tokenParts
    rw [Nat.zero_mul]
    decide
  unfold take
  rw [refill_holding (Nat.zero_le _)]
  simp only [if_neg hparts]
  exact ⟨_, rfl⟩

end Bucket

namespace RateLimiter

/-! ### Calls and their outcomes -/

/-- What a limiter can be told or asked. -/
inductive Call where
  | configure (source : SourceId) (pacing : Pacing)
  | tryAcquire (source : SourceId)

/-- A call that was made: limits that were set, or an attempt to take a token and its outcome. -/
inductive Entry where
  | configured (source : SourceId) (pacing : Pacing)
  | attempted (source : SourceId) (granted : Bool)
deriving DecidableEq

/-- The source that a call names. -/
def Call.source : Call → SourceId
  | configure source _ => source
  | tryAcquire source => source

/-- The source that a call that was made named. -/
def Entry.source : Entry → SourceId
  | configured source _ => source
  | attempted source _ => source

/-- The limits that were set for a source, if that was the call. -/
def Entry.limits? (source : SourceId) : Entry → Option Pacing
  | configured s pacing => if s = source then some pacing else none
  | attempted _ _ => none

/-- A limiter after one more call, and the calls made so far. -/
def record (now : Nat) (w : RateLimiter × List Entry) : Call → RateLimiter × List Entry
  | .configure source pacing =>
    (w.1.configure source pacing, .configured source pacing :: w.2)
  | .tryAcquire source =>
    let (l, granted) := w.1.tryAcquire source now
    (l, .attempted source granted :: w.2)

/-- A new limiter after some calls at one moment, and these calls. -/
def run (now : Nat) (calls : List Call) : RateLimiter × List Entry :=
  calls.foldl (record now) ({}, [])

/-- The limits that were last set for a source, or the usual ones. -/
def limitsOf (source : SourceId) (past : List Entry) : Pacing :=
  (past.findSome? (Entry.limits? source)).getD {}

/-- How many tokens a source was granted since its limits were last set. -/
def grantedTo (source : SourceId) (past : List Entry) : Nat :=
  (past.takeWhile fun e => (e.limits? source).isNone).count (.attempted source true)

/-- The calls among those made that named a source. -/
def naming (source : SourceId) (past : List Entry) : List Entry :=
  past.filter fun e => e.source = source

section Reading

variable {source other : SourceId} {pacing : Pacing} {past : List Entry}

theorem limitsOf_configured :
    limitsOf source (.configured other pacing :: past)
      = if other = source then pacing else limitsOf source past := by
  by_cases h : other = source <;> simp [limitsOf, Entry.limits?, h]

theorem limitsOf_attempted (granted : Bool) :
    limitsOf source (.attempted other granted :: past) = limitsOf source past := rfl

theorem grantedTo_configured :
    grantedTo source (.configured other pacing :: past)
      = if other = source then 0 else grantedTo source past := by
  by_cases h : other = source <;> simp [grantedTo, Entry.limits?, h]

theorem grantedTo_attempted (granted : Bool) :
    grantedTo source (.attempted other granted :: past)
      = grantedTo source past + if other = source ∧ granted = true then 1 else 0 := by
  simp [grantedTo, Entry.limits?, List.count_cons]

theorem naming_cons (e : Entry) : naming source (e :: past)
    = if e.source = source then e :: naming source past else naming source past := by
  by_cases he : e.source = source <;> simp [naming, he]

/-- What a source was granted and what its limits are is settled by the calls that name it. -/
theorem read_naming (source : SourceId) (past : List Entry) :
    limitsOf source (naming source past) = limitsOf source past ∧
      grantedTo source (naming source past) = grantedTo source past := by
  induction past with
  | nil => exact ⟨rfl, rfl⟩
  | cons e past ih =>
    obtain ⟨hlimits, hgranted⟩ := ih
    rw [naming_cons]
    by_cases he : e.source = source
    · rw [if_pos he]
      cases e with
      | configured other pacing =>
        simp only [limitsOf_configured, grantedTo_configured, hlimits, hgranted, and_self]
      | attempted other granted =>
        simp only [limitsOf_attempted, grantedTo_attempted, hlimits, hgranted, and_self]
    · rw [if_neg he, hlimits, hgranted]
      cases e with
      | configured other pacing =>
        have hother : other ≠ source := he
        simp only [limitsOf_configured, grantedTo_configured, if_neg hother, and_self]
      | attempted other granted =>
        have hother : other ≠ source := he
        simp only [limitsOf_attempted, grantedTo_attempted, hother, false_and, if_false,
          Nat.add_zero, and_self]

end Reading

/-! ### Buckets hold what the calls leave -/

/-- Every bucket holds what its source may be granted at once, less what it was granted. -/
structure Agrees (now : Nat) (l : RateLimiter) (past : List Entry) : Prop where
  limits : ∀ s, (l.limits.find? s).getD {} = limitsOf s past
  room : ∀ s, grantedTo s past ≤ Bucket.room (limitsOf s past)
  bucket : ∀ s, l.bucket s now
    = .holding (limitsOf s past) now (Bucket.room (limitsOf s past) - grantedTo s past)

variable {now : Nat} {l : RateLimiter} {past : List Entry}

/-- The bucket of a source after a token of another one was asked for, or of its own. -/
theorem bucket_acquire (l : RateLimiter) (source s : SourceId) (now : Nat) :
    (l.acquire source now).1.bucket s now
      = if source = s then ((l.bucket source now).take now).1 else l.bucket s now := by
  by_cases hs : source = s
  · simp [acquire, bucket, Table.find?_insert, hs]
  · simp [acquire, bucket, Table.find?_insert, hs]

/-- The bucket of a source after limits were set. -/
theorem bucket_configure (l : RateLimiter) (source s : SourceId) (pacing : Pacing) (now : Nat) :
    (l.configure source pacing).bucket s now
      = if source = s then .full pacing now else l.bucket s now := by
  by_cases hs : source = s
  · simp [configure, bucket, Table.find?_insert, Table.find?_erase, hs]
  · simp [configure, bucket, Table.find?_insert, Table.find?_erase, hs]

/-- An attempt succeeds just if the source was granted less than it may take at once. -/
theorem Agrees.tryAcquire_iff (h : Agrees now l past) (source : SourceId) :
    (l.tryAcquire source now).2 = true
      ↔ grantedTo source past < Bucket.room (limitsOf source past) := by
  have hroom := h.room source
  show ((l.bucket source now).take now).2.isNone = true ↔ _
  rw [h.bucket source]
  cases hleft : Bucket.room (limitsOf source past) - grantedTo source past with
  | zero =>
    obtain ⟨wait, htake⟩ := Bucket.take_holding_zero (limitsOf source past) now
    rw [htake]
    simp only [Option.isNone_some, Bool.false_eq_true, false_iff]
    omega
  | succ n =>
    rw [Bucket.take_holding_succ (by omega)]
    simp only [Option.isNone_none, true_iff]
    omega

theorem Agrees.configure (h : Agrees now l past) (source : SourceId) (pacing : Pacing) :
    Agrees now (l.configure source pacing) (.configured source pacing :: past) where
  limits := fun s => by
    rw [limitsOf_configured, RateLimiter.configure, Table.find?_insert]
    by_cases hs : source = s
    · simp only [if_pos hs, Option.getD_some]
    · simp only [if_neg hs, h.limits s]
  room := fun s => by
    rw [limitsOf_configured, grantedTo_configured]
    by_cases hs : source = s
    · simp only [if_pos hs, Nat.zero_le]
    · simp only [if_neg hs, h.room s]
  bucket := fun s => by
    rw [bucket_configure, limitsOf_configured, grantedTo_configured]
    by_cases hs : source = s
    · simp only [if_pos hs, Nat.sub_zero, Bucket.full_eq_holding]
    · simp only [if_neg hs, h.bucket s]

theorem Agrees.tryAcquire (h : Agrees now l past) (source : SourceId) :
    Agrees now (l.tryAcquire source now).1
      (.attempted source (l.tryAcquire source now).2 :: past) where
  limits := h.limits
  room := fun s => by
    rw [limitsOf_attempted, grantedTo_attempted]
    split
    · rename_i hgranted
      obtain ⟨rfl, hgranted⟩ := hgranted
      exact (h.tryAcquire_iff source).mp hgranted
    · exact h.room s
  bucket := fun s => by
    have hbucket := bucket_acquire l source s now
    show (l.acquire source now).1.bucket s now = _
    rw [hbucket, limitsOf_attempted, grantedTo_attempted]
    by_cases hs : source = s
    · subst hs
      have hiff := h.tryAcquire_iff source
      have hroom := h.room source
      rw [if_pos rfl, h.bucket source]
      cases hleft : Bucket.room (limitsOf source past) - grantedTo source past with
      | zero =>
        have hdenied : ¬(l.tryAcquire source now).2 = true := by
          rw [hiff]
          omega
        obtain ⟨wait, htake⟩ := Bucket.take_holding_zero (limitsOf source past) now
        rw [htake, if_neg fun hgranted => hdenied hgranted.2, Nat.add_zero, hleft]
      | succ n =>
        have hgranted : (l.tryAcquire source now).2 = true := by
          rw [hiff]
          omega
        rw [Bucket.take_holding_succ (by omega), if_pos ⟨rfl, hgranted⟩, Nat.sub_add_eq, hleft]
        rfl
    · rw [if_neg hs, if_neg fun hgranted => hs hgranted.1, Nat.add_zero, h.bucket s]

/-- Every call keeps the buckets in line with the calls made. -/
theorem Agrees.record {w : RateLimiter × List Entry} (h : Agrees now w.1 w.2) (c : Call) :
    Agrees now (record now w c).1 (record now w c).2 := by
  cases c with
  | configure source pacing => exact h.configure source pacing
  | tryAcquire source => exact h.tryAcquire source

theorem agrees_new (now : Nat) : Agrees now {} [] where
  limits := fun _ => rfl
  room := fun _ => Nat.zero_le _
  bucket := fun _ => rfl

/-- The buckets of a new limiter hold what the calls leave, after any calls. -/
theorem agrees_run (now : Nat) (calls : List Call) :
    Agrees now (run now calls).1 (run now calls).2 := by
  have hfold : ∀ w : RateLimiter × List Entry, Agrees now w.1 w.2 →
      Agrees now (calls.foldl (record now) w).1 (calls.foldl (record now) w).2 := by
    induction calls with
    | nil => exact fun _ h => h
    | cons c calls ih =>
      intro w h
      exact ih (record now w c) (h.record c)
  exact hfold ({}, []) (agrees_new now)

/-! ### Sources by themselves -/

/-- The calls that name a source. -/
def callsFor (source : SourceId) (calls : List Call) : List Call :=
  calls.filter fun c => c.source = source

/-- A call that names another source changes nothing about the calls that name this one. -/
theorem naming_record_of_ne {source : SourceId} (w : RateLimiter × List Entry) {c : Call}
    (hc : c.source ≠ source) : naming source (record now w c).2 = naming source w.2 := by
  cases c with
  | configure other pacing => exact (naming_cons _).trans (if_neg hc)
  | tryAcquire other => exact (naming_cons _).trans (if_neg hc)

/-- A call has the same outcome wherever the calls made before that name its source agree. -/
theorem naming_record {w v : RateLimiter × List Entry} (hw : Agrees now w.1 w.2)
    (hv : Agrees now v.1 v.2) {c : Call} (h : naming c.source w.2 = v.2) :
    naming c.source (record now w c).2 = (record now v c).2 := by
  cases c with
  | configure source pacing =>
    have hnaming : naming source w.2 = v.2 := h
    show naming source (.configured source pacing :: w.2) = .configured source pacing :: v.2
    rw [naming_cons, hnaming]
    exact if_pos rfl
  | tryAcquire source =>
    have hnaming : naming source w.2 = v.2 := h
    have hsame : (w.1.tryAcquire source now).2 = (v.1.tryAcquire source now).2 := by
      obtain ⟨hlimits, hgranted⟩ := read_naming source w.2
      rw [hnaming] at hlimits hgranted
      rw [Bool.eq_iff_iff, hw.tryAcquire_iff, hv.tryAcquire_iff, hlimits, hgranted]
    show naming source (.attempted source (w.1.tryAcquire source now).2 :: w.2)
      = .attempted source (v.1.tryAcquire source now).2 :: v.2
    rw [naming_cons, hnaming, hsame]
    exact if_pos rfl

/-- The calls that name a source have the outcomes that they have without all other calls. -/
theorem naming_run (now : Nat) (calls : List Call) (source : SourceId) :
    naming source (run now calls).2 = (run now (callsFor source calls)).2 := by
  have hfold : ∀ w v : RateLimiter × List Entry, Agrees now w.1 w.2 → Agrees now v.1 v.2 →
      naming source w.2 = v.2 → naming source (calls.foldl (record now) w).2
        = ((callsFor source calls).foldl (record now) v).2 := by
    induction calls with
    | nil => exact fun _ _ _ _ h => h
    | cons c calls ih =>
      intro w v hw hv h
      rw [List.foldl_cons]
      by_cases hc : c.source = source
      · subst hc
        have hcons : callsFor c.source (c :: calls) = c :: callsFor c.source calls :=
          List.filter_cons_of_pos (by simp)
        rw [hcons, List.foldl_cons]
        exact ih _ _ (hw.record c) (hv.record c) (naming_record hw hv h)
      · have hcons : callsFor source (c :: calls) = callsFor source calls :=
          List.filter_cons_of_neg (by simpa using hc)
        rw [hcons]
        exact ih _ v (hw.record c) hv ((naming_record_of_ne w hc).trans h)
  exact hfold ({}, []) ({}, []) (agrees_new now) (agrees_new now) rfl

/-- **Grants are counted, for each source by itself.** After any calls to a new limiter during which
no time passes, an attempt to take a token succeeds just if its source was granted fewer since
its limits were last set than these limits let it take at once. Calls that name other sources
change neither the outcomes of those that name this one nor its bucket. -/
theorem grants_counted (now : Nat) (calls : List Call) (source : SourceId) :
    (((run now calls).1.tryAcquire source now).2 = true
      ↔ grantedTo source (run now calls).2 < max 1 (limitsOf source (run now calls).2).burst) ∧
    naming source (run now calls).2 = (run now (callsFor source calls)).2 ∧
    (run now calls).1.bucket source now = (run now (callsFor source calls)).1.bucket source now := by
  have hall := agrees_run now calls
  have hfew := agrees_run now (callsFor source calls)
  have hnaming := naming_run now calls source
  obtain ⟨hlimits, hgranted⟩ := read_naming source (run now calls).2
  refine ⟨hall.tryAcquire_iff source, hnaming, ?_⟩
  rw [hnaming] at hlimits hgranted
  rw [hall.bucket source, hfew.bucket source, hlimits, hgranted]

/-- A source that takes two at once is turned down the third time, then set up again; another
source with the usual limits and one that is to take none at once are not concerned. -/
example : (run 7 [.configure "A" ⟨60, 2⟩, .tryAcquire "A", .configure "C" ⟨60, 0⟩, .tryAcquire "B",
      .tryAcquire "A", .tryAcquire "A", .tryAcquire "C", .tryAcquire "C", .configure "A" ⟨60, 1⟩,
      .tryAcquire "A", .tryAcquire "A"]).2.reverse.filterMap (fun
        | .attempted source granted => some (source, granted)
        | .configured .. => none)
    = [("A", true), ("B", true), ("A", true), ("A", false), ("C", true), ("C", false), ("A", true),
      ("A", false)] := by decide

end RateLimiter

end BarArchive
