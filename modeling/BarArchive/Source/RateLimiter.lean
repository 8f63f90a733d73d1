/-
Token buckets: how many requests a source may be sent at once.

Every source has a bucket of its own. A bucket starts full, a request takes one token
and time puts tokens back. Tokens are counted exactly, in parts so small that a
nanosecond puts back a whole number of them: `perMinute` parts each, of which a token
has as many as a minute has nanoseconds.
-/
import BarArchive.Source.Capability
import BarArchive.Market.Instrument
import BarArchive.Table

namespace BarArchive

/-- The parts of a token, which are the nanoseconds of a minute. -/
def tokenParts : Nat := 60000000000

/-- The tokens of one source at some moment. -/
structure Bucket where
  parts : Nat
  capacity : Nat
  perMinute : Nat
  filledAt : Nat
deriving DecidableEq, Repr

namespace Bucket

/-- A full bucket; a source takes at least one request at once and one per minute. -/
def full (pacing : Pacing) (now : Nat) : Bucket :=
  ⟨max 1 pacing.burst * tokenParts, max 1 pacing.burst * tokenParts, max 1 pacing.perMinute, now⟩

/-- The bucket with what time has put back. -/
def refill (b : Bucket) (now : Nat) : Bucket :=
  { b with parts := min b.capacity (b.parts + (now - b.filledAt) * b.perMinute), filledAt := now }

/-- The bucket with one token less, or how many nanoseconds a token is away. -/
def take (b : Bucket) (now : Nat) : Bucket × Option Nat :=
  let b := b.refill now
  if tokenParts ≤ b.parts then ({ b with parts := b.parts - tokenParts }, none)
  else (b, some ((tokenParts - b.parts + b.perMinute - 1) / b.perMinute))

end Bucket

/-- The buckets of all sources, and the limits that were set for some of them. -/
structure RateLimiter where
  limits : Table SourceId Pacing := .empty
  buckets : Table SourceId Bucket := .empty

namespace RateLimiter

/-- Sets the limits of a source, whose bucket starts over. -/
def configure (l : RateLimiter) (source : SourceId) (pacing : Pacing) : RateLimiter :=
  ⟨l.limits.insert source pacing, l.buckets.erase source⟩

/-- The bucket of a source; it is made on first use, with the limits set or the usual ones. -/
def bucket (l : RateLimiter) (source : SourceId) (now : Nat) : Bucket :=
  (l.buckets.find? source).getD (.full ((l.limits.find? source).getD {}) now)

/-- Takes a token of a source; if there is none, says how long to wait for it. -/
def acquire (l : RateLimiter) (source : SourceId) (now : Nat) : RateLimiter × Option Nat :=
  let (b, wait) := (l.bucket source now).take now
  ({ l with buckets := l.buckets.insert source b }, wait)

/-- Takes a token of a source if there is one. -/
def tryAcquire (l : RateLimiter) (source : SourceId) (now : Nat) : RateLimiter × Bool :=
  let (l, wait) := l.acquire source now
  (l, wait.isNone)

/-- Tries to take `n` tokens of a source, one after the other. -/
def tryMany (source : SourceId) (now : Nat) : Nat → RateLimiter → RateLimiter × List Bool
  | 0, l => (l, [])
  | n + 1, l =>
    let (l, ok) := l.tryAcquire source now
    let (l, oks) := tryMany source now n l
    (l, ok :: oks)

end RateLimiter

end BarArchive
