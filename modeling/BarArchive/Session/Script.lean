/-
Scripted sources: what a data source answers, written down in advance.

A script is a list of rules; the first one whose conditions a request meets says how it
is answered. A request that no rule says anything about gets a grid of bars: one at
every multiple of the frequency's span, with prices that follow from the time alone.
-/
import BarArchive.Market.Error

namespace BarArchive

/-- How a source answers some requests. Conditions that are missing always hold. -/
structure Rule where
  instrument : Option InstrumentId := none
  frequency : Option Frequency := none
  startFrom : Option Instant := none
  startBefore : Option Instant := none
  delay : Nat := 0
  disconnects : Bool := false
  dies : Bool := false
  failure : Option MarketError := none
  bars : Option (List Bar) := none
  overlap : Nat := 0

/-- The rules of a source, how often it still fails to connect, and what it was asked, latest first. -/
structure Script where
  rules : List Rule := []
  connectFailures : Nat := 0
  calls : List Request := []

namespace Rule

/-- Whether a condition that may be missing holds. -/
def holds {α : Type} (condition : Option α) (p : α → Bool) : Bool := (condition.map p).getD true

/-- Whether a request meets all conditions. -/
def appliesTo (rule : Rule) (r : Request) : Bool :=
  holds rule.instrument (fun id => r.instrument.id == some id)
    && holds rule.frequency (fun f => r.frequency == f)
    && holds rule.startFrom (fun t => t ≤ r.start)
    && holds rule.startBefore (fun t => r.start < t)

/-! ### The grid -/

/-- The bar of the grid at the `k`-th multiple of `step` seconds. -/
def gridBar (id : InstrumentId) (f : Frequency) (step : Nat) (k : Int) : Bar :=
  let price : Decimal := (Decimal.ofNat? ((k % 10000).toNat + 1)).getD .zero
  { instrument := id, frequency := f, time := k * (step * 1000000000), prices := .all price,
    volume := some 100 }

/-- The grid of a range, `overlap` bars wider on both sides. -/
def grid (r : Request) (overlap : Nat) : List Bar :=
  let step := max 1 r.frequency.seconds
  let width : Int := step * 1000000000
  let pad : Int := overlap * r.frequency.span
  let first := -Int.fdiv (pad - r.start) width
  let last := Int.fdiv (r.stop + pad) width
  (List.range (last + 1 - first).toNat).map fun (n : Nat) =>
    gridBar (r.instrument.id.getD 0) r.frequency step (first + (n : Int))

/-- What the source answers. -/
def answer (rule : Rule) (r : Request) : Except MarketError (List Bar) :=
  match rule.failure, rule.bars with
  | some e, _ => .error e
  | none, some bars => .ok bars
  | none, none => .ok (grid r rule.overlap)

end Rule

namespace Script

/-- The rule for a request. -/
def ruleFor (s : Script) (r : Request) : Rule := (s.rules.find? fun rule => rule.appliesTo r).getD {}

/-- Tries to connect: the script without one failure, or as it is. -/
def connect (s : Script) : Script × Bool :=
  if s.connectFailures = 0 then (s, true)
  else ({ s with connectFailures := s.connectFailures - 1 }, false)

end Script

end BarArchive
