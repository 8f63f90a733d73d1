/-
Prices after the last corporate action.

From the end of a series back to the last bar with an action, that bar included, prices are
adjusted by the factor one. A product with one is exact, so that nothing can change a price
there but the number of places that adjusted prices keep: **each adjusted price is the price
itself, rounded half to even at its tenth place, and it equals the price just if the price has
no more places than that.**

An overflow further back stops the pass, and then there is no adjusted series. The bars after
the last action have their prices by then: the pass is followed here over the bars as it
leaves them, whether or not it reaches the first of them.
-/
import BarArchive.Proofs.Factors
import Mathlib.Algebra.Order.Field.Basic
import Mathlib.Tactic.FieldSimp
import Mathlib.Tactic.Linarith
import Mathlib.Tactic.NormNum

namespace BarArchive

/-! ### Numbers with a fixed number of places -/

/--
Of the numbers with so many places, `y` is the one nearest to `x`; of two that are equally
near it is the one whose last digit is even.
-/
def RoundsTo (places : Nat) (x y : ℚ) : Prop :=
  ∃ n : ℤ, y * 10 ^ places = n ∧ |x * 10 ^ places - n| ≤ 1 / 2 ∧
    (|x * 10 ^ places - n| = 1 / 2 → Even n)

/-- A number is rounded to itself if there is nothing beyond the places. -/
theorem RoundsTo.refl {places : Nat} {x : ℚ} (h : ∃ n : ℤ, x * 10 ^ places = n) :
    RoundsTo places x x := by
  obtain ⟨n, hn⟩ := h
  exact ⟨n, hn, by simp [hn], by simp [hn]⟩

/-- Rounding changes nothing just if there is nothing beyond the places. -/
theorem RoundsTo.eq_iff {places : Nat} {x y : ℚ} (h : RoundsTo places x y) :
    y = x ↔ ∃ n : ℤ, x * 10 ^ places = n := by
  obtain ⟨n, hy, hnear, -⟩ := h
  constructor
  · rintro rfl
    exact ⟨n, hy⟩
  · rintro ⟨k, hx⟩
    rw [hx, ← Int.cast_sub, ← Int.cast_abs] at hnear
    have hlt : |k - n| < 1 := by
      have : ((|k - n| : ℤ) : ℚ) < 1 := by linarith
      exact_mod_cast this
    have hkn : k = n := sub_eq_zero.mp (Int.abs_lt_one_iff.mp hlt)
    have hpow : (10 : ℚ) ^ places ≠ 0 := by positivity
    exact mul_right_cancel₀ hpow (by rw [hy, hx, hkn])

namespace Sample

/-- A price with a digit at its eleventh place. -/
def longPrice : Decimal := ⟨false, 123456789012, 11, by decide, by decide⟩

/-- The greatest price. -/
def greatest : Decimal := ⟨false, 2 ^ 96 - 1, 0, by decide, Decimal.zero.scale_le⟩

/-- A split that doubles the prices before it. -/
def half : Decimal := ⟨false, 50, 2, by decide, by decide⟩

/-- A bar of long prices that doubles the prices before it. -/
def doubling : Bar := { priced 1 longPrice with split := some half }

end Sample

namespace Decimal

/-- The number that a decimal stands for. -/
def value (x : Decimal) : ℚ := x.signed / 10 ^ x.scale

theorem value_eq_zero {x : Decimal} (h : x.isZero = true) : x.value = 0 := by
  have hzero : x.coefficient = 0 := by simpa [isZero] using h
  simp [value, signed, hzero]

/-- A rounded quotient is off by half a unit at most, and by half a unit only if it is even. -/
theorem roundHalfEven_near (n : Nat) {d : Nat} (hd : 0 < d) :
    2 * (d * roundHalfEven n d) ≤ 2 * n + d ∧ 2 * n ≤ 2 * (d * roundHalfEven n d) + d ∧
      (2 * (d * roundHalfEven n d) = 2 * n + d ∨ 2 * n = 2 * (d * roundHalfEven n d) + d →
        roundHalfEven n d % 2 = 0) := by
  have hparts := Nat.div_add_mod n d
  have hmod := Nat.mod_lt n hd
  unfold roundHalfEven
  simp only
  split
  · rw [Nat.mul_succ]
    omega
  · omega

theorem abs_quotient_sub_roundHalfEven (n : Nat) {d : Nat} (hd : 0 < d) :
    |(n : ℚ) / d - roundHalfEven n d| ≤ 1 / 2 ∧
      (|(n : ℚ) / d - roundHalfEven n d| = 1 / 2 → Even (roundHalfEven n d)) := by
  obtain ⟨hlow, hhigh, htie⟩ := roundHalfEven_near n hd
  have hpos : (0 : ℚ) < d := by exact_mod_cast hd
  have hunits : ((n : ℚ) / d - roundHalfEven n d) * (2 * d)
      = 2 * n - 2 * (d * roundHalfEven n d) := by
    field_simp
  have hlow' : (2 * (d * roundHalfEven n d) : ℚ) ≤ 2 * n + d := by exact_mod_cast hlow
  have hhigh' : (2 * n : ℚ) ≤ 2 * (d * roundHalfEven n d) + d := by exact_mod_cast hhigh
  generalize (n : ℚ) / d - roundHalfEven n d = x at hunits
  constructor
  · rw [abs_le]
    constructor <;> nlinarith
  · intro heq
    rw [Nat.even_iff]
    refine htie ?_
    rcases (abs_eq (by norm_num : (0 : ℚ) ≤ 1 / 2)).mp heq with rfl | rfl
    · right
      have : (2 * n : ℚ) = 2 * (d * roundHalfEven n d) + d := by linarith
      exact_mod_cast this
    · left
      have : (2 * (d * roundHalfEven n d) : ℚ) = 2 * n + d := by linarith
      exact_mod_cast this

theorem signed_eq (x : Decimal) : x.signed = (if x.negative then -1 else 1) * x.coefficient := by
  unfold signed
  split <;> simp

theorem signed_round {x : Decimal} {places : Nat} (h : ¬ x.scale ≤ places) :
    (x.round places).signed = (if x.negative then -1 else 1) *
      (roundHalfEven x.coefficient (10 ^ (x.scale - places)) : Int) := by
  unfold round
  rw [dif_neg h]
  simp only [signed, isZero]
  by_cases hzero : roundHalfEven x.coefficient (10 ^ (x.scale - places)) = 0
  · simp [hzero]
  · cases x.negative <;> simp [hzero]

theorem value_mul_pow {x : Decimal} {places : Nat} (h : x.scale ≤ places) :
    x.value * 10 ^ places = ((x.signed * 10 ^ (places - x.scale) : ℤ) : ℚ) := by
  have hsplit : (10 : ℚ) ^ places = 10 ^ x.scale * 10 ^ (places - x.scale) := by
    rw [← pow_add, Nat.add_sub_cancel' h]
  rw [value, hsplit]
  push_cast
  field_simp

/-- The sign of a decimal has no say in how far it is from the one that it is rounded to. -/
theorem abs_value_sub_round {x : Decimal} {places : Nat} (h : ¬ x.scale ≤ places) :
    |x.value * 10 ^ places - (x.round places).signed|
      = |(x.coefficient : ℚ) / (10 ^ (x.scale - places) : ℕ)
          - roundHalfEven x.coefficient (10 ^ (x.scale - places))| := by
  have hsign : |((if x.negative then -1 else 1 : ℤ) : ℚ)| = 1 := by split <;> simp
  have hsplit : (10 : ℚ) ^ x.scale = 10 ^ (x.scale - places) * 10 ^ places := by
    rw [← pow_add, Nat.sub_add_cancel (Nat.le_of_not_le h)]
  have hsigned : x.value * 10 ^ places - (x.round places).signed
      = ((if x.negative then -1 else 1 : ℤ) : ℚ) *
        ((x.coefficient : ℚ) / (10 ^ (x.scale - places) : ℕ)
          - roundHalfEven x.coefficient (10 ^ (x.scale - places))) := by
    rw [value, hsplit, signed_eq x, signed_round h]
    push_cast
    field_simp
  rw [hsigned, abs_mul, hsign, one_mul]

/-- A decimal is rounded to the nearest one with the places. -/
theorem roundsTo_round (places : Nat) (x : Decimal) :
    RoundsTo places x.value (x.round places).value := by
  by_cases h : x.scale ≤ places
  · have hsame : x.round places = x := dif_pos h
    rw [hsame]
    exact RoundsTo.refl ⟨_, value_mul_pow h⟩
  · obtain ⟨hnear, htie⟩ := abs_quotient_sub_roundHalfEven x.coefficient
      (Nat.pow_pos (n := x.scale - places) (show 0 < 10 by decide))
    rw [← abs_value_sub_round h] at hnear htie
    have hscale : (x.round places).scale = places := by
      unfold round
      rw [dif_neg h]
    have hwhole := value_mul_pow (Nat.le_of_eq hscale)
    rw [hscale, Nat.sub_self, pow_zero, mul_one] at hwhole
    refine ⟨(x.round places).signed, hwhole, hnear, fun heq => ?_⟩
    rw [signed_round h]
    exact ((Int.even_coe_nat _).mpr (htie heq)).mul_left _

/-! ### Products with one -/

/-- What is in range is not reduced. -/
theorem reduced?_eq_self {c scale : Nat} (hc : c < 2 ^ 96) (hscale : scale ≤ 28) :
    reduced? c scale = some (c, scale) := by
  have hfirst : scale - 28 = 0 := by omega
  unfold reduced?
  rw [hfirst, Nat.sub_zero, List.range'_succ, List.findSome?_cons]
  simp [hc, hscale]

/-- A product with one is the other factor, but for the sign and the places of a zero. -/
theorem mul?_one (x : Decimal) : x.mul? .one = some (if x.isZero then .zero else x) := by
  obtain ⟨negative, c, scale, hc, hscale⟩ := x
  have hone : one.isZero = false := rfl
  have hplaces : ¬ wordPlaces < scale + one.scale := by
    show ¬ 47 < scale + 0
    omega
  unfold mul?
  simp only [hone, Bool.or_false]
  by_cases hzero : (⟨negative, c, scale, hc, hscale⟩ : Decimal).isZero = true
  · rw [if_pos hzero, if_pos hzero]
  · have hne : c ≠ 0 := by simpa [isZero] using hzero
    rw [if_neg hzero, if_neg hzero, if_neg hplaces]
    simp only [one, Nat.mul_one, Nat.add_zero, Bool.bne_false, reduce?, reduced?_eq_self hc hscale,
      Option.bind_some, of?, ofParts?, hc, hscale, and_self, dite_true, bne_iff_ne.mpr hne,
      Bool.and_true, ite_self]

end Decimal

/-- Something is so of each price of a bar and the same price of another one. -/
def Prices.Each {α β : Type} (R : α → β → Prop) (p : Prices α) (q : Prices β) : Prop :=
  R p.opening q.opening ∧ R p.high q.high ∧ R p.low q.low ∧ R p.closing q.closing

namespace Adjustment

/-- A price as it is adjusted where no later bar has an action. -/
def unscaled (p : Decimal) : Decimal := (if p.isZero then .zero else p).round places

theorem roundsTo_unscaled (p : Decimal) : RoundsTo places p.value (unscaled p).value := by
  have hvalue : (if p.isZero then .zero else p : Decimal).value = p.value := by
    split
    · rename_i hzero
      exact (Decimal.value_eq_zero rfl).trans (Decimal.value_eq_zero hzero).symm
    · rfl
  rw [← hvalue]
  exact Decimal.roundsTo_round places _

theorem scaled?_one (b : Bar) :
    scaled? .one b = some { b with adjusted := (b.prices.map unscaled).map some } := by
  unfold scaled? Prices.mapM?
  simp only [Decimal.mul?_one]
  rfl

/-! ### Bars as the pass leaves them -/

/-- A bar with its prices adjusted one after the other, up to the first that overflows. -/
def partly (factor : Decimal) (b : Bar) : Bar :=
  let product (p : Decimal) := (p.mul? factor).map (·.round places)
  let opening := product b.prices.opening
  let high := opening.bind fun _ => product b.prices.high
  let low := high.bind fun _ => product b.prices.low
  let closing := low.bind fun _ => product b.prices.closing
  { b with adjusted := ⟨opening.or b.adjusted.opening, high.or b.adjusted.high,
      low.or b.adjusted.low, closing.or b.adjusted.closing⟩ }

/--
The bars of a series as the pass leaves them, and the factor that it arrives with before the
first of them, unless an overflow stops it.
-/
def sweep : Option Bar → List Bar → List Bar × Option Decimal
  | _, [] => ([], some .one)
  | previous, b :: bars =>
    match sweep (some b) bars with
    | (later, some factor) =>
      (partly factor b :: later, (scaled? factor b).bind fun _ => before? previous b factor)
    | (later, none) => (b :: later, none)

theorem partly_eq_of_scaled? {factor : Decimal} {b scaled : Bar}
    (h : scaled? factor b = some scaled) : partly factor b = scaled := by
  unfold scaled? Prices.mapM? at h
  simp only [Option.bind_eq_bind, Option.map_eq_some_iff, Option.bind_eq_some_iff,
    Option.pure_def, Option.some.injEq] at h
  obtain ⟨_, ⟨_, ⟨o, ho, rfl⟩, _, ⟨hi, hhi, rfl⟩, _, ⟨l, hl, rfl⟩, _, ⟨c, hc, rfl⟩, rfl⟩, rfl⟩ :=
    h
  simp [partly, ho, hhi, hl, hc]

/-- If nothing stops it, the pass leaves the adjusted series. -/
theorem backward?_eq_sweep (bars : List Bar) : ∀ previous : Option Bar,
    backward? previous bars
      = (sweep previous bars).2.map fun f => ((sweep previous bars).1, f) := by
  induction bars with
  | nil => intro previous; rfl
  | cons b bars ih =>
      intro previous
      rw [backward?_cons_eq, ih, sweep]
      rcases sweep (some b) bars with ⟨later, _ | factor⟩
      · rfl
      · cases hscaled : scaled? factor b with
        | none => simp [hscaled]
        | some scaled =>
            simp [hscaled, partly_eq_of_scaled? hscaled, Option.map_eq_bind]

/-- What comes earlier has no say in what the pass leaves later. -/
theorem sweep_append (earlier later : List Bar) : ∀ previous : Option Bar, ∃ first,
    first.length = earlier.length ∧
      (sweep previous (earlier ++ later)).1
        = first ++ (sweep (earlier.getLast?.or previous) later).1 := by
  induction earlier with
  | nil => exact fun previous => ⟨[], rfl, rfl⟩
  | cons b earlier ih =>
      intro previous
      obtain ⟨first, hlength, hsweep⟩ := ih (some b)
      have hhead : ∃ c, (sweep previous (b :: (earlier ++ later))).1
          = c :: (sweep (some b) (earlier ++ later)).1 := by
        rw [sweep]
        rcases sweep (some b) (earlier ++ later) with ⟨rest, _ | factor⟩
        · exact ⟨b, rfl⟩
        · exact ⟨_, rfl⟩
      obtain ⟨c, hc⟩ := hhead
      refine ⟨c :: first, congrArg (· + 1) hlength, ?_⟩
      rw [List.cons_append, hc, hsweep, getLast?_cons_or]
      rfl

/-- A bar that the pass arrives at is adjusted by the factor that it arrives with. -/
theorem sweep_cons {b : Bar} {bars : List Bar} {factor : Decimal}
    (h : (sweep (some b) bars).2 = some factor) (previous : Option Bar) :
    sweep previous (b :: bars) = (partly factor b :: (sweep (some b) bars).1,
      (scaled? factor b).bind fun _ => before? previous b factor) := by
  have hlater : sweep (some b) bars = ((sweep (some b) bars).1, some factor) := Prod.ext rfl h
  rw [sweep, hlater]

/-- Bars without actions do not stop the pass, and carry the factor one over to earlier bars. -/
theorem sweep_quiet {bars : List Bar} : ∀ {previous : Option Bar},
    (∀ b ∈ bars, b.hasAction = false) → (sweep previous bars).2 = some .one := by
  induction bars with
  | nil => exact fun _ => rfl
  | cons b bars ih =>
      intro previous hquiet
      have hlater : (sweep (some b) bars).2 = some .one :=
        ih fun c hc => hquiet c (List.mem_cons_of_mem b hc)
      rw [sweep_cons hlater, scaled?_one, Option.bind_some]
      exact before?_quiet (hquiet b List.mem_cons_self) previous .one

/-- A series in which no bar but the first has an action can be adjusted. -/
theorem exists_adjust?_of_quiet {bars : List Bar} (h : ∀ c ∈ bars.tail, c.hasAction = false) :
    ∃ out, adjust? bars = some out := by
  cases bars with
  | nil => exact ⟨[], rfl⟩
  | cons b bars =>
      have hfactor : (sweep (some b) bars).2 = some .one := sweep_quiet h
      unfold adjust?
      rw [backward?_cons_eq, backward?_eq_sweep, hfactor]
      simp [scaled?_one, before?]

/-! ### The result -/

/--
**A bar after which no action comes keeps its prices, up to the places that adjusted prices
have.** Each of its adjusted prices is the price rounded half to even at the tenth place, and
equals the price just if that is all there is of it. The pass leaves the bar so in any case;
it leaves the adjusted series if there is one, and there is one if no bar but the first has an
action.
-/
theorem late_prices_rounded {later : List Bar} (h : ∀ c ∈ later, c.hasAction = false)
    (earlier : List Bar) (b : Bar) : ∃ kept : Prices Decimal,
      Prices.Each (fun p q : Decimal => RoundsTo places p.value q.value ∧
        (q.value = p.value ↔ ∃ n : ℤ, p.value * 10 ^ places = n)) b.prices kept ∧
      (sweep none (earlier ++ b :: later)).1[earlier.length]?
        = some { b with adjusted := kept.map some } ∧
      (∀ out, adjust? (earlier ++ b :: later) = some out →
        out = (sweep none (earlier ++ b :: later)).1) ∧
      ((∀ c ∈ (earlier ++ b :: later).tail, c.hasAction = false) →
        adjust? (earlier ++ b :: later) ≠ none) := by
  refine ⟨b.prices.map unscaled, ?_, ?_, fun out hout => ?_, fun hquiet => ?_⟩
  · have heach : ∀ p : Decimal, RoundsTo places p.value (unscaled p).value ∧
        ((unscaled p).value = p.value ↔ ∃ n : ℤ, p.value * 10 ^ places = n) := fun p =>
      ⟨roundsTo_unscaled p, (roundsTo_unscaled p).eq_iff⟩
    exact ⟨heach _, heach _, heach _, heach _⟩
  · obtain ⟨first, hlength, hsweep⟩ := sweep_append earlier (b :: later) none
    have hfactor : (sweep (some b) later).2 = some .one := sweep_quiet h
    rw [hsweep, ← hlength, List.getElem?_append_right (Nat.le_refl _), Nat.sub_self,
      sweep_cons hfactor, partly_eq_of_scaled? (scaled?_one b)]
    rfl
  · unfold adjust? at hout
    rw [backward?_eq_sweep, Option.map_map, Option.map_eq_some_iff] at hout
    obtain ⟨_, -, rfl⟩ := hout
    rfl
  · obtain ⟨out, hout⟩ := exists_adjust?_of_quiet hquiet
    simp [hout]

/-- The latest bar of a series, a bar of eleven places, does not keep its prices. -/
theorem not_all_prices_kept : ¬ ∀ (earlier later : List Bar) (b : Bar) (out : List Bar),
    (∀ c ∈ later, c.hasAction = false) → adjust? (earlier ++ b :: later) = some out →
      ∃ kept : Prices Decimal, Prices.Each (fun p q : Decimal => q.value = p.value) b.prices kept ∧
        out[earlier.length]? = some { b with adjusted := kept.map some } := by
  intro hall
  have hout : adjust? [Sample.priced 0 Sample.longPrice]
      = some [{ Sample.priced 0 Sample.longPrice with
          adjusted := .all (some ⟨false, 12345678901, 10, by decide, by decide⟩) }] := by decide
  obtain ⟨kept, ⟨-, -, -, hclosing⟩, hkept⟩ := hall [] [] _ _ (by simp) hout
  have hcut : kept.closing = ⟨false, 12345678901, 10, by decide, by decide⟩ := by
    have hat := congrArg (fun c : Bar => c.adjusted.closing) (Option.some.inj hkept)
    exact (Option.some.inj hat).symm
  rw [hcut] at hclosing
  norm_num [Decimal.value, Decimal.signed, Sample.priced, Sample.longPrice, Prices.all] at hclosing

/-- Though an overflow stops the pass before the first bar, the second one has its prices. -/
theorem late_prices_before_overflow :
    (∀ c ∈ [Sample.priced 2 Sample.longPrice], c.hasAction = false) ∧
    adjust? ([Sample.priced 0 Sample.greatest] ++ Sample.doubling ::
      [Sample.priced 2 Sample.longPrice]) = none ∧
    ∃ kept : Prices Decimal,
      Prices.Each (fun p q : Decimal => RoundsTo places p.value q.value ∧ q.value ≠ p.value)
        Sample.doubling.prices kept ∧
      (sweep none ([Sample.priced 0 Sample.greatest] ++ Sample.doubling ::
        [Sample.priced 2 Sample.longPrice])).1[1]?
          = some { Sample.doubling with adjusted := kept.map some } := by
  have hquiet : ∀ c ∈ [Sample.priced 2 Sample.longPrice], c.hasAction = false := by decide
  have hlong : ¬ ∃ n : ℤ, Sample.longPrice.value * 10 ^ places = n := by
    rintro ⟨n, hn⟩
    have hten : (123456789012 : ℚ) = 10 * n := by
      rw [← hn]
      norm_num [Decimal.value, Decimal.signed, Sample.longPrice, places]
    have : (123456789012 : ℤ) = 10 * n := by exact_mod_cast hten
    omega
  obtain ⟨kept, ⟨ho, hh, hl, hc⟩, hswept, -, -⟩ :=
    late_prices_rounded hquiet [Sample.priced 0 Sample.greatest] Sample.doubling
  refine ⟨hquiet, by decide +kernel, kept, ⟨?_, ?_, ?_, ?_⟩, hswept⟩
  · exact ⟨ho.1, mt ho.2.mp hlong⟩
  · exact ⟨hh.1, mt hh.2.mp hlong⟩
  · exact ⟨hl.1, mt hl.2.mp hlong⟩
  · exact ⟨hc.1, mt hc.2.mp hlong⟩

end Adjustment

end BarArchive
