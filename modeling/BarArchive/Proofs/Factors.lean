/-
The factors of adjusted prices.

Prices are adjusted from the end of a series to its beginning, with a factor that each bar
changes for the bars before it. **A bar is adjusted by the product of what the later bars
contribute, each by its split and by its dividend against the close before it, and by
nothing else.** A series can therefore be cut anywhere: what follows the cut is adjusted as
if nothing came before it, and what comes before is adjusted from the factor that the later
part and the last close before the cut determine.

A quotient has no value for two reasons, that it does not fit and that the divisor is zero.
The pass is written once more here with the two told apart. It never meets the second one:
zero splits, zero dividends and zero closes are passed over.
-/
import BarArchive.Proofs.Adjusting

namespace BarArchive

/-- What a bar can contribute to the factor before it, and to what the next bar contributes. -/
def Bar.terms (b : Bar) : Decimal × Option Decimal × Option Decimal :=
  (b.prices.closing, b.split, b.dividend)

/-- What adjusted prices are computed from. -/
def Bar.basis (b : Bar) : Prices Decimal × Option Decimal × Option Decimal :=
  (b.prices, b.split, b.dividend)

namespace Sample

/-- A small whole number. -/
def whole (n : Fin 128) : Decimal :=
  ⟨false, n, 0, Nat.lt_trans n.isLt (by decide), Decimal.zero.scale_le⟩

/-- The bar of a day with one price throughout. -/
def priced (day : Int) (price : Decimal) : Bar := { bar day with prices := .all price }

/-- A series with a zero close, a zero split and a zero dividend, and with some that are not. -/
def zeroActions : List Bar :=
  [priced 0 .zero,
    { priced 1 (whole 100) with split := some .zero, dividend := some (whole 5) },
    { priced 2 (whole 50) with split := some (whole 2), dividend := some .zero },
    { priced 3 (whole 40) with dividend := some (whole 5) }]

end Sample

namespace Prices

variable {α β γ : Type}

/-- A function of each price. -/
def map (f : α → β) (p : Prices α) : Prices β := ⟨f p.opening, f p.high, f p.low, f p.closing⟩

theorem mapM?_map (f : α → Option β) (g : β → γ) (p : Prices α) :
    p.mapM? (fun x => (f x).map g) = (p.mapM? f).map (map g) := by
  unfold mapM?
  simp only [Option.bind_eq_bind, Option.map_eq_bind, Option.bind_assoc, Function.comp_def,
    Option.bind_some, Option.pure_def, map]

end Prices

namespace Adjustment

/-! ### How decimals fail -/

/-- Why a decimal operation has no result. -/
inductive Fault where
  | overflow
  | zeroDivisor
deriving DecidableEq, Repr

/-- A result that nothing but overflow can prevent. -/
def unlessOverflow {α : Type} : Option α → Except Fault α
  | some x => .ok x
  | none => .error .overflow

/-- A quotient, or why there is none. -/
def quotient (x y : Decimal) : Except Fault Decimal :=
  if y.isZero then .error .zeroDivisor else unlessOverflow (x.div? y)

/-- The factor after a bar's split, or why there is none. -/
def afterSplit (factor : Decimal) (b : Bar) : Except Fault Decimal :=
  match Bar.effective b.split with
  | some ratio => quotient factor ratio
  | none => .ok factor

/-- The factor after a bar's dividend, or why there is none. -/
def afterDividend (factor previousClose : Decimal) (b : Bar) : Except Fault Decimal :=
  match Bar.effective b.dividend with
  | some dividend =>
    if previousClose.isZero then .ok factor
    else do
      let share ← quotient dividend previousClose
      let kept ← unlessOverflow (Decimal.one.sub? share)
      unlessOverflow (factor.mul? kept)
  | none => .ok factor

/-- The factor in force before the bar `b`, or why there is none. -/
def before (previous : Option Bar) (b : Bar) (factor : Decimal) : Except Fault Decimal :=
  match previous with
  | some p => do
    let split ← afterSplit factor b
    afterDividend split p.prices.closing b
  | none => .ok factor

/-- The adjusted bars of a series and the factor before it, or why there are none. -/
def pass : Option Bar → List Bar → Except Fault (List Bar × Decimal)
  | _, [] => .ok ([], .one)
  | previous, b :: bars => do
    let (adjusted, factor) ← pass (some b) bars
    let scaled ← unlessOverflow (scaled? factor b)
    let carried ← before previous b factor
    return (scaled :: adjusted, carried)

theorem unlessOverflow_bind {α β : Type} (x : Option α) (f : α → Option β) :
    unlessOverflow (x.bind f) = unlessOverflow x >>= fun a => unlessOverflow (f a) := by
  cases x <;> rfl

/-- The value of an action that takes effect is not zero. -/
theorem ne_zero_of_effective {action : Option Decimal} {x : Decimal}
    (h : Bar.effective action = some x) : x.isZero = false := by
  obtain ⟨-, hnonzero⟩ := Option.filter_eq_some_iff.mp h
  simpa using hnonzero

theorem quotient_eq {x y : Decimal} (h : y.isZero = false) :
    quotient x y = unlessOverflow (x.div? y) := by
  unfold quotient
  rw [h]
  rfl

theorem afterSplit_eq (factor : Decimal) (b : Bar) :
    afterSplit factor b = unlessOverflow (afterSplit? factor b) := by
  unfold afterSplit afterSplit?
  cases hsplit : Bar.effective b.split with
  | none => rfl
  | some ratio => exact quotient_eq (ne_zero_of_effective hsplit)

theorem afterDividend_eq (factor previousClose : Decimal) (b : Bar) :
    afterDividend factor previousClose b
      = unlessOverflow (afterDividend? factor previousClose b) := by
  unfold afterDividend afterDividend?
  cases Bar.effective b.dividend with
  | none => rfl
  | some dividend =>
      cases hclose : previousClose.isZero with
      | true => rfl
      | false =>
          simp only [Bool.false_eq_true, if_false, Option.bind_eq_bind, unlessOverflow_bind]
          rw [quotient_eq hclose]

theorem before_eq (previous : Option Bar) (b : Bar) (factor : Decimal) :
    before previous b factor = unlessOverflow (before? previous b factor) := by
  cases previous with
  | none => rfl
  | some p =>
      unfold before before? carried?
      simp only [afterSplit_eq, afterDividend_eq, unlessOverflow_bind]

theorem backward?_cons_eq (previous : Option Bar) (b : Bar) (bars : List Bar) :
    backward? previous (b :: bars) = (backward? (some b) bars).bind fun x =>
      (scaled? x.2 b).bind fun scaled =>
        (before? previous b x.2).bind fun carried => some (scaled :: x.1, carried) := by
  cases previous <;> rfl

/-- The pass fails by overflow or not at all. -/
theorem pass_eq (bars : List Bar) : ∀ previous : Option Bar,
    pass previous bars = unlessOverflow (backward? previous bars) := by
  induction bars with
  | nil => intro previous; rfl
  | cons b bars ih =>
      intro previous
      rw [backward?_cons_eq]
      unfold pass
      simp only [unlessOverflow_bind, ih (some b), before_eq]
      rfl

/-! ### Cutting a series -/

/-- The adjusted bars of a series and the factor before it, from the factor after it. -/
def backwardFrom? (entering : Decimal) : Option Bar → List Bar → Option (List Bar × Decimal)
  | _, [] => some ([], entering)
  | previous, b :: bars =>
    (backwardFrom? entering (some b) bars).bind fun x =>
      (scaled? x.2 b).bind fun scaled =>
        (before? previous b x.2).bind fun carried => some (scaled :: x.1, carried)

theorem backwardFrom?_cons (entering : Decimal) (previous : Option Bar) (b : Bar)
    (bars : List Bar) : backwardFrom? entering previous (b :: bars) =
      (backwardFrom? entering (some b) bars).bind fun x =>
        (scaled? x.2 b).bind fun scaled =>
          (before? previous b x.2).bind fun carried => some (scaled :: x.1, carried) := rfl

theorem backwardFrom?_one (bars : List Bar) : ∀ previous : Option Bar,
    backwardFrom? .one previous bars = backward? previous bars := by
  induction bars with
  | nil => intro previous; rfl
  | cons b bars ih =>
      intro previous
      rw [backwardFrom?_cons, backward?_cons_eq, ih]

/-- The bar before a later part is the last of the earlier one, or the one before both. -/
theorem getLast?_cons_or (b : Bar) (earlier : List Bar) (previous : Option Bar) :
    (b :: earlier).getLast?.or previous = earlier.getLast?.or (some b) := by
  rw [List.getLast?_cons]
  cases earlier.getLast? <;> rfl

/-- The pass over a series is the pass over its later part and then over its earlier one. -/
theorem backwardFrom?_append (entering : Decimal) (earlier later : List Bar) :
    ∀ previous : Option Bar, backwardFrom? entering previous (earlier ++ later) =
      (backwardFrom? entering (earlier.getLast?.or previous) later).bind fun x =>
        (backwardFrom? x.2 previous earlier).bind fun y => some (y.1 ++ x.1, y.2) := by
  induction earlier with
  | nil =>
      intro previous
      exact (Option.bind_fun_some _).symm
  | cons b earlier ih =>
      intro previous
      rw [List.cons_append, backwardFrom?_cons, ih (some b), getLast?_cons_or]
      simp only [backwardFrom?_cons, Option.bind_assoc, Option.bind_some, List.cons_append]

/-! ### The factor before a series -/

/--
The product of what the bars of a series contribute, from the last one back: each divides it
by its split and takes its dividend off it, as a share of the close before.
-/
def product? (close : Decimal) (bars : List Bar) : Option Decimal :=
  ((close :: bars.map (·.prices.closing)).zip bars).foldr (fun x factor => factor.bind fun f =>
    (afterSplit? f x.2).bind fun f' => afterDividend? f' x.1 x.2) (some .one)

theorem product?_cons (close : Decimal) (b : Bar) (bars : List Bar) :
    product? close (b :: bars) = (product? b.prices.closing bars).bind fun f =>
      (afterSplit? f b).bind fun f' => afterDividend? f' close b := rfl

/-- The factor in force before a series is the product of what its bars contribute. -/
theorem product?_of_backward? {bars : List Bar} : ∀ {previous : Bar} {out : List Bar}
    {factor : Decimal}, backward? (some previous) bars = some (out, factor) →
      product? previous.prices.closing bars = some factor := by
  induction bars with
  | nil =>
      intro previous out factor h
      cases h
      rfl
  | cons b bars ih =>
      intro previous out factor h
      obtain ⟨later, atBar, scaled, hlater, -, hbefore, -⟩ := backward?_cons.mp h
      rw [product?_cons, ih hlater]
      exact hbefore

/-! ### What is looked at -/

theorem afterSplit?_congr {b b' : Bar} (h : b.split = b'.split) (factor : Decimal) :
    afterSplit? factor b = afterSplit? factor b' := by
  unfold afterSplit?
  rw [h]

theorem afterDividend?_congr {b b' : Bar} (h : b.dividend = b'.dividend)
    (factor close : Decimal) : afterDividend? factor close b = afterDividend? factor close b' := by
  unfold afterDividend?
  rw [h]

/-- The factor before a series depends on the actions and the closes of its bars alone. -/
theorem product?_congr {bars : List Bar} : ∀ {bars' : List Bar} (close : Decimal),
    bars.map Bar.terms = bars'.map Bar.terms → product? close bars = product? close bars' := by
  induction bars with
  | nil =>
      intro bars' close h
      rw [List.map_eq_nil_iff.mp h.symm]
  | cons b bars ih =>
      intro bars' close h
      cases bars' with
      | nil => cases h
      | cons b' bars' =>
          obtain ⟨hhead, htail⟩ := List.cons.inj h
          obtain ⟨hclosing, hsplit, hdividend⟩ := by
            simpa only [Bar.terms, Prod.mk.injEq] using hhead
          rw [product?_cons, product?_cons, hclosing, ih b'.prices.closing htail]
          simp only [afterSplit?_congr hsplit, afterDividend?_congr hdividend]

theorem scaled?_basis {b b' scaled : Bar} {factor : Decimal} (h : b.basis = b'.basis)
    (hscaled : scaled? factor b = some scaled) :
    ∃ scaled', scaled? factor b' = some scaled' ∧ scaled'.adjusted = scaled.adjusted := by
  have hprices : b.prices = b'.prices := congrArg Prod.fst h
  unfold scaled? at hscaled ⊢
  obtain ⟨adjusted, hadjusted, rfl⟩ := Option.map_eq_some_iff.mp hscaled
  rw [← hprices, hadjusted]
  exact ⟨_, rfl, rfl⟩

theorem before?_basis {previous previous' : Option Bar} {b b' : Bar}
    (hprevious : previous.map Bar.basis = previous'.map Bar.basis) (h : b.basis = b'.basis)
    (factor : Decimal) : before? previous b factor = before? previous' b' factor := by
  have hsplit : b.split = b'.split := congrArg (·.2.1) h
  have hdividend : b.dividend = b'.dividend := congrArg (·.2.2) h
  cases previous with
  | none =>
      cases previous' with
      | none => rfl
      | some p' => cases hprevious
  | some p =>
      cases previous' with
      | none => cases hprevious
      | some p' =>
          have hclosing : p.prices.closing = p'.prices.closing :=
            congrArg (·.1.closing) (Option.some.inj hprevious)
          show (afterSplit? factor b).bind _ = (afterSplit? factor b').bind _
          simp only [afterSplit?_congr hsplit, afterDividend?_congr hdividend, hclosing]

/-- Series of the same prices, splits and dividends have the same adjusted prices. -/
theorem backward?_basis {bars : List Bar} : ∀ {bars' : List Bar} {previous previous' : Option Bar}
    {out : List Bar} {factor : Decimal}, bars.map Bar.basis = bars'.map Bar.basis →
      previous.map Bar.basis = previous'.map Bar.basis →
      backward? previous bars = some (out, factor) → ∃ out',
        backward? previous' bars' = some (out', factor) ∧
          out'.map Bar.adjusted = out.map Bar.adjusted := by
  induction bars with
  | nil =>
      intro bars' previous previous' out factor hbars _ h
      rw [List.map_eq_nil_iff.mp hbars.symm]
      exact ⟨out, h, rfl⟩
  | cons b bars ih =>
      intro bars' previous previous' out factor hbars hprevious h
      cases bars' with
      | nil => cases hbars
      | cons b' bars' =>
          obtain ⟨hhead, htail⟩ := List.cons.inj hbars
          obtain ⟨later, atBar, scaled, hlater, hscaled, hbefore, rfl⟩ := backward?_cons.mp h
          obtain ⟨later', hlater', hadjusted⟩ :=
            ih htail (show (some b).map Bar.basis = (some b').map Bar.basis from
              congrArg some hhead) hlater
          obtain ⟨scaled', hscaled', hsame⟩ := scaled?_basis hhead hscaled
          rw [before?_basis hprevious hhead] at hbefore
          refine ⟨scaled' :: later',
            backward?_cons.mpr ⟨later', atBar, scaled', hlater', hscaled', hbefore, rfl⟩, ?_⟩
          rw [List.map_cons, List.map_cons, hsame, hadjusted]

/-! ### The result -/

/-- A bar that was scaled has the products with its prices, rounded, for adjusted prices. -/
theorem eq_of_scaled? {factor : Decimal} {b scaled : Bar} (h : scaled? factor b = some scaled) :
    ∃ products, b.prices.mapM? (·.mul? factor) = some products ∧
      scaled = { b with adjusted := products.map fun x => some (x.round places) } := by
  unfold scaled? at h
  rw [Prices.mapM?_map, Option.map_map] at h
  obtain ⟨products, hproducts, rfl⟩ := Option.map_eq_some_iff.mp h
  exact ⟨products, hproducts, rfl⟩

/-- A series that is cut in two: the later part alone determines the factor for the earlier one. -/
theorem adjust?_cut {earlier later out : List Bar} (h : adjust? (earlier ++ later) = some out) :
    ∃ out₁ out₂, out = out₁ ++ out₂ ∧ adjust? later = some out₂ ∧
      ∀ last, earlier.getLast? = some last → ∃ factor,
        backward? (some last) later = some (out₂, factor) ∧
          product? last.prices.closing later = some factor ∧
          (backwardFrom? factor none earlier).map (·.1) = some out₁ := by
  obtain ⟨⟨whole, first⟩, hwhole, rfl⟩ := Option.map_eq_some_iff.mp h
  rw [← backwardFrom?_one, backwardFrom?_append] at hwhole
  obtain ⟨⟨out₂, factor⟩, hlater, hwhole⟩ := Option.bind_eq_some_iff.mp hwhole
  obtain ⟨⟨out₁, carried⟩, hearlier, hboth⟩ := Option.bind_eq_some_iff.mp hwhole
  cases hboth
  rw [backwardFrom?_one] at hlater
  refine ⟨out₁, out₂, rfl, adjust?_of_backward? hlater, fun last hlast => ?_⟩
  rw [hlast] at hlater
  exact ⟨factor, hlater, product?_of_backward? hlater, congrArg (Option.map Prod.fst) hearlier⟩

/-- Each bar is scaled by the product of what the bars after it contribute. -/
theorem adjust?_getElem? {bars out : List Bar} (h : adjust? bars = some out) {i : Nat} {b : Bar}
    (hb : bars[i]? = some b) : ∃ factor scaled,
      product? b.prices.closing (bars.drop (i + 1)) = some factor ∧
        scaled? factor b = some scaled ∧ out[i]? = some scaled := by
  obtain ⟨hi, rfl⟩ := List.getElem?_eq_some_iff.mp hb
  have hsplit : bars = bars.take i ++ bars[i] :: bars.drop (i + 1) := by
    rw [← List.drop_eq_getElem_cons hi, List.take_append_drop]
  obtain ⟨⟨whole, first⟩, hwhole, rfl⟩ := Option.map_eq_some_iff.mp h
  rw [hsplit] at hwhole
  obtain ⟨out₁, out₂, rfl, hlength, hlater⟩ := adjust?_append _ hwhole
  obtain ⟨⟨tail, carried⟩, htail, rfl⟩ := Option.map_eq_some_iff.mp hlater
  obtain ⟨rest, factor, scaled, hrest, hscaled, -, rfl⟩ := backward?_cons.mp htail
  have hat : out₁.length = i := hlength.trans (List.length_take_of_le (Nat.le_of_lt hi))
  refine ⟨factor, scaled, product?_of_backward? hrest, hscaled, ?_⟩
  show (out₁ ++ scaled :: rest)[i]? = some scaled
  rw [← hat, List.getElem?_append_right (Nat.le_refl _), Nat.sub_self]
  rfl

/--
**Prices are adjusted by what comes later, and by nothing else.** Whatever zeros there are
among the splits, the dividends and the closes, nothing is divided by zero. Unless a decimal
overflows, adjusting a series

* changes adjusted prices only, to what the prices, splits and dividends determine, so that
  adjusting once more changes nothing;
* can be cut anywhere: the later part is adjusted as if it were alone, and the earlier one from
  the product of what the later bars contribute, given the last close before the cut;
* gives each bar its prices times the product of what all bars after it contribute, each
  product rounded to ten places.
-/
theorem adjust_local {bars : List Bar} (h : pass none bars ≠ .error .overflow) :
    pass none bars ≠ .error .zeroDivisor ∧ ∃ out first,
      pass none bars = .ok (out, first) ∧ adjust? bars = some out ∧
      out.map Bar.raw = bars.map Bar.raw ∧
      (∀ bars', bars'.map Bar.basis = bars.map Bar.basis →
        ∃ out', adjust? bars' = some out' ∧ out'.map Bar.adjusted = out.map Bar.adjusted) ∧
      adjust? out = some out ∧
      (∀ earlier later, bars = earlier ++ later → ∃ out₁ out₂, out = out₁ ++ out₂ ∧
        adjust? later = some out₂ ∧ ∀ last, earlier.getLast? = some last → ∃ factor,
          backward? (some last) later = some (out₂, factor) ∧
            (∀ later', later'.map Bar.terms = later.map Bar.terms →
              product? last.prices.closing later' = some factor) ∧
            (backwardFrom? factor none earlier).map (·.1) = some out₁) ∧
      ∀ i b, bars[i]? = some b → ∃ factor products,
        product? b.prices.closing (bars.drop (i + 1)) = some factor ∧
          b.prices.mapM? (·.mul? factor) = some products ∧
          out[i]? = some { b with adjusted := products.map fun x => some (x.round places) } := by
  rw [pass_eq] at h ⊢
  cases hbackward : backward? none bars with
  | none =>
      rw [hbackward] at h
      exact absurd rfl h
  | some x =>
      obtain ⟨out, first⟩ := x
      have hout : adjust? bars = some out := congrArg (Option.map Prod.fst) hbackward
      refine ⟨nofun, out, first, rfl, hout, raw_of_adjust? hout, fun bars' hbasis => ?_,
        adjust?_idempotent hout, fun earlier later hcut => ?_, fun i b hb => ?_⟩
      · obtain ⟨out', hout', hadjusted⟩ := backward?_basis hbasis.symm rfl hbackward
        exact ⟨out', congrArg (Option.map Prod.fst) hout', hadjusted⟩
      · obtain ⟨out₁, out₂, heq, hlater, hfactor⟩ := adjust?_cut (hcut ▸ hout)
        refine ⟨out₁, out₂, heq, hlater, fun last hlast => ?_⟩
        obtain ⟨factor, hpass, hproduct, hearlier⟩ := hfactor last hlast
        exact ⟨factor, hpass,
          fun later' hterms => (product?_congr _ hterms).trans hproduct, hearlier⟩
      · obtain ⟨factor, scaled, hfactor, hscaled, hat⟩ := adjust?_getElem? hout hb
        obtain ⟨products, hproducts, rfl⟩ := eq_of_scaled? hscaled
        exact ⟨factor, products, hfactor, hproducts, hat⟩

/-- Nothing is divided by a zero split or a zero close, and a zero dividend takes nothing off. -/
theorem local_zeroActions : ∃ out, adjust? Sample.zeroActions = some out ∧
    pass none Sample.zeroActions ≠ .error .zeroDivisor ∧ adjust? out = some out ∧
      (out.map fun b => b.adjusted.closing.map fun x => (x.coefficient, x.scale))
        = [some (0, 0), some (4500, 2), some (4500, 2), some (40, 0)] := by
  have hfits : pass none Sample.zeroActions ≠ .error .overflow := by
    rw [pass_eq]
    decide
  have hclosing : ((adjust? Sample.zeroActions).map fun out =>
      out.map fun b => b.adjusted.closing.map fun x => (x.coefficient, x.scale))
        = some [some (0, 0), some (4500, 2), some (4500, 2), some (40, 0)] := by decide
  obtain ⟨hnonzero, out, first, -, hout, -, -, hagain, -⟩ := adjust_local hfits
  rw [hout] at hclosing
  exact ⟨out, hout, hnonzero, hagain, Option.some.inj hclosing⟩

end Adjustment

end BarArchive
