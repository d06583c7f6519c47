import SignalDesk.Proofs.BreakoutLevels
import SignalDesk.Proofs.NonnegativeAverages

namespace SignalDesk

open Scalar

section TrueRange

variable {previous bar : Bar Float} {bars : List (Bar Float)}

/-- The larger of two doubles is not below either of them, as far as they are defined. -/
theorem le_larger {a b x : Float} (one : x = a ∨ x = b) (defined : x.isNaN = false) : x ≤ larger a b := by
  unfold larger
  split
  · rename_i first
    rcases one with rfl | rfl
    · exact double_le_refl defined
    · have known : isUndefined x = false := defined
      rw [known, Bool.false_or] at first
      exact double_le_of_lt (of_decide_eq_true first)
  · rename_i second
    rw [Bool.not_eq_true, Bool.or_eq_false_iff] at second
    obtain ⟨known, notBelow⟩ := second
    rcases one with rfl | rfl
    · exact double_le_of_not_lt known defined (of_decide_eq_false notBelow)
    · exact double_le_refl defined

/-- What a true range is the largest of. -/
def distances (previous bar : Bar Float) : List Float :=
  [bar.high - bar.low, (bar.high - previous.closing).abs, (bar.low - previous.closing).abs]

/-- A true range is computed from prices that are all defined. -/
theorem trueRange_of_defined (defined : (trueRange previous bar).isNaN = false) :
    (bar.high.isNaN = false ∧ bar.low.isNaN = false ∧ previous.closing.isNaN = false) ∧
      trueRange previous bar = larger (larger (bar.high - bar.low) (bar.high - previous.closing).abs)
        (bar.low - previous.closing).abs := by
  unfold trueRange at *
  split at defined
  · exact absurd defined (by decide)
  · rename_i known
    rw [if_neg known]
    simp only [Bool.or_eq_true, not_or, Bool.not_eq_true] at known
    exact ⟨⟨known.1.1, known.1.2, known.2⟩, rfl⟩

theorem le_trueRange (defined : (trueRange previous bar).isNaN = false) {distance : Float}
    (one : distance ∈ distances previous bar) (known : distance.isNaN = false) :
    distance ≤ trueRange previous bar := by
  rw [(trueRange_of_defined defined).2]
  simp only [distances, List.mem_cons, List.not_mem_nil, or_false, ← or_assoc] at one
  rcases one with inner | last
  · have le := le_larger inner known
    exact double_le_trans le (le_larger (Or.inl rfl) (le_iff_linePlace.mp le).2.1)
  · exact le_larger (Or.inr last) known

/-- A distance from the close before is not negative. Both are undefined only if all three prices are one infinity, and
then the range is undefined as well. -/
theorem trueRange_nonneg (defined : (trueRange previous bar).isNaN = false) : 0.0 ≤ trueRange previous bar := by
  obtain ⟨⟨high, low, close⟩, -⟩ := trueRange_of_defined defined
  have far {price : Float} (one : (price - previous.closing).abs ∈ distances previous bar)
      (known : (price - previous.closing).isNaN = false) : 0.0 ≤ trueRange previous bar :=
    double_le_trans (abs_nonneg_double known) (le_trueRange defined one (linePlace_abs known).1)
  cases fromHigh : (bar.high - previous.closing).isNaN with
  | false => exact far (by simp [distances]) fromHigh
  | true =>
    cases fromLow : (bar.low - previous.closing).isNaN with
    | false => exact far (by simp [distances]) fromLow
    | true =>
      obtain ⟨s, highEnd, closeEnd⟩ := eq_endOfLine_of_sub high close fromHigh
      obtain ⟨t, lowEnd, sameClose⟩ := eq_endOfLine_of_sub low close fromLow
      simp only [trueRange, highEnd, lowEnd, closeEnd] at defined
      rw [closeEnd] at sameClose
      cases s <;> cases t
      · exact absurd defined (by decide)
      · exact absurd sameClose (by decide)
      · exact absurd sameClose (by decide)
      · exact absurd defined (by decide)

/-- Where the ranges of some bars are defined, they are those of a bar and the one before it. -/
theorem trueRanges_of_defined {i : Nat} {range : Float} (there : (trueRanges bars)[i]? = some range)
    (defined : range.isNaN = false) :
    ∃ k previous bar, i = k + 1 ∧ bars[k]? = some previous ∧ bars[k + 1]? = some bar ∧
      range = trueRange previous bar := by
  cases i with
  | zero =>
    rw [trueRanges_getElem?_zero] at there
    obtain ⟨first, -, rfl⟩ := Option.map_eq_some_iff.mp there
    exact absurd defined (by decide)
  | succ k =>
    obtain ⟨inside, -⟩ := List.getElem?_eq_some_iff.mp there
    rw [trueRanges_causal.length_eq] at inside
    have before := List.getElem?_eq_getElem (Nat.lt_of_succ_lt inside)
    have here := List.getElem?_eq_getElem inside
    rw [trueRanges_getElem? before here] at there
    exact ⟨k, _, _, rfl, before, here, (Option.some.inj there).symm⟩

theorem trueRanges_nonneg : ∀ range ∈ trueRanges bars, NonnegIfDefined range := by
  intro range member defined
  obtain ⟨i, there⟩ := List.mem_iff_getElem?.mp member
  obtain ⟨k, previous, bar, -, -, -, rfl⟩ := trueRanges_of_defined there defined
  exact trueRange_nonneg defined

end TrueRange

/-- What a volatility is smoothed from is never negative, so it is not either. -/
theorem Indicator.atr_nonneg {period : Nat} {bars : List (Bar Float)} {series : List Float}
    (computed : (Indicator.atr period).compute bars = .ok series) : ∀ value ∈ series, NonnegIfDefined value := by
  obtain ⟨nonzero, fits, rfl⟩ := compute_eq_ok.mp computed
  have positive : 1 ≤ (Indicator.atr period).period := Nat.one_le_iff_ne_zero.mpr nonzero
  intro value member defined
  obtain ⟨i, there⟩ := List.mem_iff_getElem?.mp member
  obtain ⟨inside, -⟩ := List.getElem?_eq_some_iff.mp there
  rw [(series_causal _).length_eq] at inside
  -- something is smoothed here, so the first defined true range bounds the period
  obtain ⟨⟨start, found, -⟩, rfl⟩ := (series_settledAt positive inside).of_defined there defined
  have small : period < positionLimit := by
    by_contra large
    have overflows : (Indicator.atr period).Overflows bars := ⟨start, found, by omega⟩
    rw [fits_eq_false.mpr overflows] at fits
    cases fits
  have ranges : ∀ range ∈ (trueRanges bars).dropWhile isUndefined, NonnegIfDefined range :=
    fun range kept => trueRanges_nonneg range ((List.dropWhile_sublist _).mem kept)
  exact NonnegIfDefined.smoothedAt positive small ranges _ defined

/-- The volatilities that a rule reads from a market: the one that its gate tests, and the latest one. -/
inductive Breakout.Sees (rule : Breakout) (market : Snapshot) : Float → Prop
  | tested {p : Parameters} {gate : GateResult} :
      checkVolatility market (Indicator.atr rule.atr).name p = .ok gate → Sees rule market gate.testedValue
  | latest {volatility : Float} :
      market.latestFinite (Indicator.atr rule.atr).name = .ok volatility → Sees rule market volatility

/-- They are finite numbers of the series of that name. -/
theorem Breakout.Sees.mem {rule : Breakout} {market : Snapshot} {volatility : Float} {series : List Float}
    (sees : rule.Sees market volatility)
    (carried : market.indicators.get? (Indicator.atr rule.atr).name = some series) :
    volatility ∈ series ∧ volatility.isFinite = true := by
  cases sees with
  | tested checked =>
    obtain ⟨low, high, read, lookback, -, found, -, decided⟩ := checkVolatility_eq_ok.mp checked
    obtain rfl := Option.some.inj (carried.symm.trans found)
    obtain ⟨-, last, finite, -⟩ := volatilityGate_eq_ok.mp decided
    exact ⟨List.mem_of_getLast? (getLast?_of_trailing last), finite⟩
  | latest answered =>
    obtain ⟨read, found, stands, finite⟩ := Snapshot.finiteBack_eq_ok.mp answered
    obtain rfl := Option.some.inj (carried.symm.trans found)
    exact ⟨List.mem_reverse.mp (List.mem_of_getElem? stands), finite⟩

/-- Over any bars, crossed and infinite ones included, a true range is not negative and not below any of the distances
that it is the largest of, as far as they are defined. So no volatility is negative, however long it is smoothed, and
none that a rule reads from a market with the series of any bars. -/
theorem Indicator.atr_never_negative (bars : List (Bar Float)) :
    (∀ (i : Nat) (range : Float), (trueRanges bars)[i]? = some range → range.isNaN = false →
      ∃ (k : Nat) (previous bar : Bar Float), i = k + 1 ∧ bars[k]? = some previous ∧ bars[k + 1]? = some bar ∧
        0.0 ≤ range ∧
        ∀ distance ∈ [bar.high - bar.low, (bar.high - previous.closing).abs, (bar.low - previous.closing).abs],
          distance.isNaN = false → distance ≤ range) ∧
    ∀ period series, (Indicator.atr period).compute bars = .ok series →
      (∀ value ∈ series, value.isNaN = false → 0.0 ≤ value) ∧
      ∀ (rule : Breakout) (market : Snapshot) (volatility : Float), rule.atr = period →
        market.indicators.get? (Indicator.atr period).name = some series → rule.Sees market volatility →
          0.0 ≤ volatility := by
  refine ⟨fun i range there defined => ?_, fun period series computed => ⟨atr_nonneg computed, ?_⟩⟩
  · obtain ⟨k, previous, bar, place, before, here, rfl⟩ := trueRanges_of_defined there defined
    exact ⟨k, previous, bar, place, before, here, trueRange_nonneg defined, fun _ one => le_trueRange defined one⟩
  · rintro rule market volatility rfl carried sees
    obtain ⟨member, finite⟩ := sees.mem carried
    exact atr_nonneg computed volatility member (isNaN_eq_false finite)

/-- A bar with its low 15 above its high moves 10 away from the close before it. -/
theorem crossedMarket_never_negative :
    (trueRanges crossedBars)[2]? = some 10.0 ∧ (0.0 : Float) ≤ 10.0 ∧ (5.0 - 20.0 : Float) ≤ 10.0 ∧
      (Indicator.atr 1).compute crossedBars = .ok ((Indicator.atr 1).series crossedBars) ∧
      crossedMarket.indicators.get? (Indicator.atr 1).name = some ((Indicator.atr 1).series crossedBars) ∧
      shortestBreakout.Sees crossedMarket 21.0 ∧ (0.0 : Float) ≤ 21.0 := by
  have there : (trueRanges crossedBars)[2]? = some 10.0 := by decide +kernel
  have computed : (Indicator.atr 1).compute crossedBars = .ok ((Indicator.atr 1).series crossedBars) := rfl
  have carried : crossedMarket.indicators.get? (Indicator.atr 1).name =
      some ((Indicator.atr 1).series crossedBars) := rfl
  have read : crossedMarket.latestFinite (Indicator.atr 1).name = .ok 21.0 :=
    Snapshot.finiteBack_eq_ok.mpr ⟨_, carried, by decide +kernel, by decide⟩
  have sees : shortestBreakout.Sees crossedMarket 21.0 := .latest read
  obtain ⟨ranges, volatilities⟩ := Indicator.atr_never_negative crossedBars
  obtain ⟨k, previous, bar, place, -, here, nonneg, largest⟩ := ranges 2 10.0 there (by decide)
  obtain rfl : 1 = k := Nat.succ.inj place
  obtain rfl := Option.some.inj here
  exact ⟨there, nonneg, largest _ List.mem_cons_self (by decide), computed, carried, sees,
    (volatilities 1 _ computed).2 shortestBreakout crossedMarket 21.0 rfl carried sees⟩

end SignalDesk
