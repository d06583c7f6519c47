import SignalDesk.Proofs.MonotoneDoubles
import SignalDesk.Proofs.Reckoning

namespace SignalDesk

namespace TrendFollowing

section Averages

variable {fast other slow : Float} (fastFinite : fast.isFinite = true) (otherFinite : other.isFinite = true)
  (slowFinite : slow.isFinite = true) (positive : 0.0 < slow)

include fastFinite otherFinite slowFinite positive

/-- Two trades in one direction have their fast averages on one side of the slow one. -/
theorem sameSide_of_direction (same : direction (spreadPercent fast slow) = direction (spreadPercent other slow))
    (trades : direction (spreadPercent fast slow) ≠ .hold) :
    slow < fast ∧ slow < other ∨ fast < slow ∧ other < slow := by
  rw [direction_spreadPercent fastFinite slowFinite positive] at same trades
  rw [direction_spreadPercent otherFinite slowFinite positive] at same
  split at trades
  · rename_i above
    rw [if_pos above] at same
    split at same
    · exact Or.inl ⟨above, ‹slow < other›⟩
    · split at same <;> cases same
  · rename_i notAbove
    split at trades
    · rename_i below
      rw [if_neg notAbove, if_pos below] at same
      split at same
      · cases same
      · split at same
        · exact Or.inr ⟨below, ‹other < slow›⟩
        · cases same
    · exact absurd rfl trades

/-- On one side of the slow average, what is further away is further away in percent. -/
theorem spreadPercent_abs_mono (sameSide : slow < fast ∧ slow < other ∨ fast < slow ∧ other < slow)
    (apart : (fast - slow).abs ≤ (other - slow).abs) :
    (spreadPercent fast slow).abs ≤ (spreadPercent other slow).abs := by
  have distance {x : Float} (finite : x.isFinite = true) := (rounds_sub finite slowFinite).defined
  have percent {x : Float} (finite : x.isFinite = true) := spreadPercent_defined finite slowFinite positive
  have grows {x y : Float} (le : x ≤ y) : linePlace (x / slow * 100.0) ≤ linePlace (y / slow * 100.0) :=
    (le_iff_linePlace.mp ((RoundsIncreasing.mul isFinite_hundred (by decide)).mono
      ((RoundsIncreasing.div slowFinite positive).mono le))).2.2
  have origin : linePlace (slow - slow) = 0 := (IsZero.sub_same slowFinite).place
  have zero : linePlace 0.0 = 0 := by decide
  rw [abs_le_abs_iff (distance fastFinite) (distance otherFinite)] at apart
  rw [abs_le_abs_iff (percent fastFinite) (percent otherFinite)]
  -- on its side of zero the size of a distance is the distance itself, but for the sign
  rcases sameSide with ⟨above, otherAbove⟩ | ⟨below, otherBelow⟩
  · have first := (le_iff_linePlace.mp (sub_mono slowFinite fastFinite slowFinite (double_le_of_lt above))).2.2
    have second := (le_iff_linePlace.mp (sub_mono slowFinite otherFinite slowFinite (double_le_of_lt otherAbove))).2.2
    have percents := grows (le_iff_linePlace.mpr
      ⟨distance fastFinite, distance otherFinite, (by omega : linePlace (fast - slow) ≤ linePlace (other - slow))⟩)
    have positiveSpread := (lt_iff_linePlace.mp (spreadPercent_of_lt fastFinite slowFinite positive above)).2.2
    simp only [spreadPercent] at positiveSpread ⊢
    omega
  · have first := (le_iff_linePlace.mp (sub_mono fastFinite slowFinite slowFinite (double_le_of_lt below))).2.2
    have second := (le_iff_linePlace.mp (sub_mono otherFinite slowFinite slowFinite (double_le_of_lt otherBelow))).2.2
    have percents := grows (le_iff_linePlace.mpr
      ⟨distance otherFinite, distance fastFinite, (by omega : linePlace (other - slow) ≤ linePlace (fast - slow))⟩)
    have negativeSpread := (lt_iff_linePlace.mp (spreadPercent_of_gt fastFinite slowFinite positive below)).2.2
    simp only [spreadPercent] at negativeSpread ⊢
    omega

end Averages

/-- What is measured by one saturation makes for more confidence the further it is from zero. -/
theorem confidence_mono {d : Direction} {distance further saturation : Float} (finite : saturation.isFinite = true)
    (positive : 0.0 < saturation) (le : distance.abs ≤ further.abs) :
    confidence d distance saturation ≤ confidence d further saturation := by
  unfold confidence
  split
  · exact smaller_one_mono ((RoundsIncreasing.div finite positive).mono le)
  · decide

/-- In the second market the averages are at least as far apart, around the same slow one. -/
def FurtherApart (s : TrendFollowing) (weak strong : Snapshot) : Prop :=
  ∃ slow fast other,
    weak.latestFinite (s.average.indicator s.slow).name = .ok slow ∧
      strong.latestFinite (s.average.indicator s.slow).name = .ok slow ∧
      weak.latestFinite (s.average.indicator s.fast).name = .ok fast ∧
      strong.latestFinite (s.average.indicator s.fast).name = .ok other ∧
      (fast - slow).abs ≤ (other - slow).abs

theorem confidence_le_of_furtherApart {rule : TrendFollowing} {weak strong : Snapshot} {p : Parameters} {s t : Signal}
    (weakly : rule.evaluate weak p = .ok s) (strongly : rule.evaluate strong p = .ok t)
    (same : s.direction = t.direction) (trades : s.direction ≠ .hold) (further : rule.FurtherApart weak strong) :
    s.confidence ≤ t.confidence := by
  obtain ⟨slow, fast, other, slowRead, slowReadToo, fastRead, otherRead, apart⟩ := further
  obtain ⟨time, ready, saturation, read, gated⟩ := evaluate_eq_ok.mp weakly
  obtain ⟨timeToo, -, saturationToo, readToo, gatedToo⟩ := evaluate_eq_ok.mp strongly
  obtain ⟨gate, fast', fastRead', slow', slowRead', above, rfl⟩ := gated.proposed trades
  obtain ⟨gateToo, other', otherRead', slow'', slowRead'', -, rfl⟩ := gatedToo.proposed (same ▸ trades)
  cases readToo.symm.trans read
  cases fastRead'.symm.trans fastRead
  cases otherRead'.symm.trans otherRead
  cases slowRead'.symm.trans slowRead
  cases slowRead''.symm.trans slowReadToo
  have slowFinite := Snapshot.isFinite_of_finiteBack slowRead
  have fastFinite := Snapshot.isFinite_of_finiteBack fastRead
  have otherFinite := Snapshot.isFinite_of_finiteBack otherRead
  have positive := double_lt_of_not_le (by decide) (isNaN_eq_false slowFinite) above
  obtain ⟨finite, saturates⟩ := Parameters.positive_bounds (preflight_eq_ok.mp ready).1 (by decide) read
  change direction (spreadPercent fast slow) = direction (spreadPercent other slow) at same
  have percents := spreadPercent_abs_mono fastFinite otherFinite slowFinite positive
    (sameSide_of_direction fastFinite otherFinite slowFinite positive same trades) apart
  change clampUnit (confidence _ (spreadPercent fast slow) saturation) ≤
    clampUnit (confidence _ (spreadPercent other slow) saturation)
  rw [same]
  exact clampUnit_mono (confidence_mono finite saturates percents)

end TrendFollowing

namespace MeanReversion

/-- The other reading of the oscillator is at least as far out in the direction. -/
def Further (d : Direction) (rsi other : Float) : Prop :=
  match d with
  | .buy => other ≤ rsi
  | .sell => rsi ≤ other
  | .hold => True

/-- In the second market the oscillator is at least as far past the bound of the direction. -/
def FurtherPast (s : MeanReversion) (d : Direction) (weak strong : Snapshot) : Prop :=
  ∃ rsi other,
    weak.latestFinite (Indicator.rsi s.rsi).name = .ok rsi ∧
      strong.latestFinite (Indicator.rsi s.rsi).name = .ok other ∧ Further d rsi other

section Oscillator

variable {close upper lower rsi oversold overbought : Float} {close' upper' lower' other : Float}

theorem proposal_buy (buys : (proposal close upper lower rsi oversold overbought).1 = .buy) :
    (proposal close upper lower rsi oversold overbought).2 = 0.5 + (oversold - rsi) / oversold := by
  unfold proposal at buys ⊢
  split at buys
  · rename_i below
    rw [if_pos below]
  · split at buys <;> cases buys

theorem proposal_sell (sells : (proposal close upper lower rsi oversold overbought).1 = .sell) :
    (proposal close upper lower rsi oversold overbought).2 = 0.5 + (rsi - overbought) / (100.0 - overbought) := by
  unfold proposal at sells ⊢
  split at sells
  · cases sells
  · rename_i notBelow
    split at sells
    · rename_i above
      rw [if_neg notBelow, if_pos above]
    · cases sells

/-- For one direction only the oscillator counts, and it counts more the further out it is. -/
theorem proposal_mono (low : 0.0 < oversold) (apart : oversold < overbought) (high : overbought < 100.0)
    (rsiFinite : rsi.isFinite = true) (otherFinite : other.isFinite = true)
    (same : (proposal close upper lower rsi oversold overbought).1 =
      (proposal close' upper' lower' other oversold overbought).1)
    (trades : (proposal close upper lower rsi oversold overbought).1 ≠ .hold)
    (further : Further (proposal close upper lower rsi oversold overbought).1 rsi other) :
    (proposal close upper lower rsi oversold overbought).2 ≤
      (proposal close' upper' lower' other oversold overbought).2 := by
  have nonneg := double_le_trans (double_le_of_lt low) (double_le_of_lt apart)
  have overboughtFinite := isFinite_of_le isFinite_hundred nonneg (double_le_of_lt high)
  have oversoldFinite := isFinite_of_le overboughtFinite (double_le_of_lt low) (double_le_of_lt apart)
  have halfway {x y : Float} (le : x ≤ y) : 0.5 + x ≤ 0.5 + y := (RoundsIncreasing.add_left (by decide)).mono le
  cases direction : (proposal close upper lower rsi oversold overbought).1 with
  | buy =>
    rw [direction] at further
    rw [proposal_buy direction, proposal_buy (same.symm.trans direction)]
    have distances := sub_anti otherFinite rsiFinite oversoldFinite further
    exact halfway ((RoundsIncreasing.div oversoldFinite low).mono distances)
  | sell =>
    rw [direction] at further
    rw [proposal_sell direction, proposal_sell (same.symm.trans direction)]
    have room := sub_pos_double isFinite_hundred overboughtFinite (by decide) high
    have roomFinite := sub_isFinite isFinite_hundred overboughtFinite nonneg (double_le_of_lt high)
    have distances := sub_mono rsiFinite otherFinite overboughtFinite further
    exact halfway ((RoundsIncreasing.div roomFinite room).mono distances)
  | hold => exact absurd direction trades

end Oscillator

theorem confidence_le_of_furtherPast {rule : MeanReversion} {weak strong : Snapshot} {p : Parameters} {s t : Signal}
    (weakly : rule.evaluate weak p = .ok s) (strongly : rule.evaluate strong p = .ok t)
    (same : s.direction = t.direction) (trades : s.direction ≠ .hold)
    (further : rule.FurtherPast s.direction weak strong) : s.confidence ≤ t.confidence := by
  obtain ⟨rsi, other, rsiRead, otherRead, past⟩ := further
  obtain ⟨time, -, bounds, read, gated⟩ := evaluate_eq_ok.mp weakly
  obtain ⟨timeToo, -, boundsToo, readToo, gatedToo⟩ := evaluate_eq_ok.mp strongly
  obtain ⟨gate, close, -, upper, -, lower, -, rsi', rsiRead', rfl⟩ := gated.proposed trades
  obtain ⟨gateToo, close', -, upper', -, lower', -, other', otherRead', rfl⟩ := gatedToo.proposed (same ▸ trades)
  cases readToo.symm.trans read
  cases rsiRead'.symm.trans rsiRead
  cases otherRead'.symm.trans otherRead
  obtain ⟨low, apart, high⟩ := bounds_inside read
  change clampUnit (Scalar.smaller (proposal close upper lower rsi bounds.1 bounds.2).2 1.0) ≤
    clampUnit (Scalar.smaller (proposal close' upper' lower' other bounds.1 bounds.2).2 1.0)
  refine clampUnit_mono (smaller_one_mono ?_)
  exact proposal_mono low apart high (Snapshot.isFinite_of_finiteBack rsiRead)
    (Snapshot.isFinite_of_finiteBack otherRead) same trades past

end MeanReversion

namespace Breakout

/-- By how much the last close of a market is outside of the channel. -/
def excess (s : Breakout) (market : Snapshot) : Except Fault Float := do
  let close ← market.latestClose
  let upper ← market.previousFinite (Indicator.donchian .upper s.period).name
  let lower ← market.previousFinite (Indicator.donchian .lower s.period).name
  return (escape close upper lower).2

/-- In the second market the close is at least as far outside, at an equal volatility. -/
def FurtherOut (s : Breakout) (weak strong : Snapshot) : Prop :=
  ∃ excess other volatility volatilityToo,
    s.excess weak = .ok excess ∧ s.excess strong = .ok other ∧ excess ≤ other ∧
      weak.latestFinite (Indicator.atr s.atr).name = .ok volatility ∧
      strong.latestFinite (Indicator.atr s.atr).name = .ok volatilityToo ∧
      volatility ≤ volatilityToo ∧ volatilityToo ≤ volatility

theorem confidence_mono {d : Direction} {excess other volatility volatilityToo : Float} (le : excess ≤ other)
    (finite : volatility.isFinite = true) (above : volatility ≤ volatilityToo) (below : volatilityToo ≤ volatility) :
    confidence d excess volatility ≤ confidence d other volatilityToo := by
  unfold confidence
  split
  · decide
  split
  · rename_i positive
    -- away from zero only one double has the value of the volatility
    have same : volatilityToo = volatility := by
      have order := (le_iff_linePlace.mp above).2.2
      have back := (le_iff_linePlace.mp below).2.2
      have away : linePlace 0.0 < linePlace volatility := (lt_iff_linePlace.mp positive).2.2
      have zero : linePlace 0.0 = 0 := by decide
      exact eq_of_linePlace (by omega) (by omega)
    rw [same, if_pos positive]
    have halves := (RoundsIncreasing.mul_left (z := 0.5) (by decide) (by decide)).mono le
    have quotients := (RoundsIncreasing.div finite positive).mono halves
    exact smaller_one_mono ((RoundsIncreasing.add_left (by decide)).mono quotients)
  · rename_i notPositive
    rw [if_neg (double_not_lt_of_le (double_le_trans below (double_le_of_not_lt (by decide) (isNaN_eq_false finite)
      notPositive)))]
    decide

theorem confidence_le_of_furtherOut {rule : Breakout} {weak strong : Snapshot} {p : Parameters} {s t : Signal}
    (weakly : rule.evaluate weak p = .ok s) (strongly : rule.evaluate strong p = .ok t)
    (same : s.direction = t.direction) (trades : s.direction ≠ .hold) (further : rule.FurtherOut weak strong) :
    s.confidence ≤ t.confidence := by
  obtain ⟨excess, other, volatility, volatilityToo, left, leftToo, le, read, readToo, above, below⟩ := further
  obtain ⟨time, -, gated⟩ := evaluate_eq_ok.mp weakly
  obtain ⟨timeToo, -, gatedToo⟩ := evaluate_eq_ok.mp strongly
  obtain ⟨gate, close, closeRead, upper, upperRead, lower, lowerRead, volatility', read', rfl⟩ := gated.proposed trades
  obtain ⟨gateToo, close', closeRead', upper', upperRead', lower', lowerRead', volatilityToo', readToo', rfl⟩ :=
    gatedToo.proposed (same ▸ trades)
  cases read'.symm.trans read
  cases readToo'.symm.trans readToo
  rw [Breakout.excess, closeRead, upperRead, lowerRead] at left
  rw [Breakout.excess, closeRead', upperRead', lowerRead'] at leftToo
  cases left
  cases leftToo
  change (escape close upper lower).1 = (escape close' upper' lower').1 at same
  change clampUnit (confidence (escape close upper lower).1 (escape close upper lower).2 volatility) ≤
    clampUnit (confidence (escape close' upper' lower').1 (escape close' upper' lower').2 volatilityToo)
  rw [same]
  exact clampUnit_mono (confidence_mono le (Snapshot.isFinite_of_finiteBack read) above below)

end Breakout

namespace SpreadReversion

/-- In the second market the spread is at least as far from its mean. -/
def FurtherOut (s : SpreadReversion) (weak strong : Snapshot) : Prop :=
  ∃ zscore other,
    weak.latestFinite s.zscoreKey = .ok zscore ∧ strong.latestFinite s.zscoreKey = .ok other ∧
      zscore.abs ≤ other.abs

theorem confidence_le_of_furtherOut {rule : SpreadReversion} {weak strong : Snapshot} {p : Parameters} {s t : Signal}
    (weakly : rule.evaluate weak p = .ok s) (strongly : rule.evaluate strong p = .ok t)
    (same : s.direction = t.direction) (further : rule.FurtherOut weak strong) :
    s.confidence ≤ t.confidence := by
  obtain ⟨zscore, other, zscoreRead, otherRead, le⟩ := further
  obtain ⟨time, ready, entry, entryRead, saturation, read, -, zscore', zscoreRead', rfl⟩ := evaluate_eq_ok.mp weakly
  obtain ⟨timeToo, -, entryToo, entryReadToo, saturationToo, readToo, -, other', otherRead', rfl⟩ :=
    evaluate_eq_ok.mp strongly
  cases entryReadToo.symm.trans entryRead
  cases readToo.symm.trans read
  cases zscoreRead'.symm.trans zscoreRead
  cases otherRead'.symm.trans otherRead
  obtain ⟨finite, positive⟩ := Parameters.positive_bounds (preflight_eq_ok.mp ready).1 (by decide) read
  change direction zscore entry = direction other entry at same
  change clampUnit (confidence (direction zscore entry) zscore saturation) ≤
    clampUnit (confidence (direction other entry) other saturation)
  rw [same]
  -- the z-score is measured like the distance of two averages
  exact clampUnit_mono (TrendFollowing.confidence_mono finite positive le)

end SpreadReversion

namespace TradingRule

/-- In the second market there is at least as much evidence for a direction. -/
def Stronger (rule : TradingRule) (d : Direction) (weak strong : Snapshot) : Prop :=
  match rule with
  | trendFollowing rule => rule.FurtherApart weak strong
  | meanReversion rule => rule.FurtherPast d weak strong
  | breakout rule => rule.FurtherOut weak strong
  | spreadReversion rule => rule.FurtherOut weak strong

end TradingRule

/-- Stronger evidence for the same direction never makes for less confidence, however the doubles round or
overflow. -/
theorem StrategyKind.confidence_le_of_stronger {kind : StrategyKind} {strategy : Strategy} {rule : TradingRule}
    {weak strong : Snapshot} {p : Parameters} {s t : Signal} (created : kind.create = .ok strategy)
    (accepted : kind.rule = .ok rule) (weakly : strategy.evaluate weak p = .ok s)
    (strongly : strategy.evaluate strong p = .ok t) (same : s.direction = t.direction)
    (trades : s.direction ≠ .hold) (stronger : rule.Stronger s.direction weak strong) :
    s.confidence ≤ t.confidence := by
  obtain ⟨_, acceptedToo, rfl⟩ := create_eq_ok.mp created
  cases acceptedToo.symm.trans accepted
  cases rule with
  | trendFollowing rule => exact TrendFollowing.confidence_le_of_furtherApart weakly strongly same trades stronger
  | meanReversion rule => exact MeanReversion.confidence_le_of_furtherPast weakly strongly same trades stronger
  | breakout rule => exact Breakout.confidence_le_of_furtherOut weakly strongly same trades stronger
  | spreadReversion rule => exact SpreadReversion.confidence_le_of_furtherOut weakly strongly same stronger

/-- The surging market with a higher last close. -/
def soaringMarket : Snapshot :=
  { surgingMarket with bars := surgingBars.dropLast ++ [⟨⟨10800, 0⟩, 10.0, 30.0, 9.0, 25.0, 5.0⟩] }

theorem checkVolatility_congr {market other : Snapshot} (same : market.indicators = other.indicators) (key : String)
    (p : Parameters) : checkVolatility market key p = checkVolatility other key p := by
  rw [checkVolatility, same, ← checkVolatility]

/-- What the series of the surging market give a rule to read. -/
theorem surgingSeries_reads (market : Snapshot) (carried : market.indicators = surgingSeries) :
    checkVolatility market (Indicator.atr 1).name anyVolatility = .ok ⟨true, 2.0, 21.0, 21.0⟩ ∧
      market.previousFinite (Indicator.donchian .upper 2).name = .ok 12.0 ∧
      market.previousFinite (Indicator.donchian .lower 2).name = .ok 9.0 ∧
      market.latestFinite (Indicator.atr 1).name = .ok 21.0 := by
  have same : market.indicators = surgingMarket.indicators := carried
  refine ⟨(checkVolatility_congr same ..).trans surgingMarket_gate, ?_, ?_, ?_⟩
  · exact Snapshot.finiteBack_eq_ok.mpr
      ⟨(Indicator.donchian .upper 2).series surgingBars, carried ▸ rfl, by decide, by decide⟩
  · exact Snapshot.finiteBack_eq_ok.mpr
      ⟨(Indicator.donchian .lower 2).series surgingBars, carried ▸ rfl, by decide, by decide⟩
  · exact Snapshot.finiteBack_eq_ok.mpr
      ⟨(Indicator.atr 1).series surgingBars, carried ▸ rfl, by decide +kernel, by decide⟩

theorem soaringMarket_close : soaringMarket.latestClose = .ok 25.0 :=
  Snapshot.latestClose_eq_ok.mpr ⟨_, rfl, by decide, rfl⟩

theorem surgingMarket_close : surgingMarket.latestClose = .ok 13.0 :=
  Snapshot.latestClose_eq_ok.mpr ⟨_, rfl, by decide, rfl⟩

theorem soaringMarket_answers :
    shortBreakout.strategy.evaluate soaringMarket anyVolatility =
      .ok (shortBreakout.answer "BTC/USDC" ⟨10800, 0⟩ 25.0 12.0 9.0 21.0) := by
  have ready : preflight "breakout" shortBreakout.required soaringMarket anyVolatility = .ok ⟨10800, 0⟩ :=
    preflight_eq_ok.mpr ⟨rfl, rfl, rfl⟩
  obtain ⟨gate, upper, lower, volatility⟩ := surgingSeries_reads soaringMarket rfl
  exact Breakout.evaluate_eq_ok.mpr ⟨_, ready, _, gate, Or.inr ⟨rfl, 25.0, soaringMarket_close, 12.0, upper, 9.0,
    lower, 21.0, volatility, rfl⟩⟩

/-- A close further above the same channel does not make a breakout less certain. -/
theorem soaringMarket_stronger :
    (StrategyKind.breakout 2 1 none).create = .ok shortBreakout.strategy ∧
      (StrategyKind.breakout 2 1 none).rule = .ok (.breakout shortBreakout) ∧
      (TradingRule.breakout shortBreakout).Stronger .buy surgingMarket soaringMarket ∧
      ∃ answer, shortBreakout.strategy.evaluate soaringMarket anyVolatility = .ok answer ∧
        surgingAnswer.direction = .buy ∧ answer.direction = .buy ∧
        surgingAnswer.confidence ≤ answer.confidence := by
  have created : (StrategyKind.breakout 2 1 none).create = .ok shortBreakout.strategy := rfl
  have stronger : (TradingRule.breakout shortBreakout).Stronger .buy surgingMarket soaringMarket := by
    obtain ⟨-, upper, lower, volatility⟩ := surgingSeries_reads surgingMarket rfl
    obtain ⟨-, upperToo, lowerToo, volatilityToo⟩ := surgingSeries_reads soaringMarket rfl
    refine ⟨1.0, 13.0, 21.0, 21.0, ?_, ?_, by decide, volatility, volatilityToo, by decide, by decide⟩
    · exact bind_eq_ok.mpr ⟨_, surgingMarket_close, bind_eq_ok.mpr ⟨_, upper, bind_eq_ok.mpr
        ⟨_, lower, congrArg Except.ok (by decide)⟩⟩⟩
    · exact bind_eq_ok.mpr ⟨_, soaringMarket_close, bind_eq_ok.mpr ⟨_, upperToo, bind_eq_ok.mpr
        ⟨_, lowerToo, congrArg Except.ok (by decide)⟩⟩⟩
  have buys : surgingAnswer.direction = .buy := by decide
  have buysToo : (shortBreakout.answer "BTC/USDC" ⟨10800, 0⟩ 25.0 12.0 9.0 21.0).direction = .buy := by decide
  exact ⟨created, rfl, stronger, _, soaringMarket_answers, buys, buysToo,
    StrategyKind.confidence_le_of_stronger created rfl surgingMarket_answers soaringMarket_answers
      (buys.trans buysToo.symm) (buys ▸ nofun) (buys ▸ stronger)⟩

end SignalDesk
