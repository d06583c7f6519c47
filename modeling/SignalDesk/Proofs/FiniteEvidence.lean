import SignalDesk.Proofs.FiniteThresholds
import SignalDesk.Proofs.MonotoneDoubles
import SignalDesk.Proofs.Reckoning
import SignalDesk.Proofs.VolatilityVeto

namespace SignalDesk

/-- A rationale of finite numbers and the text of the veto, but where a number may have been lost. -/
def Signal.Evidenced (s : Signal) (lost : String → Prop) : Prop :=
  ∀ key value, s.rationale.get? key = some value →
    value = .text volatilityFilterFailed ∨ (∃ x : Float, x.isFinite = true ∧ value = .float x) ∨
      value = .null ∧ lost key

namespace Signal.Evidenced

variable {s : Signal} {lost : String → Prop} {key : String}

theorem make {name symbol : String} {direction : Direction} {confidence : Float} {time : Instant} :
    (Signal.make name symbol direction confidence time).Evidenced lost := nofun

theorem veto (evidenced : s.Evidenced lost) : (s.because key (.text volatilityFilterFailed)).Evidenced lost := by
  intro other value entry
  rw [because_get?] at entry
  split at entry
  · cases entry
    exact Or.inl rfl
  · exact evidenced other value entry

theorem number (evidenced : s.Evidenced lost) {x : Float} (infinite : x.isFinite = false → lost key) :
    (s.because key (.float x)).Evidenced lost := by
  intro other value entry
  rw [because_get?] at entry
  split at entry
  · rename_i same
    subst same
    cases entry
    right
    cases finite : x.isFinite with
    | true => exact Or.inl ⟨x, finite, if_pos finite⟩
    | false => exact Or.inr ⟨if_neg (by rw [finite]; exact Bool.false_ne_true), infinite finite⟩
  · exact evidenced other value entry

theorem finite (evidenced : s.Evidenced lost) {x : Float} (finite : x.isFinite = true) :
    (s.because key (.float x)).Evidenced lost :=
  evidenced.number fun infinite => absurd (finite.symm.trans infinite) nofun

end Signal.Evidenced

/-- Where a rule loses a number of its rationale. -/
inductive TradingRule.Loses (market : Snapshot) : TradingRule → String → Prop
  /-- The averages are too far apart for their distance in percent. -/
  | spread {rule : TrendFollowing} {fast slow : Float} :
      market.latestFinite (rule.average.indicator rule.fast).name = .ok fast →
        market.latestFinite (rule.average.indicator rule.slow).name = .ok slow →
          (TrendFollowing.spreadPercent fast slow).isFinite = false → Loses market (.trendFollowing rule) "spread_pct"
  /-- The last bar is sane for all its infinite close. -/
  | bandClose {rule : MeanReversion} :
      market.latestClose = .ok (endOfLine .positive) → Loses market (.meanReversion rule) "close"
  | channelClose {rule : Breakout} :
      market.latestClose = .ok (endOfLine .positive) → Loses market (.breakout rule) "close"
  /-- The close is too far above the channel. -/
  | excess {rule : Breakout} {close upper : Float} : market.latestClose = .ok close →
      market.previousFinite (Indicator.donchian .upper rule.period).name = .ok upper → upper < close →
        (close - upper).isFinite = false → Loses market (.breakout rule) "excess"
  /-- More volatilities than there are words to count them. -/
  | threshold {rule : TradingRule} {watched : String} {series : List Float} {key : String} :
      rule.gateKey? = some watched → market.indicators.get? watched = some series → 2 ^ 64 ≤ series.length →
        key ∈ ["volatility_min_threshold", "volatility_max_threshold"] → Loses market rule key

/-- The gate tests a finite number, and an infinite threshold comes of a series without end only. -/
theorem checkVolatility_isFinite {market : Snapshot} {watched : String} {p : Parameters} {gate : GateResult}
    (checked : checkVolatility market watched p = .ok gate) :
    gate.testedValue.isFinite = true ∧
      (gate.minThreshold.isFinite = false ∨ gate.maxThreshold.isFinite = false →
        ∃ series, market.indicators.get? watched = some series ∧ 2 ^ 64 ≤ series.length) := by
  obtain ⟨low, high, series, lookback, -, found, -, decided⟩ := checkVolatility_eq_ok.mp checked
  refine ⟨(volatilityGate_eq_ok.mp decided).2.2.1, fun infinite => ⟨series, found, not_lt.mp fun short => ?_⟩⟩
  have window := (trailing_suffix lookback series).length_le
  obtain ⟨-, low, high⟩ := volatilityGate_isFinite (window.trans_lt short) decided
  rcases infinite with lowInfinite | highInfinite
  · exact absurd (low.symm.trans lowInfinite) nofun
  · exact absurd (high.symm.trans highInfinite) nofun

/-- The veto loses no more than its thresholds, so what is proposed behind the gate decides. -/
theorem Gated.evidenced {rule : TradingRule} {name watched : String} {market : Snapshot} {p : Parameters}
    {time : Instant} {proposes : GateResult → Signal → Prop} {s : Signal}
    (gated : Gated name watched market p time proposes s) (watches : rule.gateKey? = some watched)
    (proposed : ∀ gate, gate.testedValue.isFinite = true → proposes gate s → s.Evidenced (rule.Loses market)) :
    s.Evidenced (rule.Loses market) := by
  obtain ⟨gate, checked, ⟨-, rfl⟩ | ⟨-, answer⟩⟩ := gated
  · obtain ⟨tested, endless⟩ := checkVolatility_isFinite checked
    refine .number (.number (.finite (.veto .make) tested) fun infinite => ?_) fun infinite => ?_
    · obtain ⟨series, found, long⟩ := endless (Or.inl infinite)
      exact .threshold watches found long (by decide)
    · obtain ⟨series, found, long⟩ := endless (Or.inr infinite)
      exact .threshold watches found long (by decide)
  · exact proposed gate (checkVolatility_isFinite checked).1 answer

/-- A close that is not finite is infinite upwards. -/
theorem Snapshot.latestClose_infinite {market : Snapshot} {close : Float} (read : market.latestClose = .ok close)
    (infinite : close.isFinite = false) : market.latestClose = .ok (endOfLine .positive) := by
  rcases finite_or_endOfLine_of_nonneg (double_le_of_lt (latestClose_positive read)) with finite | rfl
  · exact absurd (finite.symm.trans infinite) nofun
  · exact read

/-- Only above a channel the distance can overflow. -/
theorem Breakout.escape_infinite {close upper lower : Float} (positive : 0.0 < close)
    (lowerFinite : lower.isFinite = true) (infinite : (escape close upper lower).2.isFinite = false) :
    upper < close ∧ (close - upper).isFinite = false := by
  unfold escape at infinite
  split at infinite
  · exact ⟨‹close > upper›, infinite⟩
  split at infinite
  · have below := double_le_of_lt ‹close < lower›
    have closeFinite := isFinite_of_le lowerFinite (double_le_of_lt positive) below
    have finite := sub_isFinite lowerFinite closeFinite (double_le_of_lt positive) below
    exact absurd (finite.symm.trans infinite) nofun
  · exact absurd infinite (by decide)

open Snapshot in
/-- What a rule answers rests on finite numbers, but for those that it loses. -/
theorem TradingRule.evidenced {rule : TradingRule} {market : Snapshot} {p : Parameters} {s : Signal}
    (evaluated : rule.strategy.evaluate market p = .ok s) : s.Evidenced (rule.Loses market) := by
  cases rule with
  | trendFollowing rule =>
    obtain ⟨time, -, saturation, -, gated⟩ := TrendFollowing.evaluate_eq_ok.mp evaluated
    refine gated.evidenced rfl ?_
    rintro gate tested ⟨fast, fastRead, slow, slowRead, -, rfl⟩
    refine .finite (.number (.finite (.finite .make ?_) ?_) fun infinite => ?_) tested
    · exact isFinite_of_finiteBack fastRead
    · exact isFinite_of_finiteBack slowRead
    · exact .spread fastRead slowRead infinite
  | meanReversion rule =>
    obtain ⟨time, -, bounds, -, gated⟩ := MeanReversion.evaluate_eq_ok.mp evaluated
    refine gated.evidenced rfl ?_
    rintro gate tested ⟨close, closeRead, upper, upperRead, lower, lowerRead, rsi, rsiRead, rfl⟩
    refine .finite (.finite (.finite (.finite (.number .make fun infinite => ?_) ?_) ?_) ?_) tested
    · exact .bandClose (latestClose_infinite closeRead infinite)
    · exact isFinite_of_finiteBack upperRead
    · exact isFinite_of_finiteBack lowerRead
    · exact isFinite_of_finiteBack rsiRead
  | breakout rule =>
    obtain ⟨time, -, gated⟩ := Breakout.evaluate_eq_ok.mp evaluated
    refine gated.evidenced rfl ?_
    rintro gate - ⟨close, closeRead, upper, upperRead, lower, lowerRead, volatility, volatilityRead, rfl⟩
    have upperFinite := isFinite_of_finiteBack upperRead
    have lowerFinite := isFinite_of_finiteBack lowerRead
    refine .finite (.number (.finite (.number .make fun infinite => ?_) ?_) fun infinite => ?_) ?_
    · exact .channelClose (latestClose_infinite closeRead infinite)
    · split
      · exact lowerFinite
      · exact upperFinite
    · obtain ⟨above, lost⟩ := Breakout.escape_infinite (latestClose_positive closeRead) lowerFinite infinite
      exact .excess closeRead upperRead above lost
    · exact isFinite_of_finiteBack volatilityRead
  | spreadReversion rule =>
    obtain ⟨time, ready, entry, entryRead, saturation, -, -, zscore, zscoreRead, rfl⟩ :=
      SpreadReversion.evaluate_eq_ok.mp evaluated
    refine .finite (.finite .make ?_) ?_
    · exact isFinite_of_finiteBack zscoreRead
    · exact (Parameters.positive_bounds (preflight_eq_ok.mp ready).1 (by decide) entryRead).1

/-- Whatever a market and its series hold, the entries of a rationale are finite numbers and the text of the veto. Only
where a sane bar closes at infinity, or a distance of finite numbers overflows, there is none instead. -/
theorem StrategyKind.evaluate_evidenced {kind : StrategyKind} {strategy : Strategy} {market : Snapshot} {p : Parameters}
    {signal : Signal} (created : kind.create = .ok strategy) (evaluated : strategy.evaluate market p = .ok signal) :
    ∃ rule, kind.rule = .ok rule ∧ ∀ key value, signal.rationale.get? key = some value →
      value = .text volatilityFilterFailed ∨ (∃ x : Float, x.isFinite = true ∧ value = .float x) ∨
        value = .null ∧ rule.Loses market key := by
  obtain ⟨rule, accepted, rfl⟩ := create_eq_ok.mp created
  exact ⟨rule, accepted, TradingRule.evidenced evaluated⟩

theorem surgingMarket_evidenced :
    (StrategyKind.breakout 2 1 none).create = .ok shortBreakout.strategy ∧
      shortBreakout.strategy.evaluate surgingMarket anyVolatility = .ok surgingAnswer ∧
      surgingAnswer.rationale.get? "excess" = some (.float 1.0) ∧
      surgingAnswer.Evidenced ((TradingRule.breakout shortBreakout).Loses surgingMarket) := by
  have created : (StrategyKind.breakout 2 1 none).create = .ok shortBreakout.strategy := rfl
  obtain ⟨rule, accepted, evidenced⟩ := StrategyKind.evaluate_evidenced created surgingMarket_answers
  obtain rfl : .breakout shortBreakout = rule := Except.ok.inj accepted
  exact ⟨created, surgingMarket_answers, rfl, evidenced⟩

/-- A market whose last bar is infinitely high and closes there. -/
def boundlessMarket : Snapshot where
  symbol := "BTC/USDC"
  timeframe := .hour
  bars := [⟨⟨0, 0⟩, 10.0, 10.0, 10.0, 10.0, 5.0⟩, ⟨⟨3600, 0⟩, 10.0, 12.0, 9.0, 10.0, 5.0⟩,
    ⟨⟨7200, 0⟩, 10.0, 1.0 / 0.0, 9.0, 1.0 / 0.0, 5.0⟩]
  indicators := (∅ : SeriesCache)
    |>.insert "atr_1" [1.0, 2.0, 2.0]
    |>.insert "donchian_lower_2" [10.0, 9.0, 9.0]
    |>.insert "donchian_upper_2" [10.0, 12.0, 13.0]

theorem boundlessMarket_gate :
    checkVolatility boundlessMarket (Indicator.atr 1).name anyVolatility = .ok ⟨true, 1.0, 2.0, 2.0⟩ := by
  have peak : volatilityGate [1.0, 2.0, 2.0] 0.0 100.0 = .ok ⟨true, 1.0, 2.0, 2.0⟩ :=
    volatilityGate_peak rfl (by decide) (by decide) rfl rfl rfl
  exact checkVolatility_eq_ok.mpr ⟨0.0, 100.0, _, none, rfl, rfl, rfl, peak⟩

/-- An infinite close is bought with full confidence, and neither the close nor the excess is told. -/
theorem boundlessMarket_bought :
    (StrategyKind.breakout 2 1 none).create = .ok shortBreakout.strategy ∧
      ∃ signal, shortBreakout.strategy.evaluate boundlessMarket anyVolatility = .ok signal ∧
        signal.direction = .buy ∧ signal.confidence = 1.0 ∧ signal.rationale.get? "close" = some .null ∧
        signal.rationale.get? "excess" = some .null := by
  have ready : preflight "breakout" shortBreakout.required boundlessMarket anyVolatility = .ok ⟨7200, 0⟩ :=
    preflight_eq_ok.mpr ⟨rfl, rfl, rfl⟩
  have close : boundlessMarket.latestClose = .ok (1.0 / 0.0) :=
    Snapshot.latestClose_eq_ok.mpr ⟨_, rfl, by decide, rfl⟩
  have upper : boundlessMarket.previousFinite (Indicator.donchian .upper 2).name = .ok 12.0 :=
    Snapshot.finiteBack_eq_ok.mpr ⟨[10.0, 12.0, 13.0], rfl, rfl, by decide⟩
  have lower : boundlessMarket.previousFinite (Indicator.donchian .lower 2).name = .ok 9.0 :=
    Snapshot.finiteBack_eq_ok.mpr ⟨[10.0, 9.0, 9.0], rfl, rfl, by decide⟩
  have volatility : boundlessMarket.latestFinite (Indicator.atr 1).name = .ok 2.0 :=
    Snapshot.finiteBack_eq_ok.mpr ⟨[1.0, 2.0, 2.0], rfl, rfl, by decide⟩
  have evaluated := Breakout.evaluate_eq_ok.mpr ⟨_, ready, _, boundlessMarket_gate, Or.inr
    ⟨rfl, _, close, _, upper, _, lower, _, volatility, rfl⟩⟩
  exact ⟨rfl, _, evaluated, by decide, by decide +kernel, rfl, rfl⟩

end SignalDesk
