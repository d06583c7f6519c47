import SignalDesk.Proofs.CarriedSeries
import SignalDesk.Proofs.FlatSeries
import SignalDesk.Proofs.SpreadSign
import SignalDesk.Proofs.VolatilityMultiset
import SignalDesk.Proofs.VolatilityVeto

namespace SignalDesk

open Scalar

/-- A bar with one price. -/
structure Bar.StandsAt (price : Float) (bar : Bar Float) : Prop where
  opening : bar.opening = price
  high : bar.high = price
  low : bar.low = price
  closing : bar.closing = price

/-- What an average of equal prices comes to after some bars, as the doubles are added up, divided and blended. -/
def MovingAverage.ofEqual (average : MovingAverage) (period count : Nat) (price : Float) : Float :=
  let seed := mean (List.replicate period price)
  match average with
  | .simple => seed
  | .exponential => (blend (Scalar.ofNat 2 / (Scalar.ofNat period + Scalar.ofNat 1)) price)^[count - period] seed

/-- The band that a rule draws around equal prices. -/
def MeanReversion.bandOfEqual (rule : MeanReversion) (band : Band) (price : Float) : Float :=
  bollingerValue band rule.multiplier (List.replicate rule.period price)

/-- Rounding alone leads a rule to trade in a market that stands still. -/
def TradingRule.Drifts (p : Parameters) (count : Nat) (price : Float) : TradingRule → Prop
  | trendFollowing rule => rule.average.ofEqual rule.fast count price ≠ rule.average.ofEqual rule.slow count price
  | meanReversion rule => ∃ oversold overbought, rule.bounds p = .ok (oversold, overbought) ∧
      (price < rule.bandOfEqual .lower price ∧ 50.0 ≤ oversold ∨
        rule.bandOfEqual .upper price < price ∧ overbought ≤ 50.0)
  | breakout _ | spreadReversion _ => False

/-- The same of the strategies of a kind. -/
def StrategyKind.Drifts (kind : StrategyKind) (p : Parameters) (count : Nat) (price : Float) : Prop :=
  kind.describedRule.Drifts p count price

section Flat

variable {bars : List (Bar Float)} {price value : Float} (flat : ∀ bar ∈ bars, bar.StandsAt price)

include flat

theorem map_of_flat {part : Bar Float → Float} (stands : ∀ {bar}, bar.StandsAt price → part bar = price) :
    bars.map part = List.replicate bars.length price :=
  List.map_eq_replicate_iff.mpr fun bar member => stands (flat bar member)

theorem average_of_flat (average : MovingAverage) (period : Nat) (finitePrice : price.isFinite = true)
    (last : ((average.indicator period).series bars).getLast? = some value) (finite : value.isFinite = true) :
    value = average.ofEqual period bars.length price := by
  cases average with
  | simple =>
    change (rolling period mean (bars.map Bar.closing)).getLast? = _ at last
    rw [map_of_flat flat Bar.StandsAt.closing] at last
    exact (rolling_replicate (List.mem_of_getLast? last) finite).2
  | exponential =>
    change (ema period (bars.map Bar.closing)).getLast? = _ at last
    rw [map_of_flat flat Bar.StandsAt.closing] at last
    exact getLast?_smoothFromMean (isNaN_eq_false finitePrice) last finite

theorem band_of_flat {band : Band} {period : Nat} {multiplier : Float}
    (member : value ∈ (Indicator.bollinger band period multiplier).series bars) (finite : value.isFinite = true) :
    value = bollingerValue band multiplier (List.replicate period price) := by
  change value ∈ rolling period (bollingerValue band multiplier) (bars.map Bar.closing) at member
  rw [map_of_flat flat Bar.StandsAt.closing] at member
  exact (rolling_replicate member finite).2

theorem channel_of_flat {band : Band} {period : Nat} (finitePrice : price.isFinite = true)
    (member : value ∈ (Indicator.donchian band period).series bars) (finite : value.isFinite = true) :
    value = price := by
  obtain ⟨part, series, stands⟩ : ∃ part : Bar Float → Float,
      (Indicator.donchian band period).series bars = rolling period (donchianValue band) (bars.map part) ∧
        ∀ {bar}, bar.StandsAt price → part bar = price := by
    cases band with
    | upper => exact ⟨Bar.high, rfl, Bar.StandsAt.high⟩
    | lower => exact ⟨Bar.low, rfl, Bar.StandsAt.low⟩
  rw [series, map_of_flat flat stands] at member
  obtain ⟨positive, rfl⟩ := rolling_replicate member finite
  exact donchianValue_replicate band finitePrice positive

theorem strength_of_flat {period : Nat} (small : period < positionLimit) (finitePrice : price.isFinite = true)
    (member : value ∈ (Indicator.rsi period).series bars) (finite : value.isFinite = true) : value = 50.0 := by
  change value ∈ rsi period (bars.map Bar.closing) at member
  rw [map_of_flat flat Bar.StandsAt.closing] at member
  rw [rsi_replicate finitePrice small member finite]
  decide

end Flat

/-- Behind the gate what is proposed decides on the trade. -/
theorem Gated.trades_iff {name key : String} {market : Snapshot} {p : Parameters} {time : Instant}
    {proposes : GateResult → Signal → Prop} {signal : Signal} {reason : Prop}
    (gated : Gated name key market p time proposes signal)
    (plain : ∀ gate s, proposes gate s → s.Plain name market.symbol time)
    (decides : ∀ gate s, proposes gate s → (s.direction ≠ .hold ↔ reason)) :
    signal.direction ≠ .hold ↔ signal.isVetoed = false ∧ reason := by
  obtain ⟨gate, -, ⟨-, rfl⟩ | ⟨-, proposed⟩⟩ := gated
  · have vetoed := volatilityVeto_isVetoed name market.symbol time gate
    rw [vetoed]
    exact iff_of_false (fun trades => trades rfl) (fun refuted => nomatch refuted.1)
  · rw [decides gate signal proposed, (plain gate signal proposed).not_vetoed]
    exact (and_iff_right rfl).symm

theorem MeanReversion.proposal_trades_iff {close upper lower rsi oversold overbought : Float} :
    (proposal close upper lower rsi oversold overbought).1 ≠ .hold ↔
      close < lower ∧ rsi ≤ oversold ∨ upper < close ∧ overbought ≤ rsi := by
  simp only [proposal, Bool.and_eq_true, decide_eq_true_eq]
  split
  · rename_i below
    exact iff_of_true nofun (Or.inl below)
  split
  · rename_i above
    exact iff_of_true nofun (Or.inr above)
  · rename_i notBelow notAbove
    exact iff_of_false (fun trades => trades rfl) (not_or.mpr ⟨notBelow, notAbove⟩)

section FlatRules

variable {market : Snapshot} {p : Parameters} {price : Float} {signal : Signal}
  (flat : ∀ bar ∈ market.bars, bar.StandsAt price) (finitePrice : price.isFinite = true)

include flat finitePrice

/-- Averages that drift apart are all that a trend following rule trades on in a flat market. -/
theorem TrendFollowing.trades_iff_drifts {rule : TrendFollowing} (carries : market.Carries rule.indicators)
    (evaluated : rule.evaluate market p = .ok signal) :
    signal.direction ≠ .hold ↔
      signal.isVetoed = false ∧ (TradingRule.trendFollowing rule).Drifts p market.bars.length price := by
  obtain ⟨time, -, saturation, -, gated⟩ := evaluate_eq_ok.mp evaluated
  refine gated.trades_iff ?_ ?_
  · rintro gate s ⟨fast, -, slow, -, -, rfl⟩
    exact rule.answer_plain ..
  · rintro gate s ⟨fast, readFast, slow, readSlow, positive, rfl⟩
    obtain ⟨lastFast, fastFinite⟩ := carries.latest List.mem_cons_self readFast
    obtain ⟨lastSlow, slowFinite⟩ := carries.latest (List.mem_cons_of_mem _ List.mem_cons_self) readSlow
    have fastValue := average_of_flat flat rule.average rule.fast finitePrice lastFast fastFinite
    have slowValue := average_of_flat flat rule.average rule.slow finitePrice lastSlow slowFinite
    have above : 0.0 < slow := double_lt_of_not_le (by decide) (isNaN_eq_false slowFinite) positive
    change TrendFollowing.direction (spreadPercent fast slow) ≠ .hold ↔ _ ≠ _
    rw [direction_trades_iff fastFinite slowFinite above, fastValue, slowValue]

/-- A band that drifts off the price is all that a rule of reversion trades on in a flat market. -/
theorem MeanReversion.trades_iff_drifts {rule : MeanReversion} (carries : market.Carries rule.indicators)
    (small : rule.rsi < positionLimit) (evaluated : rule.evaluate market p = .ok signal) :
    signal.direction ≠ .hold ↔
      signal.isVetoed = false ∧ (TradingRule.meanReversion rule).Drifts p market.bars.length price := by
  obtain ⟨time, -, ⟨oversold, overbought⟩, bounds, gated⟩ := evaluate_eq_ok.mp evaluated
  refine gated.trades_iff ?_ ?_
  · rintro gate s ⟨close, -, upper, -, lower, -, rsi, -, rfl⟩
    exact rule.answer_plain ..
  · rintro gate s ⟨close, readClose, upper, readUpper, lower, readLower, rsi, readRsi, rfl⟩
    obtain ⟨bar, latest, -, rfl⟩ := Snapshot.latestClose_eq_ok.mp readClose
    obtain ⟨lastUpper, upperFinite⟩ := carries.latest (by simp [indicators]) readUpper
    obtain ⟨lastLower, lowerFinite⟩ := carries.latest (by simp [indicators]) readLower
    obtain ⟨lastRsi, rsiFinite⟩ := carries.latest (by simp [indicators]) readRsi
    have closeValue := (flat bar (List.mem_of_getLast? latest)).closing
    have upperValue := band_of_flat flat (List.mem_of_getLast? lastUpper) upperFinite
    have lowerValue := band_of_flat flat (List.mem_of_getLast? lastLower) lowerFinite
    have rsiValue := strength_of_flat flat small finitePrice (List.mem_of_getLast? lastRsi) rsiFinite
    change (proposal bar.closing upper lower rsi oversold overbought).1 ≠ .hold ↔ _
    rw [proposal_trades_iff, closeValue, upperValue, lowerValue, rsiValue]
    simp only [TradingRule.Drifts, bounds, Except.ok.injEq, Prod.mk.injEq]
    constructor
    · exact fun drift => ⟨oversold, overbought, ⟨rfl, rfl⟩, drift⟩
    · rintro ⟨_, _, ⟨rfl, rfl⟩, drift⟩
      exact drift

/-- The channel of a flat market is never left. -/
theorem Breakout.flat_hold {rule : Breakout} (carries : market.Carries rule.indicators)
    (evaluated : rule.evaluate market p = .ok signal) : signal.direction = .hold := by
  obtain ⟨time, -, gate, -, ⟨-, rfl⟩ | ⟨-, proposed⟩⟩ := evaluate_eq_ok.mp evaluated
  · rfl
  · obtain ⟨close, readClose, upper, readUpper, lower, readLower, volatility, -, rfl⟩ := proposed
    obtain ⟨bar, latest, -, rfl⟩ := Snapshot.latestClose_eq_ok.mp readClose
    obtain ⟨inUpper, upperFinite⟩ := carries.previous (by simp [indicators]) readUpper
    obtain ⟨inLower, lowerFinite⟩ := carries.previous (by simp [indicators]) readLower
    have closeValue := (flat bar (List.mem_of_getLast? latest)).closing
    have upperValue := channel_of_flat flat finitePrice inUpper upperFinite
    have lowerValue := channel_of_flat flat finitePrice inLower lowerFinite
    change (escape bar.closing upper lower).1 = .hold
    rw [closeValue, upperValue, lowerValue, escape, if_neg (not_lt_self price), if_neg (not_lt_self price)]

/-- Every rule over indicators of its own trades a flat market exactly where it drifts. -/
theorem TradingRule.trades_iff_drifts {rule : TradingRule} (own : ∀ spread, rule ≠ .spreadReversion spread)
    (sound : ∀ indicator ∈ rule.indicators, indicator.Sound) (carries : market.Carries rule.indicators)
    (evaluated : rule.strategy.evaluate market p = .ok signal) :
    signal.direction ≠ .hold ↔ signal.isVetoed = false ∧ rule.Drifts p market.bars.length price := by
  cases rule with
  | trendFollowing rule => exact rule.trades_iff_drifts flat finitePrice carries evaluated
  | meanReversion rule =>
    have oscillator := sound (.rsi rule.rsi) (by simp [indicators, MeanReversion.indicators])
    exact rule.trades_iff_drifts flat finitePrice carries oscillator.addressable evaluated
  | breakout rule =>
    have holds := Breakout.flat_hold flat finitePrice carries evaluated
    exact iff_of_false (fun trades => trades holds) And.right
  | spreadReversion rule => exact absurd rfl (own rule)

end FlatRules

/-- A flat market is traded exactly where rounding alone has moved an average or a band. -/
theorem StrategyKind.flat_trades_iff {kind : StrategyKind} {strategy : Strategy} {symbol : String}
    {timeframe : Timeframe} {bars : List (Bar Float)} {cache : SeriesCache} {p : Parameters} {price : Float}
    {signal : Signal} (created : kind.create = .ok strategy)
    (own : ∀ zscoreKey custom, kind ≠ .spreadReversion zscoreKey custom)
    (flat : ∀ bar ∈ bars, bar.StandsAt price) (finitePrice : price.isFinite = true)
    (computed : SeriesCache.compute bars kind.indicators = .ok cache)
    (evaluated : strategy.evaluate ⟨symbol, timeframe, bars, cache⟩ p = .ok signal) :
    signal.direction ≠ .hold ↔ signal.isVetoed = false ∧ kind.Drifts p bars.length price := by
  obtain ⟨rule, accepted, rfl⟩ := create_eq_ok.mp created
  have ownRule : ∀ spread, rule ≠ .spreadReversion spread := by
    rintro spread rfl
    have described := rule_eq_describedRule accepted
    cases kind with
    | spreadReversion zscoreKey custom => exact own zscoreKey custom rfl
    | _ => cases described
  have carries : Snapshot.Carries ⟨symbol, timeframe, bars, cache⟩ kind.indicators :=
    Snapshot.carries_of_compute computed
  rw [indicators_of_rule accepted] at carries
  rw [Drifts, ← rule_eq_describedRule accepted]
  exact TradingRule.trades_iff_drifts flat finitePrice ownRule (TradingRule.indicators_sound accepted) carries evaluated

/-- Three bars at a tenth. -/
def tenthBars : List (Bar Float) :=
  [0, 3600, 7200].map fun seconds => ⟨⟨seconds, 0⟩, 0.1, 0.1, 0.1, 0.1, 5.0⟩

theorem tenthBars_standAt : ∀ bar ∈ tenthBars, bar.StandsAt 0.1 := by
  simp only [tenthBars, List.forall_mem_map]
  exact fun _ _ => ⟨rfl, rfl, rfl, rfl⟩

/-- Compares the close with its mean over three bars. -/
def shortTrend : TrendFollowing := ⟨"trend_following", 1, 3, .simple, 1⟩

def shortTrendKind : StrategyKind := .trendFollowing 1 3 .simple 1 none

def tenthSeries : SeriesCache := (∅ : SeriesCache)
  |>.insert "atr_1" ((Indicator.atr 1).series tenthBars)
  |>.insert "sma_1" ((Indicator.sma 1).series tenthBars)
  |>.insert "sma_3" ((Indicator.sma 3).series tenthBars)

def tenthMarket : Snapshot := ⟨"BTC/USDC", .hour, tenthBars, tenthSeries⟩

def plainParameters : Parameters := ⟨"trend_following", ∅, true⟩

theorem tenthSeries_computed :
    SeriesCache.compute tenthBars shortTrendKind.indicators = .ok tenthSeries := rfl

theorem tenthMarket_gate :
    checkVolatility tenthMarket (Indicator.atr 1).name plainParameters = .ok ⟨true, 0.0, 0.0, 0.0⟩ := by
  have still : (Indicator.atr 1).series tenthBars = [0.0 / 0.0, 0.0, 0.0] := by decide
  have peak : volatilityGate [0.0 / 0.0, 0.0, 0.0] 0.0 100.0 = .ok ⟨true, 0.0, 0.0, 0.0⟩ :=
    volatilityGate_peak rfl (by decide) (by decide) rfl rfl rfl
  exact checkVolatility_eq_ok.mpr ⟨0.0, 100.0, _, none, rfl, still ▸ rfl, rfl, peak⟩

/-- The rounded sum of three tenths is more than three tenths. -/
theorem shortTrend_sells : ∃ signal, shortTrend.evaluate tenthMarket plainParameters = .ok signal ∧
    signal.direction = .sell ∧ signal.isVetoed = false := by
  refine ⟨shortTrend.answer "BTC/USDC" ⟨7200, 0⟩ 2.0 0.0 0.1 ((0.1 + 0.1 + 0.1) / 3.0), ?_, by decide, ?_⟩
  · have ready : preflight "trend_following" shortTrend.required tenthMarket plainParameters = .ok ⟨7200, 0⟩ :=
      preflight_eq_ok.mpr ⟨rfl, rfl, rfl⟩
    refine TrendFollowing.evaluate_eq_ok.mpr ⟨_, ready, 2.0, rfl, _, tenthMarket_gate, Or.inr ⟨rfl, ?_⟩⟩
    refine ⟨0.1, ?_, (0.1 + 0.1 + 0.1) / 3.0, ?_, by decide, rfl⟩
    · exact Snapshot.finiteBack_eq_ok.mpr ⟨(Indicator.sma 1).series tenthBars, rfl, by decide +kernel, by decide⟩
    · exact Snapshot.finiteBack_eq_ok.mpr ⟨(Indicator.sma 3).series tenthBars, rfl, by decide, by decide⟩
  · exact (shortTrend.answer_plain ..).not_vetoed

/-- Bars with one positive price are sold. -/
theorem tenthMarket_sold :
    shortTrendKind.create = .ok shortTrend.strategy ∧
      (∀ bar ∈ tenthBars, bar.StandsAt 0.1 ∧ 0.0 ≤ bar.volume) ∧ (0.1 : Float).isFinite = true ∧
      (0.0 : Float) < 0.1 ∧ SeriesCache.compute tenthBars shortTrendKind.indicators = .ok tenthSeries ∧
      ∃ signal, shortTrend.strategy.evaluate ⟨"BTC/USDC", .hour, tenthBars, tenthSeries⟩ plainParameters =
        .ok signal ∧ signal.direction ≠ .hold := by
  obtain ⟨signal, evaluated, sells, -⟩ := shortTrend_sells
  have volumes : ∀ bar ∈ tenthBars, (0.0 : Float) ≤ bar.volume := by decide
  have flat : ∀ bar ∈ tenthBars, bar.StandsAt 0.1 ∧ 0.0 ≤ bar.volume :=
    fun bar member => ⟨tenthBars_standAt bar member, volumes bar member⟩
  exact ⟨rfl, flat, by decide, by decide, tenthSeries_computed, signal, evaluated, by rw [sells]; decide⟩

theorem tenthMarket_trades_iff :
    shortTrendKind.create = .ok shortTrend.strategy ∧
      (∀ zscoreKey custom, shortTrendKind ≠ .spreadReversion zscoreKey custom) ∧
      (∀ bar ∈ tenthBars, bar.StandsAt 0.1) ∧ (0.1 : Float).isFinite = true ∧
      SeriesCache.compute tenthBars shortTrendKind.indicators = .ok tenthSeries ∧
      ∃ signal, shortTrend.strategy.evaluate ⟨"BTC/USDC", .hour, tenthBars, tenthSeries⟩ plainParameters =
        .ok signal ∧ (signal.direction ≠ .hold ↔
          signal.isVetoed = false ∧ shortTrendKind.Drifts plainParameters tenthBars.length 0.1) := by
  obtain ⟨signal, evaluated, -, -⟩ := shortTrend_sells
  have created : shortTrendKind.create = .ok shortTrend.strategy := rfl
  exact ⟨created, nofun, tenthBars_standAt, by decide, tenthSeries_computed, signal, evaluated,
    StrategyKind.flat_trades_iff created nofun tenthBars_standAt (by decide) tenthSeries_computed evaluated⟩

end SignalDesk
