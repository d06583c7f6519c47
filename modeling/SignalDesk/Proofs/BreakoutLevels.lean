import SignalDesk.Proofs.Reckoning

namespace SignalDesk

open Document

/-- What a rationale tells of a close beyond a level. -/
structure Signal.ReportsEscape (s : Signal) (close level excess : Float) : Prop where
  close : s.rationale.get? "close" = some (ofFloat close)
  level : s.rationale.get? "breakout_level" = some (ofFloat level)
  excess : s.rationale.get? "excess" = some (ofFloat excess)

namespace Breakout

variable {close upper lower : Float}

theorem escape_buy (buys : (escape close upper lower).1 = .buy) :
    upper < close ∧ (escape close upper lower).2 = close - upper := by
  unfold escape at buys ⊢
  split at buys
  · rename_i above
    rw [if_pos above]
    exact ⟨above, rfl⟩
  · split at buys <;> cases buys

theorem escape_sell (sells : (escape close upper lower).1 = .sell) :
    close < lower ∧ (escape close upper lower).2 = lower - close := by
  unfold escape at sells ⊢
  split at sells
  · cases sells
  · rename_i notAbove
    split at sells
    · rename_i below
      rw [if_neg notAbove, if_pos below]
      exact ⟨below, rfl⟩
    · cases sells

theorem answer_reports (s : Breakout) (symbol : String) (time : Instant) (close upper lower volatility : Float) :
    (s.answer symbol time close upper lower volatility).ReportsEscape close (if close < lower then lower else upper)
      (escape close upper lower).2 := by
  constructor <;> simp [answer, Document.canonical]

/-- A market whose last close is above the channel, and what is told of it. With the channel upside down the lower bound
is named although the upper one was broken through. -/
def BreaksUp (s : Breakout) (market : Snapshot) (signal : Signal) : Prop :=
  ∃ close upper lower, market.latestClose = .ok close ∧
    market.previousFinite (Indicator.donchian .upper s.period).name = .ok upper ∧
    market.previousFinite (Indicator.donchian .lower s.period).name = .ok lower ∧ upper < close ∧
    ∃ level, signal.ReportsEscape close level (close - upper) ∧
      (lower ≤ close → level = upper) ∧ (close < lower → level = lower ∧ upper < level)

/-- A market whose last close is below the channel, and what is told of it. -/
def BreaksDown (s : Breakout) (market : Snapshot) (signal : Signal) : Prop :=
  ∃ close lower, market.latestClose = .ok close ∧
    market.previousFinite (Indicator.donchian .lower s.period).name = .ok lower ∧ close < lower ∧
    signal.ReportsEscape close lower (lower - close)

theorem evaluate_breaks {s : Breakout} {market : Snapshot} {p : Parameters} {signal : Signal}
    (evaluated : s.evaluate market p = .ok signal) :
    (signal.direction = .buy → s.BreaksUp market signal) ∧ (signal.direction = .sell → s.BreaksDown market signal) := by
  obtain ⟨time, -, gated⟩ := evaluate_eq_ok.mp evaluated
  constructor
  · intro buys
    obtain ⟨gate, close, closeRead, upper, upperRead, lower, lowerRead, volatility, -, rfl⟩ :=
      gated.proposed (buys ▸ nofun)
    have reports := s.answer_reports market.symbol time close upper lower volatility
    obtain ⟨above, excess⟩ := escape_buy (show (escape close upper lower).1 = .buy from buys)
    rw [excess] at reports
    refine ⟨close, upper, lower, closeRead, upperRead, lowerRead, above, _, reports, fun within => ?_, fun below => ?_⟩
    · exact if_neg (double_not_lt_of_le within)
    · rw [if_pos below]
      obtain ⟨upperDefined, -, aboveUpper⟩ := lt_iff_linePlace.mp above
      obtain ⟨-, lowerDefined, belowLower⟩ := lt_iff_linePlace.mp below
      exact ⟨rfl, lt_iff_linePlace.mpr ⟨upperDefined, lowerDefined, aboveUpper.trans belowLower⟩⟩
  · intro sells
    obtain ⟨gate, close, closeRead, upper, -, lower, lowerRead, volatility, -, rfl⟩ :=
      gated.proposed (sells ▸ nofun)
    have reports := s.answer_reports market.symbol time close upper lower volatility
    obtain ⟨below, excess⟩ := escape_sell (show (escape close upper lower).1 = .sell from sells)
    rw [excess, if_pos below] at reports
    exact ⟨close, lower, closeRead, lowerRead, below, reports⟩

end Breakout

/-- Whenever a breakout trades, the close is out of the previous channel on the side of the direction, and the excess is
its distance to the bound on that side. This is the bound that is told of as the level, but for buying above a channel
whose lower bound lies above the close as well. -/
theorem StrategyKind.breakout_levels {period atr : UInt64} {custom : Option String} {strategy : Strategy}
    {market : Snapshot} {p : Parameters} {signal : Signal}
    (created : (StrategyKind.breakout period atr custom).create = .ok strategy)
    (evaluated : strategy.evaluate market p = .ok signal) :
    ∃ rule : Breakout, (StrategyKind.breakout period atr custom).rule = .ok (.breakout rule) ∧
      rule.period = period.toNat ∧
      (signal.direction = .buy → rule.BreaksUp market signal) ∧
      (signal.direction = .sell → rule.BreaksDown market signal) := by
  obtain ⟨rule, accepted, rfl⟩ := create_eq_ok.mp created
  obtain rfl := rule_eq_describedRule accepted
  exact ⟨_, accepted, rfl, Breakout.evaluate_breaks evaluated⟩

theorem surgingMarket_levels :
    (StrategyKind.breakout 2 1 none).create = .ok shortBreakout.strategy ∧
      shortBreakout.strategy.evaluate surgingMarket anyVolatility = .ok surgingAnswer ∧
      surgingAnswer.direction = .buy ∧ shortBreakout.BreaksUp surgingMarket surgingAnswer := by
  have created : (StrategyKind.breakout 2 1 none).create = .ok shortBreakout.strategy := rfl
  have buys : surgingAnswer.direction = .buy := by decide
  obtain ⟨rule, accepted, -, up, -⟩ := StrategyKind.breakout_levels created surgingMarket_answers
  obtain rfl : shortBreakout = rule := TradingRule.breakout.inj (Except.ok.inj accepted)
  exact ⟨created, surgingMarket_answers, buys, up buys⟩

/-- The bar before the last one has its low above its high. -/
def crossedBars : List (Bar Float) :=
  [⟨⟨0, 0⟩, 10.0, 10.0, 10.0, 10.0, 5.0⟩, ⟨⟨3600, 0⟩, 10.0, 11.0, 9.0, 10.0, 5.0⟩,
    ⟨⟨7200, 0⟩, 10.0, 5.0, 20.0, 10.0, 5.0⟩, ⟨⟨10800, 0⟩, 10.0, 30.0, 9.0, 10.0, 5.0⟩]

def shortestBreakout : Breakout := ⟨"breakout", 1, 1⟩

def crossedMarket : Snapshot where
  symbol := "BTC/USDC"
  timeframe := .hour
  bars := crossedBars
  indicators := (∅ : SeriesCache)
    |>.insert "atr_1" ((Indicator.atr 1).series crossedBars)
    |>.insert "donchian_lower_1" ((Indicator.donchian .lower 1).series crossedBars)
    |>.insert "donchian_upper_1" ((Indicator.donchian .upper 1).series crossedBars)

theorem crossedMarket_gate :
    checkVolatility crossedMarket (Indicator.atr 1).name anyVolatility = .ok ⟨true, 2.0, 21.0, 21.0⟩ := by
  have ranges : (Indicator.atr 1).series crossedBars = [0.0 / 0.0, 2.0, 10.0, 21.0] := by decide
  have peak : volatilityGate [0.0 / 0.0, 2.0, 10.0, 21.0] 0.0 100.0 = .ok ⟨true, 2.0, 21.0, 21.0⟩ :=
    volatilityGate_peak rfl (by decide) (by decide) rfl rfl rfl
  exact checkVolatility_eq_ok.mpr ⟨0.0, 100.0, _, none, rfl, ranges ▸ rfl, rfl, peak⟩

/-- A close above the upper bound of 5 is reported as one above the lower bound of 20. -/
theorem crossedMarket_level :
    (StrategyKind.breakout 1 1 none).create = .ok shortestBreakout.strategy ∧
      crossedMarket.latestClose = .ok 10.0 ∧
      crossedMarket.previousFinite (Indicator.donchian .upper 1).name = .ok 5.0 ∧
      ∃ signal, shortestBreakout.strategy.evaluate crossedMarket anyVolatility = .ok signal ∧
        signal.direction = .buy ∧ signal.rationale.get? "breakout_level" = some (.float 20.0) := by
  have close : crossedMarket.latestClose = .ok 10.0 := Snapshot.latestClose_eq_ok.mpr ⟨_, rfl, by decide, rfl⟩
  have upper : crossedMarket.previousFinite (Indicator.donchian .upper 1).name = .ok 5.0 :=
    Snapshot.finiteBack_eq_ok.mpr ⟨(Indicator.donchian .upper 1).series crossedBars, rfl, by decide, by decide⟩
  have lower : crossedMarket.previousFinite (Indicator.donchian .lower 1).name = .ok 20.0 :=
    Snapshot.finiteBack_eq_ok.mpr ⟨(Indicator.donchian .lower 1).series crossedBars, rfl, by decide, by decide⟩
  have volatility : crossedMarket.latestFinite (Indicator.atr 1).name = .ok 21.0 :=
    Snapshot.finiteBack_eq_ok.mpr ⟨(Indicator.atr 1).series crossedBars, rfl, by decide +kernel, by decide⟩
  have ready : preflight "breakout" shortestBreakout.required crossedMarket anyVolatility = .ok ⟨10800, 0⟩ :=
    preflight_eq_ok.mpr ⟨rfl, rfl, rfl⟩
  have evaluated := Breakout.evaluate_eq_ok.mpr ⟨_, ready, _, crossedMarket_gate, Or.inr
    ⟨rfl, _, close, _, upper, _, lower, _, volatility, rfl⟩⟩
  refine ⟨rfl, close, upper, _, evaluated, by decide, ?_⟩
  rw [(Breakout.answer_reports ..).level]
  rfl

end SignalDesk
