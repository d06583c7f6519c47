import SignalDesk.Strategy.Breakout
import SignalDesk.Strategy.MeanReversion
import SignalDesk.Strategy.SpreadReversion
import SignalDesk.Strategy.TrendFollowing

namespace SignalDesk

/-- The rules that a desk can be configured with. -/
inductive TradingRule where
  | trendFollowing (rule : TrendFollowing)
  | meanReversion (rule : MeanReversion)
  | breakout (rule : Breakout)
  | spreadReversion (rule : SpreadReversion)

namespace TradingRule

def strategy : TradingRule → Strategy
  | trendFollowing rule => rule.strategy
  | meanReversion rule => rule.strategy
  | breakout rule => rule.strategy
  | spreadReversion rule => rule.strategy

/-- The library indicators that the rule reads. The series of a spread comes from outside. -/
def indicators : TradingRule → List Indicator
  | trendFollowing rule => rule.indicators
  | meanReversion rule => rule.indicators
  | breakout rule => rule.indicators
  | spreadReversion _ => []

end TradingRule

/-- A strategy as it is configured, accepted or not. -/
inductive StrategyKind where
  | trendFollowing (fast slow : UInt64) (average : MovingAverage) (atr : UInt64)
      (customName : Option String)
  | meanReversion (period : UInt64) (multiplier : Float) (rsi atr : UInt64)
      (customName : Option String)
  | breakout (period atr : UInt64) (customName : Option String)
  | spreadReversion (zscoreKey : String) (customName : Option String)
deriving BEq

namespace StrategyKind

def defaultAtrPeriod : UInt64 := 14

def defaultBandPeriod : UInt64 := 20

def defaultMultiplier : Float := 2.0

def defaultRsiPeriod : UInt64 := 14

/-- The word for the kind, which names a strategy that has no name of its own. -/
def label : StrategyKind → String
  | trendFollowing .. => "trend_following"
  | meanReversion .. => "mean_reversion"
  | breakout .. => "breakout"
  | spreadReversion .. => "spread_reversion"

def customName : StrategyKind → Option String
  | trendFollowing _ _ _ _ name => name
  | meanReversion _ _ _ _ name => name
  | breakout _ _ name => name
  | spreadReversion _ name => name

def name (kind : StrategyKind) : String := kind.customName.getD kind.label

/-- The rule of a kind, if its numbers make sense. -/
def rule (kind : StrategyKind) : Except Fault TradingRule :=
  match kind with
  | trendFollowing fast slow average atr _ =>
    (TrendFollowing.make? kind.name fast.toNat slow.toNat average atr.toNat).map .trendFollowing
  | meanReversion period multiplier rsi atr _ =>
    (MeanReversion.make? kind.name period.toNat multiplier rsi.toNat atr.toNat).map .meanReversion
  | breakout period atr _ => (Breakout.make? kind.name period.toNat atr.toNat).map .breakout
  | spreadReversion zscoreKey _ => (SpreadReversion.make? kind.name zscoreKey).map .spreadReversion

def create (kind : StrategyKind) : Except Fault Strategy := kind.rule.map TradingRule.strategy

/-- The indicators that a strategy of the kind reads; none for a refused kind. -/
def indicators (kind : StrategyKind) : List Indicator :=
  match kind.rule with
  | .ok rule => rule.indicators
  | .error _ => []

end StrategyKind

/-- Keeps the first indicator of each name. -/
def distinctByName (indicators : List Indicator) : List Indicator :=
  indicators.foldl (fun kept indicator =>
    if kept.any fun other => other.name == indicator.name then kept else kept ++ [indicator]) []

/-- What has to be computed so that strategies of all the kinds can run. -/
def indicatorSet (kinds : List StrategyKind) : List Indicator :=
  distinctByName (kinds.flatMap StrategyKind.indicators)

/-- The series that strategies of all the kinds read, in order of their names; the fault of the
first refused kind. -/
def requiredIndicators (kinds : List StrategyKind) : Except Fault (List String) := do
  let strategies ← kinds.mapM StrategyKind.create
  return sortedNames (strategies.flatMap Strategy.required)

end SignalDesk
