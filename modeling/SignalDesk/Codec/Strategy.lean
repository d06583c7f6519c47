import SignalDesk.Codec.Basic
import SignalDesk.Parameters
import SignalDesk.StrategyKind

namespace SignalDesk

open Decoder

def Setting.toDocument : Setting → Document
  | .number value => .float value
  | .text value => .text value

/-- Whatever is no text has to be a number. -/
def Setting.ofDocument : Decoder Setting
  | .text s => .ok (.text s)
  | document => (float document).map .number

def Parameters.toDocument (p : Parameters) : Document :=
  .map [("strategy_id", .text p.strategyId), ("values", .ofSortedMap Setting.toDocument p.values),
    ("enabled", .bool p.enabled)]

/-- Parameters are enabled unless they say otherwise. -/
def Parameters.ofDocument : Decoder Parameters := fun document => do
  let fs ← orderedFields .json ["strategy_id", "values", "enabled"] document
  return {
    strategyId := ← field fs "strategy_id" string
    values := ← fieldOr fs "values" ∅ (sortedMap Setting.ofDocument)
    enabled := ← fieldOr fs "enabled" true bool }

def MovingAverage.toDocument (m : MovingAverage) : Document := .text m.label

def MovingAverage.ofDocument (site : Site) : Decoder MovingAverage :=
  choice site MovingAverage.all MovingAverage.label

namespace StrategyKind

def wordDocument (n : UInt64) : Document := .int n.toNat

/-- The word for the kind comes first, a name of its own last. -/
def toDocument (kind : StrategyKind) : Document :=
  let numbers : List (String × Option Document) := match kind with
    | trendFollowing fast slow average atr _ =>
      [("fast_period", wordDocument fast), ("slow_period", wordDocument slow),
        ("ma_type", average.toDocument), ("atr_period", wordDocument atr)]
    | meanReversion period multiplier rsi atr _ =>
      [("period", wordDocument period), ("multiplier", .some (.float multiplier)),
        ("rsi_period", wordDocument rsi), ("atr_period", wordDocument atr)]
    | breakout period atr _ => [("period", wordDocument period), ("atr_period", wordDocument atr)]
    | spreadReversion zscoreKey _ => [("zscore_key", .some (.text zscoreKey))]
  .record (("type", .some (.text kind.label)) :: numbers ++ [("name", kind.customName.map .text)])

/-- The word for the kind decides which fields are read. -/
def ofDocument (site : Site) : Decoder StrategyKind := fun document => do
  let (label, record) ← taggedRecord site "type"
    ["trend_following", "mean_reversion", "breakout", "spread_reversion"] document
  let name (fs : List (String × Document)) := fieldOr fs "name" none (optional string)
  let atr (fs : List (String × Document)) := fieldOr fs "atr_period" defaultAtrPeriod word
  let period (fs : List (String × Document)) := fieldOr fs "period" defaultBandPeriod word
  if label = "trend_following" then
    let fs ← orderedFields .tagged ["fast_period", "slow_period", "ma_type", "atr_period", "name"] record
    return .trendFollowing (← field fs "fast_period" word) (← field fs "slow_period" word)
      (← fieldOr fs "ma_type" .simple (MovingAverage.ofDocument .tagged)) (← atr fs) (← name fs)
  else if label = "mean_reversion" then
    let fs ← orderedFields .tagged ["period", "multiplier", "rsi_period", "atr_period", "name"] record
    return .meanReversion (← period fs) (← fieldOr fs "multiplier" defaultMultiplier float)
      (← fieldOr fs "rsi_period" defaultRsiPeriod word) (← atr fs) (← name fs)
  else if label = "breakout" then
    let fs ← orderedFields .tagged ["period", "atr_period", "name"] record
    return .breakout (← period fs) (← atr fs) (← name fs)
  else if label = "spread_reversion" then
    let fs ← orderedFields .tagged ["zscore_key", "name"] record
    return .spreadReversion (← field fs "zscore_key" string) (← name fs)
  else .error .shape

end StrategyKind

end SignalDesk
