import SignalDesk.Codec.Strategy
import SignalDesk.DeskConfig

namespace SignalDesk

open Decoder

def TradingMode.toDocument (m : TradingMode) : Document := .text m.label

def TradingMode.ofDocument (site : Site) : Decoder TradingMode :=
  choice site TradingMode.all TradingMode.label

def ThresholdOverride.toDocument (o : ThresholdOverride) : Document :=
  .record [("paper", o.paper.map .float), ("real", o.real.map .float)]

/-- A mode that is left out is not overridden. -/
def ThresholdOverride.ofDocument (site : Site) : Decoder ThresholdOverride := fun document => do
  let fs ← orderedFields site ["paper", "real"] document
  return ⟨← fieldOr fs "paper" none (optional float), ← fieldOr fs "real" none (optional float)⟩

/-- No override is written where there is none. -/
def Thresholds.toDocument (t : Thresholds) : Document :=
  .record [("paper_trading_min", .some (.float t.paperMinimum)),
    ("real_trading_min", .some (.float t.realMinimum)),
    ("overrides",
      if t.overrides.isEmpty then none
      else some (.ofSortedMap ThresholdOverride.toDocument t.overrides))]

def Thresholds.ofDocument (site : Site) : Decoder Thresholds := fun document => do
  let fs ← orderedFields site ["paper_trading_min", "real_trading_min", "overrides"] document
  return {
    paperMinimum := ← fieldOr fs "paper_trading_min" Thresholds.defaultPaperMinimum float
    realMinimum := ← fieldOr fs "real_trading_min" Thresholds.defaultRealMinimum float
    overrides := ← fieldOr fs "overrides" ∅ (sortedMap (ThresholdOverride.ofDocument site)) }

def StrategyEntry.toDocument (e : StrategyEntry) : Document :=
  .record [("kind", e.kind.toDocument), ("enabled", .some (.bool e.enabled)),
    ("params",
      if e.parameters.isEmpty then none
      else some (.ofSortedMap Setting.toDocument e.parameters))]

/-- Only the kind has to be there. -/
def StrategyEntry.ofDocument (site : Site) : Decoder StrategyEntry := fun document => do
  let fs ← orderedFields site ["kind", "enabled", "params"] document
  return {
    kind := ← field fs "kind" (StrategyKind.ofDocument site)
    enabled := ← fieldOr fs "enabled" true bool
    parameters := ← fieldOr fs "params" ∅ (sortedMap Setting.ofDocument) }

def DeskConfig.toDocument (c : DeskConfig) : Document :=
  .map [("mode", c.mode.toDocument), ("thresholds", c.thresholds.toDocument),
    ("strategies", .list (c.strategies.map StrategyEntry.toDocument))]

/-- Nothing has to be there: a desk on paper without strategies is assumed. -/
def DeskConfig.ofDocument (site : Site) : Decoder DeskConfig := fun document => do
  let fs ← orderedFields site ["mode", "thresholds", "strategies"] document
  return {
    mode := ← fieldOr fs "mode" .paper (TradingMode.ofDocument site)
    thresholds := ← fieldOr fs "thresholds" .standard (Thresholds.ofDocument site)
    strategies := ← fieldOr fs "strategies" [] (items (StrategyEntry.ofDocument site)) }

end SignalDesk
