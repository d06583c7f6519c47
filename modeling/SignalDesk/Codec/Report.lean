import SignalDesk.Codec.Desk
import SignalDesk.Codec.Market
import SignalDesk.Codec.Signal

namespace SignalDesk

open Decoder

def StrategyFailure.toDocument (f : StrategyFailure) : Document :=
  .map [("strategy", .text f.strategy), ("error", .text f.error), ("recoverable", .bool f.recoverable)]

def StrategyFailure.ofDocument : Decoder StrategyFailure := fun document => do
  let fs ← orderedFields .json ["strategy", "error", "recoverable"] document
  return {
    strategy := ← field fs "strategy" string
    error := ← field fs "error" string
    recoverable := ← field fs "recoverable" bool }

def Outcome.toDocument : Outcome → Document
  | .aggregated verdict => .map [("outcome", .text "aggregated"), ("result", verdict.toDocument)]
  | .noSignals => .map [("outcome", .text "no_signals")]

def Outcome.ofDocument : Decoder Outcome := fun document => do
  let (label, record) ← taggedRecord .json "outcome" ["aggregated", "no_signals"] document
  if label = "aggregated" then
    let read (fs : List (String × Document)) := return .aggregated (← field fs "result" (Verdict.ofDocument .tagged))
    placedRecord ["result"] read read record
  else if label = "no_signals" then
    let _ ← orderedFields .tagged [] record
    return .noSignals
  else .error .shape

/-- No failures are written where there are none. -/
def MarketReport.toDocument (r : MarketReport) : Document :=
  .record [("symbol", .some (.text r.symbol)), ("timeframe", r.timeframe.toDocument),
    ("as_of", .some (.ofOption (fun time => .text time.toText) r.asOf)),
    ("signals", .some (.list (r.signals.map Signal.toDocument))),
    ("failures",
      if r.failures.isEmpty then none
      else some (.list (r.failures.map StrategyFailure.toDocument))),
    ("outcome", r.outcome.toDocument)]

namespace MarketReport

/-- Of two faulty items the first one counts. -/
def ofItems (fs : List (String × Document)) : Except Refusal MarketReport := return {
  symbol := ← field fs "symbol" string
  timeframe := ← field fs "timeframe" (Timeframe.ofDocument .json)
  asOf := ← field fs "as_of" (optional instant)
  signals := ← field fs "signals" (items (Signal.ofDocument .json))
  failures := ← fieldOr fs "failures" [] (items StrategyFailure.ofDocument)
  outcome := ← field fs "outcome" Outcome.ofDocument }

/-- Of two faulty fields the one with the lesser name counts, and a missing one comes last. -/
def ofFields (fs : List (String × Document)) : Except Refusal MarketReport := do
  let asOf ← fieldOr fs "as_of" none (optional instant)
  let failures ← fieldOr fs "failures" [] (items StrategyFailure.ofDocument)
  let outcome ← field? fs "outcome" Outcome.ofDocument
  let signals ← field? fs "signals" (items (Signal.ofDocument .json))
  let symbol ← field? fs "symbol" string
  let timeframe ← field? fs "timeframe" (Timeframe.ofDocument .json)
  return {
    symbol := ← present symbol
    timeframe := ← present timeframe
    asOf
    signals := ← present signals
    failures
    outcome := ← present outcome }

def ofDocument : Decoder MarketReport :=
  placedRecord ["symbol", "timeframe", "as_of", "signals", "failures", "outcome"] ofItems ofFields

end MarketReport

def CycleReport.toDocument (r : CycleReport) : Document :=
  .map [("mode", r.mode.toDocument), ("strategies", .ofTexts r.strategies),
    ("symbols", .list (r.markets.map MarketReport.toDocument))]

/-- Its fields ascend, so that of two faulty ones the first counts wherever they stand, and a missing one comes last. -/
def CycleReport.ofDocument : Decoder CycleReport :=
  let read (fs : List (String × Document)) := do
    let mode ← field? fs "mode" (TradingMode.ofDocument .json)
    let strategies ← field? fs "strategies" (items string)
    let markets ← field? fs "symbols" (items MarketReport.ofDocument)
    return ⟨← present mode, ← present strategies, ← present markets⟩
  placedRecord ["mode", "strategies", "symbols"] read read

end SignalDesk
