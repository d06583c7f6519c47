import SignalDesk.Registry

namespace SignalDesk

/-- A registry at work under a policy. -/
structure Desk where
  registry : Registry
  policy : ConfidencePolicy
  mode : TradingMode

/-- A strategy that gave no signal, and whether the fault was its own. -/
structure StrategyFailure where
  strategy : String
  error : String
  recoverable : Bool

inductive Outcome where
  | aggregated (verdict : Verdict)
  | noSignals

/-- What the strategies made of one market. -/
structure MarketReport where
  symbol : String
  timeframe : Timeframe
  asOf : Option Instant
  signals : List Signal
  failures : List StrategyFailure
  outcome : Outcome

def MarketReport.accepted? (report : MarketReport) : Option Signal :=
  match report.outcome with
  | .aggregated verdict => verdict.accepted?
  | .noSignals => none

/-- By symbol, then by timeframe. -/
def MarketReport.le (a b : MarketReport) : Bool :=
  a.symbol < b.symbol || a.symbol == b.symbol && a.timeframe.index ≤ b.timeframe.index

/-- What a desk made of all the markets of a cycle. -/
structure CycleReport where
  mode : TradingMode
  strategies : List String
  markets : List MarketReport

namespace CycleReport

def accepted (report : CycleReport) : List Signal :=
  report.markets.filterMap MarketReport.accepted?

/-- The failures with the symbols of their markets. -/
def failures (report : CycleReport) : List (String × StrategyFailure) :=
  report.markets.flatMap fun market => market.failures.map fun failure => (market.symbol, failure)

def market? (report : CycleReport) (symbol : String) : Option MarketReport :=
  report.markets.find? fun market => market.symbol == symbol

end CycleReport

/-- What an enabled entry made of a market. -/
structure Evaluation where
  entry : Entry
  answer : Except Fault Signal

namespace Evaluation

def signal? (e : Evaluation) : Option Signal := e.answer.toOption

def failure? (e : Evaluation) : Option StrategyFailure :=
  match e.answer with
  | .ok _ => none
  | .error fault => some ⟨e.entry.name, fault.message, fault.isLocal⟩

def event? (symbol : String) (e : Evaluation) : Option Event :=
  match e.answer with
  | .ok _ => none
  | .error fault =>
    if fault.isLocal then some (.strategySkipped e.entry.name symbol fault.message)
    else some (.strategyFailed e.entry.name symbol fault.message)

end Evaluation

namespace Registry

/-- Every enabled strategy runs with its own parameters, in the order of registration. -/
def evaluate (r : Registry) (market : Snapshot) : List Evaluation :=
  r.enabled.map fun e => ⟨e, e.strategy.evaluate market e.parameters⟩

end Registry

namespace Desk

def evaluateMarket (desk : Desk) (market : Snapshot) : MarketReport :=
  let evaluations := desk.registry.evaluate market
  let signals := evaluations.filterMap Evaluation.signal?
  { symbol := market.symbol
    timeframe := market.timeframe
    asOf := market.asOf
    signals
    failures := evaluations.filterMap Evaluation.failure?
    outcome :=
      match aggregate desk.registry.ranks desk.policy desk.mode signals with
      | .ok verdict => .aggregated verdict
      | .error _ => .noSignals }

/-- A report on every market, those of one symbol and timeframe in the order given. -/
def runCycle (desk : Desk) (markets : List Snapshot) : CycleReport where
  mode := desk.mode
  strategies := desk.registry.enabled.map Entry.name
  markets := (markets.map desk.evaluateMarket).mergeSort MarketReport.le

def marketEvents (desk : Desk) (market : Snapshot) : List Event :=
  let evaluations := desk.registry.evaluate market
  let signals := evaluations.filterMap Evaluation.signal?
  evaluations.filterMap (Evaluation.event? market.symbol) ++
    aggregationEvents desk.registry.ranks desk.policy desk.mode signals ++
    [.marketEvaluated market.symbol signals.length (evaluations.length - signals.length)]

def completionEvent (report : CycleReport) : Event :=
  .cycleComplete report.mode report.markets.length report.strategies.length
    report.accepted.length report.failures.length

/-- The markets are told of in the order given, whatever the order of the report. -/
def cycleEvents (desk : Desk) (markets : List Snapshot) : List Event :=
  markets.flatMap desk.marketEvents ++ [completionEvent (desk.runCycle markets)]

end Desk

end SignalDesk
