import SignalDesk.Policy

namespace SignalDesk

inductive EventLevel where
  | debug
  | info
  | warn
  | error
deriving Repr, DecidableEq

def EventLevel.label : EventLevel → String
  | .debug => "DEBUG"
  | .info => "INFO"
  | .warn => "WARN"
  | .error => "ERROR"

/-- What a desk tells about its work. Parameters appear by their short fingerprint. -/
inductive Event where
  | registered (strategy fingerprint : String)
  | parametersUpdated (strategy fingerprint : String)
  | toggled (strategy : String) (enabled : Bool)
  | deregistered (strategy : String)
  | belowThreshold (signal : Signal) (minimum : Float) (mode : TradingMode)
  | signalAccepted (signal : Signal) (mode : TradingMode)
  | noSignalAccepted (reason : String) (mode : TradingMode) (candidates : Nat)
  | unconfiguredOverride (strategy : String)
  | deskConfigured (mode : TradingMode) (strategies enabled : Nat)
  | strategySkipped (strategy symbol error : String)
  | strategyFailed (strategy symbol error : String)
  | marketEvaluated (symbol : String) (signals failures : Nat)
  | cycleComplete (mode : TradingMode) (markets strategies accepted failures : Nat)

namespace Event

def level : Event → EventLevel
  | registered .. | parametersUpdated .. | deregistered .. | deskConfigured ..
  | cycleComplete .. => .info
  | toggled .. | belowThreshold .. | signalAccepted .. | noSignalAccepted ..
  | marketEvaluated .. => .debug
  | unconfiguredOverride .. | strategySkipped .. => .warn
  | strategyFailed .. => .error

def message : Event → String
  | registered .. => "registered strategy"
  | parametersUpdated .. => "updated strategy parameters"
  | toggled .. => "toggled strategy"
  | deregistered .. => "deregistered strategy"
  | belowThreshold .. => "signal below confidence threshold"
  | signalAccepted .. => "signal accepted"
  | noSignalAccepted .. => "no signal accepted"
  | unconfiguredOverride .. => "threshold override for unconfigured strategy"
  | deskConfigured .. => "desk configured"
  | strategySkipped .. => "strategy skipped"
  | strategyFailed .. => "strategy failed"
  | marketEvaluated .. => "symbol evaluated"
  | cycleComplete .. => "evaluation cycle complete"

def fields : Event → List (String × Document)
  | registered strategy fingerprint | parametersUpdated strategy fingerprint =>
    [("strategy", .text strategy), ("params", .text fingerprint)]
  | toggled strategy enabled => [("strategy", .text strategy), ("enabled", .bool enabled)]
  | deregistered strategy | unconfiguredOverride strategy => [("strategy", .text strategy)]
  | belowThreshold signal minimum mode =>
    [("strategy", .text signal.strategyName), ("symbol", .text signal.symbol),
      ("confidence", .float signal.confidence), ("minimum", .float minimum),
      ("mode", .text mode.label)]
  | signalAccepted signal mode =>
    [("strategy", .text signal.strategyName), ("symbol", .text signal.symbol),
      ("direction", .text signal.direction.label), ("confidence", .float signal.confidence),
      ("mode", .text mode.label)]
  | noSignalAccepted reason mode candidates =>
    [("reason", .text reason), ("mode", .text mode.label), ("candidates", .int candidates)]
  | deskConfigured mode strategies enabled =>
    [("mode", .text mode.label), ("strategies", .int strategies), ("enabled", .int enabled)]
  | strategySkipped strategy symbol error | strategyFailed strategy symbol error =>
    [("strategy", .text strategy), ("symbol", .text symbol), ("error", .text error)]
  | marketEvaluated symbol signals failures =>
    [("symbol", .text symbol), ("signals", .int signals), ("failures", .int failures)]
  | cycleComplete mode markets strategies accepted failures =>
    [("mode", .text mode.label), ("symbols", .int markets), ("strategies", .int strategies),
      ("accepted", .int accepted), ("failures", .int failures)]

end Event

end SignalDesk
