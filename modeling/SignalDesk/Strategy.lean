import SignalDesk.Parameters
import SignalDesk.Signal
import SignalDesk.Snapshot

namespace SignalDesk

/-- A rule that judges a market. Its name and the series it reads are known before it runs. -/
structure Strategy where
  name : String
  /-- ascending, each once -/
  required : List String
  evaluate : Snapshot → Parameters → Except Fault Signal

/-- What every strategy checks first: the parameters, the series it reads and the presence of a bar,
whose time the signal takes. -/
def preflight (name : String) (required : List String) (market : Snapshot) (p : Parameters) :
    Except Fault Instant := do
  p.validate
  let missing := market.indicators.missing required
  if missing.isEmpty then
    match market.asOf with
    | some time => .ok time
    | none => .error (.insufficientData (.snapshotWithoutBars name market.symbol))
  else .error (.missingIndicators missing)

/-- The last values of a series, all of them where no count is given. -/
def trailing (count : Option Nat) (series : List Float) : List Float :=
  match count with
  | some count => series.drop (series.length - count)
  | none => series

theorem trailing_suffix (count : Option Nat) (series : List Float) : trailing count series <:+ series := by
  cases count with
  | none => exact List.suffix_refl series
  | some count => exact List.drop_suffix _ series

/-- As many values are kept as are asked for and there are. -/
theorem length_trailing (count : Nat) (series : List Float) :
    (trailing (some count) series).length = min count series.length := by
  rw [trailing, List.length_drop]
  omega

/-- The volatility gate over a series of the market, with the band and the lookback of the
parameters. -/
def checkVolatility (market : Snapshot) (key : String) (p : Parameters) :
    Except Fault GateResult := do
  let (low, high) ← p.volatilityBand
  match market.indicators.get? key with
  | none => .error (.missingIndicators [key])
  | some series => volatilityGate (trailing (← p.volatilityLookback) series) low high

/-- The hold that stands in for the signal of a market too quiet or too wild. -/
def volatilityVeto (name symbol : String) (time : Instant) (gate : GateResult) : Signal :=
  Signal.hold name symbol time
    |>.because "reason" (.text volatilityFilterFailed)
    |>.because "volatility" (.float gate.testedValue)
    |>.because "volatility_min_threshold" (.float gate.minThreshold)
    |>.because "volatility_max_threshold" (.float gate.maxThreshold)

/-- A strategy with one answer for every market that passes the checks. -/
def Strategy.constant (name : String) (required : List String) (answer : Except Fault Signal) :
    Strategy where
  name := name
  required := sortedNames required
  evaluate market p := do
    let _ ← preflight name (sortedNames required) market p
    answer

end SignalDesk
