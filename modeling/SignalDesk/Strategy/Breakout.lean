import SignalDesk.Strategy

namespace SignalDesk

/-- Buys above the channel of the bars before the last one, and sells below it. -/
structure Breakout where
  name : String
  period : Nat
  atr : Nat

namespace Breakout

def make? (name : String) (period atr : Nat) : Except Fault Breakout :=
  if period = 0 ∨ atr = 0 then .error (.invalidParameter (.zeroPeriod "breakout"))
  else .ok { name, period, atr }

def indicators (s : Breakout) : List Indicator :=
  [.donchian .upper s.period, .donchian .lower s.period, .atr s.atr]

def required (s : Breakout) : List String := sortedNames (s.indicators.map Indicator.name)

/-- The direction and by how much the close is outside of the channel. -/
def escape (close upper lower : Float) : Direction × Float :=
  if close > upper then (.buy, close - upper)
  else if close < lower then (.sell, lower - close)
  else (.hold, 0.0)

/-- One half, and more the further the close is outside in units of the volatility. -/
def confidence (direction : Direction) (excess volatility : Float) : Float :=
  if !direction.isActionable then 0.0
  else if volatility > 0.0 then Scalar.smaller (0.5 + 0.5 * excess / volatility) 1.0
  else 0.5

def evaluate (s : Breakout) (market : Snapshot) (p : Parameters) : Except Fault Signal := do
  let time ← preflight s.name s.required market p
  let gate ← checkVolatility market (Indicator.atr s.atr).name p
  if !gate.passed then .ok (volatilityVeto s.name market.symbol time gate)
  else
    let close ← market.latestClose
    let upper ← market.previousFinite (Indicator.donchian .upper s.period).name
    let lower ← market.previousFinite (Indicator.donchian .lower s.period).name
    let volatility ← market.latestFinite (Indicator.atr s.atr).name
    let (direction, excess) := escape close upper lower
    .ok <| Signal.make s.name market.symbol direction (confidence direction excess volatility) time
      |>.because "close" (.float close)
      |>.because "breakout_level" (.float (if close < lower then lower else upper))
      |>.because "excess" (.float excess)
      |>.because "volatility" (.float volatility)

def strategy (s : Breakout) : Strategy := ⟨s.name, s.required, s.evaluate⟩

end Breakout

end SignalDesk
