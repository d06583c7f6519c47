import SignalDesk.Strategy

namespace SignalDesk

inductive MovingAverage where
  | simple
  | exponential
deriving Repr, DecidableEq

def MovingAverage.label : MovingAverage → String
  | .simple => "sma"
  | .exponential => "ema"

def MovingAverage.all : List MovingAverage := [.simple, .exponential]

def MovingAverage.indicator : MovingAverage → Nat → Indicator
  | .simple => .sma
  | .exponential => .ema

/-- Buys while a fast average is above a slow one, and sells while it is below. -/
structure TrendFollowing where
  name : String
  fast : Nat
  slow : Nat
  average : MovingAverage
  atr : Nat

namespace TrendFollowing

def make? (name : String) (fast slow : Nat) (average : MovingAverage) (atr : Nat) :
    Except Fault TrendFollowing :=
  if fast = 0 ∨ atr = 0 then .error (.invalidParameter (.zeroPeriod "trend_following"))
  else if slow ≤ fast then .error (.invalidParameter (.slowNotLonger slow fast))
  else .ok { name, fast, slow, average, atr }

def indicators (s : TrendFollowing) : List Indicator :=
  [s.average.indicator s.fast, s.average.indicator s.slow, .atr s.atr]

def required (s : TrendFollowing) : List String := sortedNames (s.indicators.map Indicator.name)

/-- The distance of the averages in percent of the slow one. -/
def spreadPercent (fast slow : Float) : Float := (fast - slow) / slow * 100.0

def direction (spread : Float) : Direction :=
  if spread > 0.0 then .buy else if spread < 0.0 then .sell else .hold

def confidence (direction : Direction) (spread saturation : Float) : Float :=
  if direction.isActionable then Scalar.smaller (spread.abs / saturation) 1.0 else 0.0

def evaluate (s : TrendFollowing) (market : Snapshot) (p : Parameters) : Except Fault Signal := do
  let time ← preflight s.name s.required market p
  let saturation ← p.positive "spread_saturation_pct" 2.0
  let gate ← checkVolatility market (Indicator.atr s.atr).name p
  if !gate.passed then .ok (volatilityVeto s.name market.symbol time gate)
  else
    let fast ← market.latestFinite (s.average.indicator s.fast).name
    let slow ← market.latestFinite (s.average.indicator s.slow).name
    if slow <= 0.0 then .error (.insufficientData (.slowNotPositive s.name slow))
    else
      let spread := spreadPercent fast slow
      let direction := direction spread
      .ok <| Signal.make s.name market.symbol direction (confidence direction spread saturation) time
        |>.because "fast_ma" (.float fast)
        |>.because "slow_ma" (.float slow)
        |>.because "spread_pct" (.float spread)
        |>.because "volatility" (.float gate.testedValue)

def strategy (s : TrendFollowing) : Strategy := ⟨s.name, s.required, s.evaluate⟩

end TrendFollowing

end SignalDesk
