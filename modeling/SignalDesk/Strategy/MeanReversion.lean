import SignalDesk.Strategy

namespace SignalDesk

/-- Buys an oversold market below its band, and sells an overbought one above it. -/
structure MeanReversion where
  name : String
  period : Nat
  multiplier : Float
  rsi : Nat
  atr : Nat

namespace MeanReversion

def make? (name : String) (period : Nat) (multiplier : Float) (rsi atr : Nat) :
    Except Fault MeanReversion :=
  if period = 0 ∨ rsi = 0 ∨ atr = 0 then .error (.invalidParameter (.zeroPeriod "mean_reversion"))
  else if multiplier.isFinite && multiplier > 0.0 then .ok { name, period, multiplier, rsi, atr }
  else .error (.invalidParameter (.multiplier multiplier))

def indicators (s : MeanReversion) : List Indicator :=
  [.bollinger .upper s.period s.multiplier, .bollinger .lower s.period s.multiplier, .rsi s.rsi,
    .atr s.atr]

def required (s : MeanReversion) : List String := sortedNames (s.indicators.map Indicator.name)

/-- The oscillator readings at which a market is oversold and overbought. -/
def bounds (s : MeanReversion) (p : Parameters) : Except Fault (Float × Float) := do
  let oversold ← p.numberOr "oversold" 30.0
  let overbought ← p.numberOr "overbought" 70.0
  if oversold > 0.0 && oversold < overbought && overbought < 100.0 then .ok (oversold, overbought)
  else .error (.invalidParameter (.oscillatorBounds s.name oversold overbought))

/-- One half, and more the further the oscillator is past its bound. -/
def proposal (close upper lower rsi oversold overbought : Float) : Direction × Float :=
  if close < lower && rsi <= oversold then (.buy, 0.5 + (oversold - rsi) / oversold)
  else if close > upper && rsi >= overbought then
    (.sell, 0.5 + (rsi - overbought) / (100.0 - overbought))
  else (.hold, 0.0)

def evaluate (s : MeanReversion) (market : Snapshot) (p : Parameters) : Except Fault Signal := do
  let time ← preflight s.name s.required market p
  let (oversold, overbought) ← s.bounds p
  let gate ← checkVolatility market (Indicator.atr s.atr).name p
  if !gate.passed then .ok (volatilityVeto s.name market.symbol time gate)
  else
    let close ← market.latestClose
    let upper ← market.latestFinite (Indicator.bollinger .upper s.period s.multiplier).name
    let lower ← market.latestFinite (Indicator.bollinger .lower s.period s.multiplier).name
    let rsi ← market.latestFinite (Indicator.rsi s.rsi).name
    let (direction, confidence) := proposal close upper lower rsi oversold overbought
    .ok <| Signal.make s.name market.symbol direction (Scalar.smaller confidence 1.0) time
      |>.because "close" (.float close)
      |>.because "upper_band" (.float upper)
      |>.because "lower_band" (.float lower)
      |>.because "rsi" (.float rsi)
      |>.because "volatility" (.float gate.testedValue)

def strategy (s : MeanReversion) : Strategy := ⟨s.name, s.required, s.evaluate⟩

end MeanReversion

end SignalDesk
