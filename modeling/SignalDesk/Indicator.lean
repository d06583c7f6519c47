import SignalDesk.Fault
import SignalDesk.Indicator.Rolling
import SignalDesk.Indicator.Smoothing

namespace SignalDesk

/-- A series computed from bars, named by its kind and its numbers. -/
inductive Indicator where
  | sma (period : Nat)
  | ema (period : Nat)
  | rsi (period : Nat)
  | atr (period : Nat)
  | bollinger (band : Band) (period : Nat) (multiplier : Float)
  | donchian (band : Band) (period : Nat)

def Band.label : Band → String
  | .upper => "upper"
  | .lower => "lower"

/-- Positions in a series are numbers below this one. -/
def positionLimit : Nat := UInt64.size

namespace Indicator

def period : Indicator → Nat
  | sma period | ema period | rsi period | atr period => period
  | bollinger _ period _ | donchian _ period => period

def name : Indicator → String
  | sma period => s!"sma_{period}"
  | ema period => s!"ema_{period}"
  | rsi period => s!"rsi_{period}"
  | atr period => s!"atr_{period}"
  | bollinger band period multiplier =>
    s!"bollinger_{band.label}_{period}_{showNumber multiplier}"
  | donchian band period => s!"donchian_{band.label}_{period}"

/-- How many values at the start are never defined. -/
def lookback : Indicator → Nat
  | rsi period | atr period => period
  | sma period | ema period => period - 1
  | bollinger _ period _ | donchian _ period => period - 1

/-- The series over any bars, without regard to the size of positions. -/
def series (bars : List (Bar Float)) : Indicator → List Float
  | sma period => SignalDesk.sma period (bars.map Bar.closing)
  | ema period => SignalDesk.ema period (bars.map Bar.closing)
  | rsi period => SignalDesk.rsi period (bars.map Bar.closing)
  | atr period => SignalDesk.atr period bars
  | bollinger band period multiplier =>
    SignalDesk.bollinger band period multiplier (bars.map Bar.closing)
  | donchian .upper period => SignalDesk.donchian .upper period (bars.map Bar.high)
  | donchian .lower period => SignalDesk.donchian .lower period (bars.map Bar.low)

end Indicator

/-- Smoothing sums the first `period` values from the first defined one on, if there is one; the
position behind them has to exist. -/
def smoothingFits (period : Nat) (values : List Float) : Bool :=
  values.all Float.isNaN || (values.takeWhile Float.isNaN).length + period < positionLimit

/-- Smoothing with positions of 64 bits. -/
def wilderSmooth? (period : Nat) (values : List Float) : Except Defect (List Float) :=
  if period = 0 ∨ smoothingFits period values then .ok (wilderSmooth period values)
  else .error .positionOverflow

namespace Indicator

/-- The first position at which the series may be defined has to exist. -/
def fits (bars : List (Bar Float)) : Indicator → Bool
  | rsi period => period + 1 < positionLimit
  | atr period => smoothingFits period (trueRanges bars)
  | _ => true

def compute (indicator : Indicator) (bars : List (Bar Float)) : Except Defect (List Float) :=
  if indicator.period = 0 then .error .zeroPeriod
  else if indicator.fits bars then .ok (indicator.series bars)
  else .error .positionOverflow

end Indicator

end SignalDesk
