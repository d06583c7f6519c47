import SignalDesk.Decimal.NumberStyle
import SignalDesk.Instant

namespace SignalDesk

/-- What the market did not provide. -/
inductive Shortage where
  | snapshotWithoutBars (strategy symbol : String)
  | marketWithoutBars (symbol : String)
  | voidBar (symbol : String) (time : Instant)
  | insaneBar (symbol : String) (time : Instant)
  | notFinite (key : String) (back : Nat)
  | slowNotPositive (strategy : String) (slow : Float)
  | emptyVolatility
  | volatilityNotFinite
  | tooFewVolatilities (count : Nat)
  | other (text : String)

/-- Why a setting is refused. -/
inductive ParameterFault where
  | unknownTimeframe (label : String)
  | notNumeric (id name text : String)
  | notFinite (id name : String) (value : Float)
  | notPositive (id name : String) (value : Float)
  | lookback (id : String) (value : Float)
  | band (id : Option String) (low high : Float)
  | emptyId
  | otherStrategy (id strategy : String)
  | zeroPeriod (strategy : String)
  | slowNotLonger (slow fast : Nat)
  | multiplier (value : Float)
  | emptyZscoreKey
  | oscillatorBounds (strategy : String) (oversold overbought : Float)
  | saturationBelowEntry (strategy : String) (saturation entry : Float)
  | confidence (strategy : String) (value : Float)
  | other (text : String)

/-- Why a confidence threshold is refused. -/
inductive ThresholdFault where
  | outsideUnit (field : String) (value : Float)
  | paperOutsideRange (value : Float)
  | realBelowFloor (value : Float)
  | other (text : String)

/-- What can go wrong on a desk. -/
inductive Fault where
  | insufficientData (shortage : Shortage)
  | missingIndicators (keys : List String)
  | invalidParameter (fault : ParameterFault)
  | duplicateStrategy (name : String)
  | strategyNotFound (name : String)
  | invalidThreshold (fault : ThresholdFault)
  | emptyInput

/-- The least and the greatest minimum confidence for paper trading. -/
def paperMinimumRange : Float × Float := (0.50, 0.95)

/-- No real trading below this minimum confidence. -/
def realMinimumFloor : Float := 0.85

def Shortage.message : Shortage → String
  | .snapshotWithoutBars strategy symbol => s!"{strategy}: snapshot for {symbol} has no bars"
  | .marketWithoutBars symbol => s!"{symbol} has no bars"
  | .voidBar symbol time => s!"{symbol}: latest bar at {time.inWords} is void"
  | .insaneBar symbol time => s!"{symbol}: latest bar at {time.inWords} fails OHLC sanity checks"
  | .notFinite key back => s!"{key} has no finite value {back} bar(s) back"
  | .slowNotPositive strategy slow =>
    s!"{strategy}: slow MA must be positive, got {showNumber slow}"
  | .emptyVolatility => "volatility series is empty"
  | .volatilityNotFinite => "latest volatility value is not finite"
  | .tooFewVolatilities count => s!"volatility band needs at least 2 values, got {count}"
  | .other text => text

def ParameterFault.message : ParameterFault → String
  | .unknownTimeframe label => s!"unknown timeframe: {label}"
  | .notNumeric id name text => s!"{id}: `{name}` must be numeric, got \"{text}\""
  | .notFinite id name value => s!"{id}: `{name}` must be finite, got {showNumber value}"
  | .notPositive id name value => s!"{id}: `{name}` must be > 0, got {showNumber value}"
  | .lookback id value =>
    s!"{id}: `volatility_lookback` must be a whole number >= 2, got {showNumber value}"
  | .band id low high =>
    (match id with
      | some id => s!"{id}: "
      | none => "") ++
      "volatility percentiles must satisfy 0 <= min <= max <= 100, got " ++
      s!"min={showNumber low}, max={showNumber high}"
  | .emptyId => "strategy_id must not be empty"
  | .otherStrategy id strategy => s!"parameters for `{id}` cannot be attached to `{strategy}`"
  | .zeroPeriod strategy => s!"{strategy}: periods must be >= 1"
  | .slowNotLonger slow fast =>
    s!"trend_following: slow_period ({slow}) must be > fast_period ({fast})"
  | .multiplier value => s!"mean_reversion: multiplier must be > 0, got {showNumber value}"
  | .emptyZscoreKey => "spread_reversion: zscore_key must not be empty"
  | .oscillatorBounds strategy oversold overbought =>
    s!"{strategy}: need 0 < oversold < overbought < 100, got " ++
      s!"oversold={showNumber oversold}, overbought={showNumber overbought}"
  | .saturationBelowEntry strategy saturation entry =>
    s!"{strategy}: saturation_z ({showNumber saturation}) must be >= entry_z ({showNumber entry})"
  | .confidence strategy value =>
    s!"{strategy}: signal confidence must be in [0, 1], got {showNumber value}"
  | .other text => text

def ThresholdFault.message : ThresholdFault → String
  | .outsideUnit field value => s!"{field} must be in [0, 1], got {showNumber value}"
  | .paperOutsideRange value =>
    let (low, high) := paperMinimumRange
    s!"paper_trading_min must be in [{showNumber low}, {showNumber high}], got {showNumber value}"
  | .realBelowFloor value =>
    s!"real_trading_min must be >= {showNumber realMinimumFloor}, got {showNumber value}"
  | .other text => text

namespace Fault

def message : Fault → String
  | insufficientData shortage => "insufficient data: " ++ shortage.message
  | missingIndicators keys => "missing indicator(s): " ++ ", ".intercalate keys
  | invalidParameter fault => "invalid parameter: " ++ fault.message
  | duplicateStrategy name => "strategy already registered: " ++ name
  | strategyNotFound name => "strategy not found: " ++ name
  | invalidThreshold fault => "invalid confidence threshold: " ++ fault.message
  | emptyInput => "no signals to aggregate"

/-- The fault of one strategy on one market, which leaves the rest of a cycle untouched. -/
def isLocal : Fault → Bool
  | insufficientData _ | missingIndicators _ | invalidParameter _ => true
  | _ => false

end Fault

/-- A request that no indicator can meet, whatever the market. -/
inductive Defect where
  /-- a window of no bars -/
  | zeroPeriod
  /-- a window that ends beyond the last position of 64 bits -/
  | positionOverflow
deriving Repr, DecidableEq

theorem bind_eq_ok {ε α β : Type} {x : Except ε α} {f : α → Except ε β} {b : β} :
    (x >>= f) = .ok b ↔ ∃ a, x = .ok a ∧ f a = .ok b := by
  cases x with
  | error fault => exact ⟨nofun, nofun⟩
  | ok a => exact ⟨fun run => ⟨a, rfl, run⟩, fun ⟨_, same, run⟩ => by cases same; exact run⟩

theorem map_eq_ok {ε α β : Type} {x : Except ε α} {f : α → β} {b : β} :
    x.map f = .ok b ↔ ∃ a, x = .ok a ∧ f a = b := by
  cases x with
  | error fault => exact ⟨nofun, nofun⟩
  | ok a => simp [Except.map]

end SignalDesk
