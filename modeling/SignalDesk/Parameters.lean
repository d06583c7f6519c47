import SignalDesk.Fault
import SignalDesk.SortedMap
import SignalDesk.Volatility

namespace SignalDesk

/-- The value of a strategy's parameter. -/
inductive Setting where
  | number (value : Float)
  | text (value : String)
deriving BEq

def Setting.display : Setting → String
  | .number value => showNumber value
  | .text value => value

/-- What a strategy is tuned with. A name that a strategy does not know has no effect. -/
structure Parameters where
  strategyId : String
  values : SortedMap Setting
  enabled : Bool
deriving BEq

def minVolatilityPercentile : String := "min_volatility_percentile"

def maxVolatilityPercentile : String := "max_volatility_percentile"

def volatilityLookbackName : String := "volatility_lookback"

/-- Without a fraction. From two to the fifty-third power on every double is. -/
def isWhole (x : Float) : Bool :=
  x.abs >= 9007199254740992.0 || Float.ofNat x.abs.toUInt64.toNat == x.abs

namespace Parameters

def set (p : Parameters) (name : String) (value : Setting) : Parameters :=
  { p with values := p.values.insert name value }

def setEnabled (p : Parameters) (enabled : Bool) : Parameters := { p with enabled }

def setBand (p : Parameters) (low high : Float) : Parameters :=
  (p.set minVolatilityPercentile (.number low)).set maxVolatilityPercentile (.number high)

def number (p : Parameters) (name : String) : Except Fault (Option Float) :=
  match p.values.get? name with
  | none => .ok none
  | some (.number value) => .ok (some value)
  | some (.text text) => .error (.invalidParameter (.notNumeric p.strategyId name text))

def numberOr (p : Parameters) (name : String) (default : Float) : Except Fault Float := do
  return (← p.number name).getD default

/-- A number above zero. -/
def positive (p : Parameters) (name : String) (default : Float) : Except Fault Float := do
  let value ← p.numberOr name default
  if value <= 0.0 then .error (.invalidParameter (.notPositive p.strategyId name value))
  else .ok value

def text (p : Parameters) (name : String) : Option String :=
  match p.values.get? name with
  | some (.text text) => some text
  | _ => none

/-- The percentiles between which a volatility passes, at first all of them. -/
def volatilityBand (p : Parameters) : Except Fault (Float × Float) := do
  let low ← p.numberOr minVolatilityPercentile 0.0
  let high ← p.numberOr maxVolatilityPercentile 100.0
  if isBand low high then .ok (low, high)
  else .error (.invalidParameter (.band (some p.strategyId) low high))

/-- How many of the last volatilities are looked at; all of them where it is not set. A number
beyond 64 bits counts as the greatest of 64 bits. -/
def volatilityLookback (p : Parameters) : Except Fault (Option Nat) := do
  match ← p.number volatilityLookbackName with
  | none => .ok none
  | some n =>
    if n.isFinite && n >= 2.0 && isWhole n then .ok (some n.toUInt64.toNat)
    else .error (.invalidParameter (.lookback p.strategyId n))

/-- The first number, by name, that is not finite. -/
def firstNotFinite (p : Parameters) : Option (String × Float) :=
  p.values.entries.findSome? fun (name, value) =>
    match value with
    | .number n => if n.isFinite then none else some (name, n)
    | .text _ => none

def validate (p : Parameters) : Except Fault Unit := do
  if isBlankText p.strategyId then .error (.invalidParameter .emptyId)
  else match p.firstNotFinite with
    | some (name, n) => .error (.invalidParameter (.notFinite p.strategyId name n))
    | none =>
      let _ ← p.volatilityLookback
      let _ ← p.volatilityBand
      .ok ()

end Parameters

end SignalDesk
