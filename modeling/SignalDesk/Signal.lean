import SignalDesk.Document
import SignalDesk.Instant

namespace SignalDesk

/-- What a strategy would do. -/
inductive Direction where
  | buy
  | sell
  | hold
deriving Repr, DecidableEq

namespace Direction

def label : Direction → String
  | buy => "BUY"
  | sell => "SELL"
  | hold => "HOLD"

def all : List Direction := [buy, sell, hold]

def isActionable (d : Direction) : Bool := d ≠ hold

end Direction

/-- Why the volatility gate turned an evaluation into a hold. -/
def volatilityFilterFailed : String := "volatility_filter_failed"

/-- A strategy's proposal for one market. The rationale holds JSON trees. -/
structure Signal where
  strategyName : String
  symbol : String
  direction : Direction
  confidence : Float
  time : Instant
  rationale : SortedMap Document

/-- The nearest number from zero to one; zero for an undefined one. -/
def clampUnit (x : Float) : Float :=
  if x.isNaN then 0.0 else if x < 0.0 then 0.0 else if x > 1.0 then 1.0 else x

def isUnit (x : Float) : Bool := 0.0 <= x && x <= 1.0

namespace Signal

def make (strategyName symbol : String) (direction : Direction) (confidence : Float)
    (time : Instant) : Signal :=
  { strategyName, symbol, direction, confidence := clampUnit confidence, time, rationale := ∅ }

/-- The proposal to do nothing. -/
def hold (strategyName symbol : String) (time : Instant) : Signal :=
  make strategyName symbol .hold 0.0 time

def because (s : Signal) (key : String) (value : Document) : Signal :=
  { s with rationale := s.rationale.insert key value.canonical }

def isVetoed (s : Signal) : Bool :=
  match s.rationale.get? "reason" with
  | some (.text reason) => reason == volatilityFilterFailed
  | _ => false

end Signal

end SignalDesk
