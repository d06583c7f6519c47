namespace SignalDesk

/-- The span of one bar, shortest first. -/
inductive Timeframe where
  | minute
  | fiveMinutes
  | quarterHour
  | hour
  | fourHours
  | day
  | week
deriving Repr, DecidableEq

namespace Timeframe

def all : List Timeframe := [minute, fiveMinutes, quarterHour, hour, fourHours, day, week]

def label : Timeframe → String
  | minute => "1m"
  | fiveMinutes => "5m"
  | quarterHour => "15m"
  | hour => "1h"
  | fourHours => "4h"
  | day => "1d"
  | week => "1w"

/-- The place in the order of the spans. -/
def index : Timeframe → Nat
  | minute => 0
  | fiveMinutes => 1
  | quarterHour => 2
  | hour => 3
  | fourHours => 4
  | day => 5
  | week => 6

def ofLabel? (label : String) : Option Timeframe := all.find? fun t => t.label == label

theorem ofLabel?_label (t : Timeframe) : ofLabel? t.label = some t := by
  cases t <;> rfl

end Timeframe

end SignalDesk
