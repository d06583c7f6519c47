import SignalDesk.Indicator
import SignalDesk.SortedMap
import SignalDesk.Timeframe

namespace SignalDesk

/-- Indicator series by name. -/
abbrev SeriesCache := SortedMap (List Float)

namespace SeriesCache

/-- Of two series of one name the later one stays. -/
def compute (bars : List (Bar Float)) (indicators : List Indicator) : Except Defect SeriesCache :=
  indicators.foldlM (fun cache indicator => do
    return cache.insert indicator.name (← indicator.compute bars)) SortedMap.empty

def valueAt (cache : SeriesCache) (name : String) (index : Nat) : Option Float := do
  (← cache.get? name)[index]?

def latest (cache : SeriesCache) (name : String) : Option Float := do (← cache.get? name).getLast?

def missing (cache : SeriesCache) (names : List String) : List String :=
  names.filter fun name => !cache.contains name

end SeriesCache

/-- What is known of one market at one moment. -/
structure Snapshot where
  symbol : String
  timeframe : Timeframe
  bars : List (Bar Float)
  indicators : SeriesCache

namespace Snapshot

def latestBar (s : Snapshot) : Option (Bar Float) := s.bars.getLast?

def asOf (s : Snapshot) : Option Instant := s.latestBar.map Bar.time

/-- The value that stands `back` places before the last one of a series, if it is finite. -/
def finiteBack (s : Snapshot) (key : String) (back : Nat) : Except Fault Float :=
  match s.indicators.get? key with
  | none => .error (.missingIndicators [key])
  | some series =>
    match series.reverse[back]? with
    | some value =>
      if value.isFinite then .ok value else .error (.insufficientData (.notFinite key back))
    | none => .error (.insufficientData (.notFinite key back))

def latestFinite (s : Snapshot) (key : String) : Except Fault Float := s.finiteBack key 0

def previousFinite (s : Snapshot) (key : String) : Except Fault Float := s.finiteBack key 1

/-- The last close of a bar that can be relied on. -/
def latestClose (s : Snapshot) : Except Fault Float :=
  match s.latestBar with
  | none => .error (.insufficientData (.marketWithoutBars s.symbol))
  | some bar =>
    if bar.isSane then .ok bar.closing
    else if bar.isVoid then .error (.insufficientData (.voidBar s.symbol bar.time))
    else .error (.insufficientData (.insaneBar s.symbol bar.time))

end Snapshot

end SignalDesk
