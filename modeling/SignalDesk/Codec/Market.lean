import SignalDesk.Codec.Basic
import SignalDesk.Snapshot
import SignalDesk.Volatility

namespace SignalDesk

open Decoder

def Timeframe.toDocument (t : Timeframe) : Document := .text t.label

def Timeframe.ofDocument (site : Site) : Decoder Timeframe :=
  choice site Timeframe.all Timeframe.label

/-- A gap in a bar is an undefined number like any other. -/
def Bar.toDocument (b : Bar Float) : Document :=
  .map [("timestamp", .text b.time.toText), ("open", .float b.opening), ("high", .float b.high),
    ("low", .float b.low), ("close", .float b.closing), ("volume", .float b.volume)]

/-- A bar has all of its numbers, so one whose gap was stored as `null` is refused. -/
def Bar.ofDocument : Decoder (Bar Float) := fun document => do
  let fs ← orderedFields .json ["timestamp", "open", "high", "low", "close", "volume"] document
  return {
    time := ← field fs "timestamp" instant
    opening := ← field fs "open" float
    high := ← field fs "high" float
    low := ← field fs "low" float
    closing := ← field fs "close" float
    volume := ← field fs "volume" float }

/-- A cache is a record of one field, which leads from the names to the series. -/
def SeriesCache.toDocument (cache : SeriesCache) : Document :=
  .map [("series", .ofSortedMap (fun values => .list (values.map .float)) cache)]

def SeriesCache.ofDocument : Decoder SeriesCache := fun document => do
  field (← orderedFields .json ["series"] document) "series" (sortedMap (items float))

/-- The series go with the bars that they were computed from. -/
def Snapshot.toDocument (s : Snapshot) : Document :=
  .map [("symbol", .text s.symbol), ("timeframe", s.timeframe.toDocument),
    ("bars", .list (s.bars.map Bar.toDocument)),
    ("indicators", SeriesCache.toDocument s.indicators)]

/-- What is read is not compared: the series may belong to other bars. -/
def Snapshot.ofDocument : Decoder Snapshot := fun document => do
  let fs ← orderedFields .json ["symbol", "timeframe", "bars", "indicators"] document
  return {
    symbol := ← field fs "symbol" string
    timeframe := ← field fs "timeframe" (Timeframe.ofDocument .json)
    bars := ← field fs "bars" (items Bar.ofDocument)
    indicators := ← field fs "indicators" SeriesCache.ofDocument }

/-- The answer of the gate goes with the bounds that it was given for. -/
def GateResult.toDocument (g : GateResult) : Document :=
  .map [("passed", .bool g.passed), ("min_threshold", .float g.minThreshold),
    ("max_threshold", .float g.maxThreshold), ("tested_value", .float g.testedValue)]

def GateResult.ofDocument : Decoder GateResult := fun document => do
  let fs ← orderedFields .json ["passed", "min_threshold", "max_threshold", "tested_value"] document
  return {
    passed := ← field fs "passed" bool
    minThreshold := ← field fs "min_threshold" float
    maxThreshold := ← field fs "max_threshold" float
    testedValue := ← field fs "tested_value" float }

end SignalDesk
