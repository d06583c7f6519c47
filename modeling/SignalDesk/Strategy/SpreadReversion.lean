import SignalDesk.Strategy

namespace SignalDesk

/-- Trades a spread back to its mean when its z-score is far out. -/
structure SpreadReversion where
  name : String
  zscoreKey : String

namespace SpreadReversion

def make? (name zscoreKey : String) : Except Fault SpreadReversion :=
  if isBlankText zscoreKey then .error (.invalidParameter .emptyZscoreKey)
  else .ok { name, zscoreKey }

def required (s : SpreadReversion) : List String := [s.zscoreKey]

def direction (zscore entry : Float) : Direction :=
  if zscore <= -entry then .buy else if zscore >= entry then .sell else .hold

def confidence (direction : Direction) (zscore saturation : Float) : Float :=
  if direction.isActionable then Scalar.smaller (zscore.abs / saturation) 1.0 else 0.0

def evaluate (s : SpreadReversion) (market : Snapshot) (p : Parameters) : Except Fault Signal := do
  let time ← preflight s.name s.required market p
  let entry ← p.positive "entry_z" 2.0
  let saturation ← p.positive "saturation_z" 4.0
  if saturation < entry then
    .error (.invalidParameter (.saturationBelowEntry s.name saturation entry))
  else
    let zscore ← market.latestFinite s.zscoreKey
    let direction := direction zscore entry
    .ok <| Signal.make s.name market.symbol direction (confidence direction zscore saturation) time
      |>.because "zscore" (.float zscore)
      |>.because "entry_z" (.float entry)

def strategy (s : SpreadReversion) : Strategy := ⟨s.name, s.required, s.evaluate⟩

end SpreadReversion

end SignalDesk
