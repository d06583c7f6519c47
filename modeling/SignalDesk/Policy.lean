import SignalDesk.Fault
import SignalDesk.Signal
import SignalDesk.SortedMap

namespace SignalDesk

/-- Whether money is at stake. -/
inductive TradingMode where
  | paper
  | real
deriving Repr, DecidableEq

def TradingMode.label : TradingMode → String
  | .paper => "paper"
  | .real => "real"

def TradingMode.all : List TradingMode := [.paper, .real]

/-- The minimum confidences of one strategy, where they differ from the general ones. -/
structure ThresholdOverride where
  paper : Option Float
  real : Option Float
deriving BEq

def ThresholdOverride.minimum (o : ThresholdOverride) : TradingMode → Option Float
  | .paper => o.paper
  | .real => o.real

/-- The least confidence with which a signal is traded. -/
structure Thresholds where
  paperMinimum : Float
  realMinimum : Float
  overrides : SortedMap ThresholdOverride
deriving BEq

namespace Thresholds

def defaultPaperMinimum : Float := 0.75

def defaultRealMinimum : Float := 0.95

def standard : Thresholds := ⟨defaultPaperMinimum, defaultRealMinimum, ∅⟩

def minimum (t : Thresholds) : TradingMode → Float
  | .paper => t.paperMinimum
  | .real => t.realMinimum

def withOverride (t : Thresholds) (strategy : String) (mode : TradingMode) (value : Float) :
    Thresholds :=
  let current := (t.overrides.get? strategy).getD ⟨none, none⟩
  let changed := match mode with
    | .paper => { current with paper := some value }
    | .real => { current with real := some value }
  { t with overrides := t.overrides.insert strategy changed }

/-- Every threshold under the name that messages give it. -/
def fields (t : Thresholds) : List (String × Float) :=
  ("paper_trading_min", t.paperMinimum) :: ("real_trading_min", t.realMinimum) ::
    t.overrides.entries.flatMap fun (name, o) =>
      (o.paper.map fun value => (s!"overrides.{name}.paper", value)).toList ++
        (o.real.map fun value => (s!"overrides.{name}.real", value)).toList

/-- Every threshold lies in the unit interval. -/
def validate (t : Thresholds) : Except Fault Unit :=
  match t.fields.find? fun field => !isUnit field.2 with
  | some (field, value) => .error (.invalidThreshold (.outsideUnit field value))
  | none => .ok ()

def checkRealFloor (t : Thresholds) : Except Fault Unit :=
  if t.realMinimum < realMinimumFloor then
    .error (.invalidThreshold (.realBelowFloor t.realMinimum))
  else .ok ()

/-- The bounds within which a desk is run. -/
def validateOperatingBounds (t : Thresholds) : Except Fault Unit := do
  t.validate
  if paperMinimumRange.1 <= t.paperMinimum && t.paperMinimum <= paperMinimumRange.2 then
    t.checkRealFloor
  else .error (.invalidThreshold (.paperOutsideRange t.paperMinimum))

end Thresholds

/-- Thresholds that have been accepted. -/
structure ConfidencePolicy where
  thresholds : Thresholds

namespace ConfidencePolicy

def standard : ConfidencePolicy := ⟨.standard⟩

def ofThresholds? (t : Thresholds) : Except Fault ConfidencePolicy := do
  t.validate
  t.checkRealFloor
  return ⟨t⟩

def minimumFor (policy : ConfidencePolicy) (strategy : String) (mode : TradingMode) : Float :=
  ((policy.thresholds.overrides.get? strategy).bind fun o => o.minimum mode).getD
    (policy.thresholds.minimum mode)

end ConfidencePolicy

end SignalDesk
