import SignalDesk.Cycle

namespace SignalDesk

/-- A strategy as a desk is configured with it. -/
structure StrategyEntry where
  kind : StrategyKind
  enabled : Bool
  parameters : SortedMap Setting
deriving BEq

/-- The parameters bear the strategy's name. -/
def StrategyEntry.attached (e : StrategyEntry) : Parameters :=
  ⟨e.kind.name, e.parameters, e.enabled⟩

structure DeskConfig where
  mode : TradingMode
  thresholds : Thresholds
  strategies : List StrategyEntry
deriving BEq

/-- The step of building a desk that a fault belongs to. -/
inductive BuildStep where
  | bounds
  | policy
  | creation (strategy : String)
  | registration (strategy : String)
deriving Repr, DecidableEq

def BuildStep.context : BuildStep → Option String
  | .bounds => some "Confidence thresholds outside operating bounds"
  | .policy => none
  | .creation strategy => some s!"Failed to build strategy `{strategy}`"
  | .registration strategy => some s!"Failed to register strategy `{strategy}`"

structure BuildFault where
  step : BuildStep
  fault : Fault

/-- The context, then the fault itself. -/
def BuildFault.chain (b : BuildFault) : List String := b.step.context.toList ++ [b.fault.message]

/-- Puts a fault at its step. -/
def atStep {α : Type} (step : BuildStep) : Except Fault α → Except BuildFault α
  | .ok value => .ok value
  | .error fault => .error ⟨step, fault⟩

/-- What a step-by-step construction has told, and how it ended. -/
structure Construction (α : Type) where
  events : List Event
  result : Except BuildFault α

namespace DeskConfig

def standard : DeskConfig := ⟨.paper, .standard, []⟩

def kinds (c : DeskConfig) : List StrategyKind := c.strategies.map StrategyEntry.kind

def indicators (c : DeskConfig) : List Indicator := indicatorSet c.kinds

/-- Creates the strategy of an entry and registers it. -/
def addEntry (r : Registry) (e : StrategyEntry) : Except BuildFault (Registry × Event) := do
  let strategy ← atStep (.creation e.kind.name) e.kind.create
  atStep (.registration e.kind.name) (r.apply (.register strategy e.attached))

/-- Adds entries up to the first that is refused. -/
def addEntries (r : Registry) : List StrategyEntry → Construction Registry
  | [] => ⟨[], .ok r⟩
  | e :: rest =>
    match addEntry r e with
    | .error fault => ⟨[], .error fault⟩
    | .ok (next, event) =>
      let later := addEntries next rest
      ⟨event :: later.events, later.result⟩

/-- The thresholds, checked before any strategy is created. -/
def checkedPolicy (c : DeskConfig) : Except BuildFault ConfidencePolicy := do
  atStep .bounds c.thresholds.validateOperatingBounds
  atStep .policy (ConfidencePolicy.ofThresholds? c.thresholds)

/-- What is told of a desk that stands. -/
def completionEvents (c : DeskConfig) (r : Registry) : List Event :=
  (c.thresholds.overrides.keys.filter fun name => !r.contains name).map .unconfiguredOverride ++
    [.deskConfigured c.mode r.entries.length r.enabled.length]

def construct (c : DeskConfig) : Construction Desk :=
  match c.checkedPolicy with
  | .error fault => ⟨[], .error fault⟩
  | .ok policy =>
    let added := addEntries .empty c.strategies
    match added.result with
    | .error fault => ⟨added.events, .error fault⟩
    | .ok registry => ⟨added.events ++ c.completionEvents registry, .ok ⟨registry, policy, c.mode⟩⟩

def build (c : DeskConfig) : Except BuildFault Desk := c.construct.result

end DeskConfig

end SignalDesk
