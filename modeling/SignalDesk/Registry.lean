import SignalDesk.Aggregation
import SignalDesk.Fingerprint
import SignalDesk.StrategyKind

namespace SignalDesk

/-- A strategy at its desk. Its rank says when it was registered. -/
structure Entry where
  strategy : Strategy
  parameters : Parameters
  rank : Nat

def Entry.name (e : Entry) : String := e.strategy.name

/-- The strategies of a desk in the order of their registration. A rank is never given twice. -/
structure Registry where
  entries : List Entry
  nextRank : Nat

namespace Registry

def empty : Registry := ⟨[], 0⟩

def get? (r : Registry) (name : String) : Option Entry := r.entries.find? fun e => e.name == name

def contains (r : Registry) (name : String) : Bool := (r.get? name).isSome

def enabled (r : Registry) : List Entry := r.entries.filter fun e => e.parameters.enabled

def ranks (r : Registry) : Ranks := SortedMap.ofList (r.entries.map fun e => (e.name, e.rank))

/-- The series that the enabled strategies read. -/
def required (r : Registry) : List String :=
  sortedNames (r.enabled.flatMap fun e => e.strategy.required)

/-- The strategy of a name. -/
def find (r : Registry) (name : String) : Except Fault Entry :=
  match r.get? name with
  | some e => .ok e
  | none => .error (.strategyNotFound name)

/-- Parameters serve the strategy that they name, and only if they are valid. -/
def checkParameters (name : String) (p : Parameters) : Except Fault Unit :=
  if p.strategyId ≠ name then .error (.invalidParameter (.otherStrategy p.strategyId name))
  else p.validate

/-- Changes the entry of a name in its place. -/
def modify (r : Registry) (name : String) (change : Entry → Entry) : Registry :=
  { r with entries := r.entries.map fun e => if e.name = name then change e else e }

/-- A change of a registry by name. -/
inductive Command where
  | register (strategy : Strategy) (parameters : Parameters)
  | update (name : String) (parameters : Parameters)
  | setEnabled (name : String) (enabled : Bool)
  | deregister (name : String)

/-- The changed registry and what is told of it; a refused command changes and tells nothing. -/
def apply (r : Registry) : Command → Except Fault (Registry × Event)
  | .register strategy p => do
    checkParameters strategy.name p
    if r.contains strategy.name then .error (.duplicateStrategy strategy.name)
    else
      .ok (⟨r.entries ++ [⟨strategy, p, r.nextRank⟩], r.nextRank + 1⟩,
        .registered strategy.name p.shortFingerprint)
  | .update name p => do
    checkParameters name p
    let _ ← r.find name
    return (r.modify name fun e => { e with parameters := p },
      .parametersUpdated name p.shortFingerprint)
  | .setEnabled name enabled => do
    let _ ← r.find name
    return (r.modify name fun e => { e with parameters := e.parameters.setEnabled enabled },
      .toggled name enabled)
  | .deregister name => do
    let _ ← r.find name
    return ({ r with entries := r.entries.filter fun e => e.name ≠ name }, .deregistered name)

/-- The registry after commands, refused ones being passed over. -/
def run (r : Registry) (commands : List Command) : Registry :=
  commands.foldl (fun r command =>
    match r.apply command with
    | .ok (next, _) => next
    | .error _ => r) r

end Registry

end SignalDesk
