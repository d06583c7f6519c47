import SignalDesk.Event
import SignalDesk.Volatility

namespace SignalDesk

inductive RejectionReason where
  | belowConfidenceThreshold
deriving Repr, DecidableEq

def RejectionReason.label : RejectionReason → String
  | .belowConfidenceThreshold => "below_confidence_threshold"

/-- What becomes of a batch of signals: the one to trade, or the best of those that fell short. -/
inductive Verdict where
  | accepted (signal : Signal)
  | rejected (reason : RejectionReason) (best : Option Signal)

def Verdict.accepted? : Verdict → Option Signal
  | .accepted signal => some signal
  | .rejected .. => none

/-- Registration ranks by strategy name. -/
abbrev Ranks := SortedMap Nat

/-- The rank of a strategy that is not in the table. -/
def unregisteredRank : Nat := UInt64.size - 1

def Ranks.of (ranks : Ranks) (strategy : String) : Nat := (ranks.get? strategy).getD unregisteredRank

/-- A signal with its place in the batch. -/
abbrev Candidate := Nat × Signal

/-- A higher confidence wins, then a smaller rank, then an earlier place. -/
def Candidate.beats (ranks : Ranks) (challenger incumbent : Candidate) : Bool :=
  let new := totalRank challenger.2.confidence
  let old := totalRank incumbent.2.confidence
  let newRank := ranks.of challenger.2.strategyName
  let oldRank := ranks.of incumbent.2.strategyName
  decide (old < new) ||
    decide (old = new) &&
      (decide (newRank < oldRank) || decide (newRank = oldRank) && decide (challenger.1 < incumbent.1))

/-- The candidate that no later one beats. -/
def bestCandidate (ranks : Ranks) (candidates : List Candidate) : Option Signal :=
  (candidates.foldl (fun best challenger =>
    match best with
    | none => some challenger
    | some incumbent =>
      if challenger.beats ranks incumbent then some challenger else some incumbent) none).map Prod.snd

/-- The signals that propose a trade, each with its place in the whole batch. -/
def actionable (signals : List Signal) : List Candidate :=
  (signals.mapIdx fun position signal => (position, signal)).filter fun c => c.2.direction.isActionable

/-- Confident enough for the policy. -/
def ConfidencePolicy.admits (policy : ConfidencePolicy) (mode : TradingMode) (s : Signal) : Bool :=
  s.confidence >= policy.minimumFor s.strategyName mode

/-- Decides over a batch of signals. -/
def aggregate (ranks : Ranks) (policy : ConfidencePolicy) (mode : TradingMode)
    (signals : List Signal) : Except Fault Verdict :=
  if signals.isEmpty then .error .emptyInput
  else
    let (surviving, discarded) := (actionable signals).partition fun c => policy.admits mode c.2
    match bestCandidate ranks surviving with
    | some signal => .ok (.accepted signal)
    | none => .ok (.rejected .belowConfidenceThreshold (bestCandidate ranks discarded))

/-- Decides over the signals of each symbol on their own. -/
def aggregateBySymbol (ranks : Ranks) (policy : ConfidencePolicy) (mode : TradingMode)
    (signals : List Signal) : Except Fault (SortedMap Verdict) :=
  if signals.isEmpty then .error .emptyInput
  else do
    let verdicts ← (sortedNames (signals.map Signal.symbol)).mapM fun symbol => do
      return (symbol, ← aggregate ranks policy mode (signals.filter fun s => s.symbol == symbol))
    return SortedMap.ofList verdicts

/-- What is told of a decision: each signal that falls short, then the verdict. -/
def aggregationEvents (ranks : Ranks) (policy : ConfidencePolicy) (mode : TradingMode)
    (signals : List Signal) : List Event :=
  let short := (actionable signals).filter fun c => !policy.admits mode c.2
  match aggregate ranks policy mode signals with
  | .error _ => []
  | .ok verdict =>
    short.map (fun c => .belowThreshold c.2 (policy.minimumFor c.2.strategyName mode) mode) ++
      [match verdict with
        | .accepted signal => .signalAccepted signal mode
        | .rejected reason _ => .noSignalAccepted reason.label mode signals.length]

def aggregationEventsBySymbol (ranks : Ranks) (policy : ConfidencePolicy) (mode : TradingMode)
    (signals : List Signal) : List Event :=
  (sortedNames (signals.map Signal.symbol)).flatMap fun symbol =>
    aggregationEvents ranks policy mode (signals.filter fun s => s.symbol == symbol)

end SignalDesk
