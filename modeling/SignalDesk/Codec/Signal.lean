import SignalDesk.Aggregation
import SignalDesk.Codec.Basic

namespace SignalDesk

open Decoder

def Direction.toDocument (d : Direction) : Document := .text d.label

def Direction.ofDocument (site : Site) : Decoder Direction :=
  choice site Direction.all Direction.label

/-- An empty rationale is not written. -/
def Signal.toDocument (s : Signal) : Document :=
  .record [("strategy_name", .some (.text s.strategyName)), ("symbol", .some (.text s.symbol)),
    ("direction", s.direction.toDocument), ("confidence", .some (.float s.confidence)),
    ("timestamp", .some (.text s.time.toText)),
    ("rationale", if s.rationale.isEmpty then none else some (.map s.rationale.entries))]

/-- The confidence is looked at when every field has been read. -/
def Signal.ofDocument (site : Site) : Decoder Signal := fun document => do
  let fs ← orderedFields site
    ["strategy_name", "symbol", "direction", "confidence", "timestamp", "rationale"] document
  let signal : Signal := {
    strategyName := ← field fs "strategy_name" string
    symbol := ← field fs "symbol" string
    direction := ← field fs "direction" (Direction.ofDocument site)
    confidence := ← field fs "confidence" float
    time := ← field fs "timestamp" instant
    rationale := ← fieldOr fs "rationale" ∅ (sortedMap fun value => .ok value.canonical) }
  if isUnit signal.confidence then return signal
  else .error (.confidence signal.strategyName signal.confidence)

def RejectionReason.toDocument (r : RejectionReason) : Document := .text r.label

def RejectionReason.ofDocument (site : Site) : Decoder RejectionReason :=
  choice site [.belowConfidenceThreshold] RejectionReason.label

def Verdict.toDocument : Verdict → Document
  | .accepted signal => .map [("verdict", .text "accepted"), ("signal", signal.toDocument)]
  | .rejected reason best =>
    .map [("verdict", .text "rejected"), ("reason", reason.toDocument),
      ("best_signal_considered", .ofOption Signal.toDocument best)]

/-- Of two faulty fields of a map the one with the lesser name counts. A list has to say that nothing was considered. -/
def Verdict.ofDocument (site : Site) : Decoder Verdict := fun document => do
  let (label, record) ← taggedRecord site "verdict" ["accepted", "rejected"] document
  let signal := Signal.ofDocument .tagged
  let reason (fs : List (String × Document)) := field fs "reason" (RejectionReason.ofDocument .tagged)
  if label = "accepted" then
    let read (fs : List (String × Document)) := return .accepted (← field fs "signal" signal)
    placedRecord ["signal"] read read record
  else if label = "rejected" then
    placedRecord ["reason", "best_signal_considered"]
      (fun fs => return .rejected (← reason fs) (← field fs "best_signal_considered" (optional signal)))
      (fun fs => do
        let best ← fieldOr fs "best_signal_considered" none (optional signal)
        return .rejected (← reason fs) best) record
  else .error .shape

end SignalDesk
