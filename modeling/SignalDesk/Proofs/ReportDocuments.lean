import SignalDesk.Codec.Report
import SignalDesk.Proofs.CycleSections
import SignalDesk.Proofs.SignalDocuments
import SignalDesk.Proofs.SnapshotDocuments

namespace SignalDesk

open Document Decoder

theorem StrategyFailure.ofDocument_toDocument (f : StrategyFailure) :
    StrategyFailure.ofDocument f.toDocument.canonical = .ok f := by
  simp [ofDocument, toDocument, field, lookup_stored, List.lookup_cons]

theorem TradingMode.ofDocument_toDocument (site : Site) (m : TradingMode) :
    TradingMode.ofDocument site m.toDocument.canonical = .ok m := by
  cases m <;> rfl

/-- The verdict of an outcome, if there is one. -/
def Outcome.verdict? : Outcome → Option Verdict
  | aggregated verdict => some verdict
  | noSignals => none

theorem Outcome.ofDocument_toDocument {outcome : Outcome}
    (sound : ∀ verdict ∈ outcome.verdict?, ∀ s ∈ verdict.signal?, s.Sound ∧ s.time.Regular) :
    Outcome.ofDocument outcome.toDocument.canonical = .ok outcome := by
  cases outcome with
  | aggregated verdict =>
    have read := Verdict.ofDocument_toDocument (sound verdict rfl) .tagged
    have word : tagWord .json ["aggregated", "no_signals"] (Document.text "aggregated").canonical =
        .ok "aggregated" := rfl
    simp [ofDocument, toDocument, field, lookup_stored, List.lookup_cons, read, word]
  | noSignals =>
    have word : tagWord .json ["aggregated", "no_signals"] (Document.text "no_signals").canonical =
        .ok "no_signals" := rfl
    simp [ofDocument, toDocument, field, lookup_stored, word]

namespace MarketReport

/-- The order in which the fields are read makes no difference to a report that is read. -/
theorem ofFields_of_ofItems {fields : List (String × Document)} {r : MarketReport} (read : ofItems fields = .ok r) :
    ofFields fields = .ok r := by
  simp only [ofItems, bind_eq_ok] at read
  obtain ⟨symbol, readSymbol, timeframe, readTimeframe, asOf, readAsOf, signals, readSignals, failures, readFailures,
    outcome, readOutcome, same⟩ := read
  rw [ofFields, fieldOr_of_field readAsOf none, ok_bind, readFailures, ok_bind, field?_of_field readOutcome, ok_bind,
    field?_of_field readSignals, ok_bind, field?_of_field readSymbol, ok_bind, field?_of_field readTimeframe, ok_bind]
  exact same

/-- A list that is read as a report stands for the record that gives its items their names. -/
theorem ofDocument_list {items : List Document} {r : MarketReport}
    (read : MarketReport.ofDocument (.list items) = .ok r) :
    MarketReport.ofDocument
      (.map (["symbol", "timeframe", "as_of", "signals", "failures", "outcome"].zip items)) = .ok r := by
  obtain ⟨value, readItems, counted⟩ := bind_eq_ok.mp read
  split at counted
  · cases counted
    exact ofFields_of_ofItems readItems
  · cases counted

/-- Every signal of a report and the time of its market can be stored. -/
structure Storable (r : MarketReport) : Prop where
  asOf : ∀ time ∈ r.asOf, time.Regular
  signals : ∀ s ∈ r.signals, s.Sound ∧ s.time.Regular
  verdict : ∀ verdict ∈ r.outcome.verdict?, ∀ s ∈ verdict.signal?, s.Sound ∧ s.time.Regular

theorem ofDocument_toDocument {r : MarketReport} (storable : r.Storable) :
    MarketReport.ofDocument r.toDocument.canonical = .ok r := by
  have asOf : optional instant (Document.ofOption (fun time => .text time.toText) r.asOf).canonical = .ok r.asOf :=
    optional_canonical (fun time given => instant_toText (storable.asOf time given)) nofun
  have signals : items (Signal.ofDocument .json) (list (r.signals.map Signal.toDocument)).canonical =
      .ok r.signals :=
    items_canonical_ok fun s member =>
      (storable.signals s member).1.ofDocument_toDocument (storable.signals s member).2 .json
  have failures : items StrategyFailure.ofDocument (list (r.failures.map StrategyFailure.toDocument)).canonical =
      .ok r.failures :=
    items_canonical_ok fun f _ => f.ofDocument_toDocument
  have none : r.failures.isEmpty = true → r.failures = [] := List.isEmpty_iff.mp
  simp [ofDocument, ofFields, toDocument, field?, fieldOr_eq, lookup_stored_given, List.lookup_cons, asOf,
    elim_unless none failures, signals, Outcome.ofDocument_toDocument storable.verdict,
    Timeframe.ofDocument_toDocument, Except.map, present, -List.isEmpty_iff]

end MarketReport

namespace CycleReport

theorem ofDocument_toDocument {r : CycleReport} (storable : ∀ market ∈ r.markets, market.Storable) :
    CycleReport.ofDocument r.toDocument.canonical = .ok r := by
  have strategies : items string (ofTexts r.strategies).canonical = .ok r.strategies :=
    items_canonical_ok fun name _ => string_canonical name
  have markets : items MarketReport.ofDocument (list (r.markets.map MarketReport.toDocument)).canonical =
      .ok r.markets :=
    items_canonical_ok fun market member => market.ofDocument_toDocument (storable market member)
  simp [ofDocument, toDocument, field?, lookup_stored, List.lookup_cons, strategies, markets,
    TradingMode.ofDocument_toDocument, Except.map, present]

end CycleReport

theorem bestCandidate_mem {ranks : Ranks} {pool : List Candidate} {s : Signal}
    (best : bestCandidate ranks pool = some s) : ∃ place, (place, s) ∈ pool := by
  rcases bestCandidate_spec ranks pool with ⟨nobody, -⟩ | ⟨place, other, found, member, -⟩
  · simp [nobody] at best
  · obtain rfl : other = s := Option.some.inj (found.symm.trans best)
    exact ⟨place, member⟩

/-- A verdict speaks of one of the signals that it was reached over. -/
theorem aggregate_signal?_mem {ranks : Ranks} {policy : ConfidencePolicy} {mode : TradingMode}
    {signals : List Signal} {verdict : Verdict} (decided : aggregate ranks policy mode signals = .ok verdict) :
    ∀ s ∈ verdict.signal?, s ∈ signals := by
  have inBatch {keep : Candidate → Bool} {s : Signal}
      (best : bestCandidate ranks ((actionable signals).filter keep) = some s) : s ∈ signals := by
    obtain ⟨place, member⟩ := bestCandidate_mem best
    exact List.mem_of_getElem? (mem_actionable.mp (List.mem_of_mem_filter member)).1
  have nonempty : signals ≠ [] := by
    rintro rfl
    cases decided
  rw [aggregate_of_ne_nil nonempty] at decided
  split at decided
  · rename_i winner found
    cases decided
    rintro s ⟨⟩
    exact inBatch found
  -- a refusal names the best signal that there was
  · cases decided
    exact fun s best => inBatch best

namespace Signal.Obtainable

theorem trendFollowing (s : TrendFollowing) (symbol : String) (time : Instant)
    (saturation volatility fast slow : Float) :
    (s.answer symbol time saturation volatility fast slow).Obtainable :=
  .because _ _ (.because _ _ (.because _ _ (.because _ _ (.make _ _ _ _ _))))

theorem meanReversion (s : MeanReversion) (symbol : String) (time : Instant) (bounds : Float × Float)
    (volatility close upper lower rsi : Float) :
    (s.answer symbol time bounds volatility close upper lower rsi).Obtainable :=
  .because _ _ (.because _ _ (.because _ _ (.because _ _ (.because _ _ (.make _ _ _ _ _)))))

theorem breakout (s : Breakout) (symbol : String) (time : Instant) (close upper lower volatility : Float) :
    (s.answer symbol time close upper lower volatility).Obtainable :=
  .because _ _ (.because _ _ (.because _ _ (.because _ _ (.make _ _ _ _ _))))

theorem spreadReversion (s : SpreadReversion) (symbol : String) (time : Instant)
    (entry saturation zscore : Float) :
    (s.answer symbol time entry saturation zscore).Obtainable :=
  .because _ _ (.because _ _ (.make _ _ _ _ _))

theorem gated {name key : String} {market : Snapshot} {p : Parameters} {time : Instant} {s : Signal}
    (gated : Gated name key market p time (fun _ s => s.Obtainable) s) : s.Obtainable := by
  obtain ⟨gate, -, ⟨-, rfl⟩ | ⟨-, proposed⟩⟩ := gated
  · exact .because _ _ (.because _ _ (.because _ _ (.because _ _ (.hold _ _ _))))
  · exact proposed

end Signal.Obtainable

namespace Desk

variable {desk : Desk} {market : Snapshot}

end Desk

end SignalDesk
