import SignalDesk.Proofs.TieBreaks

namespace SignalDesk

variable {ranks : Ranks} {policy strict loose : ConfidencePolicy} {mode : TradingMode} {signals : List Signal}
  {s : Signal}

/-- What a policy lets pass, one that asks for no more of the strategy lets pass as well. -/
theorem Tradable.looser (tradable : Tradable strict mode s)
    (less : loose.minimumFor s.strategyName mode ≤ strict.minimumFor s.strategyName mode) : Tradable loose mode s :=
  ⟨tradable.1, double_le_trans less tradable.2⟩

/-- If anything in a batch can be traded, a signal is accepted that is at least as confident. -/
theorem aggregate_accepts (member : s ∈ signals) (tradable : Tradable policy mode s) :
    ∃ t, aggregate ranks policy mode signals = .ok (.accepted t) ∧ s.confidence ≤ t.confidence := by
  obtain ⟨i, atPlace⟩ := List.getElem?_of_mem member
  have survives := mem_surviving.mpr ⟨atPlace, tradable⟩
  rw [aggregate_of_ne_nil (List.ne_nil_of_mem member)]
  rcases bestCandidate_spec ranks ((actionable signals).filter fun c => policy.admits mode c.2) with
    ⟨-, empty⟩ | ⟨place, t, found, leads, least⟩
  · exact absurd empty (List.ne_nil_of_mem survives)
  · have winner := (mem_surviving.mp leads).2
    have le := Candidate.confidence_le (least _ survives) winner.defined
    rw [found]
    exact ⟨t, rfl, le⟩

/-- Loosening the thresholds of the strategies in a batch never loses a trade: one policy accepts whenever a stricter one
does, and a signal that is at least as confident; so what it rejects altogether the stricter one rejects as well. -/
theorem aggregate_of_looser
    (looser : ∀ s ∈ signals, loose.minimumFor s.strategyName mode ≤ strict.minimumFor s.strategyName mode) :
    (∀ s, aggregate ranks strict mode signals = .ok (.accepted s) →
      ∃ t, aggregate ranks loose mode signals = .ok (.accepted t) ∧ s.confidence ≤ t.confidence) ∧
    ∀ reason best, aggregate ranks loose mode signals = .ok (.rejected reason best) →
      ∃ other, aggregate ranks strict mode signals = .ok (.rejected reason other) := by
  have kept (s : Signal) (accepted : aggregate ranks strict mode signals = .ok (.accepted s)) :
      ∃ t, aggregate ranks loose mode signals = .ok (.accepted t) ∧ s.confidence ≤ t.confidence := by
    obtain ⟨member, tradable⟩ := aggregate_accepted accepted
    exact aggregate_accepts member (tradable.looser (looser s member))
  refine ⟨kept, fun reason best rejected => ?_⟩
  have nonempty : signals ≠ [] := by
    rintro rfl
    cases rejected
  cases decided : bestCandidate ranks ((actionable signals).filter fun c => strict.admits mode c.2) with
  | none =>
    cases reason
    rw [aggregate_of_ne_nil nonempty, decided]
    exact ⟨_, rfl⟩
  | some s =>
    have accepted : aggregate ranks strict mode signals = .ok (.accepted s) := by
      rw [aggregate_of_ne_nil nonempty, decided]
    obtain ⟨t, otherwise, -⟩ := kept s accepted
    rw [rejected] at otherwise
    cases otherwise

/-- Asks for more of one strategy than of the others. -/
def waryPolicy : ConfidencePolicy := ⟨Thresholds.standard.withOverride "b" .paper 0.95⟩

/-- Asks for less of it. -/
def trustingPolicy : ConfidencePolicy := ⟨Thresholds.standard.withOverride "b" .paper 0.5⟩

/-- Under the looser policy the signal of that strategy takes the place of the accepted one. -/
theorem sellingSignal_of_looser :
    (∀ s ∈ [buyingSignal 0.8, sellingSignal 0.9],
      trustingPolicy.minimumFor s.strategyName .paper ≤ waryPolicy.minimumFor s.strategyName .paper) ∧
    aggregate ∅ waryPolicy .paper [buyingSignal 0.8, sellingSignal 0.9] = .ok (.accepted (buyingSignal 0.8)) ∧
    aggregate ∅ trustingPolicy .paper [buyingSignal 0.8, sellingSignal 0.9] = .ok (.accepted (sellingSignal 0.9)) ∧
    (buyingSignal 0.8).confidence ≤ (sellingSignal 0.9).confidence := by
  have looser : ∀ s ∈ [buyingSignal 0.8, sellingSignal 0.9],
      trustingPolicy.minimumFor s.strategyName .paper ≤ waryPolicy.minimumFor s.strategyName .paper := by
    decide +kernel
  have wary : aggregate ∅ waryPolicy .paper [buyingSignal 0.8, sellingSignal 0.9] =
      .ok (.accepted (buyingSignal 0.8)) := rfl
  have trusting : aggregate ∅ trustingPolicy .paper [buyingSignal 0.8, sellingSignal 0.9] =
      .ok (.accepted (sellingSignal 0.9)) := rfl
  obtain ⟨t, accepted, le⟩ := (aggregate_of_looser looser).1 _ wary
  obtain rfl : t = sellingSignal 0.9 := Verdict.accepted.inj (Except.ok.inj (accepted.symm.trans trusting))
  exact ⟨looser, wary, trusting, le⟩

end SignalDesk
