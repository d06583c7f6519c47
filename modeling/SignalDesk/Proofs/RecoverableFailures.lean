import SignalDesk.Proofs.CycleSections
import SignalDesk.Proofs.EvaluationFaults

namespace SignalDesk

theorem Fault.OfEvaluation.isLocal {market : Snapshot} {required : List String} {fault : Fault}
    (expected : fault.OfEvaluation market required) : fault.isLocal = true := by
  cases fault with
  | insufficientData | missingIndicators | invalidParameter => rfl
  | _ => exact expected.elim

/-- The decision over a batch is told of without a word on failures. -/
theorem strategyFailed_not_mem_aggregationEvents (ranks : Ranks) (policy : ConfidencePolicy) (mode : TradingMode)
    (signals : List Signal) (strategy symbol error : String) :
    .strategyFailed strategy symbol error ∉ aggregationEvents ranks policy mode signals := by
  unfold aggregationEvents
  dsimp only
  split
  · exact List.not_mem_nil
  · split <;> simp

/-- What an evaluation that was refused for a local fault leaves behind. -/
theorem Evaluation.recoverable {e : Evaluation} (localFaults : FaultsIn (fun fault => fault.isLocal = true) e.answer) :
    (∀ failure ∈ e.failure?, failure.recoverable = true) ∧
      ∀ market strategy symbol error, e.event? market ≠ some (.strategyFailed strategy symbol error) := by
  unfold failure? event?
  cases answer : e.answer with
  | ok s => exact ⟨nofun, nofun⟩
  | error fault =>
    have isLocal := localFaults fault answer
    refine ⟨?_, ?_⟩
    · rintro failure ⟨⟩
      exact isLocal
    · simp [isLocal]

theorem Registry.CreatedReach.evaluate_local {r : Registry} (reach : r.CreatedReach) {market : Snapshot}
    {e : Evaluation} (member : e ∈ r.evaluate market) :
    FaultsIn (fun fault => fault.isLocal = true) e.answer := by
  obtain ⟨entry, enabled, rfl⟩ := List.mem_map.mp member
  obtain ⟨history, reached, created⟩ := reach.history
  obtain ⟨kind, ofKind⟩ := reached.created created (List.mem_of_mem_filter enabled)
  obtain ⟨rule, -, same⟩ := map_eq_ok.mp ofKind
  rw [← same]
  exact (rule.evaluate_faults market entry.parameters).mono fun _ => Fault.OfEvaluation.isLocal

/-- A strategy created from a kind refuses a market only for missing series, for its settings or for too little
data, whatever the settings hold. So no failure of a cycle is ever a defect, and none is told of as one. -/
theorem failures_recoverable :
    (∀ (kind : StrategyKind) (strategy : Strategy), kind.create = .ok strategy →
      ∀ (market : Snapshot) (p : Parameters),
        (∃ s, strategy.evaluate market p = .ok s) ∨
        (∃ keys, strategy.evaluate market p = .error (.missingIndicators keys)) ∨
        (∃ fault, strategy.evaluate market p = .error (.invalidParameter fault)) ∨
        ∃ shortage, strategy.evaluate market p = .error (.insufficientData shortage)) ∧
    ∀ desk : Desk, desk.registry.CreatedReach → ∀ markets : List Snapshot,
      (∀ report ∈ (desk.runCycle markets).markets, ∀ failure ∈ report.failures, failure.recoverable = true) ∧
      ∀ strategy symbol error, .strategyFailed strategy symbol error ∉ desk.cycleEvents markets := by
  refine ⟨fun kind strategy created market p => ?_, fun desk reach markets => ⟨?_, ?_⟩⟩
  · obtain ⟨rule, -, rfl⟩ := StrategyKind.create_eq_ok.mp created
    have expected := rule.evaluate_faults market p
    cases answer : rule.strategy.evaluate market p with
    | ok s => exact Or.inl ⟨s, rfl⟩
    | error fault =>
      have sort := expected fault answer
      cases fault with
      | missingIndicators keys => exact Or.inr (Or.inl ⟨keys, rfl⟩)
      | invalidParameter fault => exact Or.inr (Or.inr (Or.inl ⟨fault, rfl⟩))
      | insufficientData shortage => exact Or.inr (Or.inr (Or.inr ⟨shortage, rfl⟩))
      | _ => exact sort.elim
  · intro report member failure failed
    obtain ⟨market, -, rfl⟩ := mem_runCycle_markets.mp member
    obtain ⟨evaluation, evaluated, same⟩ := List.mem_filterMap.mp failed
    exact (Evaluation.recoverable (reach.evaluate_local evaluated)).1 failure same
  · intro strategy symbol error told
    rcases List.mem_append.mp told with ofMarket | completion
    · obtain ⟨market, -, marketTold⟩ := List.mem_flatMap.mp ofMarket
      simp only [Desk.marketEvents, List.mem_append, List.mem_singleton, reduceCtorEq, or_false] at marketTold
      rcases marketTold with ofStrategy | ofBatch
      · obtain ⟨evaluation, evaluated, same⟩ := List.mem_filterMap.mp ofStrategy
        exact (Evaluation.recoverable (reach.evaluate_local evaluated)).2 _ _ _ _ same
      · exact strategyFailed_not_mem_aggregationEvents _ _ _ _ _ _ _ ofBatch
    · exact absurd (List.mem_singleton.mp completion) nofun

/-- Settings without sense: an undefined number, and a text where a number is read. -/
def senselessSettings : Parameters :=
  ⟨"breakout", SortedMap.ofList [("max_volatility_percentile", .text "high"), ("spread", .number (0.0 / 0.0))], true⟩

/-- Of the three strategies two miss their series. -/
theorem mixedDesk_failures_recoverable :
    (StrategyKind.breakout 20 14 none).create = .ok (Breakout.strategy ⟨"breakout", 20, 14⟩) ∧
      ((∃ s, Breakout.evaluate ⟨"breakout", 20, 14⟩ wideSpread senselessSettings = .ok s) ∨
        (∃ keys, Breakout.evaluate ⟨"breakout", 20, 14⟩ wideSpread senselessSettings =
          .error (.missingIndicators keys)) ∨
        (∃ fault, Breakout.evaluate ⟨"breakout", 20, 14⟩ wideSpread senselessSettings =
          .error (.invalidParameter fault)) ∨
        ∃ shortage, Breakout.evaluate ⟨"breakout", 20, 14⟩ wideSpread senselessSettings =
          .error (.insufficientData shortage)) ∧
      mixedDesk.registry.CreatedReach ∧
      (mixedDesk.evaluateMarket wideSpread).failures.map StrategyFailure.strategy = ["breakout", "quiet"] ∧
      ∀ failure ∈ (mixedDesk.evaluateMarket wideSpread).failures, failure.recoverable = true := by
  obtain ⟨answers, cycles⟩ := failures_recoverable
  have reported : mixedDesk.evaluateMarket wideSpread ∈ (mixedDesk.runCycle [wideSpread]).markets :=
    mem_runCycle_markets.mpr ⟨wideSpread, List.mem_singleton_self _, rfl⟩
  exact ⟨rfl, answers (.breakout 20 14 none) _ rfl wideSpread senselessSettings, mixedDesk_reach, rfl,
    (cycles mixedDesk mixedDesk_reach [wideSpread]).1 _ reported⟩

end SignalDesk
