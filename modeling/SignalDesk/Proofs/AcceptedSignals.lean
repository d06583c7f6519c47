import SignalDesk.Cycle
import SignalDesk.Proofs.RegistryReach
import SignalDesk.Proofs.Selection
import SignalDesk.Proofs.Thresholds
import SignalDesk.Proofs.VolatilityVeto

namespace SignalDesk

theorem mem_evaluate_signals {r : Registry} {market : Snapshot} {s : Signal} :
    s ∈ (r.evaluate market).filterMap Evaluation.signal? ↔
      ∃ e ∈ r.enabled, e.strategy.evaluate market e.parameters = .ok s := by
  simp only [Registry.evaluate, List.filterMap_map, List.mem_filterMap, Function.comp_apply,
    Evaluation.signal?]
  refine exists_congr fun e => and_congr_right fun _ => ?_
  cases e.strategy.evaluate market e.parameters <;> simp [Except.toOption]

/-- What a desk accepts for a market is what its aggregator accepts of the signals there. -/
theorem evaluateMarket_accepted?_eq_some {desk : Desk} {market : Snapshot} {s : Signal} :
    (desk.evaluateMarket market).accepted? = some s ↔
      aggregate desk.registry.ranks desk.policy desk.mode
        ((desk.registry.evaluate market).filterMap Evaluation.signal?) = .ok (.accepted s) := by
  simp only [Desk.evaluateMarket, MarketReport.accepted?]
  cases aggregate desk.registry.ranks desk.policy desk.mode
      ((desk.registry.evaluate market).filterMap Evaluation.signal?) with
  | error fault => simp
  | ok verdict => cases verdict <;> simp [Verdict.accepted?]

theorem mem_runCycle_markets {desk : Desk} {markets : List Snapshot} {report : MarketReport} :
    report ∈ (desk.runCycle markets).markets ↔ ∃ market ∈ markets, desk.evaluateMarket market = report := by
  simp only [Desk.runCycle, List.mem_mergeSort, List.mem_map]

/-- All that stands behind a signal which a desk accepts for a market. -/
structure Desk.Backs (desk : Desk) (market : Snapshot) (s : Signal) (e : Entry) : Prop where
  registered : e ∈ desk.registry.entries
  enabled : e.parameters.enabled = true
  /-- The signal is the answer of the entry itself. -/
  evaluated : e.strategy.evaluate market e.parameters = .ok s
  trades : s.direction ≠ .hold
  notVetoed : s.isVetoed = false
  strategyName : s.strategyName = e.name
  symbol : s.symbol = market.symbol
  /-- The signal has the time of the last bar. -/
  time : market.asOf = some s.time
  confident : desk.policy.minimumFor e.name desk.mode ≤ s.confidence
  /-- Only an exception made for the strategy by name goes below the floor for real money. -/
  aboveFloor : desk.mode = .real →
    ((desk.policy.thresholds.overrides.get? e.name).bind ThresholdOverride.real) = none →
      0.85 ≤ s.confidence

theorem minimumFor_real_of_none {policy : ConfidencePolicy} {name : String}
    (noOverride : ((policy.thresholds.overrides.get? name).bind ThresholdOverride.real) = none) :
    policy.minimumFor name .real = policy.thresholds.realMinimum := by
  have absent : ((policy.thresholds.overrides.get? name).bind fun o => o.minimum .real) = none := noOverride
  simp [ConfidencePolicy.minimumFor, absent, Thresholds.minimum]

/-- An entry whose answer is accepted backs the signal, if its strategy was created from a kind. -/
theorem Desk.backs_of_accepted {desk : Desk} {market : Snapshot} {s : Signal} {e : Entry}
    {kind : StrategyKind} (sanctioned : desk.policy.Sanctioned) (member : e ∈ desk.registry.enabled)
    (created : kind.create = .ok e.strategy)
    (evaluated : e.strategy.evaluate market e.parameters = .ok s)
    (tradable : Tradable desk.policy desk.mode s) : desk.Backs market s e := by
  obtain ⟨registered, enabled⟩ := List.mem_filter.mp member
  obtain ⟨rule, -, same⟩ := map_eq_ok.mp created
  have ofRule := evaluated
  rw [← same] at ofRule
  obtain ⟨trades, confident⟩ := tradable
  obtain ⟨time, asOf, plain | ⟨gate, veto⟩⟩ := TradingRule.plain_or_veto ofRule
  · have named : s.strategyName = e.name := by rw [plain.name, same]; rfl
    rw [named] at confident
    exact {
      registered, enabled, evaluated, trades, confident
      notVetoed := plain.not_vetoed
      strategyName := named
      symbol := plain.symbol
      time := by rw [asOf, plain.time]
      aboveFloor := by
        intro real noOverride
        rw [real, minimumFor_real_of_none noOverride] at confident
        exact double_le_trans sanctioned.floor_le confident }
  · subst veto
    exact absurd rfl trades

/-- Whatever the registry has been through, and under every sanctioned policy: the sections of a cycle's
report are those of its markets, and a signal accepted in the section of a market is backed by exactly
one entry. -/
theorem Desk.accepted_backed {desk : Desk} (reach : desk.registry.CreatedReach)
    (sanctioned : desk.policy.Sanctioned) (markets : List Snapshot) :
    ∀ report ∈ (desk.runCycle markets).markets,
      (∃ market ∈ markets, desk.evaluateMarket market = report) ∧
        ∀ market, desk.evaluateMarket market = report → ∀ s, report.accepted? = some s →
          ∃! e, desk.Backs market s e := by
  intro report member
  refine ⟨mem_runCycle_markets.mp member, ?_⟩
  rintro market rfl s accepted
  obtain ⟨history, reached, created⟩ := reach.history
  obtain ⟨inBatch, tradable⟩ := aggregate_accepted (evaluateMarket_accepted?_eq_some.mp accepted)
  obtain ⟨e, enabled, evaluated⟩ := mem_evaluate_signals.mp inBatch
  obtain ⟨kind, ofKind⟩ := reached.created created (List.mem_of_mem_filter enabled)
  have backs := Desk.backs_of_accepted sanctioned enabled ofKind evaluated tradable
  refine ⟨e, backs, ?_⟩
  intro other backsToo
  have sameName : other.name = e.name := backsToo.strategyName.symm.trans backs.strategyName
  exact reached.entry_of_name backsToo.registered backs.registered sameName

/-- A market whose spread is four deviations below its mean. -/
def wideSpread : Snapshot where
  symbol := "BTCUSDT"
  timeframe := .hour
  bars := [⟨⟨0, 0⟩, 100.0, 101.0, 99.0, 100.0, 5.0⟩]
  indicators := (∅ : SeriesCache).insert "basis_z" [-4.0]

def basisRule : SpreadReversion := ⟨"spread_reversion", "basis_z"⟩

/-- A desk for real money with one strategy. -/
def basisDesk : Desk where
  registry := Registry.empty.run [.register basisRule.strategy ⟨"spread_reversion", ∅, true⟩]
  policy := .standard
  mode := .real

theorem basisDesk_accepted_backed :
    basisDesk.registry.CreatedReach ∧ basisDesk.policy.Sanctioned ∧
      ∃ report ∈ (basisDesk.runCycle [wideSpread]).markets, ∃ s, report.accepted? = some s ∧
        ∃! e, basisDesk.Backs wideSpread s e := by
  have reach : basisDesk.registry.CreatedReach := by
    refine ⟨_, ?_, rfl⟩
    intro command member
    obtain rfl := List.mem_singleton.mp member
    exact ⟨.spreadReversion "basis_z" none, rfl⟩
  have accepted : (basisDesk.evaluateMarket wideSpread).accepted? =
      some (basisRule.answer "BTCUSDT" ⟨0, 0⟩ 2.0 4.0 (-4.0)) := rfl
  have reported : basisDesk.evaluateMarket wideSpread ∈ (basisDesk.runCycle [wideSpread]).markets :=
    mem_runCycle_markets.mpr ⟨wideSpread, List.mem_singleton_self _, rfl⟩
  have backed := Desk.accepted_backed reach (Or.inl rfl) [wideSpread] _ reported
  exact ⟨reach, Or.inl rfl, _, reported, _, accepted, backed.2 wideSpread rfl _ accepted⟩

end SignalDesk
