import SignalDesk.Proofs.CycleSections
import SignalDesk.Proofs.OverrideCalls

namespace SignalDesk

/-- What is at least a number is at least any double of that number. -/
theorem double_le_congr {x y z : Float} (same : (x == y) = true) : x ≤ z ↔ y ≤ z := by
  obtain ⟨xDefined, yDefined, place⟩ := double_beq_iff.mp same
  rw [le_iff_linePlace, le_iff_linePlace, xDefined, yDefined, place]

namespace ConfidencePolicy

variable {policy other : ConfidencePolicy} {mode : TradingMode}

/-- Of a strategy the policies ask for the same double, or for two that are one number, as the zeros are. -/
def AgreeOn (policy other : ConfidencePolicy) (mode : TradingMode) (strategy : String) : Prop :=
  policy.minimumFor strategy mode = other.minimumFor strategy mode ∨
    (policy.minimumFor strategy mode == other.minimumFor strategy mode) = true

theorem AgreeOn.admits {s : Signal} (agree : policy.AgreeOn other mode s.strategyName) :
    policy.admits mode s = other.admits mode s := by
  unfold ConfidencePolicy.admits
  rcases agree with same | same
  · rw [same]
  · exact decide_eq_decide.mpr (double_le_congr same)

end ConfidencePolicy

/-- The policy is asked about the strategies in the batch and for the mode, be a signal accepted or not. -/
theorem aggregate_of_agree {ranks : Ranks} {policy other : ConfidencePolicy} {mode : TradingMode}
    {signals : List Signal} (agree : ∀ s ∈ signals, policy.AgreeOn other mode s.strategyName) :
    aggregate ranks policy mode signals = aggregate ranks other mode signals := by
  by_cases empty : signals = []
  · rw [empty]
    rfl
  · have admits : ∀ c ∈ actionable signals, policy.admits mode c.2 = other.admits mode c.2 := by
      rintro ⟨place, s⟩ member
      exact (agree s (List.mem_of_getElem? (mem_actionable.mp member).1)).admits
    rw [aggregate_of_ne_nil empty, aggregate_of_ne_nil empty, List.filter_congr admits,
      List.filter_congr fun c member => congrArg not (admits c member)]

namespace Desk

/-- The desk under another policy. -/
def under (desk : Desk) (policy : ConfidencePolicy) : Desk := { desk with policy }

variable {desk : Desk} {other : ConfidencePolicy}

/-- The signals for a market are all of enabled strategies. -/
theorem evaluateMarket_of_agree (reach : desk.registry.CreatedReach)
    (agree : ∀ e ∈ desk.registry.enabled, desk.policy.AgreeOn other desk.mode e.name) (market : Snapshot) :
    (desk.under other).evaluateMarket market = desk.evaluateMarket market := by
  have verdict : aggregate desk.registry.ranks desk.policy desk.mode
      ((desk.registry.evaluate market).filterMap Evaluation.signal?) =
        aggregate desk.registry.ranks other desk.mode
          ((desk.registry.evaluate market).filterMap Evaluation.signal?) := by
    refine aggregate_of_agree fun s inside => ?_
    obtain ⟨e, enabled, evaluated⟩ := mem_evaluate_signals.mp inside
    rw [reach.signal_named (List.mem_of_mem_filter enabled) evaluated]
    exact agree e enabled
  simp only [evaluateMarket, under, verdict]

theorem runCycle_of_agree (reach : desk.registry.CreatedReach)
    (agree : ∀ e ∈ desk.registry.enabled, desk.policy.AgreeOn other desk.mode e.name) (markets : List Snapshot) :
    (desk.under other).runCycle markets = desk.runCycle markets := by
  have sections : markets.map (desk.under other).evaluateMarket = markets.map desk.evaluateMarket :=
    List.map_congr_left fun market _ => evaluateMarket_of_agree reach agree market
  rw [runCycle, sections]
  rfl

/-- A cycle depends on its policy only by what this asks of the enabled strategies in the mode of the desk. So
whoever keeps the thresholds of the mode, the general one and those of the enabled strategies, may change the
thresholds of the other mode and all that is there for strategies that are disabled or not registered. -/
theorem runCycle_under (reach : desk.registry.CreatedReach) (markets : List Snapshot) :
    (∀ other : ConfidencePolicy,
      (∀ e ∈ desk.registry.enabled, desk.policy.AgreeOn other desk.mode e.name) →
        (desk.under other).runCycle markets = desk.runCycle markets) ∧
    ∀ t : Thresholds, t.minimum desk.mode = desk.policy.thresholds.minimum desk.mode →
      (∀ e ∈ desk.registry.enabled,
        t.override? e.name desk.mode = desk.policy.thresholds.override? e.name desk.mode) →
        (desk.under ⟨t⟩).runCycle markets = desk.runCycle markets := by
  refine ⟨fun other agree => runCycle_of_agree reach agree markets, fun t general own => ?_⟩
  refine runCycle_of_agree reach (fun e enabled => Or.inl ?_) markets
  rw [ConfidencePolicy.minimumFor_eq, ConfidencePolicy.minimumFor_eq, general, own e enabled]

end Desk

/-- Asks for less on paper, and by name of a strategy that is disabled and of one that is not there. -/
def elsewherePolicy : ConfidencePolicy where
  thresholds := { Thresholds.standard with paperMinimum := 0.5 }.withOverrides
    [⟨"spare", .real, 0.1⟩, ⟨"absent", .real, 0.2⟩, ⟨"spread_reversion", .paper, 0.0⟩]

/-- A desk for real money reports the same under it, with a signal accepted. -/
theorem mixedDesk_runCycle_under :
    mixedDesk.registry.CreatedReach ∧ mixedDesk.mode = .real ∧
      (∀ e ∈ mixedDesk.registry.enabled, mixedDesk.policy.AgreeOn elsewherePolicy .real e.name) ∧
      (mixedDesk.under elsewherePolicy).runCycle [twoSpreads] = mixedDesk.runCycle [twoSpreads] ∧
      ((mixedDesk.under elsewherePolicy).runCycle [twoSpreads]).accepted =
        [basisRule.answer "BTCUSDT" ⟨0, 0⟩ 2.0 4.0 (-4.0)] := by
  have names : mixedDesk.registry.enabled.map Entry.name = ["breakout", "quiet", "spread_reversion"] := rfl
  have general : ∀ name ∈ ["breakout", "quiet", "spread_reversion"],
      elsewherePolicy.thresholds.override? name .real = none := by
    simp only [elsewherePolicy, Thresholds.override?_withOverrides, List.forall_mem_cons]
    exact ⟨rfl, rfl, rfl, nofun⟩
  have agree : ∀ e ∈ mixedDesk.registry.enabled, mixedDesk.policy.AgreeOn elsewherePolicy .real e.name := by
    intro e enabled
    have named := List.mem_map_of_mem (f := Entry.name) enabled
    rw [names] at named
    have here : mixedDesk.policy.minimumFor e.name .real = 0.95 := rfl
    have elsewhere : elsewherePolicy.minimumFor e.name .real = 0.95 := by
      rw [ConfidencePolicy.minimumFor_eq, general e.name named]
      rfl
    exact Or.inl (here.trans elsewhere.symm)
  have same := (Desk.runCycle_under mixedDesk_reach [twoSpreads]).1 elsewherePolicy agree
  refine ⟨mixedDesk_reach, rfl, agree, same, ?_⟩
  rw [same, CycleReport.accepted, Desk.runCycle_singleton]
  rfl

end SignalDesk
