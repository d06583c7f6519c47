import SignalDesk.Proofs.MapContents
import SignalDesk.Proofs.Refusals

namespace SignalDesk

/-- What can go wrong when a market is judged by series that are asked for: the market has too little data, a
setting makes no sense, or some of the series are not there. -/
def Fault.OfEvaluation (market : Snapshot) (required : List String) : Fault → Prop
  | insufficientData _ => True
  | missingIndicators keys => keys ≠ [] ∧ ∀ key ∈ keys, key ∈ required ∧ market.indicators.contains key = false
  | invalidParameter fault => OfSetting (.invalidParameter fault)
  | _ => False

section Market

variable {market : Snapshot} {required : List String}

theorem Fault.OfSetting.ofEvaluation {fault : Fault} (setting : fault.OfSetting) :
    fault.OfEvaluation market required := by
  cases fault with
  | invalidParameter fault => exact setting
  | _ => exact setting.elim

theorem FaultsIn.ofSetting {α : Type} {answer : Except Fault α} (faults : FaultsIn Fault.OfSetting answer) :
    FaultsIn (Fault.OfEvaluation market required) answer :=
  faults.mono fun _ => Fault.OfSetting.ofEvaluation

/-- A series that is asked for may be missed. -/
theorem Fault.ofEvaluation_missing {key : String} (asked : key ∈ required)
    (absent : market.indicators.get? key = none) : OfEvaluation market required (.missingIndicators [key]) := by
  refine ⟨List.cons_ne_nil _ _, fun other member => ?_⟩
  obtain rfl := List.mem_singleton.mp member
  exact ⟨asked, by rw [SortedMap.contains, absent]; rfl⟩

theorem volatilityGate_faults (series : List Float) (low high : Float) :
    FaultsIn (Fault.OfEvaluation market required) (volatilityGate series low high) := by
  refine .ite (.error trivial) ?_
  split
  · exact .error trivial
  · refine .ite (.error trivial) ?_
    dsimp only
    split
    · exact .ok _
    · exact .error trivial

theorem finiteBack_faults {key : String} (asked : key ∈ required) (back : Nat) :
    FaultsIn (Fault.OfEvaluation market required) (market.finiteBack key back) := by
  unfold Snapshot.finiteBack
  split
  · rename_i absent
    exact .error (Fault.ofEvaluation_missing asked absent)
  · split
    · exact .ite (.ok _) (.error trivial)
    · exact .error trivial

theorem latestFinite_faults {key : String} (asked : key ∈ required) :
    FaultsIn (Fault.OfEvaluation market required) (market.latestFinite key) :=
  finiteBack_faults asked 0

theorem previousFinite_faults {key : String} (asked : key ∈ required) :
    FaultsIn (Fault.OfEvaluation market required) (market.previousFinite key) :=
  finiteBack_faults asked 1

theorem latestClose_faults : FaultsIn (Fault.OfEvaluation market required) market.latestClose := by
  unfold Snapshot.latestClose
  split
  · exact .error trivial
  · exact .ite (.ok _) (.ite (.error trivial) (.error trivial))

theorem checkVolatility_faults {key : String} (asked : key ∈ required) (p : Parameters) :
    FaultsIn (Fault.OfEvaluation market required) (checkVolatility market key p) := by
  refine .bind p.volatilityBand_faults.ofSetting ?_
  rintro ⟨low, high⟩
  dsimp only
  split
  · rename_i absent
    exact .error (Fault.ofEvaluation_missing asked absent)
  · exact .bind p.volatilityLookback_faults.ofSetting fun _ => volatilityGate_faults _ low high

theorem preflight_faults (name : String) (p : Parameters) :
    FaultsIn (Fault.OfEvaluation market required) (preflight name required market p) := by
  refine .bind p.validate_faults.ofSetting fun _ => ?_
  dsimp only
  split
  · split
    · exact .ok _
    · exact .error trivial
  · rename_i some
    refine .error ⟨by simpa using some, fun key missing => ?_⟩
    simpa [SeriesCache.missing] using missing

end Market

namespace TradingRule

/-- The series of a spread, which no indicator provides. -/
def zscoreKey? : TradingRule → Option String
  | spreadReversion rule => some rule.zscoreKey
  | _ => none

/-- A rule asks for the names of its indicators and for the series of its spread. -/
theorem mem_required {rule : TradingRule} {key : String} :
    key ∈ rule.strategy.required ↔
      (∃ indicator ∈ rule.indicators, indicator.name = key) ∨ rule.zscoreKey? = some key := by
  cases rule with
  | spreadReversion rule =>
    simp [strategy, SpreadReversion.strategy, SpreadReversion.required, indicators, zscoreKey?, eq_comm]
  | trendFollowing rule =>
    simp only [strategy, TrendFollowing.strategy, TrendFollowing.required, indicators, zscoreKey?, mem_sortedNames,
      List.mem_map, reduceCtorEq, or_false]
  | meanReversion rule =>
    simp only [strategy, MeanReversion.strategy, MeanReversion.required, indicators, zscoreKey?, mem_sortedNames,
      List.mem_map, reduceCtorEq, or_false]
  | breakout rule =>
    simp only [strategy, Breakout.strategy, Breakout.required, indicators, zscoreKey?, mem_sortedNames,
      List.mem_map, reduceCtorEq, or_false]

theorem name_mem_required (rule : TradingRule) {indicator : Indicator} (reads : indicator ∈ rule.indicators) :
    indicator.name ∈ rule.strategy.required :=
  mem_required.mpr (Or.inl ⟨indicator, reads, rfl⟩)

/-- A rule misses no series but those that it asks for, and it refuses a market for nothing else than its data
and the settings. -/
theorem evaluate_faults (rule : TradingRule) (market : Snapshot) (p : Parameters) :
    FaultsIn (Fault.OfEvaluation market rule.strategy.required) (rule.strategy.evaluate market p) := by
  cases rule with
  | trendFollowing rule =>
    have fast := name_mem_required (.trendFollowing rule) (.head _)
    have slow := name_mem_required (.trendFollowing rule) (.tail _ (.head _))
    have volatility := name_mem_required (.trendFollowing rule) (.tail _ (.tail _ (.head _)))
    refine .bind (preflight_faults rule.name p) fun _ => ?_
    refine .bind (p.positive_faults _ _).ofSetting fun _ => ?_
    refine .bind (checkVolatility_faults volatility p) fun _ => .ite (.ok _) ?_
    refine .bind (latestFinite_faults fast) fun _ => ?_
    refine .bind (latestFinite_faults slow) fun _ => ?_
    exact .ite (.error trivial) (.ok _)
  | meanReversion rule =>
    have upper := name_mem_required (.meanReversion rule) (.head _)
    have lower := name_mem_required (.meanReversion rule) (.tail _ (.head _))
    have oscillator := name_mem_required (.meanReversion rule) (.tail _ (.tail _ (.head _)))
    have volatility := name_mem_required (.meanReversion rule) (.tail _ (.tail _ (.tail _ (.head _))))
    refine .bind (preflight_faults rule.name p) fun _ => ?_
    refine .bind (rule.bounds_faults p).ofSetting fun _ => ?_
    refine .bind (checkVolatility_faults volatility p) fun _ => .ite (.ok _) ?_
    refine .bind latestClose_faults fun _ => ?_
    refine .bind (latestFinite_faults upper) fun _ => ?_
    refine .bind (latestFinite_faults lower) fun _ => ?_
    exact .bind (latestFinite_faults oscillator) fun _ => .ok _
  | breakout rule =>
    have upper := name_mem_required (.breakout rule) (.head _)
    have lower := name_mem_required (.breakout rule) (.tail _ (.head _))
    have volatility := name_mem_required (.breakout rule) (.tail _ (.tail _ (.head _)))
    refine .bind (preflight_faults rule.name p) fun _ => ?_
    refine .bind (checkVolatility_faults volatility p) fun _ => .ite (.ok _) ?_
    refine .bind latestClose_faults fun _ => ?_
    refine .bind (previousFinite_faults upper) fun _ => ?_
    refine .bind (previousFinite_faults lower) fun _ => ?_
    exact .bind (latestFinite_faults volatility) fun _ => .ok _
  | spreadReversion rule =>
    have zscore : rule.zscoreKey ∈ (TradingRule.spreadReversion rule).strategy.required :=
      mem_required.mpr (Or.inr rfl)
    refine .bind (preflight_faults rule.name p) fun _ => ?_
    refine .bind (p.positive_faults _ _).ofSetting fun _ => ?_
    refine .bind (p.positive_faults _ _).ofSetting fun _ => .ite (.error trivial) ?_
    exact .bind (latestFinite_faults zscore) fun _ => .ok _

end TradingRule

end SignalDesk
