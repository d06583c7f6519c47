import SignalDesk.Proofs.Evaluation
import SignalDesk.Proofs.IndicatorNames
import SignalDesk.Proofs.WrittenNumbers

namespace SignalDesk

namespace Indicator

/-- The multiplier of a band around a mean. -/
def multiplier? : Indicator → Option Float
  | bollinger _ _ multiplier => some multiplier
  | _ => none

/-- The indicator that has these parts in its name. -/
def ofParts? (period : Nat) (multiplier : Option Float) : String → Option Indicator
  | "sma_" => some (sma period)
  | "ema_" => some (ema period)
  | "rsi_" => some (rsi period)
  | "atr_" => some (atr period)
  | "bollinger_upper_" => multiplier.map (bollinger .upper period)
  | "bollinger_lower_" => multiplier.map (bollinger .lower period)
  | "donchian_upper_" => some (donchian .upper period)
  | "donchian_lower_" => some (donchian .lower period)
  | _ => none

theorem ofParts?_stem (indicator : Indicator) :
    ofParts? indicator.period indicator.multiplier? indicator.stem = some indicator := by
  cases indicator with
  | bollinger band _ _ => cases band <;> rfl
  | donchian band _ => cases band <;> rfl
  | _ => rfl

theorem suffix_eq (indicator : Indicator) :
    indicator.suffix = (indicator.multiplier?.map fun multiplier => "_" ++ showNumber multiplier).getD "" := by
  cases indicator <;> rfl

/-- What every rule makes sure of before it reads an indicator. -/
structure Sound (indicator : Indicator) : Prop where
  period : 1 ≤ indicator.period
  addressable : indicator.period < positionLimit
  multiplier : ∀ multiplier ∈ indicator.multiplier?, multiplier.isFinite = true ∧ 0.0 < multiplier

namespace Sound

variable {period : UInt64}

theorem plain {indicator : Indicator} (same : indicator.period = period.toNat) (positive : period.toNat ≠ 0)
    (noMultiplier : indicator.multiplier? = none) : indicator.Sound where
  period := by omega
  addressable := same ▸ period.toNat_lt
  multiplier := by simp only [noMultiplier, Option.mem_def, reduceCtorEq, false_implies, implies_true]

theorem bollinger {multiplier : Float} (band : Band) (positive : period.toNat ≠ 0)
    (finite : multiplier.isFinite = true) (above : 0.0 < multiplier) :
    (Indicator.bollinger band period.toNat multiplier).Sound where
  period := Nat.one_le_iff_ne_zero.mpr positive
  addressable := period.toNat_lt
  multiplier _ same := Option.some.inj same ▸ ⟨finite, above⟩

theorem movingAverage (average : MovingAverage) (positive : period.toNat ≠ 0) :
    (average.indicator period.toNat).Sound := by
  cases average <;> exact plain rfl positive rfl

/-- The name of a sound indicator tells all of it: a multiplier that the rules accept is written like no
other one. -/
theorem eq_of_name_eq {i j : Indicator} (iSound : i.Sound) (jSound : j.Sound) (same : i.name = j.name) :
    i = j := by
  obtain ⟨stems, periods, suffixes⟩ := parts_of_name_eq same
  have multipliers : i.multiplier? = j.multiplier? := by
    rw [suffix_eq, suffix_eq] at suffixes
    cases first : i.multiplier? with
    | none =>
      cases second : j.multiplier? with
      | none => rfl
      | some y => simp [first, second] at suffixes
    | some x =>
      cases second : j.multiplier? with
      | none => simp [first, second] at suffixes
      | some y =>
        have texts : showNumber x = showNumber y := by simpa [first, second] using suffixes
        obtain ⟨xFinite, xPositive⟩ := iSound.multiplier x first
        obtain ⟨yFinite, yPositive⟩ := jSound.multiplier y second
        rw [showNumber_injective xPositive xFinite yPositive yFinite texts]
  have known := i.ofParts?_stem
  rw [stems, periods, multipliers, j.ofParts?_stem] at known
  exact (Option.some.inj known).symm

end Sound

end Indicator

theorem TradingRule.indicators_sound {kind : StrategyKind} {rule : TradingRule}
    (accepted : kind.rule = .ok rule) : ∀ indicator ∈ rule.indicators, indicator.Sound := by
  cases kind with
  | trendFollowing fast slow average atr custom =>
    obtain ⟨s, made, rfl⟩ := map_eq_ok.mp accepted
    obtain ⟨fastPositive, atrPositive, longer, rfl⟩ := TrendFollowing.make?_eq_ok.mp made
    have slowPositive : slow.toNat ≠ 0 := by omega
    simp only [indicators, TrendFollowing.indicators, List.forall_mem_cons]
    exact ⟨.movingAverage average fastPositive, .movingAverage average slowPositive, .plain rfl atrPositive rfl,
      List.forall_mem_nil _⟩
  | meanReversion period multiplier rsi atr custom =>
    obtain ⟨s, made, rfl⟩ := map_eq_ok.mp accepted
    obtain ⟨⟨periodPositive, rsiPositive, atrPositive⟩, finite, above, rfl⟩ := MeanReversion.make?_eq_ok.mp made
    simp only [indicators, MeanReversion.indicators, List.forall_mem_cons]
    exact ⟨.bollinger .upper periodPositive finite above, .bollinger .lower periodPositive finite above,
      .plain rfl rsiPositive rfl, .plain rfl atrPositive rfl, List.forall_mem_nil _⟩
  | breakout period atr custom =>
    obtain ⟨s, made, rfl⟩ := map_eq_ok.mp accepted
    obtain ⟨periodPositive, atrPositive, rfl⟩ := Breakout.make?_eq_ok.mp made
    simp only [indicators, Breakout.indicators, List.forall_mem_cons]
    exact ⟨.plain rfl periodPositive rfl, .plain rfl periodPositive rfl, .plain rfl atrPositive rfl,
      List.forall_mem_nil _⟩
  | spreadReversion zscoreKey custom =>
    obtain ⟨s, made, rfl⟩ := map_eq_ok.mp accepted
    exact List.forall_mem_nil _

namespace StrategyKind

theorem indicators_of_rule {kind : StrategyKind} {rule : TradingRule} (accepted : kind.rule = .ok rule) :
    kind.indicators = rule.indicators := by
  simp only [indicators, accepted]

theorem indicators_sound (kind : StrategyKind) : ∀ indicator ∈ kind.indicators, indicator.Sound := by
  cases accepted : kind.rule with
  | error fault =>
    simp only [indicators, accepted]
    exact List.forall_mem_nil _
  | ok rule =>
    rw [indicators_of_rule accepted]
    exact TradingRule.indicators_sound accepted

end StrategyKind

end SignalDesk
