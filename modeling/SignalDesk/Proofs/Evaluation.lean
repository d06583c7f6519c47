import Mathlib.Logic.Basic
import SignalDesk.Proofs.VolatilityGate
import SignalDesk.StrategyKind

namespace SignalDesk

@[simp] theorem Signal.because_get? (s : Signal) (key : String) (value : Document) (k : String) :
    (s.because key value).rationale.get? k = if k = key then some value.canonical else s.rationale.get? k :=
  s.rationale.get?_insert key k value.canonical

theorem preflight_eq_ok {name : String} {required : List String} {market : Snapshot} {p : Parameters}
    {time : Instant} :
    preflight name required market p = .ok time ↔
      p.validate = .ok () ∧ market.indicators.missing required = [] ∧ market.asOf = some time := by
  simp only [preflight, bind_eq_ok]
  constructor
  · rintro ⟨⟨⟩, valid, rest⟩
    split at rest
    · rename_i present
      split at rest
      · rename_i asOf
        cases rest
        exact ⟨valid, List.isEmpty_iff.mp present, asOf⟩
      · cases rest
    · cases rest
  · rintro ⟨valid, present, asOf⟩
    exact ⟨(), valid, by simp [present, asOf]⟩

/-- How a rule with a gate answers: with the veto if the gate fails, and else with what it proposes. -/
def Gated (name key : String) (market : Snapshot) (p : Parameters) (time : Instant)
    (proposes : GateResult → Signal → Prop) (signal : Signal) : Prop :=
  ∃ gate, checkVolatility market key p = .ok gate ∧
    (gate.passed = false ∧ volatilityVeto name market.symbol time gate = signal ∨
      gate.passed = true ∧ proposes gate signal)

/-- Only what is proposed behind the gate trades. -/
theorem Gated.proposed {name key : String} {market : Snapshot} {p : Parameters} {time : Instant}
    {proposes : GateResult → Signal → Prop} {s : Signal} (gated : Gated name key market p time proposes s)
    (trades : s.direction ≠ .hold) : ∃ gate, proposes gate s := by
  obtain ⟨gate, -, ⟨-, rfl⟩ | ⟨-, proposed⟩⟩ := gated
  · exact absurd rfl trades
  · exact ⟨gate, proposed⟩

theorem TrendFollowing.make?_eq_ok {name : String} {fast slow : Nat} {average : MovingAverage} {atr : Nat}
    {s : TrendFollowing} :
    make? name fast slow average atr = .ok s ↔
      fast ≠ 0 ∧ atr ≠ 0 ∧ fast < slow ∧ ⟨name, fast, slow, average, atr⟩ = s := by
  simp only [make?, ite_eq_iff, reduceCtorEq, and_false, false_or, Except.ok.injEq, not_or, Nat.not_le,
    and_assoc, ne_eq]

/-- What the averages propose. -/
def TrendFollowing.answer (s : TrendFollowing) (symbol : String) (time : Instant)
    (saturation volatility fast slow : Float) : Signal :=
  let spread := spreadPercent fast slow
  let direction := direction spread
  Signal.make s.name symbol direction (confidence direction spread saturation) time
    |>.because "fast_ma" (.float fast)
    |>.because "slow_ma" (.float slow)
    |>.because "spread_pct" (.float spread)
    |>.because "volatility" (.float volatility)

theorem TrendFollowing.evaluate_eq_ok {s : TrendFollowing} {market : Snapshot} {p : Parameters}
    {signal : Signal} :
    s.evaluate market p = .ok signal ↔
      ∃ time, preflight s.name s.required market p = .ok time ∧
        ∃ saturation, p.positive "spread_saturation_pct" 2.0 = .ok saturation ∧
          Gated s.name (Indicator.atr s.atr).name market p time (fun gate signal =>
            ∃ fast, market.latestFinite (s.average.indicator s.fast).name = .ok fast ∧
              ∃ slow, market.latestFinite (s.average.indicator s.slow).name = .ok slow ∧
                ¬slow ≤ 0.0 ∧
                s.answer market.symbol time saturation gate.testedValue fast slow = signal) signal := by
  simp only [evaluate, Gated, answer, bind_eq_ok, ite_eq_iff, Bool.not_eq_true', Bool.not_eq_false,
    Except.ok.injEq, reduceCtorEq, and_false, false_or]

theorem MeanReversion.make?_eq_ok {name : String} {period : Nat} {multiplier : Float} {rsi atr : Nat}
    {s : MeanReversion} :
    make? name period multiplier rsi atr = .ok s ↔
      (period ≠ 0 ∧ rsi ≠ 0 ∧ atr ≠ 0) ∧ multiplier.isFinite = true ∧ multiplier > 0.0 ∧
        ⟨name, period, multiplier, rsi, atr⟩ = s := by
  simp only [make?, ite_eq_iff, reduceCtorEq, and_false, false_or, or_false, Except.ok.injEq, not_or,
    Bool.and_eq_true, decide_eq_true_eq, and_assoc, ne_eq]

/-- What the band and the oscillator propose. -/
def MeanReversion.answer (s : MeanReversion) (symbol : String) (time : Instant)
    (bounds : Float × Float) (volatility close upper lower rsi : Float) : Signal :=
  let (direction, confidence) := proposal close upper lower rsi bounds.1 bounds.2
  Signal.make s.name symbol direction (Scalar.smaller confidence 1.0) time
    |>.because "close" (.float close)
    |>.because "upper_band" (.float upper)
    |>.because "lower_band" (.float lower)
    |>.because "rsi" (.float rsi)
    |>.because "volatility" (.float volatility)

theorem MeanReversion.evaluate_eq_ok {s : MeanReversion} {market : Snapshot} {p : Parameters}
    {signal : Signal} :
    s.evaluate market p = .ok signal ↔
      ∃ time, preflight s.name s.required market p = .ok time ∧
        ∃ bounds, s.bounds p = .ok bounds ∧
          Gated s.name (Indicator.atr s.atr).name market p time (fun gate signal =>
            ∃ close, market.latestClose = .ok close ∧
              ∃ upper, market.latestFinite (Indicator.bollinger .upper s.period s.multiplier).name = .ok upper ∧
                ∃ lower, market.latestFinite (Indicator.bollinger .lower s.period s.multiplier).name = .ok lower ∧
                  ∃ rsi, market.latestFinite (Indicator.rsi s.rsi).name = .ok rsi ∧
                    s.answer market.symbol time bounds gate.testedValue close upper lower rsi = signal) signal := by
  simp only [evaluate, Gated, answer, bind_eq_ok, ite_eq_iff, Bool.not_eq_true', Bool.not_eq_false,
    Except.ok.injEq]

theorem Breakout.make?_eq_ok {name : String} {period atr : Nat} {s : Breakout} :
    make? name period atr = .ok s ↔ period ≠ 0 ∧ atr ≠ 0 ∧ ⟨name, period, atr⟩ = s := by
  simp only [make?, ite_eq_iff, reduceCtorEq, and_false, false_or, Except.ok.injEq, not_or, and_assoc,
    ne_eq]

/-- What the channel proposes. -/
def Breakout.answer (s : Breakout) (symbol : String) (time : Instant)
    (close upper lower volatility : Float) : Signal :=
  let (direction, excess) := escape close upper lower
  Signal.make s.name symbol direction (confidence direction excess volatility) time
    |>.because "close" (.float close)
    |>.because "breakout_level" (.float (if close < lower then lower else upper))
    |>.because "excess" (.float excess)
    |>.because "volatility" (.float volatility)

theorem Breakout.evaluate_eq_ok {s : Breakout} {market : Snapshot} {p : Parameters} {signal : Signal} :
    s.evaluate market p = .ok signal ↔
      ∃ time, preflight s.name s.required market p = .ok time ∧
        Gated s.name (Indicator.atr s.atr).name market p time (fun _ signal =>
          ∃ close, market.latestClose = .ok close ∧
            ∃ upper, market.previousFinite (Indicator.donchian .upper s.period).name = .ok upper ∧
              ∃ lower, market.previousFinite (Indicator.donchian .lower s.period).name = .ok lower ∧
                ∃ volatility, market.latestFinite (Indicator.atr s.atr).name = .ok volatility ∧
                  s.answer market.symbol time close upper lower volatility = signal) signal := by
  simp only [evaluate, Gated, answer, bind_eq_ok, ite_eq_iff, Bool.not_eq_true', Bool.not_eq_false,
    Except.ok.injEq]

theorem SpreadReversion.make?_eq_ok {name zscoreKey : String} {s : SpreadReversion} :
    make? name zscoreKey = .ok s ↔ isBlankText zscoreKey = false ∧ ⟨name, zscoreKey⟩ = s := by
  simp only [make?, ite_eq_iff, reduceCtorEq, and_false, false_or, Except.ok.injEq, Bool.not_eq_true]

/-- What the z-score proposes. -/
def SpreadReversion.answer (s : SpreadReversion) (symbol : String) (time : Instant)
    (entry saturation zscore : Float) : Signal :=
  let direction := direction zscore entry
  Signal.make s.name symbol direction (confidence direction zscore saturation) time
    |>.because "zscore" (.float zscore)
    |>.because "entry_z" (.float entry)

theorem SpreadReversion.evaluate_eq_ok {s : SpreadReversion} {market : Snapshot} {p : Parameters}
    {signal : Signal} :
    s.evaluate market p = .ok signal ↔
      ∃ time, preflight s.name s.required market p = .ok time ∧
        ∃ entry, p.positive "entry_z" 2.0 = .ok entry ∧
          ∃ saturation, p.positive "saturation_z" 4.0 = .ok saturation ∧
            ¬saturation < entry ∧
            ∃ zscore, market.latestFinite s.zscoreKey = .ok zscore ∧
              s.answer market.symbol time entry saturation zscore = signal := by
  simp only [evaluate, answer, bind_eq_ok, ite_eq_iff, Except.ok.injEq, reduceCtorEq, and_false, false_or]

namespace StrategyKind

/-- The rule with the numbers of a kind, whether they make sense or not. -/
def describedRule (kind : StrategyKind) : TradingRule :=
  match kind with
  | trendFollowing fast slow average atr _ => .trendFollowing ⟨kind.name, fast.toNat, slow.toNat, average, atr.toNat⟩
  | meanReversion period multiplier rsi atr _ =>
    .meanReversion ⟨kind.name, period.toNat, multiplier, rsi.toNat, atr.toNat⟩
  | breakout period atr _ => .breakout ⟨kind.name, period.toNat, atr.toNat⟩
  | spreadReversion zscoreKey _ => .spreadReversion ⟨kind.name, zscoreKey⟩

/-- A kind is accepted as it is described. -/
theorem rule_eq_describedRule {kind : StrategyKind} {rule : TradingRule} (accepted : kind.rule = .ok rule) :
    rule = kind.describedRule := by
  cases kind with
  | trendFollowing fast slow average atr custom =>
    obtain ⟨s, made, rfl⟩ := map_eq_ok.mp accepted
    obtain ⟨-, -, -, rfl⟩ := TrendFollowing.make?_eq_ok.mp made
    rfl
  | meanReversion period multiplier rsi atr custom =>
    obtain ⟨s, made, rfl⟩ := map_eq_ok.mp accepted
    obtain ⟨-, -, -, rfl⟩ := MeanReversion.make?_eq_ok.mp made
    rfl
  | breakout period atr custom =>
    obtain ⟨s, made, rfl⟩ := map_eq_ok.mp accepted
    obtain ⟨-, -, rfl⟩ := Breakout.make?_eq_ok.mp made
    rfl
  | spreadReversion zscoreKey custom =>
    obtain ⟨s, made, rfl⟩ := map_eq_ok.mp accepted
    obtain ⟨-, rfl⟩ := SpreadReversion.make?_eq_ok.mp made
    rfl

theorem create_eq_ok {kind : StrategyKind} {strategy : Strategy} :
    kind.create = .ok strategy ↔ ∃ rule, kind.rule = .ok rule ∧ rule.strategy = strategy :=
  map_eq_ok

theorem create_name {kind : StrategyKind} {strategy : Strategy} (created : kind.create = .ok strategy) :
    strategy.name = kind.name := by
  obtain ⟨rule, accepted, rfl⟩ := create_eq_ok.mp created
  rw [rule_eq_describedRule accepted]
  cases kind <;> rfl

end StrategyKind

/-- A signal of a rule for a market that gives no reason for not trading. -/
structure Signal.Plain (s : Signal) (name symbol : String) (time : Instant) : Prop where
  name : s.strategyName = name
  symbol : s.symbol = symbol
  time : s.time = time
  silent : s.rationale.get? "reason" = none

namespace Signal.Plain

variable {s : Signal} {name symbol : String} {time : Instant}

theorem make (direction : Direction) (confidence : Float) :
    (Signal.make name symbol direction confidence time).Plain name symbol time :=
  ⟨rfl, rfl, rfl, rfl⟩

theorem because {key : String} (plain : s.Plain name symbol time) (value : Document)
    (different : "reason" ≠ key) : (s.because key value).Plain name symbol time where
  name := plain.name
  symbol := plain.symbol
  time := plain.time
  silent := by rw [because_get?, if_neg different, plain.silent]

theorem not_vetoed (plain : s.Plain name symbol time) : s.isVetoed = false := by
  unfold isVetoed
  rw [plain.silent]

end Signal.Plain

theorem TrendFollowing.answer_plain (s : TrendFollowing) (symbol : String) (time : Instant)
    (saturation volatility fast slow : Float) :
    (s.answer symbol time saturation volatility fast slow).Plain s.name symbol time := by
  unfold answer
  refine .because (.because (.because (.because (.make _ _) _ ?_) _ ?_) _ ?_) _ ?_ <;> decide

theorem MeanReversion.answer_plain (s : MeanReversion) (symbol : String) (time : Instant)
    (bounds : Float × Float) (volatility close upper lower rsi : Float) :
    (s.answer symbol time bounds volatility close upper lower rsi).Plain s.name symbol time := by
  unfold answer
  refine .because (.because (.because (.because (.because (.make _ _) _ ?_) _ ?_) _ ?_) _ ?_) _ ?_ <;>
    decide

theorem Breakout.answer_plain (s : Breakout) (symbol : String) (time : Instant)
    (close upper lower volatility : Float) :
    (s.answer symbol time close upper lower volatility).Plain s.name symbol time := by
  unfold answer
  refine .because (.because (.because (.because (.make _ _) _ ?_) _ ?_) _ ?_) _ ?_ <;> decide

theorem SpreadReversion.answer_plain (s : SpreadReversion) (symbol : String) (time : Instant)
    (entry saturation zscore : Float) :
    (s.answer symbol time entry saturation zscore).Plain s.name symbol time := by
  unfold answer
  refine .because (.because (.make _ _) _ ?_) _ ?_ <;> decide

end SignalDesk
