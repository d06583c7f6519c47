import SignalDesk.Proofs.Evaluation

namespace SignalDesk

/-- The period of the volatility that a kind of strategy watches, if it watches any. -/
def StrategyKind.atrPeriod? : StrategyKind → Option UInt64
  | trendFollowing _ _ _ atr _ | meanReversion _ _ _ atr _ | breakout _ atr _ => some atr
  | spreadReversion .. => none

/-- A signal follows the gate over a series: it is the veto exactly if the gate fails, and it proposes
a trade only if the last value of the series lies between the two thresholds. -/
structure FollowsGate (series : List Float) (p : Parameters) (gate : GateResult) (signal : Signal) :
    Prop where
  decided : ∃ low high lookback, p.volatilityBand = .ok (low, high) ∧
    p.volatilityLookback = .ok lookback ∧ volatilityGate (trailing lookback series) low high = .ok gate
  vetoed : signal.isVetoed = true ↔ gate.passed = false
  hold : gate.passed = false → signal.direction = .hold ∧ signal.confidence = 0.0
  reasons : gate.passed = false → signal.rationale.entries =
    [("reason", .text volatilityFilterFailed), ("volatility", .ofFloat gate.testedValue),
      ("volatility_max_threshold", .ofFloat gate.maxThreshold),
      ("volatility_min_threshold", .ofFloat gate.minThreshold)]
  inside : signal.direction ≠ .hold → ∃ last, series.getLast? = some last ∧
    gate.minThreshold ≤ last ∧ last ≤ gate.maxThreshold

theorem Gated.mono {name key : String} {market : Snapshot} {p : Parameters} {time : Instant}
    {proposes weaker : GateResult → Signal → Prop} {signal : Signal}
    (gated : Gated name key market p time proposes signal)
    (implies : ∀ gate s, proposes gate s → weaker gate s) :
    Gated name key market p time weaker signal := by
  obtain ⟨gate, checked, failed | ⟨passed, proposed⟩⟩ := gated
  · exact ⟨gate, checked, Or.inl failed⟩
  · exact ⟨gate, checked, Or.inr ⟨passed, implies gate signal proposed⟩⟩

theorem volatilityVeto_isVetoed (name symbol : String) (time : Instant) (gate : GateResult) :
    (volatilityVeto name symbol time gate).isVetoed = true := by
  simp [volatilityVeto, Signal.isVetoed, Document.canonical]

/-- What is not a veto was proposed behind the gate. -/
theorem Gated.proposed_of_plain {name key : String} {market : Snapshot} {p : Parameters} {time : Instant}
    {proposes : GateResult → Signal → Prop} {s : Signal} (gated : Gated name key market p time proposes s)
    (plain : s.isVetoed = false) : ∃ gate, proposes gate s := by
  obtain ⟨gate, -, ⟨-, rfl⟩ | ⟨-, proposed⟩⟩ := gated
  · rw [volatilityVeto_isVetoed] at plain
    cases plain
  · exact ⟨gate, proposed⟩

theorem Gated.followsGate {name key : String} {market : Snapshot} {p : Parameters} {time : Instant}
    {signal : Signal}
    (gated : Gated name key market p time (fun _ s => s.Plain name market.symbol time) signal) :
    ∃ series gate, market.indicators.get? key = some series ∧ FollowsGate series p gate signal := by
  obtain ⟨gate, checked, answered⟩ := gated
  obtain ⟨low, high, series, lookback, band, found, window, decided⟩ := checkVolatility_eq_ok.mp checked
  obtain ⟨-, lastTested, -, -, -, -, compared⟩ := volatilityGate_eq_ok.mp decided
  have decision : ∃ low high lookback, p.volatilityBand = .ok (low, high) ∧
      p.volatilityLookback = .ok lookback ∧ volatilityGate (trailing lookback series) low high = .ok gate :=
    ⟨low, high, lookback, band, window, decided⟩
  refine ⟨series, gate, found, ?_⟩
  rcases answered with ⟨failed, rfl⟩ | ⟨passed, plain⟩
  · exact {
      decided := decision
      vetoed := iff_of_true (volatilityVeto_isVetoed ..) failed
      hold := fun _ => ⟨rfl, show clampUnit 0.0 = 0.0 by decide⟩
      reasons := fun _ => rfl
      inside := fun trades => absurd rfl trades }
  · have within : gate.minThreshold ≤ gate.testedValue ∧ gate.testedValue ≤ gate.maxThreshold := by
      simpa [compared] using passed
    have notFailed : gate.passed ≠ false := by simp [passed]
    exact {
      decided := decision
      vetoed := iff_of_false (by simp [plain.not_vetoed]) notFailed
      hold := fun failed => absurd failed notFailed
      reasons := fun failed => absurd failed notFailed
      inside := fun _ => ⟨gate.testedValue, getLast?_of_trailing lastTested, within⟩ }

/-- The series that the gate of a rule watches. -/
def TradingRule.gateKey? : TradingRule → Option String
  | trendFollowing rule => some (Indicator.atr rule.atr).name
  | meanReversion rule => some (Indicator.atr rule.atr).name
  | breakout rule => some (Indicator.atr rule.atr).name
  | spreadReversion _ => none

theorem StrategyKind.rule_gateKey? {kind : StrategyKind} {rule : TradingRule}
    (accepted : kind.rule = .ok rule) :
    rule.gateKey? = kind.atrPeriod?.map fun atr => (Indicator.atr atr.toNat).name := by
  rw [rule_eq_describedRule accepted]
  cases kind <;> rfl

/-- Every rule with a gate answers through it, whatever else it reads. -/
theorem TradingRule.gated {rule : TradingRule} {key : String} {market : Snapshot} {p : Parameters}
    {signal : Signal} (watched : rule.gateKey? = some key)
    (evaluated : rule.strategy.evaluate market p = .ok signal) :
    ∃ time, market.asOf = some time ∧ Gated rule.strategy.name key market p time
      (fun _ s => s.Plain rule.strategy.name market.symbol time) signal := by
  cases rule with
  | trendFollowing rule =>
    cases watched
    obtain ⟨time, ready, saturation, -, gated⟩ := TrendFollowing.evaluate_eq_ok.mp evaluated
    refine ⟨time, (preflight_eq_ok.mp ready).2.2, gated.mono ?_⟩
    rintro gate s ⟨fast, -, slow, -, -, rfl⟩
    exact rule.answer_plain ..
  | meanReversion rule =>
    cases watched
    obtain ⟨time, ready, bounds, -, gated⟩ := MeanReversion.evaluate_eq_ok.mp evaluated
    refine ⟨time, (preflight_eq_ok.mp ready).2.2, gated.mono ?_⟩
    rintro gate s ⟨close, -, upper, -, lower, -, rsi, -, rfl⟩
    exact rule.answer_plain ..
  | breakout rule =>
    cases watched
    obtain ⟨time, ready, gated⟩ := Breakout.evaluate_eq_ok.mp evaluated
    refine ⟨time, (preflight_eq_ok.mp ready).2.2, gated.mono ?_⟩
    rintro gate s ⟨close, -, upper, -, lower, -, volatility, -, rfl⟩
    exact rule.answer_plain ..
  | spreadReversion rule => cases watched

/-- Every rule speaks in its own name of the market at its last bar, be it in plain words or by a veto. -/
theorem TradingRule.plain_or_veto {rule : TradingRule} {market : Snapshot} {p : Parameters}
    {signal : Signal} (evaluated : rule.strategy.evaluate market p = .ok signal) :
    ∃ time, market.asOf = some time ∧
      (signal.Plain rule.strategy.name market.symbol time ∨
        ∃ gate, volatilityVeto rule.strategy.name market.symbol time gate = signal) := by
  cases watched : rule.gateKey? with
  | some key =>
    obtain ⟨time, asOf, gate, -, answered⟩ := TradingRule.gated watched evaluated
    rcases answered with ⟨-, veto⟩ | ⟨-, plain⟩
    · exact ⟨time, asOf, Or.inr ⟨gate, veto⟩⟩
    · exact ⟨time, asOf, Or.inl plain⟩
  | none =>
    cases rule with
    | spreadReversion rule =>
      obtain ⟨time, ready, entry, -, saturation, -, -, zscore, -, rfl⟩ :=
        SpreadReversion.evaluate_eq_ok.mp evaluated
      exact ⟨time, (preflight_eq_ok.mp ready).2.2, Or.inl (rule.answer_plain ..)⟩
    | _ => cases watched

/-- A signal of a strategy that watches the volatility follows the gate over its series. -/
theorem StrategyKind.evaluate_followsGate {kind : StrategyKind} {atr : UInt64} {strategy : Strategy}
    {market : Snapshot} {p : Parameters} {signal : Signal} (watches : kind.atrPeriod? = some atr)
    (created : kind.create = .ok strategy) (evaluated : strategy.evaluate market p = .ok signal) :
    ∃ series gate, market.indicators.get? (Indicator.atr atr.toNat).name = some series ∧
      FollowsGate series p gate signal := by
  obtain ⟨rule, accepted, rfl⟩ := map_eq_ok.mp created
  have watched := rule_gateKey? accepted
  rw [watches] at watched
  obtain ⟨time, -, gated⟩ := TradingRule.gated watched evaluated
  exact gated.followsGate

/-- A market with one bar, a rising volatility and channels that have no value yet. -/
def restlessMarket : Snapshot where
  symbol := "BTCUSDT"
  timeframe := .hour
  bars := [⟨⟨0, 0⟩, 100.0, 101.0, 99.0, 100.0, 5.0⟩]
  indicators := (∅ : SeriesCache)
    |>.insert "atr_14" [1.0, 2.0]
    |>.insert "donchian_lower_20" []
    |>.insert "donchian_upper_20" []

/-- The same market after an outburst. -/
def calmingMarket : Snapshot :=
  { restlessMarket with indicators := restlessMarket.indicators.insert "atr_14" [9.0, 1.0, 2.0] }

/-- Parameters that let only the lower half of the volatilities pass. -/
def calmOnly : Parameters := Parameters.setBand ⟨"breakout", ∅, true⟩ 0.0 50.0

/-- Parameters that ask this of the last two volatilities. -/
def calmLately : Parameters := calmOnly.set volatilityLookbackName (.number 2.0)

theorem risingVolatility_gate : volatilityGate [1.0, 2.0] 0.0 50.0 = .ok ⟨false, 1.0, 1.5, 2.0⟩ := by
  have ascending : [(1.0 : Float), 2.0].Pairwise fun x y => totalLe x y = true := by decide
  have sorted : finiteSorted [1.0, 2.0] = [1.0, 2.0] := List.mergeSort_of_pairwise ascending
  refine volatilityGate_eq_ok.mpr ⟨by decide, rfl, by decide, ?_⟩
  rw [sorted]
  exact ⟨by decide, rfl, rfl, by decide⟩

/-- The later one of two volatilities is not in the lower half, and neither is the last one of three if the gate looks
back at two only. -/
theorem restlessMarket_followsGate :
    (StrategyKind.breakout 20 14 none).atrPeriod? = some 14 ∧
      ∃ strategy signal, (StrategyKind.breakout 20 14 none).create = .ok strategy ∧
        strategy.evaluate restlessMarket calmOnly = .ok signal ∧
        (∃ series gate, restlessMarket.indicators.get? (Indicator.atr (14 : UInt64).toNat).name = some series ∧
          FollowsGate series calmOnly gate signal) ∧
        strategy.evaluate calmingMarket calmLately = .ok signal ∧
        calmLately.volatilityLookback = .ok (some 2) ∧ trailing (some 2) [9.0, 1.0, 2.0] = [1.0, 2.0] ∧
        ∃ gate, calmingMarket.indicators.get? (Indicator.atr (14 : UInt64).toNat).name = some [9.0, 1.0, 2.0] ∧
          FollowsGate [9.0, 1.0, 2.0] calmLately gate signal := by
  have created : (StrategyKind.breakout 20 14 none).create =
      .ok (Breakout.strategy ⟨"breakout", 20, 14⟩) := rfl
  have vetoed {market : Snapshot} {p : Parameters} (symbol : market.symbol = "BTCUSDT")
      (ready : preflight "breakout" (Breakout.required ⟨"breakout", 20, 14⟩) market p = .ok ⟨0, 0⟩)
      (gate : checkVolatility market (Indicator.atr 14).name p = .ok ⟨false, 1.0, 1.5, 2.0⟩) :
      (Breakout.strategy ⟨"breakout", 20, 14⟩).evaluate market p =
        .ok (volatilityVeto "breakout" "BTCUSDT" ⟨0, 0⟩ ⟨false, 1.0, 1.5, 2.0⟩) :=
    Breakout.evaluate_eq_ok.mpr ⟨_, ready, _, gate, Or.inl ⟨rfl, by rw [symbol]⟩⟩
  have gate : checkVolatility restlessMarket (Indicator.atr 14).name calmOnly = .ok ⟨false, 1.0, 1.5, 2.0⟩ :=
    checkVolatility_eq_ok.mpr ⟨0.0, 50.0, [1.0, 2.0], none, rfl, rfl, rfl, risingVolatility_gate⟩
  have window : calmLately.volatilityLookback = .ok (some 2) := rfl
  have gateLately : checkVolatility calmingMarket (Indicator.atr 14).name calmLately = .ok ⟨false, 1.0, 1.5, 2.0⟩ :=
    checkVolatility_eq_ok.mpr ⟨0.0, 50.0, [9.0, 1.0, 2.0], some 2, rfl, rfl, window, risingVolatility_gate⟩
  have evaluated := vetoed rfl (preflight_eq_ok.mpr ⟨rfl, rfl, rfl⟩) gate
  have evaluatedLately := vetoed rfl (preflight_eq_ok.mpr ⟨rfl, rfl, rfl⟩) gateLately
  obtain ⟨series, other, found, follows⟩ := StrategyKind.evaluate_followsGate rfl created evaluatedLately
  obtain rfl : [9.0, 1.0, 2.0] = series := Option.some.inj found
  exact ⟨rfl, _, _, created, evaluated, StrategyKind.evaluate_followsGate rfl created evaluated, evaluatedLately,
    window, rfl, other, found, follows⟩

end SignalDesk
