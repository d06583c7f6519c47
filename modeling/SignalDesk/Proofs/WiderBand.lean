import SignalDesk.Proofs.VolatilityMultiset

namespace SignalDesk

/-- By how much rounding can put a percentile of values from the least to the greatest beyond another one. -/
def slip (series : List Float) (least greatest p q : Float) : ℚ :=
  (gatePlace series p).slack (max |exactValue least| |exactValue greatest|) +
    (gatePlace series q).slack (max |exactValue least| |exactValue greatest|)

section Percentiles

variable {series : List Float} {least greatest p q s t : Float}

theorem slip_comm : slip series least greatest p q = slip series least greatest q p := add_comm _ _

/-- Percentiles that are values of the series do not slip. -/
theorem slip_of_onValue (first : (gatePlace series p).OnValue) (second : (gatePlace series q).OnValue) :
    slip series least greatest p q = 0 := by
  rw [slip, first.slack_eq, second.slack_eq, add_zero]

/-- Percentiles are defined, and in the order of their percentages but for the slip between them. -/
theorem percentileSorted_mono (short : series.length < 2 ^ 64) (spans : Spans series least greatest)
    (several : 2 ≤ (finiteSorted series).length) (ordered : p ≤ q)
    (lower : percentileSorted (finiteSorted series) p = some s)
    (upper : percentileSorted (finiteSorted series) q = some t) :
    s.isNaN = false ∧ t.isNaN = false ∧ exactValue s ≤ exactValue t + slip series least greatest p q := by
  obtain ⟨pDefined, qDefined, -⟩ := le_iff_linePlace.mp ordered
  have ascending := finiteSorted_ascending series
  have fits : (finiteSorted series).length < 2 ^ 64 := by
    rw [length_finiteSorted]
    exact (List.length_filter_le _ _).trans_lt short
  have inside : ∀ value ∈ finiteSorted series, |exactValue value| ≤ max |exactValue least| |exactValue greatest| :=
    fun value member => abs_le_max_abs_abs (spans.exactValue_le member).1 (spans.exactValue_le member).2
  have top := max_le (abs_exactValue_le spans.leastFinite) (abs_exactValue_le spans.greatestFinite)
  obtain ⟨sDefined, sNear⟩ := percentileSorted_near ascending several fits inside top pDefined lower
  obtain ⟨tDefined, tNear⟩ := percentileSorted_near ascending several fits inside top qDefined upper
  have blends := blend_mono ascending several fits ordered
  rw [abs_le] at sNear tNear
  refine ⟨sDefined, tDefined, ?_⟩
  rw [slip, gatePlace, gatePlace, ← length_finiteSorted]
  linarith

end Percentiles

theorem conclusive_of_answer {series : List Float} {low high : Float} {gate : GateResult}
    (answer : volatilityGate series low high = .ok gate) : ¬Inconclusive series := by
  intro inconclusive
  have band := (volatilityGate_eq_ok.mp answer).1
  obtain ⟨lack, refused⟩ := volatilityGate_of_inconclusive band inconclusive
  rw [refused] at answer
  cases answer

/-- The bounds of a wider band are further out than those of the band within it, but for their slip. A value that
passes the narrower band also passes the wider one, as long as on each side the percentage stays, goes to the end of
the scale or leaves the value the slip to the old bound; and always where the four percentiles are values of the
series. -/
theorem volatilityGate_widened {series : List Float} {low high wideLow wideHigh least greatest : Float}
    {gate : GateResult} (short : series.length < 2 ^ 64) (spans : Spans series least greatest)
    (lowest : 0.0 ≤ wideLow) (lower : wideLow ≤ low) (upper : high ≤ wideHigh) (highest : wideHigh ≤ 100.0)
    (answer : volatilityGate series low high = .ok gate) (passed : gate.passed = true) :
    ∃ wider, volatilityGate series wideLow wideHigh = .ok wider ∧ wider.testedValue = gate.testedValue ∧
      exactValue wider.minThreshold ≤ exactValue gate.minThreshold + slip series least greatest low wideLow ∧
      exactValue gate.maxThreshold ≤ exactValue wider.maxThreshold + slip series least greatest high wideHigh ∧
      ((wideLow = low ∨ wideLow ≤ 0.0 ∨
          exactValue gate.minThreshold + slip series least greatest low wideLow ≤ exactValue gate.testedValue) →
        (wideHigh = high ∨ 100.0 ≤ wideHigh ∨
          exactValue gate.testedValue + slip series least greatest high wideHigh ≤ exactValue gate.maxThreshold) →
        wider.passed = true) ∧
      ((gatePlace series low).OnValue → (gatePlace series wideLow).OnValue → (gatePlace series high).OnValue →
        (gatePlace series wideHigh).OnValue → wider.passed = true) := by
  obtain ⟨band, last, tested, several, oldLower, oldUpper, compared⟩ := volatilityGate_eq_ok.mp answer
  rw [compared, Bool.and_eq_true, decide_eq_true_eq, decide_eq_true_eq] at passed
  obtain ⟨-, ordered, -⟩ := isBand_iff.mp band
  have wideBand : isBand wideLow wideHigh = true :=
    isBand_iff.mpr ⟨lowest, double_le_trans lower (double_le_trans ordered upper), highest⟩
  obtain ⟨wider, decided, sameLast, newLower, newUpper, passes⟩ :=
    volatilityGate_of_conclusive wideBand (conclusive_of_answer answer)
  have same : wider.testedValue = gate.testedValue := Option.some.inj (sameLast.symm.trans last)
  have member := List.mem_of_getLast? last
  have defined := isNaN_eq_false tested
  obtain ⟨newMinDefined, oldMinDefined, minBound⟩ :=
    percentileSorted_mono short spans several lower newLower oldLower
  obtain ⟨oldMaxDefined, newMaxDefined, maxBound⟩ :=
    percentileSorted_mono short spans several upper oldUpper newUpper
  rw [slip_comm] at minBound
  have stays : (wideLow = low ∨ wideLow ≤ 0.0 ∨
        exactValue gate.minThreshold + slip series least greatest low wideLow ≤ exactValue gate.testedValue) →
      (wideHigh = high ∨ 100.0 ≤ wideHigh ∨
        exactValue gate.testedValue + slip series least greatest high wideHigh ≤ exactValue gate.maxThreshold) →
      wider.passed = true := by
    intro lowSide highSide
    rw [passes, same]
    constructor
    · rcases lowSide with rfl | first | clear
      · rw [Option.some.inj (newLower.symm.trans oldLower)]
        exact passed.1
      · rw [percentileSorted_lowest first] at newLower
        exact finiteSorted_first_le newLower member tested
      · exact (exactValue_le_iff newMinDefined defined).mpr (minBound.trans clear)
    · rcases highSide with rfl | final | clear
      · rw [Option.some.inj (newUpper.symm.trans oldUpper)]
        exact passed.2
      · rw [percentileSorted_highest final several] at newUpper
        exact le_finiteSorted_last newUpper member tested
      · exact (exactValue_le_iff defined newMaxDefined).mpr (by linarith)
  refine ⟨wider, decided, same, minBound, maxBound, stays, fun lowOn wideLowOn highOn wideHighOn => ?_⟩
  have reached := (exactValue_le_iff oldMinDefined defined).mp passed.1
  have left := (exactValue_le_iff defined oldMaxDefined).mp passed.2
  refine stays (Or.inr (Or.inr ?_)) (Or.inr (Or.inr ?_))
  · rwa [slip_of_onValue lowOn wideLowOn, add_zero]
  · rwa [slip_of_onValue highOn wideHighOn, add_zero]

/-- Five values, of which every quarter of the scale is one. -/
theorem quarteredVolatility_widened :
    ([1.0, 2.0, 5.0, 4.0, 3.0] : List Float).length < 2 ^ 64 ∧ Spans [1.0, 2.0, 5.0, 4.0, 3.0] 1.0 5.0 ∧
      ((0.0 : Float) ≤ 25.0 ∧ (25.0 : Float) ≤ 50.0 ∧ (75.0 : Float) ≤ 100.0 ∧ (100.0 : Float) ≤ 100.0) ∧
      volatilityGate [1.0, 2.0, 5.0, 4.0, 3.0] 50.0 75.0 = .ok ⟨true, 3.0, 4.0, 3.0⟩ ∧
      ∃ wider, volatilityGate [1.0, 2.0, 5.0, 4.0, 3.0] 25.0 100.0 = .ok wider ∧ wider.testedValue = 3.0 ∧
        exactValue wider.minThreshold ≤ exactValue 3.0 + slip [1.0, 2.0, 5.0, 4.0, 3.0] 1.0 5.0 50.0 25.0 ∧
        wider.passed = true := by
  have short : ([1.0, 2.0, 5.0, 4.0, 3.0] : List Float).length < 2 ^ 64 := by decide
  have spans : Spans [1.0, 2.0, 5.0, 4.0, 3.0] 1.0 5.0 := by
    refine ⟨by simp, by decide, by simp, by decide, ?_⟩
    simp only [List.forall_mem_cons]
    exact ⟨fun _ => by decide, fun _ => by decide, fun _ => by decide, fun _ => by decide, fun _ => by decide, nofun⟩
  have sorted : finiteSorted [1.0, 2.0, 5.0, 4.0, 3.0] = [1.0, 2.0, 3.0, 4.0, 5.0] :=
    finiteSorted_eq (by decide) (by decide)
  have answer : volatilityGate [1.0, 2.0, 5.0, 4.0, 3.0] 50.0 75.0 = .ok ⟨true, 3.0, 4.0, 3.0⟩ := by
    refine volatilityGate_eq_ok.mpr ⟨by decide, rfl, by decide, ?_⟩
    rw [sorted]
    exact ⟨by decide, by decide +kernel, by decide +kernel, by decide⟩
  have band : (0.0 : Float) ≤ 25.0 ∧ (25.0 : Float) ≤ 50.0 ∧ (75.0 : Float) ≤ 100.0 ∧ (100.0 : Float) ≤ 100.0 := by
    decide
  have quarter : (gatePlace [1.0, 2.0, 5.0, 4.0, 3.0] 25.0).OnValue :=
    IsZero.exactValue_eq (x := 25.0 / 100.0 * Float.ofNat 4 - Float.ofNat 1) ⟨by decide +kernel, by decide +kernel⟩
  have half : (gatePlace [1.0, 2.0, 5.0, 4.0, 3.0] 50.0).OnValue :=
    IsZero.exactValue_eq (x := 50.0 / 100.0 * Float.ofNat 4 - Float.ofNat 2) ⟨by decide +kernel, by decide +kernel⟩
  have threeQuarters : (gatePlace [1.0, 2.0, 5.0, 4.0, 3.0] 75.0).OnValue :=
    IsZero.exactValue_eq (x := 75.0 / 100.0 * Float.ofNat 4 - Float.ofNat 3) ⟨by decide +kernel, by decide +kernel⟩
  obtain ⟨wider, decided, same, bound, -, -, onValues⟩ :=
    volatilityGate_widened short spans band.1 band.2.1 band.2.2.1 band.2.2.2 answer rfl
  exact ⟨short, spans, band, answer, wider, decided, same, bound, onValues half quarter threeQuarters trivial⟩

/-- A volatility that has come back to its least value passes from the twentieth percentile on, but not from the
tenth on: there a blend of the two least values is greater than both. -/
theorem sunkenVolatility_refused_wider :
    ((0.0 : Float) ≤ 10.0 ∧ (10.0 : Float) ≤ 20.0 ∧ (20.0 : Float) ≤ 100.0) ∧
      (∃ gate, volatilityGate [1.0, 0.1, 0.1] 20.0 100.0 = .ok gate ∧ gate.passed = true) ∧
      ∃ wider, volatilityGate [1.0, 0.1, 0.1] 10.0 100.0 = .ok wider ∧ wider.passed = false := by
  have sorted : finiteSorted [1.0, 0.1, 0.1] = [0.1, 0.1, 1.0] := finiteSorted_eq (by decide) (by decide)
  refine ⟨by decide, ⟨⟨true, 0.1, 1.0, 0.1⟩, volatilityGate_eq_ok.mpr ⟨by decide, rfl, by decide, ?_⟩, rfl⟩,
    ⟨false, 0.10000000000000002, 1.0, 0.1⟩, volatilityGate_eq_ok.mpr ⟨by decide, rfl, by decide, ?_⟩, rfl⟩
  · rw [sorted]
    exact ⟨by decide, by decide +kernel, by decide +kernel, by decide⟩
  · rw [sorted]
    exact ⟨by decide, by decide +kernel, by decide +kernel, by decide⟩

end SignalDesk
