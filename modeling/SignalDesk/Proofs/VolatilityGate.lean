import Mathlib.Data.List.Basic
import SignalDesk.Strategy

namespace SignalDesk

/-- The finite volatilities in ascending order, of which the gate takes its percentiles. -/
def finiteSorted (series : List Float) : List Float :=
  (series.filter Float.isFinite).mergeSort totalLe

/-- The gate decides exactly if the band makes sense, the last value is finite and at least two values
are. Then it asks whether the last value lies between two percentiles of the finite ones. -/
theorem volatilityGate_eq_ok {series : List Float} {low high : Float} {gate : GateResult} :
    volatilityGate series low high = .ok gate ↔
      isBand low high = true ∧ series.getLast? = some gate.testedValue ∧
        gate.testedValue.isFinite = true ∧ 2 ≤ (finiteSorted series).length ∧
        percentileSorted (finiteSorted series) low = some gate.minThreshold ∧
        percentileSorted (finiteSorted series) high = some gate.maxThreshold ∧
        gate.passed = (gate.testedValue >= gate.minThreshold && gate.testedValue <= gate.maxThreshold) := by
  constructor
  · intro answer
    unfold volatilityGate at answer
    split at answer
    · cases answer
    · rename_i band
      split at answer
      · cases answer
      · rename_i tested last
        split at answer
        · cases answer
        · rename_i finite
          simp only at answer
          split at answer
          · rename_i a b rest minThreshold maxThreshold sorted lower upper
            cases answer
            have two : 2 ≤ (finiteSorted series).length := by
              unfold finiteSorted
              rw [sorted]
              simp
            exact ⟨by simpa using band, last, by simpa using finite, two, lower, upper, rfl⟩
          · cases answer
  · rintro ⟨band, last, finite, two, lower, upper, compared⟩
    obtain ⟨a, b, rest, sorted⟩ : ∃ a b rest, finiteSorted series = a :: b :: rest := by
      match finiteSorted series, two with
      | a :: b :: rest, _ => exact ⟨a, b, rest, rfl⟩
    rw [sorted] at lower upper
    unfold finiteSorted at sorted
    simp only [volatilityGate, band, last, finite, sorted, lower, upper, ← compared, Bool.not_true,
      Bool.false_eq_true, if_false]

theorem getLast?_of_trailing {count : Option Nat} {series : List Float} {x : Float}
    (last : (trailing count series).getLast? = some x) : series.getLast? = some x := by
  cases count with
  | none => exact last
  | some count =>
    simp only [trailing, List.getLast?_drop] at last
    split at last
    · cases last
    · exact last

/-- A rule's gate is the gate over the last values of its series, with the band and the lookback of
the parameters. -/
theorem checkVolatility_eq_ok {market : Snapshot} {key : String} {p : Parameters} {gate : GateResult} :
    checkVolatility market key p = .ok gate ↔
      ∃ low high series lookback, p.volatilityBand = .ok (low, high) ∧
        market.indicators.get? key = some series ∧ p.volatilityLookback = .ok lookback ∧
        volatilityGate (trailing lookback series) low high = .ok gate := by
  simp only [checkVolatility, bind_eq_ok]
  constructor
  · rintro ⟨⟨low, high⟩, band, rest⟩
    dsimp only at rest
    split at rest
    · cases rest
    · rename_i series found
      obtain ⟨lookback, window, decided⟩ := bind_eq_ok.mp rest
      exact ⟨low, high, series, lookback, band, found, window, decided⟩
  · rintro ⟨low, high, series, lookback, band, found, window, decided⟩
    refine ⟨(low, high), band, ?_⟩
    simp only [found]
    exact bind_eq_ok.mpr ⟨lookback, window, decided⟩

end SignalDesk
