import SignalDesk.Proofs.FlatMarket
import SignalDesk.Proofs.Reckoning

namespace SignalDesk

namespace TrendFollowing

/-- The rounded distance in percent is on the side of zero on which the fast average is of the slow one. -/
theorem direction_eq_iff {fast slow : Float} (fastFinite : fast.isFinite = true) (slowFinite : slow.isFinite = true)
    (positive : 0.0 < slow) :
    (direction (spreadPercent fast slow) = .buy ↔ slow < fast) ∧
      (direction (spreadPercent fast slow) = .sell ↔ fast < slow) ∧
      (direction (spreadPercent fast slow) = .hold ↔ (fast == slow) = true) := by
  have fastDefined := isNaN_eq_false fastFinite
  have slowDefined := isNaN_eq_false slowFinite
  rw [direction_spreadPercent fastFinite slowFinite positive]
  simp only [lt_iff_linePlace, double_beq_iff, fastDefined, slowDefined, true_and]
  rcases lt_trichotomy (linePlace slow) (linePlace fast) with above | same | below
  · rw [if_pos above]
    exact ⟨by simpa using above, by simpa using above.le, by simpa using above.ne'⟩
  · rw [if_neg same.not_lt, if_neg same.not_gt]
    exact ⟨by simpa using same.ge, by simpa using same.le, by simpa using same.symm⟩
  · rw [if_neg below.not_gt, if_pos below]
    exact ⟨by simpa using below.le, by simpa using below, by simpa using below.ne⟩

/-- Unless the volatility forbids it, the strategy buys exactly if its fast average is above the slow one, sells exactly
if it is below, and holds exactly if the two are equal: neither rounding nor overflow loses the sign of their
distance. -/
theorem evaluate_direction {rule : TrendFollowing} {market : Snapshot} {p : Parameters} {signal : Signal}
    (evaluated : rule.evaluate market p = .ok signal) (plain : signal.isVetoed = false) :
    ∃ fast slow, market.latestFinite (rule.average.indicator rule.fast).name = .ok fast ∧
      market.latestFinite (rule.average.indicator rule.slow).name = .ok slow ∧
      (signal.direction = .buy ↔ slow < fast) ∧ (signal.direction = .sell ↔ fast < slow) ∧
      (signal.direction = .hold ↔ (fast == slow) = true) := by
  obtain ⟨time, -, saturation, -, gated⟩ := evaluate_eq_ok.mp evaluated
  obtain ⟨gate, fast, readFast, slow, readSlow, notBelow, rfl⟩ := gated.proposed_of_plain plain
  have slowFinite := Snapshot.isFinite_of_finiteBack readSlow
  have positive := double_lt_of_not_le (by decide) (isNaN_eq_false slowFinite) notBelow
  exact ⟨fast, slow, readFast, readSlow,
    direction_eq_iff (Snapshot.isFinite_of_finiteBack readFast) slowFinite positive⟩

end TrendFollowing

/-- A market whose slow average is the least positive double. -/
def faintMarket : Snapshot where
  symbol := "BTC/USDC"
  timeframe := .hour
  bars := tenthBars
  indicators := (∅ : SeriesCache)
    |>.insert "atr_1" [1.0, 2.0, 2.0]
    |>.insert "sma_1" [1.0, 1.0, 1.0]
    |>.insert "sma_3" [1.0, 1.0, 5e-324]

theorem faintMarket_gate :
    checkVolatility faintMarket (Indicator.atr 1).name plainParameters = .ok ⟨true, 1.0, 2.0, 2.0⟩ := by
  have peak : volatilityGate [1.0, 2.0, 2.0] 0.0 100.0 = .ok ⟨true, 1.0, 2.0, 2.0⟩ :=
    volatilityGate_peak rfl (by decide) (by decide) rfl rfl rfl
  exact checkVolatility_eq_ok.mpr ⟨0.0, 100.0, _, none, rfl, rfl, rfl, peak⟩

/-- The distance is infinitely many percent of the slow average, and the market is bought all the same. -/
theorem faintMarket_bought :
    ∃ signal, shortTrend.evaluate faintMarket plainParameters = .ok signal ∧ signal.isVetoed = false ∧
      faintMarket.latestFinite "sma_1" = .ok 1.0 ∧ faintMarket.latestFinite "sma_3" = .ok 5e-324 ∧
      (TrendFollowing.spreadPercent 1.0 5e-324).isFinite = false ∧ signal.direction = .buy := by
  have ready : preflight "trend_following" shortTrend.required faintMarket plainParameters = .ok ⟨7200, 0⟩ :=
    preflight_eq_ok.mpr ⟨rfl, rfl, rfl⟩
  have readFast : faintMarket.latestFinite "sma_1" = .ok 1.0 :=
    Snapshot.finiteBack_eq_ok.mpr ⟨[1.0, 1.0, 1.0], rfl, rfl, by decide⟩
  have readSlow : faintMarket.latestFinite "sma_3" = .ok 5e-324 :=
    Snapshot.finiteBack_eq_ok.mpr ⟨[1.0, 1.0, 5e-324], rfl, rfl, by decide +kernel⟩
  have evaluated := TrendFollowing.evaluate_eq_ok.mpr ⟨_, ready, 2.0, rfl, _, faintMarket_gate,
    Or.inr ⟨rfl, 1.0, readFast, 5e-324, readSlow, by decide +kernel, rfl⟩⟩
  have plain := (shortTrend.answer_plain "BTC/USDC" ⟨7200, 0⟩ 2.0 2.0 1.0 5e-324).not_vetoed
  obtain ⟨fast, slow, sameFast, sameSlow, buys, -⟩ := TrendFollowing.evaluate_direction evaluated plain
  obtain rfl : 1.0 = fast := Except.ok.inj (readFast.symm.trans sameFast)
  obtain rfl : 5e-324 = slow := Except.ok.inj (readSlow.symm.trans sameSlow)
  exact ⟨_, evaluated, plain, readFast, readSlow, by decide +kernel, buys.mpr (by decide +kernel)⟩

end SignalDesk
