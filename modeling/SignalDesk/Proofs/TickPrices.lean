import SignalDesk.Proofs.FlatMarket

namespace SignalDesk

open Scalar

theorem eq_of_exactValue {x y : Float} (same : exactValue x = exactValue y) (different : exactValue x ≠ 0) :
    x = y := by
  refine eq_of_linePlace (placeValue_strictMono.injective same) fun zero => different ?_
  rw [exactValue, zero]
  exact sizeAt_zero

/-- A double other than the two zeros is the only one that rounds what it stands for. -/
theorem eq_of_rounds_exactValue {x y : Float} (finite : x.isFinite = true) (different : exactValue x ≠ 0)
    (rounds : Rounds (exactValue x) y) : y = x := by
  have self := rounds_exactValue finite
  have same : linePlace x = linePlace y :=
    Int.le_antisymm (self.nearest.mono rounds.nearest le_rfl) (rounds.nearest.mono self.nearest le_rfl)
  exact (eq_of_exactValue (congrArg placeValue same) different).symm

theorem IsZero.add_eq_left {x y : Float} (zero : IsZero y) (finite : x.isFinite = true)
    (different : exactValue x ≠ 0) : x + y = x := by
  have rounds := rounds_add finite zero.isFinite
  rw [zero.exactValue_eq, add_zero] at rounds
  exact eq_of_rounds_exactValue finite different rounds

theorem IsZero.sub_eq_left {x y : Float} (zero : IsZero y) (finite : x.isFinite = true)
    (different : exactValue x ≠ 0) : x - y = x := by
  have rounds := rounds_sub finite zero.isFinite
  rw [zero.exactValue_eq, sub_zero] at rounds
  exact eq_of_rounds_exactValue finite different rounds

/-- A double that is a whole number of ticks. -/
structure Ticks (k n : Nat) (x : Float) : Prop where
  finite : x.isFinite = true
  value : exactValue x = n * tickSize k

namespace Ticks

variable {k m n : Nat} {x y : Float}

/-- So many ticks as fit in the significand are not rounded. -/
theorem of_rounds (rounds : Rounds (n * tickSize k) x) (small : n < 2 ^ 53) (room : k ≤ 2045) : Ticks k n x := by
  obtain ⟨place, below, size⟩ := exists_sizeAt small k
  have limit : infinityPlace = 2047 * 2 ^ 52 := rfl
  have found := rounds.nearest.eq (j := place) (by omega) size.symm
  refine ⟨isFinite_of_linePlace rounds.defined (by omega) (by omega), ?_⟩
  rw [exactValue, found, ← size]
  rfl

theorem ne_zero (ticks : Ticks k n x) (some : 0 < n) : exactValue x ≠ 0 := by
  have amount : (n : ℚ) ≠ 0 := by exact_mod_cast some.ne'
  rw [ticks.value]
  exact mul_ne_zero amount (tickSize_pos k).ne'

theorem unique (ticks : Ticks k n x) (others : Ticks k n y) (some : 0 < n) : x = y :=
  eq_of_exactValue (ticks.value.trans others.value.symm) (ticks.ne_zero some)

/-- A whole number counts ticks of one. -/
theorem ofNat (small : n < 2 ^ 53) : Ticks 1074 n (Float.ofNat n) := by
  obtain ⟨finite, value⟩ := (rounds_ofNat n).whole small
  exact ⟨finite, by rw [value, tickSize_whole, mul_one]⟩

theorem add (ticks : Ticks k m x) (others : Ticks k n y) (small : m + n < 2 ^ 53) (room : k ≤ 2045) :
    Ticks k (m + n) (x + y) := by
  have rounds := rounds_add ticks.finite others.finite
  rw [ticks.value, others.value, ← add_mul, ← Nat.cast_add] at rounds
  exact of_rounds rounds small room

theorem sum_replicate (ticks : Ticks k n x) (room : k ≤ 2045) {count : Nat} (small : count * n < 2 ^ 53) :
    Ticks k (count * n) (sum (List.replicate count x)) := by
  induction count with
  | zero =>
    have nothing : IsZero (sum ([] : List Float)) := IsZero.ofNat.neg
    exact ⟨nothing.isFinite, by rw [Nat.zero_mul, Nat.cast_zero, zero_mul]; exact nothing.exactValue_eq⟩
  | succ count ih =>
    rw [Nat.succ_mul] at small ⊢
    rw [List.replicate_succ', Scalar.sum, List.foldl_append]
    exact (ih (by omega)).add ticks small room

/-- The mean of equal prices is the price as long as their sum is exact. -/
theorem mean_replicate (ticks : Ticks k n x) (room : k ≤ 2045) (some : 0 < n) {count : Nat} (filled : 0 < count)
    (small : count * n < 2 ^ 53) : mean (List.replicate count x) = x := by
  have total := ticks.sum_replicate room small
  have short : count < 2 ^ 53 := (Nat.le_mul_of_pos_right count some).trans_lt small
  obtain ⟨countFinite, countValue⟩ := (rounds_ofNat count).whole short
  have divisor : (count : ℚ) ≠ 0 := by exact_mod_cast filled.ne'
  have quotient := rounds_div total.finite countFinite (by rwa [countValue])
  rw [countValue, total.value, Nat.cast_mul, mul_assoc, mul_div_cancel_left₀ _ divisor] at quotient
  rw [mean, List.length_replicate]
  have fits : n < 2 ^ 53 := (Nat.le_mul_of_pos_left n filled).trans_lt small
  exact unique (of_rounds quotient fits room) ticks some

end Ticks

theorem IsZero.sum {values : List Float} (zeros : ∀ value ∈ values, IsZero value) : IsZero (sum values) :=
  List.foldlRecOn values _ IsZero.ofNat.neg fun _ zero value member => zero.add (zeros value member)

theorem IsZero.sqrt {x : Float} (zero : IsZero x) : IsZero x.sqrt := by
  obtain ⟨s, isZero⟩ := zero.unpack
  change IsZero (.ofModel (.pack (Float.Model.UnpackedFloat.sqrt _ x.toModel.unpack)))
  rw [isZero]
  cases s
  · exact ⟨by decide, by decide⟩
  · exact ⟨by decide, by decide⟩

/-- Around prices with an exact sum a band has no width. -/
theorem Ticks.bollingerValue_replicate {k n : Nat} {price multiplier : Float} (ticks : Ticks k n price)
    (room : k ≤ 2045) (some : 0 < n) {period : Nat} (filled : 0 < period) (small : period * n < 2 ^ 53) (band : Band)
    (finite : multiplier.isFinite = true) : bollingerValue band multiplier (List.replicate period price) = price := by
  have still : IsZero ((price - price) * (price - price)) := (IsZero.sub_same ticks.finite).mul_left
    (IsZero.sub_same ticks.finite).isFinite
  have short : period < 2 ^ 53 := (Nat.le_mul_of_pos_right period some).trans_lt small
  obtain ⟨periodFinite, large⟩ := ofNat_positive filled (by omega)
  have divisor : exactValue (Float.ofNat period) ≠ 0 := by linarith
  have variance : IsZero (mean (List.replicate period ((price - price) * (price - price)))) := by
    rw [mean, List.length_replicate]
    exact (IsZero.sum fun value member => List.eq_of_mem_replicate member ▸ still).div periodFinite divisor
  have width : IsZero (multiplier * (mean (List.replicate period ((price - price) * (price - price)))).sqrt) :=
    variance.sqrt.mul_right finite
  simp only [bollingerValue, ticks.mean_replicate room some filled small, List.map_replicate]
  cases band with
  | upper => exact width.add_eq_left ticks.finite (ticks.ne_zero some)
  | lower => exact width.sub_eq_left ticks.finite (ticks.ne_zero some)

/-- What a rule computes from equal prices of so many ticks is exact. -/
def TradingRule.ExactAt (n : Nat) : TradingRule → Prop
  | trendFollowing rule => rule.average = .simple ∧ rule.fast * n < 2 ^ 53 ∧ rule.slow * n < 2 ^ 53
  | meanReversion rule => rule.period * n < 2 ^ 53
  | breakout _ => True
  | spreadReversion _ => False

theorem TradingRule.ExactAt.not_drifts {rule : TradingRule} {k n count : Nat} {price : Float} {p : Parameters}
    (exact : rule.ExactAt n) (sound : ∀ indicator ∈ rule.indicators, indicator.Sound) (ticks : Ticks k n price)
    (room : k ≤ 2045) (some : 0 < n) : ¬rule.Drifts p count price := by
  cases rule with
  | trendFollowing rule =>
    obtain ⟨simple, fastFits, slowFits⟩ := exact
    have fastSound := sound (rule.average.indicator rule.fast) (by simp [indicators, TrendFollowing.indicators])
    have slowSound := sound (rule.average.indicator rule.slow) (by simp [indicators, TrendFollowing.indicators])
    rw [simple] at fastSound slowSound
    have fastValue : mean (List.replicate rule.fast price) = price :=
      ticks.mean_replicate room some fastSound.period fastFits
    have slowValue : mean (List.replicate rule.slow price) = price :=
      ticks.mean_replicate room some slowSound.period slowFits
    simp only [Drifts, MovingAverage.ofEqual, simple]
    exact fun differ => differ (fastValue.trans slowValue.symm)
  | meanReversion rule =>
    have bandSound (band : Band) : (Indicator.bollinger band rule.period rule.multiplier).Sound := by
      cases band <;> exact sound _ (by simp [indicators, MeanReversion.indicators])
    have value (band : Band) : rule.bandOfEqual band price = price :=
      ticks.bollingerValue_replicate room some (bandSound band).period exact band ((bandSound band).multiplier _ rfl).1
    rintro ⟨oversold, overbought, -, ⟨below, -⟩ | ⟨above, -⟩⟩
    · rw [value] at below
      exact not_lt_self price below
    · rw [value] at above
      exact not_lt_self price above
  | breakout rule => exact not_false
  | spreadReversion rule => exact not_false

/-- A flat market is not traded if the price is a whole number of ticks and all that is added up stays exact. -/
theorem StrategyKind.flat_hold_of_ticks {kind : StrategyKind} {strategy : Strategy} {symbol : String}
    {timeframe : Timeframe} {bars : List (Bar Float)} {cache : SeriesCache} {p : Parameters} {k n : Nat} {price : Float}
    {signal : Signal} (created : kind.create = .ok strategy) (exact : kind.describedRule.ExactAt n)
    (flat : ∀ bar ∈ bars, bar.StandsAt price) (ticks : Ticks k n price) (room : k ≤ 2045) (some : 0 < n)
    (computed : SeriesCache.compute bars kind.indicators = .ok cache)
    (evaluated : strategy.evaluate ⟨symbol, timeframe, bars, cache⟩ p = .ok signal) : signal.direction = .hold := by
  obtain ⟨rule, accepted, rfl⟩ := create_eq_ok.mp created
  have sound := TradingRule.indicators_sound accepted
  have carries : Snapshot.Carries ⟨symbol, timeframe, bars, cache⟩ kind.indicators :=
    Snapshot.carries_of_compute computed
  rw [indicators_of_rule accepted] at carries
  rw [← rule_eq_describedRule accepted] at exact
  by_contra trades
  have own : ∀ spread, rule ≠ .spreadReversion spread := by
    rintro spread rfl
    exact exact
  have drifts := ((TradingRule.trades_iff_drifts flat ticks.finite own sound carries evaluated).mp trades).2
  exact exact.not_drifts sound ticks room some drifts

end SignalDesk
