import SignalDesk.Proofs.ChannelBreakout
import SignalDesk.Proofs.MapContents
import SignalDesk.Proofs.NonnegativeDoubles

namespace SignalDesk

/-- What a rule reckons with: how it divides, and how it makes a signal of a direction and a confidence. -/
structure Reckoner where
  divide : Float → Float → Option Float
  propose : String → String → Direction → Float → Instant → Option Signal

namespace Reckoner

/-- Divides by any number and forces any confidence into the unit interval. -/
def lenient : Reckoner where
  divide x y := some (x / y)
  propose name symbol direction confidence time := some (Signal.make name symbol direction confidence time)

/-- Divides by positive numbers only, and takes a confidence as it is, if it is in the unit interval. -/
def strict : Reckoner where
  divide x y := if 0.0 < y then some (x / y) else none
  propose strategyName symbol direction confidence time :=
    if isUnit confidence then some { strategyName, symbol, direction, confidence, time, rationale := ∅ } else none

def veto (r : Reckoner) (name symbol : String) (time : Instant) (gate : GateResult) : Option Signal := do
  let signal ← r.propose name symbol .hold 0.0 time
  return signal
    |>.because "reason" (.text volatilityFilterFailed)
    |>.because "volatility" (.float gate.testedValue)
    |>.because "volatility_min_threshold" (.float gate.minThreshold)
    |>.because "volatility_max_threshold" (.float gate.maxThreshold)

def gated (r : Reckoner) (name key : String) (market : Snapshot) (p : Parameters) (time : Instant)
    (passed : GateResult → Except Fault (Option Signal)) : Except Fault (Option Signal) := do
  let gate ← checkVolatility market key p
  if !gate.passed then .ok (r.veto name market.symbol time gate) else passed gate

/-- The confidence of a distance from zero that is full at the saturation. -/
def saturated (r : Reckoner) (direction : Direction) (distance saturation : Float) : Option Float :=
  if direction.isActionable then (r.divide distance.abs saturation).map (Scalar.smaller · 1.0) else some 0.0

end Reckoner

namespace TrendFollowing

def reckonAnswer (s : TrendFollowing) (r : Reckoner) (symbol : String) (time : Instant)
    (saturation volatility fast slow : Float) : Option Signal := do
  let ratio ← r.divide (fast - slow) slow
  let spread := ratio * 100.0
  let direction := direction spread
  let confidence ← r.saturated direction spread saturation
  let signal ← r.propose s.name symbol direction confidence time
  return signal
    |>.because "fast_ma" (.float fast)
    |>.because "slow_ma" (.float slow)
    |>.because "spread_pct" (.float spread)
    |>.because "volatility" (.float volatility)

def reckon (s : TrendFollowing) (r : Reckoner) (market : Snapshot) (p : Parameters) :
    Except Fault (Option Signal) := do
  let time ← preflight s.name s.required market p
  let saturation ← p.positive "spread_saturation_pct" 2.0
  r.gated s.name (Indicator.atr s.atr).name market p time fun gate => do
    let fast ← market.latestFinite (s.average.indicator s.fast).name
    let slow ← market.latestFinite (s.average.indicator s.slow).name
    if slow <= 0.0 then .error (.insufficientData (.slowNotPositive s.name slow))
    else .ok (s.reckonAnswer r market.symbol time saturation gate.testedValue fast slow)

end TrendFollowing

namespace MeanReversion

def reckonProposal (r : Reckoner) (close upper lower rsi oversold overbought : Float) : Option (Direction × Float) :=
  if close < lower && rsi <= oversold then
    (r.divide (oversold - rsi) oversold).map fun part => (.buy, 0.5 + part)
  else if close > upper && rsi >= overbought then
    (r.divide (rsi - overbought) (100.0 - overbought)).map fun part => (.sell, 0.5 + part)
  else some (.hold, 0.0)

def reckonAnswer (s : MeanReversion) (r : Reckoner) (symbol : String) (time : Instant) (bounds : Float × Float)
    (volatility close upper lower rsi : Float) : Option Signal := do
  let (direction, confidence) ← reckonProposal r close upper lower rsi bounds.1 bounds.2
  let signal ← r.propose s.name symbol direction (Scalar.smaller confidence 1.0) time
  return signal
    |>.because "close" (.float close)
    |>.because "upper_band" (.float upper)
    |>.because "lower_band" (.float lower)
    |>.because "rsi" (.float rsi)
    |>.because "volatility" (.float volatility)

def reckon (s : MeanReversion) (r : Reckoner) (market : Snapshot) (p : Parameters) :
    Except Fault (Option Signal) := do
  let time ← preflight s.name s.required market p
  let bounds ← s.bounds p
  r.gated s.name (Indicator.atr s.atr).name market p time fun gate => do
    let close ← market.latestClose
    let upper ← market.latestFinite (Indicator.bollinger .upper s.period s.multiplier).name
    let lower ← market.latestFinite (Indicator.bollinger .lower s.period s.multiplier).name
    let rsi ← market.latestFinite (Indicator.rsi s.rsi).name
    .ok (s.reckonAnswer r market.symbol time bounds gate.testedValue close upper lower rsi)

end MeanReversion

namespace Breakout

def reckonConfidence (r : Reckoner) (direction : Direction) (excess volatility : Float) : Option Float :=
  if !direction.isActionable then some 0.0
  else if volatility > 0.0 then
    (r.divide (0.5 * excess) volatility).map fun part => Scalar.smaller (0.5 + part) 1.0
  else some 0.5

def reckonAnswer (s : Breakout) (r : Reckoner) (symbol : String) (time : Instant)
    (close upper lower volatility : Float) : Option Signal := do
  let (direction, excess) := escape close upper lower
  let confidence ← reckonConfidence r direction excess volatility
  let signal ← r.propose s.name symbol direction confidence time
  return signal
    |>.because "close" (.float close)
    |>.because "breakout_level" (.float (if close < lower then lower else upper))
    |>.because "excess" (.float excess)
    |>.because "volatility" (.float volatility)

def reckon (s : Breakout) (r : Reckoner) (market : Snapshot) (p : Parameters) : Except Fault (Option Signal) := do
  let time ← preflight s.name s.required market p
  r.gated s.name (Indicator.atr s.atr).name market p time fun _ => do
    let close ← market.latestClose
    let upper ← market.previousFinite (Indicator.donchian .upper s.period).name
    let lower ← market.previousFinite (Indicator.donchian .lower s.period).name
    let volatility ← market.latestFinite (Indicator.atr s.atr).name
    .ok (s.reckonAnswer r market.symbol time close upper lower volatility)

end Breakout

namespace SpreadReversion

def reckonAnswer (s : SpreadReversion) (r : Reckoner) (symbol : String) (time : Instant)
    (entry saturation zscore : Float) : Option Signal := do
  let direction := direction zscore entry
  let confidence ← r.saturated direction zscore saturation
  let signal ← r.propose s.name symbol direction confidence time
  return signal
    |>.because "zscore" (.float zscore)
    |>.because "entry_z" (.float entry)

def reckon (s : SpreadReversion) (r : Reckoner) (market : Snapshot) (p : Parameters) :
    Except Fault (Option Signal) := do
  let time ← preflight s.name s.required market p
  let entry ← p.positive "entry_z" 2.0
  let saturation ← p.positive "saturation_z" 4.0
  if saturation < entry then .error (.invalidParameter (.saturationBelowEntry s.name saturation entry))
  else
    let zscore ← market.latestFinite s.zscoreKey
    .ok (s.reckonAnswer r market.symbol time entry saturation zscore)

end SpreadReversion

/-- A rule evaluated with a way of reckoning. -/
def TradingRule.reckon (rule : TradingRule) (r : Reckoner) (market : Snapshot) (p : Parameters) :
    Except Fault (Option Signal) :=
  match rule with
  | trendFollowing rule => rule.reckon r market p
  | meanReversion rule => rule.reckon r market p
  | breakout rule => rule.reckon r market p
  | spreadReversion rule => rule.reckon r market p

theorem Reckoner.lenient_saturated (direction : Direction) (distance saturation : Float) :
    lenient.saturated direction distance saturation =
      some (TrendFollowing.confidence direction distance saturation) := by
  unfold saturated TrendFollowing.confidence
  split <;> rfl

theorem MeanReversion.reckonProposal_lenient (close upper lower rsi oversold overbought : Float) :
    reckonProposal .lenient close upper lower rsi oversold overbought =
      some (proposal close upper lower rsi oversold overbought) := by
  unfold reckonProposal proposal
  split
  · rfl
  · split <;> rfl

theorem Breakout.reckonConfidence_lenient (direction : Direction) (excess volatility : Float) :
    reckonConfidence .lenient direction excess volatility = some (confidence direction excess volatility) := by
  unfold reckonConfidence confidence
  split
  · rfl
  · split <;> rfl

/-- The rules reckon leniently. -/
theorem TradingRule.reckon_lenient (rule : TradingRule) (market : Snapshot) (p : Parameters) :
    rule.reckon .lenient market p = some <$> rule.strategy.evaluate market p := by
  -- up to the answer the steps are the same ones, so the map is moved inwards to it
  cases rule with
  | trendFollowing rule =>
    simp only [reckon, strategy, TrendFollowing.strategy, TrendFollowing.reckon, TrendFollowing.evaluate,
      Reckoner.gated, map_bind, apply_ite (some <$> ·), TrendFollowing.reckonAnswer, Reckoner.lenient_saturated]
    rfl
  | meanReversion rule =>
    simp only [reckon, strategy, MeanReversion.strategy, MeanReversion.reckon, MeanReversion.evaluate, Reckoner.gated,
      map_bind, apply_ite (some <$> ·), MeanReversion.reckonAnswer, MeanReversion.reckonProposal_lenient]
    rfl
  | breakout rule =>
    simp only [reckon, strategy, Breakout.strategy, Breakout.reckon, Breakout.evaluate, Reckoner.gated, map_bind,
      apply_ite (some <$> ·), Breakout.reckonAnswer, Breakout.reckonConfidence_lenient]
    rfl
  | spreadReversion rule =>
    simp only [reckon, strategy, SpreadReversion.strategy, SpreadReversion.reckon, SpreadReversion.evaluate,
      map_bind, apply_ite (some <$> ·), SpreadReversion.reckonAnswer, Reckoner.lenient_saturated]
    rfl

/-- A confidence that fits its direction: none for holding, and as much as is asked for else. -/
structure Measured (least : Float) (direction : Direction) (confidence : Float) : Prop where
  unit : isUnit confidence = true
  idle : direction = .hold → confidence = 0.0
  active : direction ≠ .hold → least ≤ confidence

namespace Measured

variable {least : Float} {direction : Direction} {confidence : Float}

theorem hold (least : Float) : Measured least .hold 0.0 := ⟨by decide, fun _ => rfl, nofun⟩

/-- What is large enough may be capped at one. -/
theorem capped {x : Float} (trades : direction ≠ .hold) (nonneg : 0.0 ≤ least) (small : least ≤ 1.0)
    (large : least ≤ x) : Measured least direction (Scalar.smaller x 1.0) := by
  obtain ⟨above, below⟩ := smaller_one_bounds large small
  exact ⟨isUnit_iff.mpr ⟨double_le_trans nonneg above, below⟩, fun holds => absurd holds trades, fun _ => above⟩

theorem proposed (measured : Measured least direction confidence) (name symbol : String) (time : Instant) :
    Reckoner.strict.propose name symbol direction confidence time =
      some (Signal.make name symbol direction confidence time) := by
  rw [Signal.make, clampUnit_of_isUnit measured.unit]
  exact if_pos measured.unit

theorem clamped (measured : Measured least direction confidence) :
    Measured least direction (clampUnit confidence) := by
  rwa [clampUnit_of_isUnit measured.unit]

end Measured

theorem Reckoner.strict_divide {x y : Float} (positive : 0.0 < y) : strict.divide x y = some (x / y) :=
  if_pos positive

theorem Reckoner.strict_saturated (direction : Direction) {distance saturation : Float}
    (defined : distance.isNaN = false) (finite : saturation.isFinite = true) (positive : 0.0 < saturation) :
    strict.saturated direction distance saturation =
        some (TrendFollowing.confidence direction distance saturation) ∧
      Measured 0.0 direction (TrendFollowing.confidence direction distance saturation) := by
  unfold saturated TrendFollowing.confidence
  rw [strict_divide positive]
  cases direction with
  | hold => exact ⟨rfl, .hold _⟩
  | buy | sell =>
    have share := div_nonneg_double (abs_nonneg_double defined) finite positive
    exact ⟨rfl, .capped nofun (by decide) (by decide) share⟩

/-- A strict run that ends with the signal, whose confidence fits its direction. -/
structure Vouched (least : Float) (run : Except Fault (Option Signal)) (signal : Signal) : Prop where
  ends : run = .ok (some signal)
  measured : Measured least signal.direction signal.confidence

namespace Vouched

variable {least : Float} {signal : Signal}

theorem bind {α : Type} {x : Except Fault α} {a : α} {next : α → Except Fault (Option Signal)} (first : x = .ok a)
    (vouched : Vouched least (next a) signal) : Vouched least (x >>= next) signal :=
  ⟨bind_eq_ok.mpr ⟨a, first, vouched.ends⟩, vouched.measured⟩

theorem gated {name key : String} {market : Snapshot} {p : Parameters} {time : Instant}
    {proposes : GateResult → Signal → Prop} {passed : GateResult → Except Fault (Option Signal)}
    (run : Gated name key market p time proposes signal)
    (vouched : ∀ gate, proposes gate signal → Vouched least (passed gate) signal) :
    Vouched least (Reckoner.strict.gated name key market p time passed) signal := by
  obtain ⟨gate, judged, ⟨failed, rfl⟩ | ⟨opened, answer⟩⟩ := run
  · refine .bind judged ⟨?_, .hold _⟩
    rw [failed, Reckoner.veto, (Measured.hold least).proposed]
    rfl
  · refine .bind judged ?_
    rw [opened]
    exact vouched gate answer

end Vouched

namespace Parameters

variable {p : Parameters} {name : String} {default value : Float}

theorem isFinite_of_number (valid : p.validate = .ok ()) (read : p.number name = .ok (some value)) :
    value.isFinite = true := by
  have listed : (name, .number value) ∈ p.values.entries := by
    refine SortedMap.get?_eq_some.mp ?_
    unfold number at read
    split at read
    · cases read
    · cases read
      assumption
    · cases read
  have nothing : p.firstNotFinite = none := by
    unfold validate at valid
    split at valid
    · cases valid
    split at valid
    · cases valid
    · assumption
  simpa using List.findSome?_eq_none_iff.mp nothing _ listed

theorem positive_bounds (valid : p.validate = .ok ()) (finite : default.isFinite = true)
    (read : p.positive name default = .ok value) : value.isFinite = true ∧ 0.0 < value := by
  obtain ⟨number, found, rest⟩ := bind_eq_ok.mp read
  obtain ⟨set, stands, chosen⟩ := bind_eq_ok.mp found
  have numberFinite : number.isFinite = true := by
    cases set with
    | none =>
      cases chosen
      exact finite
    | some x =>
      cases chosen
      exact isFinite_of_number valid stands
  split at rest
  · cases rest
  · rename_i notBelow
    cases rest
    exact ⟨numberFinite, double_lt_of_not_le (by decide) (isNaN_eq_false numberFinite) notBelow⟩

end Parameters

theorem MeanReversion.bounds_inside {s : MeanReversion} {p : Parameters} {bounds : Float × Float}
    (read : s.bounds p = .ok bounds) : 0.0 < bounds.1 ∧ bounds.1 < bounds.2 ∧ bounds.2 < 100.0 := by
  simp only [MeanReversion.bounds, bind_eq_ok] at read
  obtain ⟨oversold, -, overbought, -, rest⟩ := read
  split at rest
  · rename_i inside
    cases rest
    simpa [and_assoc] using inside
  · cases rest

theorem Snapshot.isFinite_of_finiteBack {market : Snapshot} {key : String} {back : Nat} {value : Float}
    (read : market.finiteBack key back = .ok value) : value.isFinite = true := by
  obtain ⟨series, -, -, finite⟩ := finiteBack_eq_ok.mp read
  exact finite

/-- A close that is relied on may be infinite, but not downwards. -/
theorem Snapshot.latestClose_positive {market : Snapshot} {close : Float} (read : market.latestClose = .ok close) :
    0.0 < close := by
  obtain ⟨bar, -, sane, rfl⟩ := latestClose_eq_ok.mp read
  simp only [Bar.isSane, Bool.and_eq_true, decide_eq_true_eq] at sane
  exact sane.1.2

namespace TrendFollowing

theorem spreadPercent_defined {fast slow : Float} (fastFinite : fast.isFinite = true)
    (slowFinite : slow.isFinite = true) (positive : 0.0 < slow) : (spreadPercent fast slow).isNaN = false := by
  -- the difference may overflow; an infinite one stays infinite and on its side of zero
  obtain ⟨s, side⟩ := exists_beyond_zero (rounds_sub fastFinite slowFinite).defined
  have hundred : 1 ≤ exactValue 100.0 := by
    rw [exactValue_hundred]
    norm_num
  exact ((side.div_positive slowFinite positive).mul isFinite_hundred hundred (Nat.zero_le _)).defined

theorem reckonAnswer_strict (s : TrendFollowing) (symbol : String) (time : Instant)
    {saturation fast slow : Float} (volatility : Float) (saturationFinite : saturation.isFinite = true)
    (saturationPositive : 0.0 < saturation) (fastFinite : fast.isFinite = true) (slowFinite : slow.isFinite = true)
    (slowPositive : 0.0 < slow) :
    Vouched 0.0 (.ok (s.reckonAnswer .strict symbol time saturation volatility fast slow))
      (s.answer symbol time saturation volatility fast slow) := by
  have defined := spreadPercent_defined fastFinite slowFinite slowPositive
  obtain ⟨reckoned, measured⟩ := Reckoner.strict_saturated (direction (spreadPercent fast slow)) defined
    saturationFinite saturationPositive
  have proposed := measured.proposed s.name symbol time
  refine ⟨?_, measured.clamped⟩
  rw [spreadPercent] at reckoned proposed
  simp only [reckonAnswer, Reckoner.strict_divide slowPositive, Option.bind_eq_bind, Option.bind_some, reckoned,
    proposed]
  rfl

theorem reckon_strict {s : TrendFollowing} {market : Snapshot} {p : Parameters} {signal : Signal}
    (evaluated : s.evaluate market p = .ok signal) : Vouched 0.0 (s.reckon .strict market p) signal := by
  obtain ⟨time, ready, saturation, read, run⟩ := evaluate_eq_ok.mp evaluated
  obtain ⟨finite, positive⟩ := Parameters.positive_bounds (preflight_eq_ok.mp ready).1 (by decide) read
  refine .bind ready (.bind read (.gated run ?_))
  rintro gate ⟨fast, fastRead, slow, slowRead, above, rfl⟩
  have slowFinite := Snapshot.isFinite_of_finiteBack slowRead
  have slowPositive := double_lt_of_not_le (by decide) (isNaN_eq_false slowFinite) above
  refine .bind fastRead (.bind slowRead ?_)
  rw [if_neg above]
  exact s.reckonAnswer_strict market.symbol time gate.testedValue finite positive
    (Snapshot.isFinite_of_finiteBack fastRead) slowFinite slowPositive

end TrendFollowing

namespace MeanReversion

theorem reckonProposal_strict {rsi oversold overbought : Float} (close upper lower : Float)
    (finite : rsi.isFinite = true) (low : 0.0 < oversold) (apart : oversold < overbought)
    (high : overbought < 100.0) :
    reckonProposal .strict close upper lower rsi oversold overbought =
        some (proposal close upper lower rsi oversold overbought) ∧
      Measured 0.5 (proposal close upper lower rsi oversold overbought).1
        (Scalar.smaller (proposal close upper lower rsi oversold overbought).2 1.0) := by
  have nonneg := double_le_trans (double_le_of_lt low) (double_le_of_lt apart)
  have overboughtFinite := isFinite_of_le isFinite_hundred nonneg (double_le_of_lt high)
  unfold reckonProposal proposal
  split
  · rename_i bought
    simp only [Bool.and_eq_true, decide_eq_true_eq] at bought
    have oversoldFinite := isFinite_of_le overboughtFinite (double_le_of_lt low) (double_le_of_lt apart)
    have part := div_nonneg_double (sub_nonneg_double finite bought.2) oversoldFinite low
    rw [Reckoner.strict_divide low]
    exact ⟨rfl, .capped nofun (by decide) (by decide) (le_add_double (by decide) part)⟩
  split
  · rename_i sold
    simp only [Bool.and_eq_true, decide_eq_true_eq] at sold
    have room := sub_pos_double isFinite_hundred overboughtFinite (by decide) high
    have roomFinite := sub_isFinite isFinite_hundred overboughtFinite nonneg (double_le_of_lt high)
    have part := div_nonneg_double (sub_nonneg_double overboughtFinite sold.2) roomFinite room
    rw [Reckoner.strict_divide room]
    exact ⟨rfl, .capped nofun (by decide) (by decide) (le_add_double (by decide) part)⟩
  · exact ⟨rfl, by decide, fun _ => by decide, nofun⟩

theorem reckonAnswer_strict (s : MeanReversion) (symbol : String) (time : Instant) {bounds : Float × Float}
    {rsi : Float} (volatility close upper lower : Float) (finite : rsi.isFinite = true) (low : 0.0 < bounds.1)
    (apart : bounds.1 < bounds.2) (high : bounds.2 < 100.0) :
    Vouched 0.5 (.ok (s.reckonAnswer .strict symbol time bounds volatility close upper lower rsi))
      (s.answer symbol time bounds volatility close upper lower rsi) := by
  obtain ⟨reckoned, measured⟩ := reckonProposal_strict close upper lower finite low apart high
  refine ⟨?_, measured.clamped⟩
  simp only [reckonAnswer, reckoned, Option.bind_eq_bind, Option.bind_some, measured.proposed]
  rfl

theorem reckon_strict {s : MeanReversion} {market : Snapshot} {p : Parameters} {signal : Signal}
    (evaluated : s.evaluate market p = .ok signal) : Vouched 0.5 (s.reckon .strict market p) signal := by
  obtain ⟨time, ready, bounds, read, run⟩ := evaluate_eq_ok.mp evaluated
  obtain ⟨low, apart, high⟩ := bounds_inside read
  refine .bind ready (.bind read (.gated run ?_))
  rintro gate ⟨close, closeRead, upper, upperRead, lower, lowerRead, rsi, rsiRead, rfl⟩
  refine .bind closeRead (.bind upperRead (.bind lowerRead (.bind rsiRead ?_)))
  exact s.reckonAnswer_strict market.symbol time gate.testedValue close upper lower
    (Snapshot.isFinite_of_finiteBack rsiRead) low apart high

end MeanReversion

namespace Breakout

theorem escape_nonneg {close upper lower : Float} (positive : 0.0 < close) (upperFinite : upper.isFinite = true)
    (lowerFinite : lower.isFinite = true) : 0.0 ≤ (escape close upper lower).2 := by
  unfold escape
  split
  · exact sub_nonneg_double upperFinite (double_le_of_lt ‹close > upper›)
  split
  · have below := double_le_of_lt ‹close < lower›
    exact sub_nonneg_double (isFinite_of_le lowerFinite (double_le_of_lt positive) below) below
  · decide

theorem reckonConfidence_strict (direction : Direction) {excess volatility : Float} (nonneg : 0.0 ≤ excess)
    (finite : volatility.isFinite = true) :
    reckonConfidence .strict direction excess volatility = some (confidence direction excess volatility) ∧
      Measured 0.5 direction (confidence direction excess volatility) := by
  unfold reckonConfidence confidence
  cases direction with
  | hold => exact ⟨rfl, .hold _⟩
  | buy | sell =>
    by_cases positive : volatility > 0.0
    · have half := mul_nonneg_double (y := 0.5) (by decide) (by decide) nonneg
      have part := div_nonneg_double half finite positive
      rw [if_pos positive, if_pos positive, Reckoner.strict_divide positive]
      exact ⟨rfl, .capped nofun (by decide) (by decide) (le_add_double (by decide) part)⟩
    · rw [if_neg positive, if_neg positive]
      exact ⟨rfl, by decide, nofun, fun _ => by decide⟩

theorem reckonAnswer_strict (s : Breakout) (symbol : String) (time : Instant)
    {close upper lower volatility : Float} (positive : 0.0 < close) (upperFinite : upper.isFinite = true)
    (lowerFinite : lower.isFinite = true) (finite : volatility.isFinite = true) :
    Vouched 0.5 (.ok (s.reckonAnswer .strict symbol time close upper lower volatility))
      (s.answer symbol time close upper lower volatility) := by
  have nonneg := escape_nonneg positive upperFinite lowerFinite
  obtain ⟨reckoned, measured⟩ := reckonConfidence_strict (escape close upper lower).1 nonneg finite
  refine ⟨?_, measured.clamped⟩
  simp only [reckonAnswer, reckoned, Option.bind_eq_bind, Option.bind_some, measured.proposed]
  rfl

theorem reckon_strict {s : Breakout} {market : Snapshot} {p : Parameters} {signal : Signal}
    (evaluated : s.evaluate market p = .ok signal) : Vouched 0.5 (s.reckon .strict market p) signal := by
  obtain ⟨time, ready, run⟩ := evaluate_eq_ok.mp evaluated
  refine .bind ready (.gated run ?_)
  rintro gate ⟨close, closeRead, upper, upperRead, lower, lowerRead, volatility, read, rfl⟩
  refine .bind closeRead (.bind upperRead (.bind lowerRead (.bind read ?_)))
  exact s.reckonAnswer_strict market.symbol time (Snapshot.latestClose_positive closeRead)
    (Snapshot.isFinite_of_finiteBack upperRead) (Snapshot.isFinite_of_finiteBack lowerRead)
    (Snapshot.isFinite_of_finiteBack read)

end Breakout

namespace SpreadReversion

theorem reckonAnswer_strict (s : SpreadReversion) (symbol : String) (time : Instant) (entry : Float)
    {saturation zscore : Float} (defined : zscore.isNaN = false) (finite : saturation.isFinite = true)
    (positive : 0.0 < saturation) :
    Vouched 0.0 (.ok (s.reckonAnswer .strict symbol time entry saturation zscore))
      (s.answer symbol time entry saturation zscore) := by
  obtain ⟨reckoned, measured⟩ := Reckoner.strict_saturated (direction zscore entry) defined finite positive
  refine ⟨?_, measured.clamped⟩
  simp only [reckonAnswer, reckoned, Option.bind_eq_bind, Option.bind_some, measured.proposed]
  rfl

theorem reckon_strict {s : SpreadReversion} {market : Snapshot} {p : Parameters} {signal : Signal}
    (evaluated : s.evaluate market p = .ok signal) : Vouched 0.0 (s.reckon .strict market p) signal := by
  obtain ⟨time, ready, entry, entryRead, saturation, read, ordered, zscore, zscoreRead, rfl⟩ :=
    evaluate_eq_ok.mp evaluated
  obtain ⟨finite, positive⟩ := Parameters.positive_bounds (preflight_eq_ok.mp ready).1 (by decide) read
  refine .bind ready (.bind entryRead (.bind read ?_))
  rw [if_neg ordered]
  refine .bind zscoreRead ?_
  exact s.reckonAnswer_strict market.symbol time entry
    (isNaN_eq_false (Snapshot.isFinite_of_finiteBack zscoreRead)) finite positive

end SpreadReversion

namespace TradingRule

/-- The least confidence with which a rule trades. -/
def leastConfidence : TradingRule → Float
  | meanReversion _ | breakout _ => 0.5
  | trendFollowing _ | spreadReversion _ => 0.0

theorem reckon_strict {rule : TradingRule} {market : Snapshot} {p : Parameters} {signal : Signal}
    (evaluated : rule.strategy.evaluate market p = .ok signal) :
    Vouched rule.leastConfidence (rule.reckon .strict market p) signal := by
  cases rule with
  | trendFollowing rule => exact TrendFollowing.reckon_strict evaluated
  | meanReversion rule => exact MeanReversion.reckon_strict evaluated
  | breakout rule => exact Breakout.reckon_strict evaluated
  | spreadReversion rule => exact SpreadReversion.reckon_strict evaluated

end TradingRule

/-- A strategy reckons leniently, but whenever it answers, strict reckoning gives the same signal: no divisor is zero,
negative or undefined, and no confidence has to be forced into the unit interval. -/
theorem StrategyKind.evaluate_reckoned {kind : StrategyKind} {strategy : Strategy} {market : Snapshot}
    {p : Parameters} {signal : Signal} (created : kind.create = .ok strategy)
    (evaluated : strategy.evaluate market p = .ok signal) :
    ∃ rule, kind.rule = .ok rule ∧
      (∀ market p, rule.reckon .lenient market p = some <$> strategy.evaluate market p) ∧
      rule.reckon .strict market p = .ok (some signal) ∧
      signal.confidence.isNaN = false ∧ 0.0 ≤ signal.confidence ∧ signal.confidence ≤ 1.0 ∧
      (signal.direction = .hold → signal.confidence = 0.0) ∧
      (signal.direction ≠ .hold → rule.leastConfidence ≤ signal.confidence) := by
  obtain ⟨rule, accepted, rfl⟩ := create_eq_ok.mp created
  obtain ⟨ends, measured⟩ := TradingRule.reckon_strict evaluated
  obtain ⟨low, high⟩ := isUnit_iff.mp measured.unit
  exact ⟨rule, accepted, rule.reckon_lenient, ends, isUnit_defined measured.unit, low, high, measured.idle,
    measured.active⟩

/-- A close above the channel is reckoned with strictly. -/
theorem surgingMarket_reckoned :
    (StrategyKind.breakout 2 1 none).create = .ok shortBreakout.strategy ∧
      shortBreakout.strategy.evaluate surgingMarket anyVolatility = .ok surgingAnswer ∧
      surgingAnswer.direction = .buy ∧
      shortBreakout.reckon .strict surgingMarket anyVolatility = .ok (some surgingAnswer) ∧
      0.5 ≤ surgingAnswer.confidence ∧ surgingAnswer.confidence ≤ 1.0 := by
  have created : (StrategyKind.breakout 2 1 none).create = .ok shortBreakout.strategy := rfl
  obtain ⟨rule, accepted, -, strict, -, -, high, -, active⟩ :=
    StrategyKind.evaluate_reckoned created surgingMarket_answers
  obtain rfl : .breakout shortBreakout = rule := Except.ok.inj accepted
  exact ⟨created, surgingMarket_answers, rfl, strict, active nofun, high⟩

end SignalDesk
