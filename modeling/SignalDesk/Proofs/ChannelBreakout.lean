import SignalDesk.Proofs.CarriedSeries
import SignalDesk.Proofs.FlatSeries
import SignalDesk.Proofs.VolatilityMultiset
import SignalDesk.Proofs.VolatilityVeto

namespace SignalDesk

open Scalar

/-- What stands one place behind the end of a causal series is the last value without the last entry. -/
theorem Causal.behindLast {α β : Type} {f : List α → List β} (causal : Causal f) (entries : List α) (last : α) :
    (f (entries ++ [last])).reverse[1]? = (f entries).getLast? := by
  have short := causal.take_eq (entries ++ [last]) entries.length
  rw [List.take_left] at short
  have length := causal.length_eq (entries ++ [last])
  rw [List.length_append, List.length_singleton] at length
  rw [short, List.getLast?_eq_getElem?, List.length_take, List.getElem?_take]
  rcases Nat.eq_zero_or_pos entries.length with none | some
  · rw [List.getElem?_eq_none (by rw [List.length_reverse]; omega), if_neg (by omega)]
  · rw [List.getElem?_reverse (by omega), if_pos (by omega)]
    congr 1
    omega

/-- The last value of a series of windows is that of the last entries, if it is defined at all. -/
theorem getLast?_rolling {period : Nat} {f : List Float → Float} {values : List Float} {value : Float}
    (last : (rolling period f values).getLast? = some value) (finite : value.isFinite = true) :
    1 ≤ period ∧ period ≤ values.length ∧
      (∀ entry ∈ values.drop (values.length - period), entry.isNaN = false) ∧
      value = f (values.drop (values.length - period)) := by
  have some : 0 < values.length := by
    rw [← (rolling_causal period f).length_eq]
    exact List.length_pos_of_mem (List.mem_of_getLast? last)
  rw [List.getLast?_eq_getElem?, (rolling_causal period f).length_eq] at last
  have read := last
  rw [rolling, List.getElem?_map, List.getElem?_range (by omega)] at read
  have value_eq := Option.some.inj read
  dsimp only at value_eq
  split at value_eq
  · exact absurd value_eq.symm (ne_undefined finite)
  · rename_i full
    split at value_eq
    · exact absurd value_eq.symm (ne_undefined finite)
    · rename_i gap
      have window : windowAt period values (values.length - 1) = values.drop (values.length - period) := by
        rw [windowAt, show values.length - 1 + 1 - period = values.length - period by omega]
        exact List.take_of_length_le (by rw [List.length_drop]; omega)
      rw [window] at gap value_eq
      refine ⟨by omega, by omega, fun entry member => ?_, value_eq.symm⟩
      exact Bool.eq_false_iff.mpr fun undefined => gap (List.any_eq_true.mpr ⟨entry, member, undefined⟩)

/-- What holds of a picked value exactly if it holds of both, holds of a fold exactly if it holds of all. -/
theorem foldl_pick_iff {pick : Float → Float → Float} {P : Float → Prop}
    (splits : ∀ a b : Float, a.isNaN = false → b.isNaN = false →
      (pick a b).isNaN = false ∧ (P (pick a b) ↔ P a ∧ P b))
    {window : List Float} (defined : ∀ value ∈ window, value.isNaN = false) {start : Float}
    (startDefined : start.isNaN = false) :
    P (window.foldl pick start) ↔ P start ∧ ∀ value ∈ window, P value := by
  induction window generalizing start with
  | nil => simp
  | cons value rest ih =>
    rw [List.forall_mem_cons] at defined ⊢
    obtain ⟨pickedDefined, splitsHere⟩ := splits start value startDefined defined.1
    rw [List.foldl_cons, ih defined.2 pickedDefined, splitsHere, and_assoc]

section Bounds

variable {a b bound : Float} (aDefined : a.isNaN = false) (bDefined : b.isNaN = false)

include aDefined bDefined

theorem larger_lt_iff : (larger a b).isNaN = false ∧ (larger a b < bound ↔ a < bound ∧ b < bound) := by
  have order := lt_iff_linePlace (x := b) (y := a)
  have known : isUndefined b = false := bDefined
  simp only [larger, known, Bool.false_or, lt_iff_linePlace (y := bound)]
  by_cases less : b < a
  · have above : Scalar.less b a = true := decide_eq_true less
    rw [if_pos above]
    have := order.mp less
    exact ⟨aDefined, fun below => ⟨below, bDefined, below.2.1, by omega⟩, And.left⟩
  · have notAbove : Scalar.less b a = false := decide_eq_false less
    rw [if_neg (by rw [notAbove]; exact Bool.false_ne_true)]
    have le : linePlace a ≤ linePlace b := by
      by_contra greater
      exact less (order.mpr ⟨bDefined, aDefined, by omega⟩)
    exact ⟨bDefined, fun below => ⟨⟨aDefined, below.2.1, by omega⟩, below⟩, And.right⟩

theorem lt_smaller_iff : (smaller a b).isNaN = false ∧ (bound < smaller a b ↔ bound < a ∧ bound < b) := by
  have order := lt_iff_linePlace (x := a) (y := b)
  have known : isUndefined b = false := bDefined
  simp only [smaller, known, Bool.false_or, lt_iff_linePlace (x := bound)]
  by_cases less : a < b
  · have below : Scalar.less a b = true := decide_eq_true less
    rw [if_pos below]
    have := order.mp less
    exact ⟨aDefined, fun above => ⟨above, above.1, bDefined, by omega⟩, And.left⟩
  · have notBelow : Scalar.less a b = false := decide_eq_false less
    rw [if_neg (by rw [notBelow]; exact Bool.false_ne_true)]
    have le : linePlace b ≤ linePlace a := by
      by_contra greater
      exact less (order.mpr ⟨aDefined, bDefined, by omega⟩)
    exact ⟨bDefined, fun above => ⟨⟨above.1, aDefined, by omega⟩, above⟩, And.right⟩

end Bounds

section Channel

variable {window : List Float} {bound : Float} (defined : ∀ value ∈ window, value.isNaN = false)
  (filled : window ≠ [])

include defined filled

/-- A value lies above the channel of some bars exactly if it lies above all their highs. -/
theorem donchianValue_lt_iff : donchianValue .upper window < bound ↔ ∀ value ∈ window, value < bound := by
  have startDefined : (-1.0 / 0.0 : Float).isNaN = false := by decide
  have folded := foldl_pick_iff (P := (· < bound)) (fun a b => larger_lt_iff) defined startDefined
  refine folded.trans (and_iff_right_of_imp fun below => ?_)
  obtain ⟨value, member⟩ := List.exists_mem_of_ne_nil window filled
  obtain ⟨valueDefined, boundDefined, order⟩ := lt_iff_linePlace.mp (below value member)
  have least := (linePlace_bounds valueDefined).1
  refine lt_iff_linePlace.mpr ⟨by decide, boundDefined, ?_⟩
  rw [show linePlace (-1.0 / 0.0) = -(2047 * 2 ^ 52) by decide]
  omega

/-- It lies below the channel exactly if it lies below all their lows. -/
theorem lt_donchianValue_iff : bound < donchianValue .lower window ↔ ∀ value ∈ window, bound < value := by
  have startDefined : (1.0 / 0.0 : Float).isNaN = false := by decide
  have folded := foldl_pick_iff (P := (bound < ·)) (fun a b => lt_smaller_iff) defined startDefined
  refine folded.trans (and_iff_right_of_imp fun above => ?_)
  obtain ⟨value, member⟩ := List.exists_mem_of_ne_nil window filled
  obtain ⟨boundDefined, valueDefined, order⟩ := lt_iff_linePlace.mp (above value member)
  have greatest := (linePlace_bounds valueDefined).2
  refine lt_iff_linePlace.mpr ⟨boundDefined, by decide, ?_⟩
  rw [show linePlace (1.0 / 0.0) = 2047 * 2 ^ 52 by decide]
  omega

end Channel

/-- The bars of which the channel of a period is made, in front of the last one. -/
def channelBars (period : Nat) (earlier : List (Bar Float)) : List (Bar Float) :=
  earlier.drop (earlier.length - period)

/-- What a rule reads of a channel one place back is made of the bars before the last one. -/
theorem channel_behindLast {period : Nat} {part : Bar Float → Float} {f : List Float → Float}
    {earlier : List (Bar Float)} {last : Bar Float} {value : Float}
    (read : (rolling period f ((earlier ++ [last]).map part)).reverse[1]? = some value)
    (finite : value.isFinite = true) :
    1 ≤ period ∧ period ≤ earlier.length ∧
      (∀ entry ∈ (channelBars period earlier).map part, entry.isNaN = false) ∧
      value = f ((channelBars period earlier).map part) := by
  rw [List.map_append, List.map_singleton, (rolling_causal period f).behindLast] at read
  have window := getLast?_rolling read finite
  rwa [List.length_map, ← List.map_drop] at window

/-- Where a close lies in comparison with the bars of a channel. -/
def breakoutDirection (close : Float) (window : List (Bar Float)) : Direction :=
  if ∀ bar ∈ window, close > bar.high then .buy
  else if ∀ bar ∈ window, close < bar.low then .sell
  else .hold

theorem Breakout.direction_of_channel {rule : Breakout} {market : Snapshot} {p : Parameters} {signal : Signal}
    (carries : market.Carries rule.indicators) (evaluated : rule.evaluate market p = .ok signal)
    (plain : signal.isVetoed = false) :
    ∃ earlier last, market.bars = earlier ++ [last] ∧ 1 ≤ rule.period ∧ rule.period ≤ earlier.length ∧
      signal.direction = breakoutDirection last.closing (channelBars rule.period earlier) := by
  obtain ⟨time, -, gated⟩ := evaluate_eq_ok.mp evaluated
  obtain ⟨gate, close, readClose, upper, readUpper, lower, readLower, volatility, -, rfl⟩ :=
    gated.proposed_of_plain plain
  obtain ⟨last, latest, -, rfl⟩ := Snapshot.latestClose_eq_ok.mp readClose
  obtain ⟨earlier, split⟩ := List.getLast?_eq_some_iff.mp latest
  obtain ⟨upperStands, upperFinite⟩ := carries.back (by simp [indicators]) readUpper
  obtain ⟨lowerStands, lowerFinite⟩ := carries.back (by simp [indicators]) readLower
  rw [split] at upperStands lowerStands
  obtain ⟨positive, long, highsDefined, upperValue⟩ := channel_behindLast upperStands upperFinite
  obtain ⟨-, -, lowsDefined, lowerValue⟩ := channel_behindLast lowerStands lowerFinite
  have filled (part : Bar Float → Float) : (channelBars rule.period earlier).map part ≠ [] := by
    rw [← List.length_pos_iff, List.length_map, channelBars, List.length_drop]
    omega
  have above : upper < last.closing ↔ ∀ bar ∈ channelBars rule.period earlier, bar.high < last.closing := by
    rw [upperValue, donchianValue_lt_iff highsDefined (filled _), List.forall_mem_map]
  have below : last.closing < lower ↔ ∀ bar ∈ channelBars rule.period earlier, last.closing < bar.low := by
    rw [lowerValue, lt_donchianValue_iff lowsDefined (filled _), List.forall_mem_map]
  refine ⟨earlier, last, split, positive, long, ?_⟩
  change (escape last.closing upper lower).1 = _
  simp only [escape, breakoutDirection, gt_iff_lt, ← above, ← below]
  split
  · rfl
  · split <;> rfl

/-- On the series of its own indicators a breakout strategy compares the last close with as many bars before it
as its period says, and with nothing else. -/
theorem StrategyKind.breakout_direction {period atr : UInt64} {custom : Option String} {strategy : Strategy}
    {symbol : String} {timeframe : Timeframe} {bars : List (Bar Float)} {cache : SeriesCache} {p : Parameters}
    {signal : Signal} (created : (breakout period atr custom).create = .ok strategy)
    (computed : SeriesCache.compute bars (breakout period atr custom).indicators = .ok cache)
    (evaluated : strategy.evaluate ⟨symbol, timeframe, bars, cache⟩ p = .ok signal)
    (plain : signal.isVetoed = false) :
    period.toNat + 1 ≤ bars.length ∧ ∃ before window last,
      bars = before ++ window ++ [last] ∧ window.length = period.toNat ∧
        signal.direction = breakoutDirection last.closing window := by
  obtain ⟨rule, accepted, rfl⟩ := create_eq_ok.mp created
  have carries : Snapshot.Carries ⟨symbol, timeframe, bars, cache⟩ (breakout period atr custom).indicators :=
    Snapshot.carries_of_compute computed
  rw [indicators_of_rule accepted] at carries
  cases rule_eq_describedRule accepted
  obtain ⟨earlier, last, split, -, long, direction⟩ := Breakout.direction_of_channel carries evaluated plain
  dsimp only at split long direction
  refine ⟨by rw [split, List.length_append, List.length_singleton]; omega,
    earlier.take (earlier.length - period.toNat), channelBars period.toNat earlier, last, ?_, ?_, direction⟩
  · rw [split, channelBars, List.take_append_drop]
  · rw [channelBars, List.length_drop]
    omega

/-- The highs of the first and of the last bar lie above the last close, those of the two between them below. -/
def surgingBars : List (Bar Float) :=
  [⟨⟨0, 0⟩, 10.0, 20.0, 9.0, 10.0, 5.0⟩, ⟨⟨3600, 0⟩, 10.0, 11.0, 9.0, 10.0, 5.0⟩,
    ⟨⟨7200, 0⟩, 10.0, 12.0, 9.0, 10.0, 5.0⟩, ⟨⟨10800, 0⟩, 10.0, 30.0, 9.0, 13.0, 5.0⟩]

def shortBreakout : Breakout := ⟨"breakout", 2, 1⟩

def surgingSeries : SeriesCache := (∅ : SeriesCache)
  |>.insert "atr_1" ((Indicator.atr 1).series surgingBars)
  |>.insert "donchian_lower_2" ((Indicator.donchian .lower 2).series surgingBars)
  |>.insert "donchian_upper_2" ((Indicator.donchian .upper 2).series surgingBars)

def surgingMarket : Snapshot := ⟨"BTC/USDC", .hour, surgingBars, surgingSeries⟩

def anyVolatility : Parameters := ⟨"breakout", ∅, true⟩

theorem surgingMarket_gate :
    checkVolatility surgingMarket (Indicator.atr 1).name anyVolatility = .ok ⟨true, 2.0, 21.0, 21.0⟩ := by
  have ranges : (Indicator.atr 1).series surgingBars = [0.0 / 0.0, 2.0, 3.0, 21.0] := by decide
  have peak : volatilityGate [0.0 / 0.0, 2.0, 3.0, 21.0] 0.0 100.0 = .ok ⟨true, 2.0, 21.0, 21.0⟩ :=
    volatilityGate_peak rfl (by decide) (by decide) rfl rfl rfl
  exact checkVolatility_eq_ok.mpr ⟨0.0, 100.0, _, none, rfl, ranges ▸ rfl, rfl, peak⟩

def surgingAnswer : Signal := shortBreakout.answer "BTC/USDC" ⟨10800, 0⟩ 13.0 12.0 9.0 21.0

theorem surgingMarket_answers : shortBreakout.strategy.evaluate surgingMarket anyVolatility = .ok surgingAnswer := by
  have ready : preflight "breakout" shortBreakout.required surgingMarket anyVolatility = .ok ⟨10800, 0⟩ :=
    preflight_eq_ok.mpr ⟨rfl, rfl, rfl⟩
  refine Breakout.evaluate_eq_ok.mpr ⟨_, ready, _, surgingMarket_gate, Or.inr ⟨rfl, ?_⟩⟩
  refine ⟨13.0, ?_, 12.0, ?_, 9.0, ?_, 21.0, ?_, rfl⟩
  · exact Snapshot.latestClose_eq_ok.mpr ⟨_, rfl, by decide, rfl⟩
  · exact Snapshot.finiteBack_eq_ok.mpr ⟨(Indicator.donchian .upper 2).series surgingBars, rfl, by decide, by decide⟩
  · exact Snapshot.finiteBack_eq_ok.mpr ⟨(Indicator.donchian .lower 2).series surgingBars, rfl, by decide, by decide⟩
  · exact Snapshot.finiteBack_eq_ok.mpr ⟨(Indicator.atr 1).series surgingBars, rfl, by decide +kernel, by decide⟩

theorem surgingMarket_direction :
    (StrategyKind.breakout 2 1 none).create = .ok shortBreakout.strategy ∧
      SeriesCache.compute surgingBars (StrategyKind.breakout 2 1 none).indicators = .ok surgingSeries ∧
      ∃ signal, shortBreakout.strategy.evaluate ⟨"BTC/USDC", .hour, surgingBars, surgingSeries⟩ anyVolatility =
          .ok signal ∧ signal.isVetoed = false ∧ signal.direction = .buy ∧
        (2 : UInt64).toNat + 1 ≤ surgingBars.length ∧ ∃ before window last,
          surgingBars = before ++ window ++ [last] ∧ window.length = (2 : UInt64).toNat ∧
            signal.direction = breakoutDirection last.closing window := by
  have created : (StrategyKind.breakout 2 1 none).create = .ok shortBreakout.strategy := rfl
  have computed : SeriesCache.compute surgingBars (StrategyKind.breakout 2 1 none).indicators = .ok surgingSeries :=
    rfl
  have plain := (shortBreakout.answer_plain "BTC/USDC" ⟨10800, 0⟩ 13.0 12.0 9.0 21.0).not_vetoed
  exact ⟨created, computed, _, surgingMarket_answers, plain, by decide,
    StrategyKind.breakout_direction created computed surgingMarket_answers plain⟩

end SignalDesk
