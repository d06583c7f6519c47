import SignalDesk.Proofs.ComputedSeries
import SignalDesk.Proofs.PositionLoops
import SignalDesk.Proofs.SoundIndicators

namespace SignalDesk

open Scalar

/-- What a request that cannot be met comes to at the positions of a series. -/
def Misstep.ofDefect : Defect → Misstep
  | .zeroPeriod => .emptyWindow
  | .positionOverflow => .overflow

namespace Indicator

/-- The series of an indicator, value by value at checked positions. -/
def loop (bars : List (Bar Float)) : Indicator → Checked (List Float)
  | sma period => windowLoop period mean (bars.map Bar.closing)
  | ema period => smoothLoop (ofNat 2 / (ofNat period + ofNat 1)) 0 period (bars.map Bar.closing)
  | rsi period => strengthLoop period (bars.map Bar.closing)
  | atr period => do wilderLoop period (← trueRangeLoop bars)
  | bollinger band period multiplier =>
    windowLoop period (bollingerValue band multiplier) (bars.map Bar.closing)
  | donchian .upper period => windowLoop period (donchianValue .upper) (bars.map Bar.high)
  | donchian .lower period => windowLoop period (donchianValue .lower) (bars.map Bar.low)

def computeByPosition (indicator : Indicator) (bars : List (Bar Float)) : Checked (List Float) :=
  if indicator.period = 0 then .error .emptyWindow else indicator.loop bars

theorem loop_eq {indicator : Indicator} {bars : List (Bar Float)} (positive : 1 ≤ indicator.period)
    (narrow : indicator.period < positionLimit) (addressable : bars.length < positionLimit) :
    indicator.loop bars = if indicator.fits bars then .ok (indicator.series bars) else .error .overflow := by
  have entries {β : Type} (f : Bar Float → β) : (bars.map f).length < positionLimit := by
    rwa [List.length_map]
  cases indicator with
  | sma period => exact windowLoop_eq mean (entries _)
  | ema period =>
    simp only [Indicator.period] at positive narrow
    rw [loop, smoothLoop_eq positive (Nat.zero_le _) (by omega)]
    rfl
  | rsi period =>
    simp only [Indicator.period] at positive
    rw [loop, strengthLoop_eq positive]
    simp only [fits, series, decide_eq_true_eq]
  | atr period =>
    simp only [Indicator.period] at positive
    rw [loop, trueRangeLoop_eq, Checked.ok_bind, wilderLoop_eq positive]
    rfl
  | bollinger band period multiplier => exact windowLoop_eq _ (entries _)
  | donchian band period => cases band <;> exact windowLoop_eq _ (entries _)

/-- Computing a series at checked positions goes wrong only where the request cannot be met. -/
theorem computeByPosition_eq {indicator : Indicator} {bars : List (Bar Float)}
    (narrow : indicator.period < positionLimit) (addressable : bars.length < positionLimit) :
    indicator.computeByPosition bars = (indicator.compute bars).mapError Misstep.ofDefect := by
  unfold computeByPosition compute
  split
  · rfl
  · rename_i positive
    rw [loop_eq (by omega) narrow addressable]
    split <;> rfl

/-- An oscillator or a true range asks for a position of more than 64 bits: the one behind the period, or the
one behind the period after the first defined true range. -/
def Overflows (bars : List (Bar Float)) : Indicator → Prop
  | rsi period => positionLimit ≤ period + 1
  | atr period => ∃ start, (trueRanges bars).findIdx? (fun range => !range.isNaN) = some start ∧
      positionLimit ≤ start + period
  | _ => False

theorem fits_eq_false {indicator : Indicator} {bars : List (Bar Float)} :
    indicator.fits bars = false ↔ indicator.Overflows bars := by
  cases indicator with
  | rsi period => simp only [fits, Overflows, decide_eq_false_iff_not, Nat.not_lt]
  | atr period =>
    simp only [fits, smoothingFits, Overflows, Bool.or_eq_false_iff, decide_eq_false_iff_not, Nat.not_lt,
      all_eq_false_iff]
    constructor
    · rintro ⟨⟨start, found⟩, far⟩
      exact ⟨start, found, length_takeWhile_of_findIdx? found ▸ far⟩
    · rintro ⟨start, found, far⟩
      exact ⟨⟨start, found⟩, length_takeWhile_of_findIdx? found ▸ far⟩
  | _ => simp only [fits, Overflows, Bool.true_eq_false]

/-- Whatever kind asks for an indicator, accepted or not, its window is not empty, and over any bars it has
one value for each of them unless it asks for a position of more than 64 bits. At checked positions nothing
else goes wrong either. -/
theorem compute_unless_overflows {kind : StrategyKind} {indicator : Indicator} (asked : indicator ∈ kind.indicators)
    (bars : List (Bar Float)) :
    1 ≤ indicator.period ∧
      (¬indicator.Overflows bars →
        ∃ series, indicator.compute bars = .ok series ∧ series.length = bars.length) ∧
      (indicator.Overflows bars → indicator.compute bars = .error .positionOverflow) ∧
      (bars.length < positionLimit →
        indicator.computeByPosition bars = (indicator.compute bars).mapError Misstep.ofDefect) := by
  obtain ⟨positive, narrow, -⟩ := kind.indicators_sound indicator asked
  have window : indicator.period ≠ 0 := Nat.one_le_iff_ne_zero.mp positive
  refine ⟨positive, fun inside => ?_, fun outside => ?_, computeByPosition_eq narrow⟩
  · rw [← fits_eq_false, Bool.not_eq_false] at inside
    exact ⟨indicator.series bars, compute_eq_ok.mpr ⟨window, inside, rfl⟩, indicator.series_causal.length_eq bars⟩
  · rw [← fits_eq_false] at outside
    rw [compute, if_neg window, outside, if_neg Bool.false_ne_true]

theorem gappedBars_compute_unless_overflows :
    .rsi 14 ∈ (StrategyKind.meanReversion 20 2.0 14 14 none).indicators ∧ ¬(rsi 14).Overflows gappedBars ∧
      gappedBars.length < positionLimit ∧
      ∃ series, (rsi 14).compute gappedBars = .ok series ∧ series.length = 4 ∧
        (rsi 14).computeByPosition gappedBars = .ok series := by
  have asked : .rsi 14 ∈ (StrategyKind.meanReversion 20 2.0 14 14 none).indicators := .tail _ (.tail _ (.head _))
  have inside : ¬(rsi 14).Overflows gappedBars := by
    unfold Overflows
    decide
  have addressable : gappedBars.length < positionLimit := by decide
  obtain ⟨-, computed, -, positions⟩ := compute_unless_overflows asked gappedBars
  obtain ⟨series, run, length⟩ := computed inside
  refine ⟨asked, inside, addressable, series, run, length, ?_⟩
  rw [positions addressable, run]
  rfl

/-- Two bars, so that there is a true range. -/
def risingBars : List (Bar Float) :=
  [⟨⟨0, 0⟩, 1.0, 2.0, 1.0, 2.0, 5.0⟩, ⟨⟨3600, 0⟩, 2.0, 3.0, 2.0, 3.0, 5.0⟩]

/-- The widest periods of accepted kinds ask for positions that do not exist. -/
theorem compute_widest_periods :
    .atr (positionLimit - 1) ∈ (StrategyKind.breakout 20 18446744073709551615 none).indicators ∧
      (atr (positionLimit - 1)).compute risingBars = .error .positionOverflow ∧
      (atr (positionLimit - 1)).computeByPosition risingBars = .error .overflow ∧
      .rsi (positionLimit - 1) ∈
        (StrategyKind.meanReversion 20 2.0 18446744073709551615 14 none).indicators ∧
      (rsi (positionLimit - 1)).compute [] = .error .positionOverflow ∧
      (rsi (positionLimit - 1)).computeByPosition [] = .error .overflow :=
  ⟨.tail _ (.tail _ (.head _)), rfl, rfl, .tail _ (.tail _ (.head _)), rfl, rfl⟩

end Indicator

end SignalDesk
