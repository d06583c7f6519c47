import Mathlib.Data.List.Basic
import SignalDesk.Indicator

namespace SignalDesk

open Scalar

/-- A transformation of series with one value for each entry, none of which depends on an entry behind
its own place: the first entries settle the first values. -/
structure Causal {α β : Type} (f : List α → List β) : Prop where
  length_eq (entries : List α) : (f entries).length = entries.length
  take_eq (entries : List α) (k : Nat) : f (entries.take k) = (f entries).take k

namespace Causal

variable {α β γ : Type}

theorem map (f : α → β) : Causal (List.map f) where
  length_eq _ := List.length_map _
  take_eq _ _ := List.map_take

theorem comp {g : List β → List γ} {f : List α → List β} (outer : Causal g) (inner : Causal f) :
    Causal fun entries => g (f entries) where
  length_eq entries := by rw [outer.length_eq, inner.length_eq]
  take_eq entries k := by rw [inner.take_eq, outer.take_eq]

end Causal

/-- A full window lies within any entries that reach up to its place. -/
theorem windowAt_take {α : Type} {period k i : Nat} (full : period ≤ i + 1) (within : i < k)
    (values : List α) : windowAt period (values.take k) i = windowAt period values i := by
  unfold windowAt
  rw [List.drop_take, List.take_take, Nat.min_eq_left (by omega)]

/-- Values made of each entry and the one before it. -/
theorem zipWith_cons_take {α β : Type} (f : α → α → β) (first : α) (rest : List α) (k : Nat) :
    List.zipWith f (first :: rest.take k) (rest.take k) = (List.zipWith f (first :: rest) rest).take k := by
  induction rest generalizing first k with
  | nil => simp
  | cons next rest ih =>
    cases k with
    | zero => simp
    | succ k => simp [ih]

variable {α : Type} [Scalar α]

@[simp] theorem length_undefineds (n : Nat) : (undefineds n : List α).length = n :=
  List.length_replicate

@[simp] theorem take_undefineds (n k : Nat) : (undefineds n : List α).take k = undefineds (min k n) :=
  List.take_replicate

theorem undefineds_append (m n : Nat) : (undefineds m ++ undefineds n : List α) = undefineds (m + n) :=
  List.replicate_append_replicate

theorem rolling_causal (period : Nat) (f : List α → α) : Causal (rolling period f) where
  length_eq values := by simp [rolling]
  take_eq values k := by
    simp only [rolling, List.length_take, ← List.map_take, List.take_range]
    refine List.map_congr_left fun i inRange => ?_
    have before := List.mem_range.mp inRange
    by_cases early : period = 0 ∨ i + 1 < period
    · simp only [if_pos early]
    · simp only [if_neg early, windowAt_take (show period ≤ i + 1 by omega) (show i < k by omega)]

theorem smoothFrom_causal (weight previous : α) : Causal (smoothFrom weight previous) where
  length_eq values := by
    induction values generalizing previous with
    | nil => rfl
    | cons value rest ih => cases gap : isUndefined value <;> simp [smoothFrom, gap, ih]
  take_eq values k := by
    induction values generalizing previous k with
    | nil => simp [smoothFrom]
    | cons value rest ih =>
      cases k with
      | zero => simp [smoothFrom]
      | succ k => cases gap : isUndefined value <;> simp [smoothFrom, gap, ih]

/-- Nothing is defined in front of the seed. -/
theorem smoothFromMean_take_early {weight : α} {period k : Nat} (early : k < period) (values : List α) :
    (smoothFromMean weight period values).take k = undefineds (min k values.length) := by
  unfold smoothFromMean
  split
  · rw [take_undefineds]
  · rename_i seeded
    rw [List.take_append_of_le_length (by rw [length_undefineds]; omega), take_undefineds,
      Nat.min_eq_left (by omega), Nat.min_eq_left (by omega)]

theorem smoothFromMean_causal (weight : α) (period : Nat) : Causal (smoothFromMean weight period) where
  length_eq values := by
    unfold smoothFromMean
    split
    · exact length_undefineds _
    · rename_i seeded
      simp only [List.length_append, length_undefineds, List.length_cons,
        (smoothFrom_causal _ _).length_eq, List.length_drop]
      omega
  take_eq values k := by
    by_cases early : k < period
    · have tooShort : period = 0 ∨ (values.take k).length < period ∨
          ((values.take k).take period).any isUndefined := by
        rw [List.length_take]
        omega
      rw [smoothFromMean_take_early early, smoothFromMean, if_pos tooShort, List.length_take]
    · -- The seed is known, so the same case applies to the first entries as to all.
      have seed : (values.take k).take period = values.take period := by
        rw [List.take_take, Nat.min_eq_left (by omega)]
      have short : (values.take k).length < period ↔ values.length < period := by
        rw [List.length_take]
        omega
      simp only [smoothFromMean, seed, short]
      split
      · rw [List.length_take, take_undefineds]
      · rename_i seeded
        rw [List.drop_take, (smoothFrom_causal _ _).take_eq, List.take_append, length_undefineds,
          take_undefineds, Nat.min_eq_right (by omega), show k - (period - 1) = k - period + 1 by omega,
          List.take_succ_cons]

theorem wilderSmooth_nil (period : Nat) : wilderSmooth period ([] : List α) = [] := by
  simp [wilderSmooth, smoothFromMean, undefineds]

/-- A leading gap only shifts the smoothing. -/
theorem wilderSmooth_cons_of_undefined {period : Nat} {value : α} (gap : isUndefined value = true)
    (rest : List α) : wilderSmooth period (value :: rest) = undefined :: wilderSmooth period rest := by
  simp [wilderSmooth, gap, undefineds, List.replicate_succ]

theorem wilderSmooth_cons_of_defined {period : Nat} {value : α} (start : isUndefined value = false)
    (rest : List α) : wilderSmooth period (value :: rest) =
      smoothFromMean (ofNat 1 / ofNat period) period (value :: rest) := by
  simp [wilderSmooth, start, undefineds]

theorem wilderSmooth_causal (period : Nat) : Causal (wilderSmooth (α := α) period) where
  length_eq values := by
    induction values with
    | nil => rw [wilderSmooth_nil]
    | cons value rest ih =>
      cases gap : isUndefined value with
      | true => rw [wilderSmooth_cons_of_undefined gap, List.length_cons, ih, List.length_cons]
      | false => rw [wilderSmooth_cons_of_defined gap, (smoothFromMean_causal _ _).length_eq]
  take_eq values k := by
    induction values generalizing k with
    | nil => simp [wilderSmooth_nil]
    | cons value rest ih =>
      cases k with
      | zero => simp [wilderSmooth_nil]
      | succ k =>
        cases gap : isUndefined value with
        | true =>
          rw [List.take_succ_cons, wilderSmooth_cons_of_undefined gap,
            wilderSmooth_cons_of_undefined gap, List.take_succ_cons, ih]
        | false =>
          rw [wilderSmooth_cons_of_defined gap, ← (smoothFromMean_causal _ _).take_eq,
            List.take_succ_cons, wilderSmooth_cons_of_defined gap]

theorem trueRanges_causal : Causal (trueRanges (α := α)) where
  length_eq bars := by
    cases bars with
    | nil => rfl
    | cons first rest => simp [trueRanges]
  take_eq bars k := by
    cases bars with
    | nil => simp [trueRanges]
    | cons first rest =>
      cases k with
      | zero => rfl
      | succ k => simp only [List.take_succ_cons, trueRanges, zipWith_cons_take]

theorem atr_causal (period : Nat) : Causal (atr (α := α) period) :=
  (wilderSmooth_causal period).comp trueRanges_causal

theorem length_changes (closes : List α) : (changes closes).length = closes.length - 1 := by
  simp [changes]

theorem changes_take (closes : List α) (k : Nat) :
    changes (closes.take k) = (changes closes).take (k - 1) := by
  cases closes with
  | nil => simp [changes]
  | cons first rest =>
    cases k with
    | zero => rfl
    | succ k =>
      simp only [changes, List.take_succ_cons, List.tail_cons, List.zipWith_comm (f := (· - ·)),
        zipWith_cons_take, Nat.add_sub_cancel]

theorem length_averagesFrom_le (weight gain loss : α) (moves : List α) :
    (averagesFrom weight gain loss moves).length ≤ moves.length := by
  induction moves generalizing gain loss with
  | nil => simp [averagesFrom]
  | cons change rest ih => cases gap : isUndefined change <;> simp [averagesFrom, gap, ih]

theorem averagesFrom_take (weight gain loss : α) (moves : List α) (k : Nat) :
    averagesFrom weight gain loss (moves.take k) = (averagesFrom weight gain loss moves).take k := by
  induction moves generalizing gain loss k with
  | nil => simp [averagesFrom]
  | cons change rest ih =>
    cases k with
    | zero => simp [averagesFrom]
    | succ k => cases gap : isUndefined change <;> simp [averagesFrom, gap, ih]

/-- The averages start at place `period`. -/
theorem length_strengthAverages_le (period : Nat) (closes : List α) :
    (strengthAverages period closes).length ≤ closes.length - period := by
  simp only [strengthAverages]
  split
  · exact Nat.zero_le _
  · rename_i seeded
    rw [List.length_cons]
    refine Nat.le_trans (Nat.succ_le_succ (length_averagesFrom_le _ _ _ _)) ?_
    rw [List.length_drop, length_changes]
    omega

theorem strengthAverages_take (period : Nat) (closes : List α) (k : Nat) :
    strengthAverages period (closes.take k) = (strengthAverages period closes).take (k - period) := by
  by_cases early : k < period + 1
  · have tooShort : (closes.take k).length < period + 1 := by
      rw [List.length_take]
      omega
    simp only [strengthAverages, tooShort, true_or, or_true, if_true]
    rw [Nat.sub_eq_zero_of_le (by omega), List.take_zero]
  · have seed : ((changes closes).take (k - 1)).take period = (changes closes).take period := by
      rw [List.take_take, Nat.min_eq_left (by omega)]
    have short : (closes.take k).length < period + 1 ↔ closes.length < period + 1 := by
      rw [List.length_take]
      omega
    simp only [strengthAverages, changes_take, seed, short]
    split
    · rw [List.take_nil]
    · rw [List.drop_take, averagesFrom_take, show k - period = k - 1 - period + 1 by omega,
        List.take_succ_cons]

/-- The oscillator in one form, whether anything of it is defined or not. -/
theorem rsi_eq_append (period : Nat) (closes : List α) :
    rsi period closes = undefineds (min period closes.length) ++
      ((strengthAverages period closes).map fun average => relativeStrength average.1 average.2) ++
        undefineds (closes.length - period - (strengthAverages period closes).length) := by
  have fit := length_strengthAverages_le period closes
  simp only [rsi]
  split
  · rename_i nothing
    rw [List.isEmpty_iff.mp nothing, List.map_nil, List.append_nil, undefineds_append, List.length_nil]
    congr 1
    omega
  · rename_i something
    have positive := List.length_pos_iff.mpr (mt List.isEmpty_iff.mpr something)
    rw [Nat.min_eq_left (by omega)]

theorem rsi_causal (period : Nat) : Causal (rsi (α := α) period) where
  length_eq closes := by
    have fit := length_strengthAverages_le period closes
    simp only [rsi_eq_append, List.length_append, length_undefineds, List.length_map]
    omega
  take_eq closes k := by
    have fit := length_strengthAverages_le period closes
    simp only [rsi_eq_append, strengthAverages_take, List.take_append, take_undefineds,
      List.length_append, length_undefineds, List.length_map, List.length_take, ← List.map_take]
    have values : (strengthAverages period closes).take (k - period) =
        (strengthAverages period closes).take (k - min period closes.length) := by
      rw [List.take_eq_take_iff]
      omega
    have front : min period (min k closes.length) = min k (min period closes.length) := by omega
    rw [values, front]
    congr 2
    omega

namespace Indicator

/-- No indicator looks ahead. -/
theorem series_causal (indicator : Indicator) : Causal fun bars => indicator.series bars := by
  cases indicator with
  | sma period => exact (rolling_causal period mean).comp (.map Bar.closing)
  | ema period => exact (smoothFromMean_causal _ period).comp (.map Bar.closing)
  | rsi period => exact (rsi_causal period).comp (.map Bar.closing)
  | atr period => exact atr_causal period
  | bollinger band period multiplier =>
    exact (rolling_causal period (bollingerValue band multiplier)).comp (.map Bar.closing)
  | donchian band period =>
    cases band with
    | upper => exact (rolling_causal period (donchianValue .upper)).comp (.map Bar.high)
    | lower => exact (rolling_causal period (donchianValue .lower)).comp (.map Bar.low)

/-- Every position that an indicator needs exists while the period and the bars together stay below the
limit, except the one behind the period of the widest oscillator. -/
theorem fits_of_bounded {indicator : Indicator} {bars : List (Bar Float)}
    (bounded : indicator.period + bars.length < positionLimit)
    (notWidest : indicator ≠ .rsi (positionLimit - 1)) : indicator.fits bars = true := by
  cases indicator with
  | rsi period =>
    have different : period ≠ positionLimit - 1 := fun same => notWidest (congrArg rsi same)
    simp only [Indicator.period] at bounded
    simp only [fits, decide_eq_true_eq]
    omega
  | atr period =>
    have leading := (List.takeWhile_sublist (l := trueRanges bars) Float.isNaN).length_le
    rw [trueRanges_causal.length_eq] at leading
    simp only [Indicator.period] at bounded
    simp only [fits, smoothingFits, Bool.or_eq_true, decide_eq_true_eq]
    exact Or.inr (by omega)
  | _ => rfl

theorem compute_eq_series {indicator : Indicator} {bars : List (Bar Float)}
    (positive : 1 ≤ indicator.period) (bounded : indicator.period + bars.length < positionLimit)
    (notWidest : indicator ≠ .rsi (positionLimit - 1)) :
    indicator.compute bars = .ok (indicator.series bars) := by
  rw [compute, if_neg (by omega), if_pos (fits_of_bounded bounded notWidest)]

/-- There is a value for each bar, and the values for the first bars are those that these bars have on
their own: nothing that comes later changes them. -/
theorem compute_take {indicator : Indicator} {bars : List (Bar Float)}
    (positive : 1 ≤ indicator.period) (bounded : indicator.period + bars.length < positionLimit)
    (notWidest : indicator ≠ .rsi (positionLimit - 1)) :
    ∃ series, indicator.compute bars = .ok series ∧ series.length = bars.length ∧
      ∀ k, indicator.compute (bars.take k) = .ok (series.take k) := by
  refine ⟨indicator.series bars, compute_eq_series positive bounded notWidest,
    indicator.series_causal.length_eq bars, ?_⟩
  intro k
  have fewer : indicator.period + (bars.take k).length < positionLimit := by
    rw [List.length_take]
    omega
  rw [compute_eq_series positive fewer notWidest, indicator.series_causal.take_eq]

/-- Closes with a gap between them. -/
def gappedBars : List (Bar Float) :=
  [100.0, 101.0, 0.0 / 0.0, 99.0].map fun close => ⟨⟨0, 0⟩, 100.0, 102.0, 98.0, close, 5.0⟩

theorem gappedBars_compute_take :
    1 ≤ (rsi 1).period ∧ (rsi 1).period + gappedBars.length < positionLimit ∧
      rsi 1 ≠ .rsi (positionLimit - 1) ∧
      ∃ series, (rsi 1).compute gappedBars = .ok series ∧ series.length = 4 ∧
        ∀ k, (rsi 1).compute (gappedBars.take k) = .ok (series.take k) := by
  have notWidest : rsi 1 ≠ .rsi (positionLimit - 1) := fun same => absurd (rsi.inj same) (by decide)
  exact ⟨by decide, by decide, notWidest, compute_take (by decide) (by decide) notWidest⟩

/-- The widest oscillator asks for a position that does not exist, even of no bars at all. -/
theorem compute_widest_rsi :
    1 ≤ (rsi (positionLimit - 1)).period ∧
      (rsi (positionLimit - 1)).period + ([] : List (Bar Float)).length < positionLimit ∧
      (rsi (positionLimit - 1)).compute [] = .error .positionOverflow :=
  ⟨by decide, by decide, rfl⟩

end Indicator

end SignalDesk
