import SignalDesk.Proofs.Causality
import SignalDesk.Proofs.IndicatorNames
import SignalDesk.Snapshot

namespace SignalDesk

open Scalar

namespace Indicator

theorem compute_eq_ok {indicator : Indicator} {bars : List (Bar Float)} {series : List Float} :
    indicator.compute bars = .ok series ↔
      indicator.period ≠ 0 ∧ indicator.fits bars = true ∧ indicator.series bars = series := by
  simp only [compute, ite_eq_iff, reduceCtorEq, and_false, false_or, or_false, Except.ok.injEq, ne_eq]

theorem rolling_singleton {period : Nat} (f : List Float → Float) (long : 2 ≤ period) (value : Float) :
    rolling period f [value] = [undefined] := by
  have partial' : period = 0 ∨ 0 + 1 < period := Or.inr long
  simp only [rolling, List.length_singleton, List.range_one, List.map_cons, List.map_nil, if_pos partial']

theorem series_singleton {indicator : Indicator} (warms : 1 ≤ indicator.lookback) (bar : Bar Float) :
    indicator.series [bar] = [undefined] := by
  cases indicator with
  | sma period | bollinger band period multiplier =>
    simp only [lookback] at warms
    exact rolling_singleton _ (by omega) _
  | donchian band period =>
    simp only [lookback] at warms
    cases band <;> exact rolling_singleton _ (by omega) _
  | ema period =>
    simp only [lookback] at warms
    have short : period = 0 ∨ [bar.closing].length < period ∨ ([bar.closing].take period).any isUndefined :=
      Or.inr (Or.inl (by simp only [List.length_singleton]; omega))
    simp only [series, SignalDesk.ema, smoothFromMean, List.map_cons, List.map_nil, if_pos short]
    rfl
  | rsi period =>
    simp only [lookback] at warms
    have noAverages : strengthAverages period [bar.closing] = [] := by
      rw [strengthAverages, if_pos (Or.inr (Or.inl (by simp only [List.length_singleton]; omega)))]
    simp only [series, SignalDesk.rsi, List.map_cons, List.map_nil, noAverages]
    rfl
  | atr period =>
    have gap : isUndefined (undefined : Float) = true := by decide
    simp only [series, SignalDesk.atr, trueRanges, List.zipWith_nil_right, wilderSmooth_cons_of_undefined gap,
      wilderSmooth_nil]

/-- An indicator that looks back has no value at the first bar. -/
theorem series_head {indicator : Indicator} (warms : 1 ≤ indicator.lookback) {bars : List (Bar Float)}
    (some : bars ≠ []) : (indicator.series bars).head? = .some undefined := by
  obtain ⟨bar, rest, rfl⟩ := List.exists_cons_of_ne_nil some
  have first : (indicator.series (bar :: rest)).take 1 = [undefined] := by
    rw [← (series_causal indicator).take_eq]
    exact series_singleton warms bar
  rw [List.head?_eq_getElem?, ← List.getElem?_take_of_lt Nat.one_pos, first]
  rfl

end Indicator

namespace SeriesCache

/-- Under each name stands the series of the last indicator of that name. -/
theorem get?_compute {bars : List (Bar Float)} {indicators : List Indicator} {cache : SeriesCache}
    (computed : compute bars indicators = .ok cache) (name : String) :
    cache.get? name =
      (indicators.reverse.find? fun indicator => indicator.name == name).map (Indicator.series bars) := by
  have onwards (start : SeriesCache)
      (run : indicators.foldlM (fun cache indicator => do
        return cache.insert indicator.name (← indicator.compute bars)) start = .ok cache) :
      cache.get? name = ((indicators.reverse.find? fun indicator => indicator.name == name).map
        (Indicator.series bars)).or (start.get? name) := by
    clear computed
    induction indicators generalizing start with
    | nil =>
      cases run
      rfl
    | cons indicator rest ih =>
      rw [List.foldlM_cons] at run
      obtain ⟨next, step, run⟩ := bind_eq_ok.mp run
      obtain ⟨series, done, same⟩ := bind_eq_ok.mp step
      cases same
      obtain ⟨-, -, rfl⟩ := Indicator.compute_eq_ok.mp done
      rw [ih _ run, SortedMap.get?_insert, List.reverse_cons, List.find?_append, Option.map_or, Option.or_assoc]
      congr 1
      by_cases mine : name = indicator.name
      · simp [mine]
      · simp [mine, Ne.symm mine]
  rw [onwards SortedMap.empty computed]
  exact Option.or_none

/-- Indicators whose windows and positions are sound can all be computed. -/
theorem compute_ok {bars : List (Bar Float)} {indicators : List Indicator}
    (sound : ∀ indicator ∈ indicators, indicator.period ≠ 0 ∧ indicator.fits bars = true) :
    ∃ cache, compute bars indicators = .ok cache := by
  have onwards (start : SeriesCache) : ∃ cache, indicators.foldlM (fun cache indicator => do
      return cache.insert indicator.name (← indicator.compute bars)) start =
        (.ok cache : Except Defect SeriesCache) := by
    induction indicators generalizing start with
    | nil => exact ⟨start, rfl⟩
    | cons indicator rest ih =>
      rw [List.forall_mem_cons] at sound
      obtain ⟨cache, run⟩ := ih sound.2 (start.insert indicator.name (indicator.series bars))
      have done := Indicator.compute_eq_ok.mpr ⟨sound.1.1, sound.1.2, rfl⟩
      exact ⟨cache, by rw [List.foldlM_cons, done]; exact run⟩
  exact onwards SortedMap.empty

end SeriesCache

end SignalDesk
