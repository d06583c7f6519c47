import SignalDesk.Proofs.PositionLoops

namespace SignalDesk

open Scalar

section Gaps

variable {α : Type} [Scalar α] {period : Nat} {gaps values : List α}

/-- Gaps in front of a series shift its smoothing and do nothing else to it. -/
theorem wilderSmooth_append (leading : ∀ gap ∈ gaps, isUndefined gap = true) (values : List α) :
    wilderSmooth period (gaps ++ values) = undefineds gaps.length ++ wilderSmooth period values := by
  induction gaps with
  | nil => rfl
  | cons gap gaps ih =>
    have later := ih fun other member => leading other (List.mem_cons_of_mem gap member)
    rw [List.cons_append, wilderSmooth_cons_of_undefined (leading gap List.mem_cons_self), later]
    rfl

theorem wilderSmooth_zero (values : List α) : wilderSmooth 0 values = undefineds values.length := by
  have split := congrArg List.length (List.takeWhile_append_dropWhile (p := isUndefined) (l := values))
  rw [List.length_append] at split
  rw [wilderSmooth, smoothFromMean, if_pos (Or.inl rfl), undefineds_append, split]

/-- Where a series and a period are together below the limit, the position behind the seed exists. -/
theorem seedEnd_lt (bounded : values.length + period < positionLimit) :
    (values.takeWhile isUndefined).length + period < positionLimit := by
  have within := (List.takeWhile_sublist (l := values) isUndefined).length_le
  omega

theorem wilderLoop_of_bounded (bounded : values.length + period < positionLimit) :
    wilderLoop period values = .ok (wilderSmooth period values) := by
  rcases Nat.eq_zero_or_pos period with rfl | positive
  · rw [wilderLoop, if_pos rfl, wilderSmooth_zero]
  · rw [wilderLoop_eq positive, decide_eq_true (seedEnd_lt bounded), Bool.or_true, if_pos rfl]

end Gaps

theorem wilderSmooth?_of_bounded {period : Nat} {values : List Float}
    (bounded : values.length + period < positionLimit) :
    wilderSmooth? period values = .ok (wilderSmooth period values) := by
  have fits : smoothingFits period values = true := by
    rw [smoothingFits, Bool.or_eq_true]
    exact Or.inr (decide_eq_true (seedEnd_lt bounded))
  rw [wilderSmooth?, if_pos (Or.inr fits)]

/-- However long a series has not been defined yet, its smoothing is the same, only later: also where the series is
too short, is never defined or has a gap within the seed. At checked positions, all of them counted from the first
gap on, nothing else comes out. -/
theorem wilderSmooth_shifted {period : Nat} {gaps values : List Float} (leading : ∀ gap ∈ gaps, gap.isNaN = true)
    (bounded : gaps.length + values.length + period < positionLimit) :
    ∃ series, wilderSmooth? period values = .ok series ∧ series.length = values.length ∧
      wilderSmooth? period (gaps ++ values) = .ok (undefineds gaps.length ++ series) ∧
      wilderLoop period values = .ok series ∧
      wilderLoop period (gaps ++ values) = .ok (undefineds gaps.length ++ series) := by
  have shifted : wilderSmooth period (gaps ++ values) = undefineds gaps.length ++ wilderSmooth period values :=
    wilderSmooth_append leading values
  have narrower : values.length + period < positionLimit := by omega
  have together : (gaps ++ values).length + period < positionLimit := by rwa [List.length_append]
  refine ⟨wilderSmooth period values, wilderSmooth?_of_bounded narrower, (wilderSmooth_causal period).length_eq values,
    ?_, wilderLoop_of_bounded narrower, ?_⟩
  · rw [wilderSmooth?_of_bounded together, shifted]
  · rw [wilderLoop_of_bounded together, shifted]

/-- Two gaps in front of a series that begins with one. -/
theorem gappedSeries_shifted :
    (∀ gap ∈ [undefined, (undefined : Float)], gap.isNaN = true) ∧ 2 + 4 + 2 < positionLimit ∧
      ∃ series, wilderSmooth? 2 [undefined, 2.0, 4.0, 6.0] = .ok series ∧ series = [undefined, undefined, 3.0, 4.5] ∧
        wilderSmooth? 2 [undefined, undefined, undefined, 2.0, 4.0, 6.0] = .ok (undefined :: undefined :: series) ∧
        wilderLoop 2 [undefined, undefined, undefined, 2.0, 4.0, 6.0] = .ok (undefined :: undefined :: series) := by
  have leading : ∀ gap ∈ [undefined, (undefined : Float)], gap.isNaN = true := by decide
  have bounded : 2 + 4 + 2 < positionLimit := by decide
  obtain ⟨series, smoothed, -, shifted, -, walked⟩ :=
    @wilderSmooth_shifted 2 _ [undefined, 2.0, 4.0, 6.0] leading bounded
  refine ⟨leading, bounded, series, smoothed, ?_, shifted, walked⟩
  have settled : wilderSmooth 2 [undefined, (2.0 : Float), 4.0, 6.0] = [undefined, undefined, 3.0, 4.5] := by
    decide +kernel
  exact (Except.ok.inj (smoothed.symm.trans (wilderSmooth?_of_bounded (by decide)))).trans settled

end SignalDesk
