import SignalDesk.Proofs.NonnegativeAverages

namespace SignalDesk

open Scalar

variable {gain loss : Float} {period : Nat}

theorem ofNat_zero : (ofNat 0 : Float) = 0.0 := by decide

theorem ofNat_hundred : (ofNat 100 : Float) = 100.0 := by decide

/-- What a change adds to the gains, or its opposite to the losses. -/
theorem larger_zero_nonneg (x : Float) : 0.0 ≤ larger x (ofNat 0) := by
  have defined : isUndefined (ofNat 0 : Float) = false := IsZero.ofNat.defined
  rw [larger, defined, Bool.false_or]
  split
  · rename_i above
    rw [ofNat_zero] at above
    exact double_le_of_lt (of_decide_eq_true above)
  · exact IsZero.ofNat.nonneg

theorem seedAverages_nonneg (positive : 1 ≤ period) (small : period < 2 ^ 64) (moves : List Float) :
    0.0 ≤ (seedAverages period moves).1 ∧ 0.0 ≤ (seedAverages period moves).2 := by
  have finite := (ofNat_positive positive small).1
  have divisor := zero_lt_ofNat positive small
  have gains : Beyond .positive 0 (sum ((moves.take period).filter fun c => less (ofNat 0) c)) := by
    refine .sum fun move member => ?_
    have above := (List.mem_filter.mp member).2
    rw [ofNat_zero] at above
    exact beyond_zero_iff.mpr (double_le_of_lt (of_decide_eq_true above))
  have losses : Beyond .negative 0 (sum ((moves.take period).filter fun c => less c (ofNat 0))) := by
    refine .sum fun move member => ?_
    have below := (List.mem_filter.mp member).2
    rw [ofNat_zero] at below
    exact beyond_zero_iff_nonpos.mpr (double_le_of_lt (of_decide_eq_true below))
  exact ⟨div_nonneg_double (beyond_zero_iff.mp gains) finite divisor,
    div_nonneg_double (beyond_zero_iff.mp (losses.neg (Nat.zero_le _))) finite divisor⟩

/-- The averages of the gains and of the losses never get negative. -/
theorem strengthAverages_nonneg (small : period < 2 ^ 64) (closes : List Float) :
    ∀ averages ∈ strengthAverages period closes, NonnegIfDefined averages.1 ∧ NonnegIfDefined averages.2 := by
  intro averages member
  obtain ⟨positive, k, -, -, rfl⟩ := mem_strengthAverages member
  have share := IsShare.ofPeriod positive small
  obtain ⟨gains, losses⟩ := seedAverages_nonneg positive small (changes closes)
  refine averaged_invariant ⟨fun _ => gains, fun _ => losses⟩ fun move _ previous nonneg => ?_
  exact ⟨.blend share (fun _ => larger_zero_nonneg move) nonneg,
    .blend share (fun _ => larger_zero_nonneg (-move)) nonneg⟩

/-- The oscillator is one of its three fixed values, or it is computed from some losses. -/
theorem relativeStrength_cases (gain loss : Float) :
    relativeStrength gain loss ∈ [50.0, 100.0, 0.0] ∨ same loss (ofNat 0) = false ∧
      relativeStrength gain loss = 100.0 - 100.0 / (1.0 + gain / loss) := by
  have fifty : (ofNat 50 : Float) = 50.0 := by decide
  rw [relativeStrength, fifty, ofNat_zero, ofNat_one, ofNat_hundred]
  cases same loss 0.0 <;> cases same gain 0.0 <;> simp

/-- Between gains and losses the oscillator stays on its scale, also where their quotient is infinite. -/
theorem relativeStrength_onScale (gains : NonnegIfDefined gain) (losses : NonnegIfDefined loss)
    (defined : (relativeStrength gain loss).isNaN = false) :
    0.0 ≤ relativeStrength gain loss ∧ relativeStrength gain loss ≤ 100.0 := by
  rcases relativeStrength_cases gain loss with fixed | ⟨moved, computed⟩
  · have scale : ∀ value ∈ ([50.0, 100.0, 0.0] : List Float), 0.0 ≤ value ∧ value ≤ 100.0 := by decide
    exact scale _ fixed
  rw [computed] at defined ⊢
  -- a difference that is defined has defined parts, down to the gain and the loss
  obtain ⟨-, shareDefined⟩ := defined_of_sub defined
  obtain ⟨-, divisorDefined⟩ := defined_of_div shareDefined
  obtain ⟨-, quotientDefined⟩ := defined_of_add divisorDefined
  obtain ⟨gainDefined, lossDefined⟩ := defined_of_div quotientDefined
  have positive : 0.0 < loss := by
    by_contra notAbove
    have zero := IsZero.of_not_pos (losses lossDefined) notAbove
    exact Bool.false_ne_true (moved.symm.trans zero.same_ofNat)
  have quotient := div_nonneg_of_defined (gains gainDefined) positive quotientDefined
  obtain ⟨low, high⟩ := div_le_double isFinite_hundred (by decide) (le_add_double isFinite_one quotient)
  have finite := isFinite_of_le isFinite_hundred low high
  exact ⟨sub_nonneg_double finite high, sub_le_double isFinite_hundred finite low⟩

/-- Whatever the closes are, the oscillator is computed and stays between nothing and a hundred wherever it is defined:
the averages of the gains and losses that it compares never get negative, however long they are smoothed. -/
theorem Indicator.rsi_onScale (positive : 1 ≤ period) (fits : period + 1 < positionLimit) (bars : List (Bar Float)) :
    ∃ series, (Indicator.rsi period).compute bars = .ok series ∧ series.length = bars.length ∧
      (∀ value ∈ series, value.isNaN = false → 0.0 ≤ value ∧ value ≤ 100.0 ∧
        ∃ averages ∈ strengthAverages period (bars.map Bar.closing),
          value = relativeStrength averages.1 averages.2) ∧
      ∀ averages ∈ strengthAverages period (bars.map Bar.closing),
        (averages.1.isNaN = false → 0.0 ≤ averages.1) ∧ (averages.2.isNaN = false → 0.0 ≤ averages.2) := by
  have small : period < 2 ^ 64 := (Nat.lt_succ_self period).trans fits
  have averagesNonneg := strengthAverages_nonneg small (bars.map Bar.closing)
  refine ⟨(Indicator.rsi period).series bars, compute_eq_ok.mpr ⟨Nat.ne_of_gt positive, decide_eq_true fits, rfl⟩,
    (series_causal _).length_eq bars, fun value member defined => ?_, averagesNonneg⟩
  change value ∈ SignalDesk.rsi period (bars.map Bar.closing) at member
  rw [rsi_eq_append, List.mem_append, List.mem_append, List.mem_map] at member
  rcases member with (early | ⟨averages, listed, rfl⟩) | late
  · obtain rfl := List.eq_of_mem_replicate early
    exact absurd defined (by decide)
  · obtain ⟨gains, losses⟩ := averagesNonneg averages listed
    obtain ⟨low, high⟩ := relativeStrength_onScale gains losses defined
    exact ⟨low, high, averages, listed, rfl⟩
  · obtain rfl := List.eq_of_mem_replicate late
    exact absurd defined (by decide)

/-- Bars that close at infinity once. -/
def leapingBars : List (Bar Float) :=
  [(0, 1.0), (3600, 3.0), (7200, 2.0), (10800, 1.0 / 0.0), (14400, 5.0)].map fun (seconds, close) =>
    ⟨⟨seconds, 0⟩, close, close, close, close, 5.0⟩

/-- An infinite gain fills the scale, and behind it gain and loss are infinite: the oscillator is undefined. -/
theorem leapingBars_onScale :
    1 ≤ 2 ∧ 2 + 1 < positionLimit ∧ ∃ series, (Indicator.rsi 2).compute leapingBars = .ok series ∧
      (∀ value ∈ series, value.isNaN = false → 0.0 ≤ value ∧ value ≤ 100.0) ∧
      series.map Float.isNaN = [true, true, false, false, true] ∧ series[3]? = some 100.0 ∧
      strengthAverages 2 (leapingBars.map Bar.closing) = [(1.0, 0.5), (1.0 / 0.0, 0.25), (1.0 / 0.0, 1.0 / 0.0)] := by
  have positive : 1 ≤ 2 := by decide
  have fits : 2 + 1 < positionLimit := by decide
  obtain ⟨series, computed, -, scale, -⟩ := Indicator.rsi_onScale positive fits leapingBars
  obtain ⟨-, -, rfl⟩ := Indicator.compute_eq_ok.mp computed
  exact ⟨positive, fits, _, computed, fun value member defined => ⟨(scale value member defined).1,
    (scale value member defined).2.1⟩, by decide +kernel, by decide +kernel, by decide +kernel⟩

end SignalDesk
