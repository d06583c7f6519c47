import SignalDesk.Proofs.FlatSeries
import SignalDesk.Proofs.MonotoneDoubles

namespace SignalDesk

open Scalar

/-- A double that is not negative, unless it is undefined. -/
def NonnegIfDefined (x : Float) : Prop := x.isNaN = false → 0.0 ≤ x

/-- A sum of values on one side of zero is on that side: it starts from a zero. -/
theorem Beyond.sum {s : Float.Model.UnpackedFloat.Sign} {values : List Float}
    (side : ∀ value ∈ values, Beyond s 0 value) : Beyond s 0 (Scalar.sum values) :=
  List.foldlRecOn values _ (IsZero.ofNat.neg.beyond s) fun _ total value member => total.add (side value member)

namespace NonnegIfDefined

variable {x y : Float} {values : List Float} {period : Nat}

theorem add (first : NonnegIfDefined x) (second : NonnegIfDefined y) : NonnegIfDefined (x + y) := by
  intro defined
  obtain ⟨xDefined, yDefined⟩ := defined_of_add defined
  exact add_nonneg_double (first xDefined) (second yDefined)

theorem div (nonneg : NonnegIfDefined x) (finite : y.isFinite = true) (positive : 0.0 < y) :
    NonnegIfDefined (x / y) := fun defined =>
  div_nonneg_double (nonneg (defined_of_div defined).1) finite positive

/-- A share of what is not negative is not negative; of an infinity nothing at all is undefined. -/
theorem part {share : Float} (nonneg : NonnegIfDefined x) (given : IsShare share) : NonnegIfDefined (share * x) := by
  intro defined
  have whole := nonneg (defined_of_mul defined).2
  by_cases positive : 0.0 < share
  · exact mul_nonneg_double given.finite positive whole
  have none := IsZero.of_not_pos ((nonneg_iff_exactValue (isNaN_eq_false given.finite)).mpr given.nonneg) positive
  rcases finite_or_endOfLine_of_nonneg whole with finite | rfl
  · exact (none.mul_left finite).nonneg
  · exact absurd ((none.mul_endOfLine _).symm.trans defined) nofun

/-- One step of smoothing does not lead below zero. -/
theorem blend {weight : Float} (share : IsShare weight) (value : NonnegIfDefined x) (previous : NonnegIfDefined y) :
    NonnegIfDefined (blend weight x y) :=
  (value.part share).add (previous.part share.others)

theorem sum (nonneg : ∀ value ∈ values, NonnegIfDefined value) : NonnegIfDefined (sum values) :=
  List.foldlRecOn values _ (fun _ => IsZero.ofNat.neg.nonneg) fun _ total value member =>
    total.add (nonneg value member)

theorem mean (few : values.length < 2 ^ 64) (nonneg : ∀ value ∈ values, NonnegIfDefined value) :
    NonnegIfDefined (mean values) := by
  rcases Nat.eq_zero_or_pos values.length with empty | filled
  · rw [List.length_eq_zero_iff.mp empty]
    exact fun defined => absurd defined (by decide)
  · exact (sum nonneg).div (ofNat_positive filled few).1 (zero_lt_ofNat filled few)

/-- Smoothing does not lead below zero, however long it goes on. -/
theorem smoothedAt (positive : 0 < period) (small : period < 2 ^ 64)
    (nonneg : ∀ value ∈ values, NonnegIfDefined value) (i : Nat) :
    NonnegIfDefined (smoothedAt (ofNat 1 / ofNat period) period values i) := by
  have seed : NonnegIfDefined (Scalar.mean (values.take period)) :=
    mean ((List.length_take_le _ _).trans_lt small) fun value member => nonneg value (List.mem_of_mem_take member)
  refine List.foldlRecOn _ _ seed fun previous kept value member => ?_
  exact .blend (.ofPeriod positive small) (nonneg value (List.mem_of_mem_take (List.mem_of_mem_drop member))) kept

end NonnegIfDefined

end SignalDesk
