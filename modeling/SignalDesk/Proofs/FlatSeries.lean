import SignalDesk.Proofs.ComputedPlaces
import SignalDesk.Proofs.ThresholdBounds

namespace SignalDesk

open Scalar

variable {price value : Float} {count period : Nat}

/-- An indicator has no finite value where it is undefined. -/
theorem ne_undefined (finite : value.isFinite = true) : value ≠ undefined := by
  rintro rfl
  exact absurd finite (by decide)

theorem windowAt_replicate {i : Nat} (full : period ≤ i + 1) (within : i < count) (x : Float) :
    windowAt period (List.replicate count x) i = List.replicate period x := by
  rw [windowAt, List.drop_replicate, List.take_replicate, Nat.min_eq_left (by omega)]

/-- Over equal values every window gives the same. -/
theorem rolling_replicate {f : List Float → Float} (member : value ∈ rolling period f (List.replicate count price))
    (finite : value.isFinite = true) : 0 < period ∧ value = f (List.replicate period price) := by
  obtain ⟨i, inRange, rfl⟩ := List.mem_map.mp member
  rw [List.length_replicate] at inRange
  have within := List.mem_range.mp inRange
  dsimp only at finite ⊢
  split at finite
  · exact absurd rfl (ne_undefined finite)
  · rename_i full
    rw [if_neg full]
    split at finite
    · exact absurd rfl (ne_undefined finite)
    · rename_i gap
      rw [if_neg gap, windowAt_replicate (by omega) within]
      exact ⟨by omega, rfl⟩

/-- A fold over equal values stops moving once it has reached them. -/
theorem foldl_replicate {f : Float → Float → Float} {start : Float} (reached : f start price = price)
    (stays : f price price = price) (positive : 0 < period) : (List.replicate period price).foldl f start = price := by
  obtain ⟨n, rfl⟩ : ∃ n, period = n + 1 := ⟨period - 1, by omega⟩
  rw [List.replicate_succ, List.foldl_cons, reached]
  induction n with
  | zero => rfl
  | succ n ih => rw [List.replicate_succ, List.foldl_cons, stays, ih (by omega)]

theorem larger_eq_right {a b : Float} (defined : b.isNaN = false) (notLess : ¬b < a) : larger a b = b := by
  have undefinedFalse : isUndefined b = false := defined
  have lessFalse : less b a = false := decide_eq_false notLess
  rw [larger, undefinedFalse, lessFalse]
  rfl

theorem smaller_eq_right {a b : Float} (defined : b.isNaN = false) (notLess : ¬a < b) : smaller a b = b := by
  have undefinedFalse : isUndefined b = false := defined
  have lessFalse : less a b = false := decide_eq_false notLess
  rw [smaller, undefinedFalse, lessFalse]
  rfl

/-- The channel around equal values has no width. -/
theorem donchianValue_replicate (band : Band) (finite : price.isFinite = true) (positive : 0 < period) :
    donchianValue band (List.replicate period price) = price := by
  have defined := isNaN_eq_false finite
  have limit : infinityPlace = 2047 * 2 ^ 52 := rfl
  obtain ⟨s, place, -, value, small⟩ := aligned_unpack finite
  cases band with
  | upper =>
    refine foldl_replicate (larger_eq_right defined ?_) (larger_eq_right defined (not_lt_self price)) positive
    intro below
    have order := (lt_iff_linePlace.mp below).2.2
    rw [value, show linePlace (-1.0 / 0.0) = -(2047 * 2 ^ 52) by decide] at order
    cases s <;> simp only [Float.Model.UnpackedFloat.Sign.apply] at order <;> omega
  | lower =>
    refine foldl_replicate (smaller_eq_right defined ?_) (smaller_eq_right defined (not_lt_self price)) positive
    intro above
    have order := (lt_iff_linePlace.mp above).2.2
    rw [value, show linePlace (1.0 / 0.0) = 2047 * 2 ^ 52 by decide] at order
    cases s <;> simp only [Float.Model.UnpackedFloat.Sign.apply] at order <;> omega

/-- Smoothing over equal values repeats one step. -/
theorem getLast?_smoothFrom {weight previous : Float} (defined : price.isNaN = false) :
    (previous :: smoothFrom weight previous (List.replicate count price)).getLast? =
      some ((blend weight price)^[count] previous) := by
  have regular : isUndefined price = false := defined
  induction count generalizing previous with
  | zero => rfl
  | succ n ih =>
    simp only [List.replicate_succ, smoothFrom, regular, Bool.false_eq_true, if_false]
    rw [List.getLast?_cons_cons, ih, Function.iterate_succ_apply]

theorem getLast?_smoothFromMean {weight : Float} (defined : price.isNaN = false)
    (last : (smoothFromMean weight period (List.replicate count price)).getLast? = some value)
    (finite : value.isFinite = true) :
    value = (blend weight price)^[count - period] (mean (List.replicate period price)) := by
  unfold smoothFromMean at last
  split at last
  · have member := List.mem_of_getLast? last
    exact absurd (List.eq_of_mem_replicate member) (ne_undefined finite)
  · rename_i seeded
    have long : ¬(List.replicate count price).length < period := fun short => seeded (Or.inr (Or.inl short))
    rw [List.length_replicate] at long
    simp only [List.take_replicate, List.drop_replicate, Nat.min_eq_left (Nat.not_lt.mp long)] at last
    rw [List.getLast?_append, getLast?_smoothFrom defined] at last
    exact (Option.some.inj last).symm

theorem IsZero.larger {a b : Float} (aZero : IsZero a) (bZero : IsZero b) : IsZero (larger a b) := by
  unfold Scalar.larger
  split
  · exact aZero
  · exact bZero

theorem ofNat_one : (ofNat 1 : Float) = 1.0 := by decide

/-- The weight of a new value among a period of them. -/
theorem IsShare.ofPeriod (positive : 0 < period) (small : period < 2 ^ 64) : IsShare (ofNat 1 / ofNat period) := by
  obtain ⟨finite, large⟩ := ofNat_positive positive small
  have divisor : 0 < exactValue (Float.ofNat period) := by linarith
  have quotient := rounds_div isFinite_one finite divisor.ne'
  rw [exactValue_one] at quotient
  obtain ⟨weightFinite, low, high⟩ := quotient.of_unit (by positivity) ((div_le_one divisor).mpr large)
  rw [ofNat_one]
  exact ⟨weightFinite, low, high⟩

/-- The weight of the others. -/
theorem IsShare.others {weight : Float} (share : IsShare weight) : IsShare (ofNat 1 - weight) := by
  rw [ofNat_one]
  exact share.rest.1

theorem IsZero.blend {weight previous : Float} (share : IsShare weight) (zero : IsZero value)
    (previousZero : IsZero previous) : IsZero (blend weight value previous) :=
  (zero.mul_right share.finite).add (previousZero.mul_right share.others.finite)

theorem IsZero.ofNat : IsZero (ofNat 0 : Float) := ⟨by decide, by decide⟩

theorem IsZero.same_ofNat (zero : IsZero value) : same value (Scalar.ofNat 0) = true := by
  have defined : isUndefined value = false := zero.defined
  have zeroDefined : isUndefined (Scalar.ofNat 0 : Float) = false := IsZero.ofNat.defined
  have below : less value (Scalar.ofNat 0) = false := decide_eq_false (zero.not_lt .ofNat)
  have above : less (Scalar.ofNat 0) value = false := decide_eq_false (IsZero.ofNat.not_lt zero)
  rw [same, defined, zeroDefined, below, above]
  rfl

theorem relativeStrength_zero {gain loss : Float} (gainZero : IsZero gain) (lossZero : IsZero loss) :
    relativeStrength gain loss = ofNat 50 := by
  rw [relativeStrength, gainZero.same_ofNat, lossZero.same_ofNat]
  rfl

/-- Where no price moves, nothing is gained or lost. -/
theorem strengthAverages_replicate (finite : price.isFinite = true) (small : period < 2 ^ 64) :
    ∀ average ∈ strengthAverages period (List.replicate count price), IsZero average.1 ∧ IsZero average.2 := by
  have still : ∀ move ∈ changes (List.replicate count price), IsZero move := by
    intro move member
    rw [changes, List.tail_replicate, List.zipWith_replicate] at member
    rw [List.eq_of_mem_replicate member]
    exact .sub_same finite
  intro average member
  obtain ⟨positive, k, -, -, rfl⟩ := mem_strengthAverages member
  have share := IsShare.ofPeriod positive small
  refine averaged_invariant ?_ fun move inside previous zero => ?_
  · obtain ⟨periodFinite, large⟩ := ofNat_positive positive small
    have divisor : exactValue (Float.ofNat period) ≠ 0 := by linarith
    have seedStill : ∀ move ∈ (changes (List.replicate count price)).take period, IsZero move :=
      fun move member => still move (List.mem_of_mem_take member)
    have noGains : ((changes (List.replicate count price)).take period).filter (less (ofNat 0)) = [] :=
      List.filter_eq_nil_iff.mpr fun move member => by
        simpa [less] using IsZero.ofNat.not_lt (seedStill move member)
    have noLosses : ((changes (List.replicate count price)).take period).filter (fun c => less c (ofNat 0)) = [] :=
      List.filter_eq_nil_iff.mpr fun move member => by
        simpa [less] using (seedStill move member).not_lt .ofNat
    have nothing : IsZero (sum ([] : List Float)) := IsZero.ofNat.neg
    rw [seedAverages, noGains, noLosses]
    exact ⟨nothing.div periodFinite divisor, nothing.neg.div periodFinite divisor⟩
  · have moveZero := still move (List.mem_of_mem_take (List.mem_of_mem_drop inside))
    exact ⟨(moveZero.larger .ofNat).blend share zero, (moveZero.neg.larger .ofNat).blend share zero⟩

/-- Where no price moves, the oscillator stands in the middle. -/
theorem rsi_replicate (priceFinite : price.isFinite = true) (small : period < 2 ^ 64)
    (member : value ∈ rsi period (List.replicate count price)) (finite : value.isFinite = true) :
    value = ofNat 50 := by
  rw [rsi_eq_append, List.mem_append, List.mem_append, List.mem_map] at member
  rcases member with (early | ⟨average, listed, rfl⟩) | late
  · exact absurd (List.eq_of_mem_replicate early) (ne_undefined finite)
  · obtain ⟨gainZero, lossZero⟩ := strengthAverages_replicate priceFinite small average listed
    exact relativeStrength_zero gainZero lossZero
  · exact absurd (List.eq_of_mem_replicate late) (ne_undefined finite)

end SignalDesk
