import SignalDesk.Proofs.PercentilePlaces
import SignalDesk.Proofs.Thresholds

namespace SignalDesk

open Float.Model Float.Model.UnpackedFloat LinePlace

variable {x y : Float}

/-- A double from zero on, infinity among them, is one on the positive side. -/
theorem beyond_zero_iff : Beyond .positive 0 x ↔ 0.0 ≤ x := by
  have zero : linePlace 0.0 = 0 := by decide
  rw [le_iff_linePlace, zero]
  constructor
  · rintro ⟨defined, place, -, same⟩
    simp only [Sign.apply] at same
    exact ⟨by decide, defined, by omega⟩
  · rintro ⟨-, defined, above⟩
    exact ⟨defined, (linePlace x).toNat, Nat.zero_le _, (Int.toNat_of_nonneg above).symm⟩

theorem beyond_zero_iff_nonpos : Beyond .negative 0 x ↔ x ≤ 0.0 := by
  have zero : linePlace 0.0 = 0 := by decide
  rw [le_iff_linePlace, zero]
  constructor
  · rintro ⟨defined, place, -, same⟩
    simp only [Sign.apply] at same
    exact ⟨defined, by decide, by omega⟩
  · rintro ⟨defined, -, below⟩
    refine ⟨defined, (-linePlace x).toNat, Nat.zero_le _, ?_⟩
    simp only [Sign.apply]
    omega

/-- Rounding does not lead below zero. -/
theorem Rounds.nonneg {q : ℚ} (rounds : Rounds q x) (nonneg : 0 ≤ q) : 0.0 ≤ x :=
  beyond_zero_iff.mp (.of_rounds rounds rfl (sizeAt_zero.trans_le nonneg) (Nat.zero_le _))

/-- Every defined double is on one side of zero. -/
theorem exists_beyond_zero (defined : x.isNaN = false) : ∃ s, Beyond s 0 x := by
  by_cases above : 0.0 ≤ x
  · exact ⟨.positive, beyond_zero_iff.mpr above⟩
  · exact ⟨.negative, beyond_zero_iff_nonpos.mpr (double_le_of_lt (double_lt_of_not_le defined (by decide) above))⟩

theorem Aligned.infinity_add {u : UnpackedFloat} {s t : Sign} {place : Nat} (aligned : Aligned u s place) :
    UnpackedFloat.add .binary64 (.infinity t) u = .infinity t := by
  cases aligned with
  | zero => rfl
  | finite => rfl

theorem Aligned.add_infinity {u : UnpackedFloat} {s t : Sign} {place : Nat} (aligned : Aligned u s place) :
    UnpackedFloat.add .binary64 u (.infinity t) = .infinity t := by
  cases aligned with
  | zero => rfl
  | finite => rfl

theorem IsZero.beyond (zero : IsZero x) (s : Sign) : Beyond s 0 x :=
  ⟨zero.defined, 0, le_rfl, by rw [zero.place]; cases s <;> rfl⟩

theorem Beyond.neg {s : Sign} {n : Nat} (side : Beyond s n x) (bounded : n ≤ infinityPlace) : Beyond (-s) n (-x) := by
  cases finite : x.isFinite with
  | true =>
    obtain ⟨size, far, value⟩ := side.exactValue_eq
    exact .of_rounds (rounds_neg finite) (by rw [value, signed_neg]) far bounded
  | false =>
    have opposite : -x = .ofModel (.pack (.infinity (-s))) := by
      change Float.ofModel (.pack x.toModel.unpack.neg) = _
      rw [side.unpack_infinite finite]
      rfl
    rw [opposite]
    exact (Beyond.infinity _).mono bounded

/-- A sum stays on the side of zero on which both of its parts are. -/
theorem Beyond.add {s : Sign} (first : Beyond s 0 x) (second : Beyond s 0 y) : Beyond s 0 (x + y) := by
  -- where one of the parts is infinite, the sum is that infinity; it never meets the opposite one
  have infinite (u v : UnpackedFloat) (xUnpacked : x.toModel.unpack = u) (yUnpacked : y.toModel.unpack = v)
      (sum : UnpackedFloat.add .binary64 u v = .infinity s) : Beyond s 0 (x + y) := by
    have opened : x + y = .ofModel (.pack (.infinity s)) := by
      rw [← sum, ← xUnpacked, ← yUnpacked]
      rfl
    rw [opened]
    exact (Beyond.infinity s).mono (Nat.zero_le _)
  cases xFinite : x.isFinite with
  | false =>
    have unpacked := first.unpack_infinite xFinite
    cases yFinite : y.isFinite with
    | false =>
      refine infinite _ _ unpacked (second.unpack_infinite yFinite) ?_
      cases s <;> rfl
    | true =>
      obtain ⟨t, place, aligned, -⟩ := aligned_unpack yFinite
      exact infinite _ _ unpacked rfl aligned.infinity_add
  | true =>
    cases yFinite : y.isFinite with
    | false =>
      obtain ⟨t, place, aligned, -⟩ := aligned_unpack xFinite
      exact infinite _ _ rfl (second.unpack_infinite yFinite) aligned.add_infinity
    | true =>
      obtain ⟨a, aLarge, aValue⟩ := first.exactValue_eq
      obtain ⟨b, bLarge, bValue⟩ := second.exactValue_eq
      have sum : exactValue x + exactValue y = signed s (a + b) := by
        rw [aValue, bValue]
        cases s
        · exact (neg_add a b).symm
        · rfl
      rw [sizeAt_zero] at aLarge bLarge
      exact .of_rounds (rounds_add xFinite yFinite) sum (sizeAt_zero.trans_le (add_nonneg aLarge bLarge)) (Nat.zero_le _)

theorem add_nonneg_double (first : 0.0 ≤ x) (second : 0.0 ≤ y) : 0.0 ≤ x + y :=
  beyond_zero_iff.mp ((beyond_zero_iff.mpr first).add (beyond_zero_iff.mpr second))

/-- Between the negative and the positive doubles there is nothing but zero. -/
theorem IsZero.of_not_pos (nonneg : 0.0 ≤ x) (notAbove : ¬0.0 < x) : IsZero x := by
  obtain ⟨-, defined, above⟩ := le_iff_linePlace.mp nonneg
  have below := (le_iff_linePlace.mp (double_le_of_not_lt (by decide) defined notAbove)).2.2
  exact ⟨defined, (le_antisymm below above).trans literal.place⟩

theorem IsZero.le (zero : IsZero x) (nonneg : 0.0 ≤ y) : x ≤ y := by
  obtain ⟨-, defined, above⟩ := le_iff_linePlace.mp nonneg
  exact le_iff_linePlace.mpr ⟨zero.defined, defined, (zero.place.trans literal.place.symm).trans_le above⟩

/-- A quotient stays on its side of zero, also where it overflows or vanishes. -/
theorem Beyond.div_positive {s : Sign} (side : Beyond s 0 x) (finite : y.isFinite = true) (positive : 0.0 < y) :
    Beyond s 0 (x / y) :=
  side.div finite (exactValue_pos finite positive) (by rw [sizeAt_zero, zero_mul]) (Nat.zero_le _)

theorem div_nonneg_double (nonneg : 0.0 ≤ x) (finite : y.isFinite = true) (positive : 0.0 < y) : 0.0 ≤ x / y :=
  beyond_zero_iff.mp ((beyond_zero_iff.mpr nonneg).div_positive finite positive)

theorem Aligned.infinity_sub {u : UnpackedFloat} {s t : Sign} {place : Nat} (aligned : Aligned u s place) :
    UnpackedFloat.sub .binary64 (.infinity t) u = .infinity t := by
  cases aligned with
  | zero => rfl
  | finite => rfl

/-- The distance to a lower finite double is nonnegative, also where it is infinite. -/
theorem sub_nonneg_double (yFinite : y.isFinite = true) (le : y ≤ x) : 0.0 ≤ x - y := by
  obtain ⟨yDefined, xDefined, order⟩ := le_iff_linePlace.mp le
  cases xFinite : x.isFinite with
  | true => exact (rounds_sub xFinite yFinite).nonneg (sub_nonneg.mpr ((exactValue_le_iff yDefined xDefined).mp le))
  | false =>
    obtain ⟨t, infinite, atInfinity⟩ := unpack_infinite xDefined xFinite
    obtain ⟨s, place, aligned, atPlace, small⟩ := aligned_unpack yFinite
    have difference : x - y = .ofModel (.pack (.infinity t)) := by
      change Float.ofModel (.pack (UnpackedFloat.sub _ x.toModel.unpack y.toModel.unpack)) = _
      rw [infinite, aligned.infinity_sub]
    rw [difference]
    cases t with
    | positive => decide
    | negative => cases s <;> simp only [Sign.apply] at atInfinity atPlace <;> omega

/-- The distance to a lower double does not vanish. -/
theorem sub_pos_double (xFinite : x.isFinite = true) (yFinite : y.isFinite = true) (positive : 0.0 < x)
    (less : y < x) : 0.0 < x - y := by
  obtain ⟨place, some, bounded, atPlace⟩ := linePlace_of_positive xFinite positive
  obtain ⟨before, rfl⟩ := Nat.exists_eq_succ_of_ne_zero some.ne'
  -- the distance from `x` to the double before it is a double itself, down to the least one
  obtain ⟨gap, gapBounded, gapSize⟩ := exists_gapAt (before.lt_succ_self.trans bounded)
  have apart : sizeAt gap ≤ exactValue x - exactValue y := by
    linarith [exactValue_le_of_lt less atPlace]
  have far : 0 < gap := by
    refine Nat.pos_of_ne_zero ?_
    rintro rfl
    exact (gapAt_pos before).ne (sizeAt_zero.symm.trans gapSize)
  exact (Beyond.of_rounds (s := .positive) (rounds_sub xFinite yFinite) rfl apart gapBounded).positive far

/-- A finite double does not get greater by what is taken away from it. -/
theorem sub_le_double (xFinite : x.isFinite = true) (yFinite : y.isFinite = true) (nonneg : 0.0 ≤ y) : x - y ≤ x := by
  have above := (nonneg_iff_exactValue (isNaN_eq_false yFinite)).mp nonneg
  exact (rounds_sub xFinite yFinite).mono (rounds_exactValue xFinite) (by linarith)

/-- The distance to a lower nonnegative double does not overflow. -/
theorem sub_isFinite (xFinite : x.isFinite = true) (yFinite : y.isFinite = true) (nonneg : 0.0 ≤ y) (le : y ≤ x) :
    (x - y).isFinite = true :=
  isFinite_of_le xFinite (sub_nonneg_double yFinite le) (sub_le_double xFinite yFinite nonneg)

theorem mul_nonneg_double (finite : y.isFinite = true) (positive : 0.0 < y) (nonneg : 0.0 ≤ x) : 0.0 ≤ y * x := by
  have factor := exactValue_pos finite positive
  cases xFinite : x.isFinite with
  | true =>
    have above := (nonneg_iff_exactValue (isNaN_eq_false xFinite)).mp nonneg
    exact (rounds_mul finite xFinite).nonneg (mul_nonneg factor.le above)
  | false =>
    obtain ⟨m, e, leading, unpacked⟩ := unpack_positive finite factor
    have infinite := (beyond_zero_iff.mpr nonneg).unpack_infinite xFinite
    have product : y * x = .ofModel (.pack (.infinity .positive)) := by
      change Float.ofModel (.pack (UnpackedFloat.mul _ y.toModel.unpack x.toModel.unpack)) = _
      rw [infinite, unpacked]
      rfl
    rw [product]
    decide

/-- A finite double does not get less by what is added to it. -/
theorem le_add_double (finite : y.isFinite = true) (nonneg : 0.0 ≤ x) : y ≤ y + x := by
  cases xFinite : x.isFinite with
  | true =>
    have above := (nonneg_iff_exactValue (isNaN_eq_false xFinite)).mp nonneg
    exact (rounds_exactValue finite).mono (rounds_add finite xFinite) (by linarith)
  | false =>
    have infinite := (beyond_zero_iff.mpr nonneg).unpack_infinite xFinite
    obtain ⟨s, place, aligned, atPlace, small⟩ := aligned_unpack finite
    have sum : y + x = .ofModel (.pack (.infinity .positive)) := by
      change Float.ofModel (.pack (UnpackedFloat.add _ y.toModel.unpack x.toModel.unpack)) = _
      rw [infinite, aligned.add_infinity]
    have top : linePlace (.ofModel (.pack (.infinity .positive))) = infinityPlace := by decide
    rw [sum]
    refine le_iff_linePlace.mpr ⟨isNaN_eq_false finite, by decide, ?_⟩
    cases s <;> simp only [Sign.apply] at atPlace <;> omega

/-- A root that is defined is not negative. -/
theorem sqrt_nonneg_double (defined : x.sqrt.isNaN = false) : 0.0 ≤ x.sqrt := by
  have opened : x.sqrt = .ofModel (.pack (UnpackedFloat.sqrt _ x.toModel.unpack)) := rfl
  have known := defined_of_unpack opened defined
  rw [opened]
  generalize x.toModel.unpack = u at known ⊢
  cases u with
  | notANumber => exact absurd rfl known
  | infinity s =>
    cases s with
    | negative => exact absurd rfl known
    | positive => decide
  | zero s => cases s <;> decide
  | finite s m e positive =>
    cases s with
    | negative => exact absurd rfl known
    | positive =>
      obtain ⟨q, nonneg, settled⟩ := sqrt_finite_settled positive e
      exact settled.rounds.nonneg nonneg

theorem Aligned.abs {u : UnpackedFloat} {s : Sign} {place : Nat} (aligned : Aligned u s place) :
    Aligned u.abs .positive place := by
  cases aligned with
  | zero => exact .zero _
  | finite _ m e positive _ below normal low value => exact .finite _ _ _ _ _ below normal low value

theorem abs_nonneg_double (defined : x.isNaN = false) : 0.0 ≤ x.abs := by
  have opened : x.abs = .ofModel (.pack x.toModel.unpack.abs) := rfl
  refine beyond_zero_iff.mp ?_
  rw [opened]
  cases finite : x.isFinite with
  | true =>
    obtain ⟨s, place, aligned, -⟩ := aligned_unpack finite
    refine .of_rounds aligned.abs.settled.rounds aligned.abs.value ?_ (Nat.zero_le _)
    exact sizeAt_strictMono.monotone (Nat.zero_le _)
  | false =>
    obtain ⟨s, infinite, -⟩ := unpack_infinite defined finite
    rw [infinite]
    exact (Beyond.infinity .positive).mono (Nat.zero_le _)

theorem smaller_one (x : Float) : Scalar.smaller x 1.0 = if x < 1.0 then x else 1.0 := by
  have defined : Scalar.isUndefined (1.0 : Float) = false := by decide
  simp only [Scalar.smaller, defined, Bool.false_or]
  exact if_congr decide_eq_true_iff rfl rfl

/-- What is from a bound on, and capped at one, is between the bound and one. -/
theorem smaller_one_bounds {low : Float} (above : low ≤ x) (unit : low ≤ 1.0) :
    low ≤ Scalar.smaller x 1.0 ∧ Scalar.smaller x 1.0 ≤ 1.0 := by
  rw [smaller_one]
  split
  · exact ⟨above, double_le_of_lt ‹x < 1.0›⟩
  · exact ⟨unit, by decide⟩

/-- A number of the unit interval is not moved into it. -/
theorem clampUnit_of_isUnit (unit : isUnit x = true) : clampUnit x = x := by
  obtain ⟨low, high⟩ := isUnit_iff.mp unit
  have defined := isUnit_defined unit
  rw [clampUnit, if_neg (by rw [defined]; exact Bool.false_ne_true), if_neg (double_not_lt_of_le low),
    if_neg (double_not_lt_of_le high)]

end SignalDesk
