import SignalDesk.Proofs.NonnegativeDoubles

namespace SignalDesk

open Float.Model Float.Model.UnpackedFloat LinePlace

/-- The infinite double at one end of the number line. -/
def endOfLine (s : Sign) : Float := .ofModel (.pack (.infinity s))

theorem unpack_endOfLine (s : Sign) : (endOfLine s).toModel.unpack = .infinity s := by
  cases s <;> rfl

theorem linePlace_endOfLine (s : Sign) : linePlace (endOfLine s) = s.apply infinityPlace := by
  cases s <;> decide

theorem endOfLine_defined (s : Sign) : (endOfLine s).isNaN = false := by
  cases s <;> decide

theorem eq_endOfLine {x : Float} (defined : x.isNaN = false) (infinite : x.isFinite = false) :
    ∃ s, x = endOfLine s := by
  obtain ⟨s, -, place⟩ := unpack_infinite defined infinite
  refine ⟨s, eq_of_linePlace (place.trans (linePlace_endOfLine s).symm) ?_⟩
  rw [place]
  cases s <;> decide

theorem le_endOfLine {x : Float} (defined : x.isNaN = false) : x ≤ endOfLine .positive := by
  refine le_iff_linePlace.mpr ⟨defined, endOfLine_defined _, ?_⟩
  rw [linePlace_endOfLine]
  exact (linePlace_bounds defined).2

theorem endOfLine_le {x : Float} (defined : x.isNaN = false) : endOfLine .negative ≤ x := by
  refine le_iff_linePlace.mpr ⟨endOfLine_defined _, defined, ?_⟩
  rw [linePlace_endOfLine]
  exact (linePlace_bounds defined).1

/-- Nothing but itself lies behind the positive end. -/
theorem eq_of_endOfLine_le {x : Float} (le : endOfLine .positive ≤ x) : x = endOfLine .positive := by
  obtain ⟨-, defined, order⟩ := le_iff_linePlace.mp le
  have limit : infinityPlace = 2047 * 2 ^ 52 := rfl
  have bounded := (linePlace_bounds defined).2
  rw [linePlace_endOfLine, Sign.apply] at order
  refine eq_of_linePlace ?_ (by omega)
  rw [linePlace_endOfLine, Sign.apply]
  omega

/-- Nothing but itself lies before the negative end. -/
theorem eq_of_le_endOfLine {x : Float} (le : x ≤ endOfLine .negative) : x = endOfLine .negative := by
  obtain ⟨defined, -, order⟩ := le_iff_linePlace.mp le
  have limit : infinityPlace = 2047 * 2 ^ 52 := rfl
  have bounded := (linePlace_bounds defined).1
  rw [linePlace_endOfLine, Sign.apply] at order
  refine eq_of_linePlace ?_ (by omega)
  rw [linePlace_endOfLine, Sign.apply]
  omega

/-- In an ordered pair of doubles an infinite one settles the order, whatever the other is. -/
theorem finite_or_endOfLine {x y : Float} (le : x ≤ y) :
    (x.isFinite = true ∧ y.isFinite = true) ∨ x = endOfLine .negative ∨ y = endOfLine .positive := by
  obtain ⟨xDefined, yDefined, -⟩ := le_iff_linePlace.mp le
  cases xFinite : x.isFinite with
  | false =>
    obtain ⟨s, rfl⟩ := eq_endOfLine xDefined xFinite
    cases s with
    | negative => exact Or.inr (Or.inl rfl)
    | positive => exact Or.inr (Or.inr (eq_of_endOfLine_le le))
  | true =>
    cases yFinite : y.isFinite with
    | true => exact Or.inl ⟨rfl, rfl⟩
    | false =>
      obtain ⟨s, rfl⟩ := eq_endOfLine yDefined yFinite
      cases s with
      | negative => exact Or.inr (Or.inl (eq_of_le_endOfLine le))
      | positive => exact Or.inr (Or.inr rfl)

theorem finite_or_endOfLine_of_nonneg {x : Float} (nonneg : 0.0 ≤ x) :
    x.isFinite = true ∨ x = endOfLine .positive := by
  rcases finite_or_endOfLine nonneg with ⟨-, finite⟩ | zero | infinite
  · exact Or.inl finite
  · exact absurd zero (by decide)
  · exact Or.inr infinite

/-- What is added to an end of the line leaves it there, unless it is the other end. -/
theorem infinity_add {u : UnpackedFloat} {s : Sign}
    (known : UnpackedFloat.add .binary64 (.infinity s) u ≠ .notANumber) :
    UnpackedFloat.add .binary64 (.infinity s) u = .infinity s := by
  cases u with
  | notANumber => exact absurd rfl known
  | zero | finite => rfl
  | infinity t => exact if_pos (by_contra fun other => known (if_neg other))

theorem add_infinity {u : UnpackedFloat} {s : Sign}
    (known : UnpackedFloat.add .binary64 u (.infinity s) ≠ .notANumber) :
    UnpackedFloat.add .binary64 u (.infinity s) = .infinity s := by
  cases u with
  | notANumber => exact absurd rfl known
  | zero | finite => rfl
  | infinity t =>
    have same : (t == s) = true := by_contra fun other => known (if_neg other)
    rw [← eq_of_beq same]
    exact if_pos (beq_self_eq_true t)

theorem endOfLine_add {x : Float} {s : Sign} (defined : (endOfLine s + x).isNaN = false) :
    endOfLine s + x = endOfLine s := by
  have opened : endOfLine s + x = .ofModel (.pack (UnpackedFloat.add .binary64 (.infinity s) x.toModel.unpack)) := by
    rw [← unpack_endOfLine s]
    rfl
  rw [opened, infinity_add (defined_of_unpack opened defined), endOfLine]

theorem add_endOfLine {x : Float} {s : Sign} (defined : (x + endOfLine s).isNaN = false) :
    x + endOfLine s = endOfLine s := by
  have opened : x + endOfLine s = .ofModel (.pack (UnpackedFloat.add .binary64 x.toModel.unpack (.infinity s))) := by
    rw [← unpack_endOfLine s]
    rfl
  rw [opened, add_infinity (defined_of_unpack opened defined), endOfLine]

theorem endOfLine_sub {x : Float} {s : Sign} (defined : (endOfLine s - x).isNaN = false) :
    endOfLine s - x = endOfLine s := by
  have opened : endOfLine s - x =
      .ofModel (.pack (UnpackedFloat.add .binary64 (.infinity s) x.toModel.unpack.neg)) := by
    rw [← sub_eq_add_opposite, ← unpack_endOfLine s]
    rfl
  rw [opened, infinity_add (defined_of_unpack opened defined), endOfLine]

theorem sub_endOfLine {x : Float} {s : Sign} (defined : (x - endOfLine s).isNaN = false) :
    x - endOfLine s = endOfLine (-s) := by
  have opened : x - endOfLine s =
      .ofModel (.pack (UnpackedFloat.add .binary64 x.toModel.unpack (.infinity (-s)))) := by
    change Float.ofModel (.pack (UnpackedFloat.sub _ x.toModel.unpack (endOfLine s).toModel.unpack)) = _
    rw [unpack_endOfLine, sub_eq_add_opposite]
    rfl
  rw [opened, add_infinity (defined_of_unpack opened defined), endOfLine]

/-- Of defined doubles only one end of the line and itself have no difference. -/
theorem eq_endOfLine_of_sub {x y : Float} (xDefined : x.isNaN = false) (yDefined : y.isNaN = false)
    (undefined : (x - y).isNaN = true) : ∃ s, x = endOfLine s ∧ y = endOfLine s := by
  have known {z : Float} (difference : x - y = z) (defined : z.isNaN = false) : False :=
    Bool.false_ne_true (defined.symm.trans (difference ▸ undefined))
  cases xFinite : x.isFinite with
  | true =>
    obtain ⟨t, place, aligned, -⟩ := aligned_unpack xFinite
    cases yFinite : y.isFinite with
    | true => exact (known rfl (rounds_sub xFinite yFinite).defined).elim
    | false =>
      obtain ⟨s, rfl⟩ := eq_endOfLine yDefined yFinite
      refine (known (z := endOfLine (-s)) ?_ (endOfLine_defined _)).elim
      change Float.ofModel (.pack (UnpackedFloat.sub _ x.toModel.unpack (endOfLine s).toModel.unpack)) = _
      rw [unpack_endOfLine, sub_eq_add_opposite]
      exact congrArg (fun u => Float.ofModel (.pack u)) aligned.add_infinity
  | false =>
    obtain ⟨s, rfl⟩ := eq_endOfLine xDefined xFinite
    cases yFinite : y.isFinite with
    | true =>
      obtain ⟨t, place, aligned, -⟩ := aligned_unpack yFinite
      refine (known (z := endOfLine s) ?_ (endOfLine_defined _)).elim
      change Float.ofModel (.pack (UnpackedFloat.sub _ (endOfLine s).toModel.unpack y.toModel.unpack)) = _
      rw [unpack_endOfLine, aligned.infinity_sub]
      rfl
    | false =>
      obtain ⟨t, rfl⟩ := eq_endOfLine yDefined yFinite
      cases s <;> cases t
      · exact ⟨_, rfl, rfl⟩
      · exact absurd undefined (by decide)
      · exact absurd undefined (by decide)
      · exact ⟨_, rfl, rfl⟩

theorem IsZero.mul_endOfLine {x : Float} (zero : IsZero x) (s : Sign) : (x * endOfLine s).isNaN = true := by
  obtain ⟨t, unpacked⟩ := zero.unpack
  have product : x * endOfLine s = .ofModel (.pack .notANumber) := by
    change Float.ofModel (.pack (UnpackedFloat.mul _ x.toModel.unpack (endOfLine s).toModel.unpack)) = _
    rw [unpacked, unpack_endOfLine]
    rfl
  rw [product]
  decide

theorem IsZero.div_endOfLine {x : Float} (finite : x.isFinite = true) (s : Sign) : IsZero (x / endOfLine s) := by
  obtain ⟨t, place, aligned, -⟩ := aligned_unpack finite
  obtain ⟨r, zero⟩ : ∃ r, UnpackedFloat.div .binary64 x.toModel.unpack (.infinity s) = .zero r := by
    generalize x.toModel.unpack = u at aligned
    cases aligned with
    | zero => exact ⟨_, rfl⟩
    | finite => exact ⟨_, rfl⟩
  change IsZero (.ofModel (.pack (UnpackedFloat.div _ x.toModel.unpack (endOfLine s).toModel.unpack)))
  rw [unpack_endOfLine, zero]
  cases r
  · exact ⟨by decide, by decide⟩
  · exact ⟨by decide, by decide⟩

/-- A quotient of what is not negative is not negative, unless both parts are infinite. -/
theorem div_nonneg_of_defined {x y : Float} (nonneg : 0.0 ≤ x) (positive : 0.0 < y)
    (defined : (x / y).isNaN = false) : 0.0 ≤ x / y := by
  rcases finite_or_endOfLine_of_nonneg (double_le_of_lt positive) with yFinite | rfl
  · exact div_nonneg_double nonneg yFinite positive
  rcases finite_or_endOfLine_of_nonneg nonneg with xFinite | rfl
  · exact (IsZero.div_endOfLine xFinite _).nonneg
  · exact absurd defined (by decide)

/-- Division by a double from one on, infinity among them, does not enlarge. -/
theorem div_le_double {x y : Float} (finite : x.isFinite = true) (nonneg : 0.0 ≤ x) (large : 1.0 ≤ y) :
    0.0 ≤ x / y ∧ x / y ≤ x := by
  rcases finite_or_endOfLine_of_nonneg (double_le_trans (y := 1.0) (by decide) large) with yFinite | rfl
  · have divisor := (exactValue_le_iff (by decide) (isNaN_eq_false yFinite)).mp large
    rw [exactValue_one] at divisor
    have above := (nonneg_iff_exactValue (isNaN_eq_false finite)).mp nonneg
    have rounds := rounds_div finite yFinite (by linarith)
    exact ⟨rounds.nonneg (by positivity), rounds.mono (rounds_exactValue finite) (div_le_self above divisor)⟩
  · have zero := IsZero.div_endOfLine finite .positive
    exact ⟨zero.nonneg, zero.le nonneg⟩

/-- An operation on doubles that rounds an increasing function and leaves both ends of the line where they are. -/
structure RoundsIncreasing (f : Float → Float) : Prop where
  finite : ∃ g : ℚ → ℚ, Monotone g ∧ ∀ x : Float, x.isFinite = true → Rounds (g (exactValue x)) (f x)
  infinite : ∀ s, f (endOfLine s) = endOfLine s

namespace RoundsIncreasing

variable {f : Float → Float} {x y z : Float}

theorem defined (increasing : RoundsIncreasing f) (xDefined : x.isNaN = false) : (f x).isNaN = false := by
  cases finite : x.isFinite with
  | true =>
    obtain ⟨g, -, rounds⟩ := increasing.finite
    exact (rounds x finite).defined
  | false =>
    obtain ⟨s, rfl⟩ := eq_endOfLine xDefined finite
    rw [increasing.infinite]
    exact endOfLine_defined s

/-- Rounding keeps the order, and the ends of the line bound it anyway. -/
theorem mono (increasing : RoundsIncreasing f) (le : x ≤ y) : f x ≤ f y := by
  obtain ⟨xDefined, yDefined, -⟩ := le_iff_linePlace.mp le
  rcases finite_or_endOfLine le with ⟨xFinite, yFinite⟩ | rfl | rfl
  · obtain ⟨g, monotone, rounds⟩ := increasing.finite
    exact (rounds x xFinite).mono (rounds y yFinite) (monotone ((exactValue_le_iff xDefined yDefined).mp le))
  · rw [increasing.infinite]
    exact endOfLine_le (increasing.defined yDefined)
  · rw [increasing.infinite]
    exact le_endOfLine (increasing.defined xDefined)

theorem div (finite : z.isFinite = true) (positive : 0.0 < z) : RoundsIncreasing (· / z) where
  finite := by
    have divisor := exactValue_pos finite positive
    exact ⟨(· / exactValue z), fun _ _ le => (div_le_div_iff_of_pos_right divisor).mpr le,
      fun _ xFinite => rounds_div xFinite finite divisor.ne'⟩
  infinite s := by
    obtain ⟨m, e, leading, unpacked⟩ := unpack_positive finite (exactValue_pos finite positive)
    change Float.ofModel (.pack (UnpackedFloat.div _ (endOfLine s).toModel.unpack z.toModel.unpack)) = _
    rw [unpack_endOfLine, unpacked]
    cases s <;> rfl

theorem mul (finite : z.isFinite = true) (positive : 0.0 < z) : RoundsIncreasing (· * z) where
  finite := by
    have factor := exactValue_pos finite positive
    exact ⟨(· * exactValue z), fun _ _ le => mul_le_mul_of_nonneg_right le factor.le,
      fun _ xFinite => rounds_mul xFinite finite⟩
  infinite s := by
    obtain ⟨m, e, leading, unpacked⟩ := unpack_positive finite (exactValue_pos finite positive)
    change Float.ofModel (.pack (UnpackedFloat.mul _ (endOfLine s).toModel.unpack z.toModel.unpack)) = _
    rw [unpack_endOfLine, unpacked]
    cases s <;> rfl

theorem mul_left (finite : z.isFinite = true) (positive : 0.0 < z) : RoundsIncreasing (z * ·) where
  finite := by
    have factor := exactValue_pos finite positive
    exact ⟨(exactValue z * ·), fun _ _ le => mul_le_mul_of_nonneg_left le factor.le,
      fun _ xFinite => rounds_mul finite xFinite⟩
  infinite s := by
    obtain ⟨m, e, leading, unpacked⟩ := unpack_positive finite (exactValue_pos finite positive)
    change Float.ofModel (.pack (UnpackedFloat.mul _ z.toModel.unpack (endOfLine s).toModel.unpack)) = _
    rw [unpack_endOfLine, unpacked]
    cases s <;> rfl

theorem add_left (finite : z.isFinite = true) : RoundsIncreasing (z + ·) where
  finite := ⟨(exactValue z + ·), fun _ _ le => add_le_add_right le _, fun _ xFinite => rounds_add finite xFinite⟩
  infinite s := by
    obtain ⟨t, place, aligned, -⟩ := aligned_unpack finite
    change Float.ofModel (.pack (UnpackedFloat.add _ z.toModel.unpack (endOfLine s).toModel.unpack)) = _
    rw [unpack_endOfLine, aligned.add_infinity]
    rfl

end RoundsIncreasing

/-- A distance grows when its ends move apart. -/
theorem sub_le_sub_double {x y z w : Float} (upper : x ≤ y) (lower : w ≤ z) (defined : (x - z).isNaN = false)
    (wider : (y - w).isNaN = false) : x - z ≤ y - w := by
  have least (low : x - z = endOfLine .negative) : x - z ≤ y - w := low ▸ endOfLine_le wider
  have greatest (high : y - w = endOfLine .positive) : x - z ≤ y - w := high ▸ le_endOfLine defined
  rcases finite_or_endOfLine upper with ⟨xFinite, yFinite⟩ | rfl | rfl
  · rcases finite_or_endOfLine lower with ⟨wFinite, zFinite⟩ | rfl | rfl
    · have uppers := (exactValue_le_iff (isNaN_eq_false xFinite) (isNaN_eq_false yFinite)).mp upper
      have lowers := (exactValue_le_iff (isNaN_eq_false wFinite) (isNaN_eq_false zFinite)).mp lower
      exact (rounds_sub xFinite zFinite).mono (rounds_sub yFinite wFinite) (by linarith)
    · exact greatest (sub_endOfLine wider)
    · exact least (sub_endOfLine defined)
  · exact least (endOfLine_sub defined)
  · exact greatest (endOfLine_sub wider)

/-- The distance to a lower bound grows with the number. -/
theorem sub_mono {x y z : Float} (xFinite : x.isFinite = true) (yFinite : y.isFinite = true)
    (finite : z.isFinite = true) (le : x ≤ y) : x - z ≤ y - z :=
  sub_le_sub_double le (double_le_refl (isNaN_eq_false finite)) (rounds_sub xFinite finite).defined
    (rounds_sub yFinite finite).defined

theorem sub_anti {x y z : Float} (xFinite : x.isFinite = true) (yFinite : y.isFinite = true)
    (finite : z.isFinite = true) (le : x ≤ y) : z - y ≤ z - x :=
  sub_le_sub_double (double_le_refl (isNaN_eq_false finite)) le (rounds_sub finite yFinite).defined
    (rounds_sub finite xFinite).defined

/-- What is nonnegative does not lead further when it is taken away than when it is added. -/
theorem sub_le_add_double {x y : Float} (nonneg : 0.0 ≤ y) (difference : (x - y).isNaN = false)
    (sum : (x + y).isNaN = false) : x - y ≤ x + y := by
  cases xFinite : x.isFinite with
  | false =>
    obtain ⟨s, rfl⟩ := eq_endOfLine (defined_of_add sum).1 xFinite
    rw [endOfLine_sub difference, endOfLine_add sum]
    exact double_le_refl (endOfLine_defined s)
  | true =>
    rcases finite_or_endOfLine_of_nonneg nonneg with yFinite | rfl
    · have above := (nonneg_iff_exactValue (isNaN_eq_false yFinite)).mp nonneg
      exact (rounds_sub xFinite yFinite).mono (rounds_add xFinite yFinite) (by linarith)
    · rw [add_endOfLine sum]
      exact le_endOfLine difference

theorem smaller_one_mono {x y : Float} (le : x ≤ y) : Scalar.smaller x 1.0 ≤ Scalar.smaller y 1.0 := by
  obtain ⟨xDefined, yDefined, order⟩ := le_iff_linePlace.mp le
  rw [smaller_one, smaller_one]
  split
  · split
    · exact le
    · exact double_le_of_lt ‹x < 1.0›
  · rename_i notBelow
    have above := double_le_trans (double_le_of_not_lt xDefined (by decide) notBelow) le
    rw [if_neg (double_not_lt_of_le above)]
    decide

theorem clampUnit_mono {x y : Float} (le : x ≤ y) : clampUnit x ≤ clampUnit y := by
  obtain ⟨xDefined, yDefined, -⟩ := le_iff_linePlace.mp le
  have xBounds := isUnit_iff.mp (clampUnit_isUnit x)
  have yBounds := isUnit_iff.mp (clampUnit_isUnit y)
  have clamped {z : Float} (defined : z.isNaN = false) :
      clampUnit z = if z < 0.0 then 0.0 else if z > 1.0 then 1.0 else z := by
    rw [clampUnit, if_neg (by rw [defined]; exact Bool.false_ne_true)]
  by_cases below : x < 0.0
  · rw [clamped xDefined, if_pos below]
    exact yBounds.1
  by_cases above : y > 1.0
  · have positive : 0.0 ≤ y := double_le_trans (y := 1.0) (by decide) (double_le_of_lt above)
    have notBelow := double_not_lt_of_le positive
    rw [clamped yDefined, if_neg notBelow, if_pos above]
    exact xBounds.2
  · have low := double_le_of_not_lt xDefined (by decide) below
    have high := double_le_of_not_lt (by decide) yDefined above
    rwa [clampUnit_of_isUnit (isUnit_iff.mpr ⟨low, double_le_trans le high⟩),
      clampUnit_of_isUnit (isUnit_iff.mpr ⟨double_le_trans low le, high⟩)]

/-- Without its sign a double is as far from zero as before. -/
theorem linePlace_abs {x : Float} (defined : x.isNaN = false) :
    x.abs.isNaN = false ∧ linePlace x.abs = (linePlace x).natAbs := by
  have opened : x.abs = .ofModel (.pack x.toModel.unpack.abs) := rfl
  have limit : infinityPlace = 2047 * 2 ^ 52 := rfl
  cases finite : x.isFinite with
  | true =>
    obtain ⟨s, place, aligned, atPlace, small⟩ := aligned_unpack finite
    have word := aligned.abs.toNat_pack
    rw [Nat.min_eq_left small.le] at word
    have same : linePlace x.abs = Sign.positive.apply place := linePlace_of_word (by omega) word
    refine ⟨aligned.abs.settled.rounds.defined, ?_⟩
    rw [same, atPlace]
    cases s <;> simp only [Sign.apply] <;> omega
  | false =>
    obtain ⟨s, rfl⟩ := eq_endOfLine defined finite
    cases s <;> exact ⟨by decide, by decide⟩

theorem abs_le_abs_iff {x y : Float} (xDefined : x.isNaN = false) (yDefined : y.isNaN = false) :
    x.abs ≤ y.abs ↔ (linePlace x).natAbs ≤ (linePlace y).natAbs := by
  obtain ⟨xAbs, xPlace⟩ := linePlace_abs xDefined
  obtain ⟨yAbs, yPlace⟩ := linePlace_abs yDefined
  rw [le_iff_linePlace, xPlace, yPlace]
  exact ⟨fun le => by omega, fun le => ⟨xAbs, yAbs, by omega⟩⟩

end SignalDesk
