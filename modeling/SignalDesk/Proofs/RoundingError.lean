import SignalDesk.Proofs.SpreadSign

namespace SignalDesk

open Float.Model Float.Model.UnpackedFloat LinePlace

/-- Half of the least positive double. No number in its range is rounded further than this and a part of
itself. -/
def leastError : ℚ := 1 / 2 ^ 1075

theorem leastError_pos : 0 < leastError := by
  unfold leastError
  positivity

theorem leastError_le : leastError ≤ 1 / 2 ^ 60 := by
  rw [leastError]
  exact one_div_le_one_div_of_le (by positivity) (pow_le_pow_right₀ one_le_two (by decide))

theorem halfway_eq (place : Nat) : (halfway place : ℚ) = (sizeAt place + gapAt place / 2) * halfSteps := by
  have unit := unitSteps_pos.ne'
  rw [halfway, sizeAt, gapAt, halfSteps_eq]
  push_cast
  field_simp

/-- From the first power of two on, the next double is further away from zero by a fixed part of the size. -/
theorem gapAt_le_of_normal {place : Nat} (normal : 2 ^ 52 ≤ place) : gapAt place ≤ sizeAt place / 2 ^ 52 := by
  have leading : 2 ^ 52 * spacing place ≤ steps place := by
    rw [steps, significand, if_neg (by omega)]
    exact Nat.mul_le_mul_right _ (Nat.le_add_right _ _)
  rw [gapAt, sizeAt, div_right_comm, div_le_div_iff_of_pos_right unitSteps_pos, le_div_iff₀ (by positivity), mul_comm]
  exact_mod_cast leading

theorem gapAt_le (place : Nat) : gapAt place ≤ sizeAt place / 2 ^ 52 + 2 * leastError := by
  rcases Nat.lt_or_ge place (2 ^ 52) with subnormal | normal
  · have gap : gapAt place = 2 * leastError := by
      rw [gapAt, spacing, Nat.div_eq_of_lt subnormal, Nat.zero_sub, pow_zero, Nat.cast_one, leastError, unitSteps,
        Nat.cast_pow, Nat.cast_ofNat, pow_succ _ 1074]
      field_simp
    have size := div_nonneg (sizeAt_nonneg place) (by positivity : (0 : ℚ) ≤ 2 ^ 52)
    rw [gap]
    linarith
  · have gap := gapAt_le_of_normal normal
    have least := leastError_pos
    linarith

theorem gapAt_pos (place : Nat) : 0 < gapAt place :=
  div_pos (Nat.cast_pos.mpr (spacing_pos place)) unitSteps_pos

namespace NearestTo

variable {place : Nat} {size : ℚ}

theorem le_halfway (near : NearestTo place size) : size ≤ sizeAt place + gapAt place / 2 := by
  have upper := near.upper.1
  rw [halfway_eq] at upper
  exact le_of_mul_le_mul_right upper (Nat.cast_pos.mpr halfSteps_pos)

theorem halfway_le (near : NearestTo (place + 1) size) : sizeAt place + gapAt place / 2 ≤ size := by
  have lower := (near.lower place.succ_pos).1
  rw [Nat.add_sub_cancel, halfway_eq] at lower
  exact le_of_mul_le_mul_right lower (Nat.cast_pos.mpr halfSteps_pos)

theorem error (near : NearestTo place size) (nonneg : 0 ≤ size) :
    |sizeAt place - size| ≤ size / 2 ^ 53 + leastError := by
  rcases le_or_gt (sizeAt place) size with low | high
  · have close := near.le_halfway
    have gap := gapAt_le place
    rw [abs_of_nonpos (by linarith)]
    linarith
  · cases place with
    | zero =>
      rw [sizeAt_zero] at high
      linarith
    | succ before =>
      have close := near.halfway_le
      have gap := gapAt_le before
      have next := sizeAt_succ before
      have positive := gapAt_pos before
      rw [abs_of_pos (by linarith)]
      linarith

end NearestTo

/-- Where the doubles end. -/
def overflow : ℚ := sizeAt infinityPlace

theorem overflow_pos : 0 < overflow := sizeAt_zero ▸ sizeAt_strictMono (by decide : 0 < infinityPlace)

theorem abs_signed (s : Sign) (q : ℚ) : |signed s q| = |q| := by
  cases s
  · exact abs_neg q
  · rfl

/-- The greatest double is less than the overflow by a fixed part of it. -/
theorem abs_exactValue_le {x : Float} (finite : x.isFinite = true) :
    |exactValue x| ≤ overflow - overflow / 2 ^ 53 := by
  obtain ⟨s, place, -, value, below⟩ := aligned_unpack finite
  have size : |exactValue x| = sizeAt place := by
    rw [exactValue, value, placeValue_apply, abs_signed, abs_of_nonneg (sizeAt_nonneg place)]
  obtain ⟨last, isLast⟩ : ∃ last, infinityPlace = last + 1 := ⟨infinityPlace - 1, rfl⟩
  have top : sizeAt place ≤ sizeAt last := sizeAt_strictMono.monotone (by omega)
  have part := sizeAt_succ_le last
  have next := sizeAt_succ last
  rw [size, overflow, isLast]
  linarith

theorem isFinite_one : (1.0 : Float).isFinite = true := by decide

theorem one_le_overflow : 1 ≤ overflow := by
  have one := abs_exactValue_le isFinite_one
  rw [exactValue_one, abs_one] at one
  linarith [overflow_pos]

/-- A rounded number is off by a part of itself, or by the least error; also a bit beyond the overflow, as long as
that part is greater than what is cut off. -/
theorem Rounds.error {q part : ℚ} {x : Float} (rounds : Rounds q x) (least : 1 / 2 ^ 53 ≤ part)
    (inside : |q| ≤ (1 + part) * overflow) : |exactValue x - q| ≤ part * |q| + leastError := by
  obtain ⟨s, size, n, nonneg, value, nearest, place⟩ := rounds.nearest
  have bare : |q| = size := by rw [value, abs_signed, abs_of_nonneg nonneg]
  have apart : |exactValue x - q| = |sizeAt (min n infinityPlace) - size| := by
    rw [exactValue, place, placeValue_apply, value]
    cases s
    · rw [signed, signed, ← neg_sub', abs_neg]
    · rfl
  rw [bare] at inside
  rw [apart, bare]
  rcases Nat.lt_or_ge infinityPlace n with beyond | within
  · obtain ⟨before, rfl⟩ : ∃ before, n = before + 1 := ⟨n - 1, by omega⟩
    have above : overflow ≤ sizeAt before := sizeAt_strictMono.monotone (by omega)
    have close := nearest.halfway_le
    have positive := gapAt_pos before
    have partPositive : 0 < part := lt_of_lt_of_le (by positivity) least
    have covered : part * overflow ≤ part * size := mul_le_mul_of_nonneg_left (by linarith) partPositive.le
    rw [Nat.min_eq_right (by omega), ← overflow, abs_of_nonpos (by linarith)]
    linarith [leastError_pos]
  · have close := nearest.error nonneg
    have wider : 1 / 2 ^ 53 * size ≤ part * size := mul_le_mul_of_nonneg_right least nonneg
    rw [Nat.min_eq_left within]
    linarith

theorem Rounds.exactValue_mono {q r : ℚ} {x y : Float} (rounds : Rounds q x) (otherRounds : Rounds r y)
    (le : q ≤ r) : exactValue x ≤ exactValue y :=
  placeValue_strictMono.monotone (rounds.nearest.mono otherRounds.nearest le)

/-- Rounding changes no number that a double stands for. -/
theorem Rounds.exactValue_eq {x y : Float} (rounds : Rounds (exactValue y) x) (finite : y.isFinite = true) :
    exactValue x = exactValue y := by
  have self := rounds_exactValue finite
  exact le_antisymm (rounds.exactValue_mono self le_rfl) (self.exactValue_mono rounds le_rfl)

/-- What is no greater than a double in size is not rounded further out. -/
theorem Rounds.within {q : ℚ} {x y : Float} (rounds : Rounds q x) (finite : y.isFinite = true)
    (inside : |q| ≤ |exactValue y|) : x.isFinite = true := by
  obtain ⟨s, place, -, value, below⟩ := aligned_unpack finite
  have limit : infinityPlace = 2047 * 2 ^ 52 := rfl
  rw [exactValue, value, placeValue_apply, abs_signed, abs_of_nonneg (sizeAt_nonneg place), abs_le] at inside
  have low := rounds.nearest.le_of_placeValue_le (j := Sign.negative.apply place) (by simp only [Sign.apply]; omega)
    ((placeValue_apply .negative place).trans_le inside.1)
  have high := rounds.nearest.le_of_le_placeValue (j := (place : Nat)) (by omega) inside.2
  simp only [Sign.apply] at low
  exact isFinite_of_linePlace rounds.defined (by omega) (by omega)

end SignalDesk
