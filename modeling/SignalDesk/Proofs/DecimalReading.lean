import SignalDesk.Decimal.Reading
import SignalDesk.Proofs.DoubleArithmetic
import SignalDesk.Proofs.RoundingInterval

namespace SignalDesk

open LinePlace

namespace Decimal

/-- The exponent of the first digit tells the size. -/
theorem value_bounds {d : Decimal} (some : d.digits ≠ 0) :
    10 ^ d.leading ≤ d.value ∧ d.value < 10 ^ (d.leading + 1) := by
  have length : 0 < d.length := List.length_pos_iff.mpr Nat.toDigits_ne_nil
  have upper : d.digits < 10 ^ d.length := (Nat.length_toDigits_le_iff (by decide) length).mp le_rfl
  have lower : 10 ^ (d.length - 1) ≤ d.digits := by
    by_cases single : d.length = 1
    · rw [single]
      exact Nat.pos_of_ne_zero some
    · by_contra below
      have shorter := (Nat.length_toDigits_le_iff (b := 10) (by decide) (by omega)).mpr (Nat.not_le.mp below)
      change d.length ≤ d.length - 1 at shorter
      omega
  have power : (0 : ℚ) < 10 ^ d.exponent := by positivity
  have first : d.leading = (d.length - 1 : Nat) + d.exponent := by
    rw [leading]
    omega
  have behind : d.leading + 1 = d.length + d.exponent := by
    rw [leading]
    omega
  rw [behind, first, value, zpow_add₀ (by norm_num), zpow_add₀ (by norm_num), zpow_natCast, zpow_natCast]
  constructor
  · exact mul_le_mul_of_nonneg_right (by exact_mod_cast lower) power.le
  · exact mul_lt_mul_of_pos_right (by exact_mod_cast upper) power

theorem rounds_toFloat {d : Decimal} (some : d.digits ≠ 0) (low : -330 ≤ d.leading) (high : d.leading ≤ 310) :
    Rounds d.value d.toFloat := by
  have length : 0 < d.length := List.length_pos_iff.mpr Nat.toDigits_ne_nil
  have short : d.length ≤ d.digits.log2 + 1 := by
    refine (Nat.length_toDigits_le_iff (by decide) (by omega)).mpr ?_
    exact Nat.lt_log2_self.trans_le (Nat.pow_le_pow_left (by decide) _)
  have range : d.leading = d.exponent + d.length - 1 := rfl
  rw [toFloat, if_neg some, if_neg (by omega), if_neg (by omega)]
  exact rounds_ofScientific d.digits (by omega) (by omega)

end Decimal

/-- Only numbers of a size that doubles have round to one. -/
theorem NearestTo.bounds {place : Nat} {x : ℚ} (near : NearestTo place x) (positive : 0 < place)
    (finite : place < infinityPlace) : 10 ^ (-324 : Int) ≤ x ∧ x ≤ 10 ^ (309 : Int) := by
  have power : (0 : ℚ) < halfSteps := by exact_mod_cast halfSteps_pos
  have least : 1 ≤ halfway (place - 1) := (spacing_pos (place - 1)).trans_le (Nat.le_add_left _ _)
  have greatest : halfway place ≤ 2 ^ 2099 := by
    have next := halfway_pred place.succ_pos
    have above : sizeAt (place + 1) ≤ sizeAt infinityPlace := sizeAt_strictMono.monotone finite
    rw [sizeAt, sizeAt, div_le_div_iff_of_pos_right unitSteps_pos] at above
    have top : steps infinityPlace = 2 ^ 2098 := by decide +kernel
    have below : steps (place + 1) ≤ 2 ^ 2098 := top ▸ Nat.cast_le.mp above
    rw [Nat.succ_eq_add_one, Nat.add_sub_cancel] at next
    have double : 2 ^ 2099 = 2 * 2 ^ 2098 := by decide +kernel
    omega
  constructor
  · have enough : halfSteps ≤ 10 ^ 324 := by decide +kernel
    have low : 1 ≤ x * halfSteps := le_trans (by exact_mod_cast least) (near.lower positive).1
    have scaled : 10 ^ (-324 : Int) * (halfSteps : ℚ) ≤ 1 := by
      rw [zpow_neg, inv_mul_le_iff₀ (by positivity), mul_one]
      exact_mod_cast enough
    exact le_of_mul_le_mul_right (scaled.trans low) power
  · have enough : 2 ^ 2099 ≤ 10 ^ 309 * halfSteps := by decide +kernel
    have high : x * halfSteps ≤ 10 ^ (309 : Int) * halfSteps := by
      refine near.upper.1.trans ?_
      exact_mod_cast greatest.trans enough
    exact le_of_mul_le_mul_right high power

theorem NearestTo.digits_ne_zero {d : Decimal} {place : Nat} (near : NearestTo place d.value)
    (positive : 0 < place) (finite : place < infinityPlace) : d.digits ≠ 0 := by
  intro none
  have low := (near.bounds positive finite).1
  rw [Decimal.value, none, Nat.cast_zero, zero_mul] at low
  exact absurd low (not_le.mpr (by positivity))

/-- A number that rounds to a double is read as it. -/
theorem Decimal.linePlace_toFloat {d : Decimal} {place : Nat} (near : NearestTo place d.value)
    (positive : 0 < place) (finite : place < infinityPlace) :
    d.toFloat.isFinite = true ∧ linePlace d.toFloat = place := by
  obtain ⟨low, high⟩ := near.bounds positive finite
  have some := near.digits_ne_zero positive finite
  obtain ⟨first, behind⟩ := value_bounds some
  have leadingHigh : d.leading ≤ 309 := (zpow_le_zpow_iff_right₀ (by norm_num)).mp (first.trans high)
  have leadingLow : -324 < d.leading + 1 := (zpow_lt_zpow_iff_right₀ (by norm_num)).mp (low.trans_lt behind)
  have rounds := rounds_toFloat some (by omega) (by omega)
  have nearest : NearestOnLine place d.value :=
    ⟨.positive, d.value, place, le_trans (by positivity) first, rfl, near, by rw [Nat.min_eq_left finite.le]; rfl⟩
  have same : linePlace d.toFloat = place :=
    Int.le_antisymm (rounds.nearest.mono nearest le_rfl) (nearest.mono rounds.nearest le_rfl)
  have limit : infinityPlace = 2047 * 2 ^ 52 := rfl
  exact ⟨isFinite_of_linePlace rounds.defined (by omega) (by omega), same⟩

end SignalDesk
