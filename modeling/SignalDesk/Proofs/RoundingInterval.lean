import SignalDesk.Decimal.Shortest
import SignalDesk.Proofs.NearestPlace

namespace SignalDesk

/-- The number that a decimal stands for. -/
def Decimal.value (d : Decimal) : ℚ := d.digits * 10 ^ d.exponent

theorem Decimal.value_mul (d : Decimal) :
    d.value * 10 ^ (-d.exponent).toNat = d.digits * 10 ^ d.exponent.toNat := by
  have whole : d.exponent + (-d.exponent).toNat = d.exponent.toNat := by omega
  rw [Decimal.value, mul_assoc, ← zpow_natCast, ← zpow_add₀ (by norm_num), whole, zpow_natCast]

open LinePlace

namespace RoundingInterval

theorem contains_iff {i : RoundingInterval} {d : Decimal} :
    i.contains d = true ↔
      if i.closed then (i.lower : ℚ) ≤ d.value * i.unit ∧ d.value * i.unit ≤ i.upper
      else (i.lower : ℚ) < d.value * i.unit ∧ d.value * i.unit < i.upper := by
  have scalePositive : (0 : ℚ) < 10 ^ (-d.exponent).toNat := by positivity
  have point : ((d.digits * 10 ^ d.exponent.toNat * i.unit : Nat) : ℚ) =
      d.value * i.unit * 10 ^ (-d.exponent).toNat := by
    push_cast
    rw [← d.value_mul]
    ring
  have scaled (n : Nat) : ((n * 10 ^ (-d.exponent).toNat : Nat) : ℚ) = n * 10 ^ (-d.exponent).toNat := by
    push_cast
    rfl
  unfold contains
  simp only [Nat.pow_eq]
  split
  · rw [Bool.and_eq_true, decide_eq_true_eq, decide_eq_true_eq, ← Nat.cast_le (α := ℚ),
      ← Nat.cast_le (α := ℚ), point, scaled, scaled, mul_le_mul_iff_of_pos_right scalePositive,
      mul_le_mul_iff_of_pos_right scalePositive]
  · rw [Bool.and_eq_true, decide_eq_true_eq, decide_eq_true_eq, ← Nat.cast_lt (α := ℚ),
      ← Nat.cast_lt (α := ℚ), point, scaled, scaled, mul_lt_mul_iff_of_pos_right scalePositive,
      mul_lt_mul_iff_of_pos_right scalePositive]

/-- The interval is the one around the double at a place. -/
structure Surrounds (i : RoundingInterval) (place : Nat) : Prop where
  unit_pow : ∃ n, n ≤ 1076 ∧ i.unit = 2 ^ n
  lower : i.lower * halfSteps = halfway (place - 1) * i.unit
  value : i.value * halfSteps = 2 * steps place * i.unit
  upper : i.upper * halfSteps = halfway place * i.unit
  closed : i.closed = (place % 2 == 0)

theorem scale_unit (k : Nat) :
    1 <<< ((k : Int) - 1074).toNat * halfSteps = 2 * 2 ^ k * (1 <<< (-((k : Int) - 1074)).toNat) := by
  rw [halfSteps, Nat.one_shiftLeft, Nat.one_shiftLeft, ← Nat.pow_add, mul_assoc, ← Nat.pow_add, ← Nat.pow_succ']
  congr 1
  omega

theorem ofBinary_surrounds {place s k : Nat} {narrow : Bool} (size : significand place = s)
    (gap : spacing place = 2 ^ k) (parity : s % 2 = place % 2)
    (lower : halfway (place - 1) * 2 = (4 * s - if narrow then 1 else 2) * 2 ^ k) :
    (ofBinary s ((k : Int) - 1074) narrow).Surrounds place := by
  have scaled := scale_unit k
  have quadruple (n : Nat) : 4 <<< n = 4 * (1 <<< n) := by
    rw [Nat.shiftLeft_eq, Nat.shiftLeft_eq, Nat.one_mul]
  have unitPower : ∃ n, n ≤ 1076 ∧ 4 * (1 <<< (-((k : Int) - 1074)).toNat) = 2 ^ n := by
    refine ⟨2 + (-((k : Int) - 1074)).toNat, by omega, ?_⟩
    rw [Nat.one_shiftLeft, Nat.pow_add]
  simp only [ofBinary, quadruple]
  generalize 1 <<< (-((k : Int) - 1074)).toNat = unit at scaled unitPower
  generalize 1 <<< ((k : Int) - 1074).toNat = scale at scaled
  refine ⟨unitPower, ?_, ?_, ?_, by simp only [parity]⟩
  · calc (4 * s - if narrow then 1 else 2) * scale * halfSteps
        = (4 * s - if narrow then 1 else 2) * 2 ^ k * (2 * unit) := by rw [mul_assoc, scaled]; ring
      _ = halfway (place - 1) * (4 * unit) := by rw [← lower]; ring
  · calc 4 * s * scale * halfSteps = 4 * s * (2 * 2 ^ k * unit) := by rw [mul_assoc, scaled]
      _ = 2 * steps place * (4 * unit) := by rw [steps, size, gap]; ring
  · calc (4 * s + 2) * scale * halfSteps = (4 * s + 2) * (2 * 2 ^ k * unit) := by rw [mul_assoc, scaled]
      _ = halfway place * (4 * unit) := by rw [halfway, steps, size, gap]; ring

theorem Surrounds.unit_pos {i : RoundingInterval} {place : Nat} (around : i.Surrounds place) : 0 < i.unit := by
  obtain ⟨n, -, unit⟩ := around.unit_pow
  rw [unit]
  exact Nat.two_pow_pos n

/-- The sign bit of a double does not count. -/
theorem ofFloat_surrounds {x : Float} (positive : 0 < x.toBits.toNat % 2 ^ 63)
    (finite : x.toBits.toNat % 2 ^ 63 < 2047 * 2 ^ 52) : (ofFloat x).Surrounds (x.toBits.toNat % 2 ^ 63) := by
  unfold ofFloat
  generalize x.toBits.toNat = bits at positive finite
  have fraction : bits % (1 <<< 52) = bits % 2 ^ 63 % 2 ^ 52 := by
    change bits % 2 ^ 52 = _
    omega
  have biased : bits >>> 52 % (1 <<< 11) = bits % 2 ^ 63 / 2 ^ 52 := by
    rw [Nat.shiftRight_eq_div_pow]
    change bits / 2 ^ 52 % 2 ^ 11 = _
    omega
  generalize bits % 2 ^ 63 = place at positive finite fraction biased
  have below := halfway_pred positive
  simp only [fraction, biased]
  split
  · rename_i subnormal
    have gap : spacing place = 2 ^ 0 := by rw [spacing, subnormal, Nat.zero_sub]
    have gapBelow : spacing (place - 1) = 1 := by rw [spacing, show (place - 1) / 2 ^ 52 = 0 by omega,
      Nat.zero_sub, Nat.pow_zero]
    have size : significand place = place % 2 ^ 52 := by
      rw [significand, if_pos subnormal]
      omega
    refine ofBinary_surrounds size gap (by omega) ?_
    rw [steps, size, gap, gapBelow] at below
    simp only [Bool.false_eq_true, if_false]
    omega
  · rename_i normal
    obtain ⟨k, exponent⟩ : ∃ k, place / 2 ^ 52 = k + 1 := ⟨place / 2 ^ 52 - 1, by omega⟩
    have gap : spacing place = 2 ^ k := by rw [spacing, exponent, Nat.add_sub_cancel]
    have size : significand place = (1 <<< 52) + place % 2 ^ 52 := if_neg normal
    have shifted : ((place / 2 ^ 52 : Nat) : Int) - 1075 = (k : Int) - 1074 := by omega
    rw [shifted]
    refine ofBinary_surrounds size gap (by omega) ?_
    rw [steps, size, gap] at below
    by_cases narrow : place % 2 ^ 52 = 0 ∧ k ≠ 0
    · -- just above a power of two the distance before is half the one behind
      have gapBelow : 2 ^ k = 2 * spacing (place - 1) := by
        rw [spacing, show (place - 1) / 2 ^ 52 = k by omega, ← Nat.pow_succ', Nat.succ_eq_add_one,
          Nat.sub_add_cancel (by omega)]
      have isNarrow : (place % 2 ^ 52 == 0 && place / 2 ^ 52 != 1) = true := by
        simp only [narrow.1, exponent]
        simpa using narrow.2
      rw [isNarrow, if_pos rfl, Nat.sub_mul, Nat.mul_assoc]
      rw [gapBelow] at below ⊢
      omega
    · have gapBelow : spacing (place - 1) = 2 ^ k := by
        by_cases first : place % 2 ^ 52 = 0
        · have lowest : k = 0 := not_not.mp fun higher => narrow ⟨first, higher⟩
          rw [spacing, show (place - 1) / 2 ^ 52 = 0 by omega, lowest]
        · rw [spacing, show (place - 1) / 2 ^ 52 = k + 1 by omega, Nat.add_sub_cancel]
      have notNarrow : (place % 2 ^ 52 == 0 && place / 2 ^ 52 != 1) = false := by
        simp only [exponent, Bool.and_eq_false_iff, beq_eq_false_iff_ne, bne_eq_false_iff_eq]
        omega
      rw [notNarrow, if_neg Bool.false_ne_true, Nat.sub_mul, Nat.mul_assoc]
      rw [gapBelow] at below
      omega

theorem Surrounds.contains_iff {i : RoundingInterval} {place : Nat} (around : i.Surrounds place)
    {d : Decimal} : i.contains d = true ↔ RoundsTo place d.value := by
  have unitPositive : (0 : ℚ) < i.unit := by exact_mod_cast around.unit_pos
  have power : (0 : ℚ) < halfSteps := by exact_mod_cast halfSteps_pos
  have lower : (i.lower : ℚ) = halfway (place - 1) * i.unit / halfSteps := by
    rw [eq_div_iff power.ne']
    exact_mod_cast around.lower
  have upper : (i.upper : ℚ) = halfway place * i.unit / halfSteps := by
    rw [eq_div_iff power.ne']
    exact_mod_cast around.upper
  rw [RoundingInterval.contains_iff, RoundsTo, around.closed, lower, upper]
  simp only [beq_iff_eq, div_le_iff₀ power, le_div_iff₀ power, div_lt_iff₀ power, lt_div_iff₀ power,
    mul_right_comm _ (i.unit : ℚ), mul_le_mul_iff_of_pos_right unitPositive,
    mul_lt_mul_iff_of_pos_right unitPositive]

theorem contains_of_nearestOn {i : RoundingInterval} {tie : Tie} {exponent : Int} {d : Decimal}
    (nearest : i.nearestOn tie exponent = some d) : i.contains d = true := by
  simp only [nearestOn] at nearest
  split at nearest
  · rename_i below above
    split at nearest
    · cases nearest
      exact below
    · cases nearest
      exact above
    · cases nearest
      exact above
    · cases nearest
      split
      · exact below
      · exact above
  · rename_i below _
    cases nearest
    exact below
  · rename_i _ above
    cases nearest
    exact above
  · cases nearest

/-- A grid that is fine enough has the value itself. -/
theorem value_floorOn {i : RoundingInterval} {places : Nat} (unit : i.unit ≠ 0)
    (fine : i.unit ∣ 10 ^ places) : (i.floorOn (-places)).value = i.value / i.unit := by
  have divides : i.unit ∣ i.value * 10 ^ places := fine.mul_left i.value
  have ten : (10 : ℚ) ^ places ≠ 0 := by positivity
  have unitDefined : (i.unit : ℚ) ≠ 0 := by exact_mod_cast unit
  rw [floorOn, Decimal.value]
  simp only [Int.neg_neg, Int.toNat_natCast, Int.toNat_neg_natCast, Nat.pow_eq, Nat.pow_zero, Nat.mul_one]
  rw [Nat.cast_div divides unitDefined, Nat.cast_mul, Nat.cast_pow, Nat.cast_ofNat, zpow_neg, zpow_natCast]
  field_simp

/-- The finest grid has every double. -/
theorem Surrounds.roundsTo_floorOn {i : RoundingInterval} {place : Nat} (around : i.Surrounds place)
    (positive : 0 < place) : RoundsTo place (i.floorOn (-1076)).value := by
  obtain ⟨n, coarse, unit⟩ := around.unit_pow
  have fine : i.unit ∣ 10 ^ 1076 := by
    rw [unit]
    exact (pow_dvd_pow_of_dvd (by decide : 2 ∣ 10) n).trans (pow_dvd_pow 10 coarse)
  have value : (i.value : ℚ) * halfSteps = 2 * steps place * i.unit := by exact_mod_cast around.value
  have unitDefined : (i.unit : ℚ) ≠ 0 := by exact_mod_cast around.unit_pos.ne'
  refine roundsTo_steps positive ?_
  rw [show (-1076 : Int) = -(1076 : Nat) from rfl, value_floorOn around.unit_pos.ne' fine, div_mul_eq_mul_div,
    value, mul_div_assoc, div_self unitDefined, mul_one]

end RoundingInterval

open RoundingInterval

/-- The digits that are written for a double round to its size. -/
theorem roundsTo_shortest (tie : Tie) {x : Float} (positive : 0 < x.toBits.toNat % 2 ^ 63)
    (finite : x.toBits.toNat % 2 ^ 63 < 2047 * 2 ^ 52) :
    RoundsTo (x.toBits.toNat % 2 ^ 63) (Decimal.shortest tie x).value := by
  have around := ofFloat_surrounds positive finite
  have something : (ofFloat x).value ≠ 0 := by
    intro nothing
    have size := around.value
    rw [nothing, Nat.zero_mul] at size
    have magnitude := Nat.mul_pos (Nat.mul_pos Nat.two_pos (steps_pos positive)) around.unit_pos
    omega
  simp only [Decimal.shortest, if_neg something]
  split
  · rename_i d found
    obtain ⟨n, -, nearest⟩ := List.exists_of_findSome?_eq_some found
    exact around.contains_iff.mp (contains_of_nearestOn nearest)
  · exact around.roundsTo_floorOn positive

end SignalDesk
