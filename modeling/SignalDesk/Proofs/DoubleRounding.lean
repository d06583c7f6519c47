import SignalDesk.Proofs.DoubleOrder
import SignalDesk.Proofs.NearestPlace

namespace SignalDesk

open Float.Model Float.Model.UnpackedFloat LinePlace

/-- The whole number nearest to a number, the even one of two. -/
structure NearestWhole (n : Nat) (x : ℚ) : Prop where
  lower : n - 1 / 2 ≤ x
  upper : x ≤ n + 1 / 2
  odd : n % 2 = 1 → n - 1 / 2 < x ∧ x < n + 1 / 2

namespace NearestWhole

variable {n bound : Nat} {x : ℚ}

theorem le_of_le (near : NearestWhole n x) (above : bound ≤ x) : bound ≤ n := by
  have close : (bound : ℚ) < n + 1 := by linarith [near.upper]
  exact Nat.le_of_lt_succ (by exact_mod_cast close)

theorem le_of_lt (near : NearestWhole n x) (below : x < bound) : n ≤ bound := by
  have close : (n : ℚ) < bound + 1 := by linarith [near.lower]
  exact Nat.le_of_lt_succ (by exact_mod_cast close)

end NearestWhole

/-- Where the number lies that a mantissa with its two residual bits stands for. -/
def Holds (em : ExtendedMantissa) (x : ℚ) : Prop :=
  match em.roundBit, em.stickyBit with
  | false, false => x = em.mantissa
  | false, true => em.mantissa < x ∧ x < em.mantissa + 1 / 2
  | true, false => x = em.mantissa + 1 / 2
  | true, true => em.mantissa + 1 / 2 < x ∧ x < em.mantissa + 1

namespace Holds

variable {em : ExtendedMantissa} {x : ℚ}

theorem exact (m : Nat) : Holds (.ofMantissaAndAccuracy m .exact) m := rfl

theorem below {m : Nat} (low : m < x) (high : x < m + 1 / 2) :
    Holds (.ofMantissaAndAccuracy m (.inexact .lt)) x := ⟨low, high⟩

theorem half {m : Nat} (equal : x = m + 1 / 2) : Holds (.ofMantissaAndAccuracy m (.inexact .eq)) x := equal

theorem above {m : Nat} (low : m + 1 / 2 < x) (high : x < m + 1) :
    Holds (.ofMantissaAndAccuracy m (.inexact .gt)) x := ⟨low, high⟩

theorem bounds (holds : Holds em x) : em.mantissa ≤ x ∧ x < em.mantissa + 1 := by
  rcases em with ⟨m, r, s⟩
  cases r <;> cases s <;> simp only [Holds] at holds ⊢ <;> constructor <;> linarith

/-- The bit that leaves the mantissa becomes the round bit. -/
theorem shiftRightOne (holds : Holds em x) : Holds em.shiftRightOne (x / 2) := by
  rcases em with ⟨m, r, s⟩
  obtain ⟨q, rfl | rfl⟩ := m.even_or_odd'
  · have half : 2 * q / 2 = q := by omega
    have bit : (2 * q % 2 != 0) = false := by simp
    cases r <;> cases s <;>
      simp only [Holds, ExtendedMantissa.shiftRightOne, half, bit, Bool.or_false, Bool.or_true, Bool.or_self] at holds ⊢ <;>
      push_cast at holds <;> (try constructor) <;> linarith
  · have half : (2 * q + 1) / 2 = q := by omega
    have bit : ((2 * q + 1) % 2 != 0) = true := by simp
    cases r <;> cases s <;>
      simp only [Holds, ExtendedMantissa.shiftRightOne, half, bit, Bool.or_false, Bool.or_true, Bool.or_self] at holds ⊢ <;>
      push_cast at holds <;> (try constructor) <;> linarith

theorem shiftRight (holds : Holds em x) (n : Nat) : Holds (em >>> n) (x / 2 ^ n) := by
  change Holds (n.repeat ExtendedMantissa.shiftRightOne em) _
  induction n with
  | zero => simpa only [Nat.repeat, pow_zero, div_one] using holds
  | succ n ih =>
    rw [Nat.repeat, pow_succ, ← div_div]
    exact ih.shiftRightOne

theorem nearestWhole (holds : Holds em x) : NearestWhole em.roundedMantissa x := by
  rcases em with ⟨m, r, s⟩
  cases r <;> cases s <;> simp only [Holds] at holds
  · -- exact
    change NearestWhole m x
    exact ⟨by linarith, by linarith, fun _ => ⟨by linarith, by linarith⟩⟩
  · -- below the half
    change NearestWhole m x
    exact ⟨by linarith, by linarith, fun _ => ⟨by linarith, by linarith⟩⟩
  · -- the half goes to the even neighbour
    change NearestWhole (m + m % 2) x
    rcases m.mod_two_eq_zero_or_one with even | odd
    · rw [even]
      exact ⟨by push_cast; linarith, by push_cast; linarith, fun odd => by omega⟩
    · rw [odd]
      exact ⟨by push_cast; linarith, by push_cast; linarith, fun odd => by omega⟩
  · -- above the half
    change NearestWhole (m + 1) x
    exact ⟨by push_cast; linarith, by push_cast; linarith,
      fun _ => ⟨by push_cast; linarith, by push_cast; linarith⟩⟩

end Holds

namespace LinePlace

/-- A mantissa of at most 53 bits, at the exponent of its place. -/
theorem steps_scaled {k n : Nat} (bounded : n ≤ 2 ^ 53) (normal : k = 0 ∨ 2 ^ 52 ≤ n) :
    steps (k * 2 ^ 52 + n) = n * 2 ^ k := by
  by_cases small : n < 2 ^ 52
  · have lowest : k = 0 := by omega
    have binade : (k * 2 ^ 52 + n) / 2 ^ 52 = 0 := by omega
    rw [steps, significand, spacing, binade, if_pos rfl, lowest]
    omega
  · by_cases carried : n = 2 ^ 53
    · have binade : (k * 2 ^ 52 + n) / 2 ^ 52 = k + 2 := by omega
      have power : 2 ^ 52 + (k * 2 ^ 52 + n) % 2 ^ 52 = 2 ^ 52 := by omega
      rw [steps, significand, spacing, binade, if_neg (by omega), power, carried,
        show k + 2 - 1 = k + 1 by omega, Nat.pow_succ']
      omega
    · have binade : (k * 2 ^ 52 + n) / 2 ^ 52 = k + 1 := by omega
      have mantissa : 2 ^ 52 + (k * 2 ^ 52 + n) % 2 ^ 52 = n := by omega
      rw [steps, significand, spacing, binade, if_neg (by omega), mantissa, Nat.add_sub_cancel]

theorem le_spacing {k place : Nat} (behind : k = 0 ∨ (k + 1) * 2 ^ 52 ≤ place) : 2 ^ k ≤ spacing place :=
  Nat.pow_le_pow_right Nat.two_pos (by omega)

end LinePlace

theorem div_unitSteps_mul_halfSteps (x : ℚ) : x / unitSteps * halfSteps = 2 * x := by
  have unit := unitSteps_pos.ne'
  rw [halfSteps_eq, Nat.cast_mul, Nat.cast_ofNat]
  field_simp

/-- A number in the range of a mantissa is rounded like the double that it is the mantissa of. -/
theorem NearestWhole.nearestTo {n k : Nat} {x : ℚ} (near : NearestWhole n x) (bounded : n ≤ 2 ^ 53)
    (normal : k = 0 ∨ ((2 ^ 52 : Nat) : ℚ) ≤ x) : NearestTo (k * 2 ^ 52 + n) (x * 2 ^ k / unitSteps) := by
  have power : (0 : ℚ) < 2 ^ k := by positivity
  have leading : k = 0 ∨ 2 ^ 52 ≤ n := normal.imp_right near.le_of_le
  have scaled := steps_scaled bounded leading
  have behind : k = 0 ∨ (k + 1) * 2 ^ 52 ≤ k * 2 ^ 52 + n := by omega
  have parity : (k * 2 ^ 52 + n) % 2 = n % 2 := by omega
  have lowest : k = 0 ∨ n = 2 ^ 52 ∨ (k + 1) * 2 ^ 52 ≤ k * 2 ^ 52 + n - 1 := by omega
  generalize k * 2 ^ 52 + n = place at *
  have above : (2 * n + 1) * 2 ^ k ≤ (halfway place : ℚ) := by
    have gap : (2 : ℚ) ^ k ≤ spacing place := by exact_mod_cast le_spacing behind
    rw [halfway, scaled]
    push_cast
    linarith
  have below (positive : 0 < place) : (halfway (place - 1) : ℚ) ≤ 2 * x * 2 ^ k ∧
      (n % 2 = 1 → (halfway (place - 1) : ℚ) < 2 * x * 2 ^ k) := by
    have before : (halfway (place - 1) : ℚ) + spacing (place - 1) = 2 * (n * 2 ^ k) := by
      exact_mod_cast scaled ▸ halfway_pred positive
    by_cases nearer : k = 0 ∨ (k + 1) * 2 ^ 52 ≤ place - 1
    · have gap : (2 : ℚ) ^ k ≤ spacing (place - 1) := by exact_mod_cast le_spacing nearer
      have low : (halfway (place - 1) : ℚ) ≤ (2 * n - 1) * 2 ^ k := by linarith
      refine ⟨low.trans (mul_le_mul_of_nonneg_right (by linarith [near.lower]) power.le), fun odd => ?_⟩
      exact low.trans_lt (mul_lt_mul_of_pos_right (by linarith [(near.odd odd).1]) power)
    · -- a power of two has a nearer neighbour below, but a number below it is out of the range
      have gap : (0 : ℚ) < spacing (place - 1) := by exact_mod_cast spacing_pos (place - 1)
      have range : (n : ℚ) ≤ x := by
        have first : n = 2 ^ 52 := by omega
        rw [first]
        exact normal.resolve_left (by omega)
      have strict : (halfway (place - 1) : ℚ) < 2 * x * 2 ^ k := by
        calc (halfway (place - 1) : ℚ) < 2 * n * 2 ^ k := by linarith
          _ ≤ 2 * x * 2 ^ k := mul_le_mul_of_nonneg_right (by linarith) power.le
      exact ⟨strict.le, fun _ => strict⟩
  have high : 2 * x * 2 ^ k ≤ halfway place :=
    (mul_le_mul_of_nonneg_right (by linarith [near.upper]) power.le).trans above
  unfold NearestTo RoundsTo
  rw [div_unitSteps_mul_halfSteps, ← mul_assoc]
  split
  · rename_i zero
    rwa [zero] at high
  · rename_i positive
    split
    · exact ⟨(below (by omega)).1, high⟩
    · rename_i odd
      refine ⟨(below (by omega)).2 (by omega), lt_of_lt_of_le ?_ above⟩
      exact mul_lt_mul_of_pos_right (by linarith [(near.odd (by omega)).2]) power

/-- An unpacked double with its sign and the place of its size. The exponent may be too great for a word. -/
inductive Aligned : UnpackedFloat → Sign → Nat → Prop
  | zero (s : Sign) : Aligned (.zero s) s 0
  | finite (s : Sign) (m : Nat) (e : Int) (positive : 0 < m) (place : Nat) : m < 2 ^ 53 →
      e = -1074 ∨ 2 ^ 52 ≤ m → -1074 ≤ e → (place : Int) = (e + 1074) * 2 ^ 52 + m →
      Aligned (.finite s m e positive) s place

theorem mantissa_shiftRight (em : ExtendedMantissa) (n : Nat) :
    (em >>> n).mantissa = em.mantissa / 2 ^ n := by
  change (n.repeat ExtendedMantissa.shiftRightOne em).mantissa = _
  induction n with
  | zero => simp [Nat.repeat]
  | succ n ih => rw [Nat.repeat, ExtendedMantissa.shiftRightOne, ih, Nat.div_div_eq_div_mul, ← Nat.pow_succ]

@[simp] theorem mantissa_ofMantissaAndAccuracy (m : Nat) (accuracy : Accuracy) :
    (ExtendedMantissa.ofMantissaAndAccuracy m accuracy).mantissa = m := by
  rcases accuracy with _ | order
  · rfl
  · cases order <;> rfl

/-- The exponent that a mantissa of 53 bits gets, unless it is too small. -/
theorem targetExponent_eq (m : Nat) (e : Int) :
    Format.binary64.targetExponent (totalExponent m e) = max (m.log2 + e - 52) (-1074) := by
  change max ((m.log2 : Int) + 1 + e - 53) (-1074) = _
  omega

/-- What becomes of a rounded mantissa, which may have one bit too many. -/
def carried (s : Sign) (m : Nat) (e : Int) : UnpackedFloat :=
  let (em, e) := shiftToTargetExponent .binary64 m e .exact
  if h : em.mantissa = 0 then .zero s else .finite s em.mantissa e (Nat.pos_of_ne_zero h)

theorem carried_aligned {s : Sign} {k m : Nat} (bounded : m ≤ 2 ^ 53) (leading : k = 0 ∨ 2 ^ 52 ≤ m) :
    Aligned (carried s m (k - 1074)) s (k * 2 ^ 52 + m) := by
  unfold carried shiftToTargetExponent shiftToExponent
  simp only [mantissa_shiftRight, mantissa_ofMantissaAndAccuracy, targetExponent_eq]
  rcases Nat.lt_or_eq_of_le bounded with below | full
  · have short : m.log2 ≤ 52 := by
      by_cases zero : m = 0
      · simp [zero]
      · have := (Nat.log2_lt zero).mpr below
        omega
    have stays : (max ((m.log2 : Int) + (k - 1074) - 52) (-1074) - (k - 1074)).toNat = 0 := by omega
    simp only [stays, Nat.pow_zero, Nat.div_one]
    split
    · rename_i zero
      have lowest : k * 2 ^ 52 + m = 0 := by omega
      rw [lowest]
      exact .zero s
    · exact .finite _ _ _ _ _ below (by omega) (by omega) (by omega)
  · have long : m.log2 = 53 := by rw [full, Nat.log2_two_pow]
    have moves : (max ((m.log2 : Int) + (k - 1074) - 52) (-1074) - (k - 1074)).toNat = 1 := by omega
    simp only [moves, Nat.pow_one]
    rw [dif_neg (by omega)]
    exact .finite _ _ _ _ _ (by omega) (by omega) (by omega) (by omega)

/-- The bits that a mantissa keeps fill it, except at the least exponent. -/
theorem shift_range {m n : Nat} {e : Int} (fine : 2 ^ 52 ≤ m ∨ e ≤ -1074)
    (shift : (Format.binary64.targetExponent (totalExponent m e) - e).toNat = n) :
    ∃ k : Nat, e + n = k - 1074 ∧ m / 2 ^ n < 2 ^ 53 ∧ (k = 0 ∨ 2 ^ 52 ≤ m / 2 ^ n) := by
  rw [targetExponent_eq] at shift
  have long : 2 ^ 52 ≤ m → 52 ≤ m.log2 := fun large => (Nat.le_log2 (by omega)).mpr large
  have bits : m.log2 + 1 ≤ 53 + n := by omega
  refine ⟨(e + n + 1074).toNat, by omega, ?_, ?_⟩
  · rw [Nat.div_lt_iff_lt_mul (Nat.two_pow_pos n), ← Nat.pow_add]
    exact Nat.lt_log2_self.trans_le (Nat.pow_le_pow_right Nat.two_pos bits)
  · by_cases lowest : e + n = -1074
    · exact Or.inl (by omega)
    · have filled : m.log2 = 52 + n := by omega
      have some : m ≠ 0 := by
        rintro rfl
        rw [Nat.log2_zero] at filled
        omega
      right
      rw [Nat.le_div_iff_mul_le (Nat.two_pow_pos n), ← Nat.pow_add, ← filled]
      exact Nat.log2_self_le some

/-- A mantissa that has 53 bits or more, or all that there are, is rounded to the nearest double. -/
theorem roundWithAccuracy_aligned (s : Sign) {m : Nat} {e : Int} {accuracy : Accuracy} {x : ℚ}
    (holds : Holds (.ofMantissaAndAccuracy m accuracy) x) (fine : 2 ^ 52 ≤ m ∨ e ≤ -1074) :
    ∃ place, NearestTo place (x * 2 ^ e) ∧ Aligned (roundWithAccuracy .binary64 s m e accuracy) s place := by
  obtain ⟨n, shift⟩ : ∃ n, (Format.binary64.targetExponent (totalExponent m e) - e).toNat = n := ⟨_, rfl⟩
  obtain ⟨k, exponent, below, leading⟩ := shift_range fine shift
  have shifted := holds.shiftRight n
  obtain ⟨low, high⟩ := shifted.bounds
  have near := shifted.nearestWhole
  have rounding : roundWithAccuracy .binary64 s m e accuracy =
      carried s (ExtendedMantissa.ofMantissaAndAccuracy m accuracy >>> n).roundedMantissa (k - 1074) := by
    rw [← exponent, ← shift]
    rfl
  have value : x * 2 ^ e = x / 2 ^ n * 2 ^ k / unitSteps := by
    have split : e = k - 1074 - n := by omega
    rw [split, zpow_sub₀ two_ne_zero, zpow_sub₀ two_ne_zero, zpow_natCast, zpow_natCast, ← unitSteps_eq_zpow]
    ring
  generalize (ExtendedMantissa.ofMantissaAndAccuracy m accuracy >>> n).roundedMantissa = rounded at *
  rw [mantissa_shiftRight, mantissa_ofMantissaAndAccuracy] at low high
  have normal : k = 0 ∨ ((2 ^ 52 : Nat) : ℚ) ≤ x / 2 ^ n :=
    leading.imp_right fun large => (Nat.cast_le.mpr large).trans low
  have bounded : rounded ≤ 2 ^ 53 :=
    near.le_of_lt (high.trans_le (by exact_mod_cast below))
  refine ⟨k * 2 ^ 52 + rounded, ?_, ?_⟩
  · rw [value]
    exact near.nearestTo bounded normal
  · rw [rounding]
    exact carried_aligned bounded (normal.imp_right near.le_of_le)

end SignalDesk
