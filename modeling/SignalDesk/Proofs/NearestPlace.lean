import Mathlib

namespace SignalDesk

namespace LinePlace

/-- The number of half steps in one; a step is the least positive double. -/
def halfSteps : Nat := 2 ^ 1075

theorem halfSteps_pos : 0 < halfSteps := by
  unfold halfSteps
  positivity

/-- The number of steps in one. -/
def unitSteps : Nat := 2 ^ 1074

theorem unitSteps_pos : (0 : ℚ) < unitSteps := by
  unfold unitSteps
  positivity

theorem halfSteps_eq : halfSteps = 2 * unitSteps := by
  rw [halfSteps, unitSteps, ← Nat.pow_succ']

theorem unitSteps_eq_zpow : (unitSteps : ℚ) = 2 ^ (1074 : Int) := by
  rw [unitSteps, Nat.cast_pow, Nat.cast_ofNat]
  exact (zpow_ofNat 2 1074).symm

/-- The distance from the positive double at a place to the next one, in steps of the least positive
double. -/
def spacing (place : Nat) : Nat := 2 ^ (place / 2 ^ 52 - 1)

/-- Only below the first power of two there is no leading bit. -/
def significand (place : Nat) : Nat :=
  if place / 2 ^ 52 = 0 then place else 2 ^ 52 + place % 2 ^ 52

/-- The size of the double at a place, in the same steps. -/
def steps (place : Nat) : Nat := significand place * spacing place

/-- The halfway between the double at a place and the next one, in half steps. -/
def halfway (place : Nat) : Nat := 2 * steps place + spacing place

theorem steps_zero : steps 0 = 0 := by
  rw [steps, significand, if_pos (Nat.zero_div _), Nat.zero_mul]

theorem spacing_pos (place : Nat) : 0 < spacing place := Nat.two_pow_pos _

theorem steps_succ (place : Nat) : steps (place + 1) = steps place + spacing place := by
  by_cases within : place % 2 ^ 52 + 1 < 2 ^ 52
  · have sameBinade : (place + 1) / 2 ^ 52 = place / 2 ^ 52 := by omega
    have next : significand (place + 1) = significand place + 1 := by
      unfold significand
      split <;> split <;> omega
    rw [steps, steps, spacing, sameBinade, next, Nat.succ_mul, ← spacing]
  · -- the last double of a binade: the next one is a power of two
    have nextBinade : (place + 1) / 2 ^ 52 = place / 2 ^ 52 + 1 := by omega
    have power : significand (place + 1) = 2 ^ 52 := by
      unfold significand
      split <;> omega
    rw [steps, power, steps, spacing, nextBinade, Nat.add_sub_cancel]
    by_cases subnormal : place / 2 ^ 52 = 0
    · have last : significand place = 2 ^ 52 - 1 := by
        unfold significand
        split <;> omega
      rw [last, spacing, subnormal]
      rfl
    · have last : significand place = 2 ^ 53 - 1 := by
        unfold significand
        split <;> omega
      have double : 2 ^ (place / 2 ^ 52) = 2 * spacing place := by
        rw [spacing, ← Nat.pow_succ', Nat.succ_eq_add_one, Nat.sub_add_cancel (by omega)]
      rw [last, double]
      omega

theorem steps_pos {place : Nat} (positive : 0 < place) : 0 < steps place := by
  have next := steps_succ (place - 1)
  have gap := spacing_pos (place - 1)
  rw [Nat.sub_add_cancel positive] at next
  omega

theorem halfway_lt_succ (place : Nat) : halfway place < halfway (place + 1) := by
  have positive := spacing_pos place
  have next := steps_succ place
  simp only [halfway]
  omega

theorem halfway_strictMono : StrictMono halfway := strictMono_nat_of_lt_succ halfway_lt_succ

/-- The halfway below a double lies half the lesser of the two distances before it. -/
theorem halfway_pred {place : Nat} (positive : 0 < place) :
    halfway (place - 1) + spacing (place - 1) = 2 * steps place := by
  have next := steps_succ (place - 1)
  rw [Nat.sub_add_cancel positive] at next
  simp only [halfway]
  omega

end LinePlace

open LinePlace

/-- The numbers that round to the double at a place: they lie between the halfways to its neighbours,
which belong to it exactly if the place is even. -/
def RoundsTo (place : Nat) (x : ℚ) : Prop :=
  if place % 2 = 0 then halfway (place - 1) ≤ x * halfSteps ∧ x * halfSteps ≤ halfway place
  else halfway (place - 1) < x * halfSteps ∧ x * halfSteps < halfway place

/-- The places that the sizes from zero on round to; up to half of the least double they round to zero. -/
def NearestTo (place : Nat) (x : ℚ) : Prop :=
  if place = 0 then x * halfSteps ≤ halfway 0 else RoundsTo place x

theorem RoundsTo.nearestTo {place : Nat} {x : ℚ} (rounds : RoundsTo place x) : NearestTo place x := by
  unfold NearestTo
  split
  · rename_i zero
    subst zero
    rw [RoundsTo, if_pos (Nat.zero_mod 2)] at rounds
    exact rounds.2
  · exact rounds

namespace NearestTo

variable {place other : Nat} {x y : ℚ}

theorem upper (near : NearestTo place x) :
    x * halfSteps ≤ halfway place ∧ (x * halfSteps = halfway place → place % 2 = 0) := by
  unfold NearestTo at near
  split at near
  · rename_i zero
    rw [zero]
    exact ⟨near, fun _ => Nat.zero_mod 2⟩
  · unfold RoundsTo at near
    split at near
    · rename_i even
      exact ⟨near.2, fun _ => even⟩
    · exact ⟨near.2.le, fun meet => absurd meet near.2.ne⟩

theorem lower (near : NearestTo place x) (positive : 0 < place) :
    halfway (place - 1) ≤ x * halfSteps ∧ (x * halfSteps = halfway (place - 1) → place % 2 = 0) := by
  rw [NearestTo, if_neg positive.ne'] at near
  unfold RoundsTo at near
  split at near
  · rename_i even
    exact ⟨near.1, fun _ => even⟩
  · exact ⟨near.1.le, fun meet => absurd meet near.1.ne'⟩

/-- Rounding keeps the order. -/
theorem mono (near : NearestTo place x) (otherNear : NearestTo other y) (le : x ≤ y) : place ≤ other := by
  by_contra less
  have positive : 0 < place := by omega
  have ordered : x * halfSteps ≤ y * halfSteps := mul_le_mul_of_nonneg_right le (Nat.cast_nonneg halfSteps)
  have below := near.lower positive
  have above := otherNear.upper
  have between : (halfway other : ℚ) ≤ halfway (place - 1) := by
    exact_mod_cast halfway_strictMono.monotone (by omega : other ≤ place - 1)
  have meet : halfway other = halfway (place - 1) := by
    exact_mod_cast between.antisymm (below.1.trans (ordered.trans above.1))
  have adjacent : other = place - 1 := halfway_strictMono.injective meet
  -- of two neighbours one has an odd place, and the halfway does not belong to it
  have even := below.2 ((ordered.trans (above.1.trans between)).antisymm below.1)
  have otherEven := above.2 (above.1.antisymm (between.trans (meet ▸ below.1.trans ordered)))
  omega

theorem unique (near : NearestTo place x) (otherNear : NearestTo other x) : place = other :=
  Nat.le_antisymm (near.mono otherNear le_rfl) (otherNear.mono near le_rfl)

end NearestTo

/-- No number rounds to two doubles. -/
theorem RoundsTo.unique {place other : Nat} {x : ℚ} (rounds : RoundsTo place x)
    (otherRounds : RoundsTo other x) : place = other :=
  rounds.nearestTo.unique otherRounds.nearestTo

/-- A double rounds to itself. -/
theorem roundsTo_steps {place : Nat} (positive : 0 < place) {x : ℚ}
    (size : x * halfSteps = 2 * steps place) : RoundsTo place x := by
  have below : (halfway (place - 1) : ℚ) < 2 * steps place := by
    exact_mod_cast (by have := halfway_pred positive; have := spacing_pos (place - 1); omega :
      halfway (place - 1) < 2 * steps place)
  have above : 2 * (steps place : ℚ) < halfway place := by
    exact_mod_cast (by have := spacing_pos place; simp only [halfway]; omega :
      2 * steps place < halfway place)
  unfold RoundsTo
  rw [size]
  split
  · exact ⟨below.le, above.le⟩
  · exact ⟨below, above⟩

end SignalDesk
