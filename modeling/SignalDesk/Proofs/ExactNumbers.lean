import Mathlib.Analysis.Convex.Basic
import SignalDesk.Proofs.ComputedPlaces

namespace SignalDesk

open Scalar

/-- A rational number, or none. -/
inductive Exact where
  | undefined
  | number (value : ℚ)
deriving DecidableEq

namespace Exact

/-- What is made of two numbers. Of an undefined one nothing is made. -/
def combine (f : ℚ → ℚ → Exact) : Exact → Exact → Exact
  | number p, number q => f p q
  | _, _ => undefined

def map (f : ℚ → ℚ) : Exact → Exact
  | number p => number (f p)
  | undefined => undefined

/-- Arithmetic without rounding. There is no quotient by zero. -/
instance : Scalar Exact where
  add := combine fun p q => number (p + q)
  sub := combine fun p q => number (p - q)
  mul := combine fun p q => number (p * q)
  div := combine fun p q => if q = 0 then undefined else number (p / q)
  neg := map fun p => -p
  abs := map fun p => |p|
  ofNat n := number n
  undefined := undefined
  isUndefined x := x = undefined
  less
    | number p, number q => p < q
    | _, _ => false

variable {p q : ℚ} {values : List ℚ} {period : Nat}

@[simp] theorem number_add : number p + number q = number (p + q) := rfl

@[simp] theorem number_sub : number p - number q = number (p - q) := rfl

@[simp] theorem number_mul : number p * number q = number (p * q) := rfl

theorem number_div (nonzero : q ≠ 0) : number p / number q = number (p / q) := if_neg nonzero

@[simp] theorem neg_number : -number p = number (-p) := rfl

@[simp] theorem abs_number : abs (number p) = number |p| := rfl

@[simp] theorem ofNat_number (n : Nat) : (ofNat n : Exact) = number n := rfl

theorem neg_ofNat_zero : -(ofNat 0 : Exact) = ofNat 0 := by
  rw [ofNat_number, neg_number, Nat.cast_zero, neg_zero]

/-- The weight of a mean over some values is a share. -/
theorem one_div_ofNat (positive : 1 ≤ period) :
    (ofNat 1 / ofNat period : Exact) = number (1 / period) ∧ 0 ≤ (1 / period : ℚ) ∧ (1 / period : ℚ) ≤ 1 := by
  have whole : (1 : ℚ) ≤ period := Nat.one_le_cast.mpr positive
  have divisor : (0 : ℚ) < period := zero_lt_one.trans_le whole
  refine ⟨?_, one_div_nonneg.mpr divisor.le, (div_le_one divisor).mpr whole⟩
  rw [ofNat_number, ofNat_number, Nat.cast_one, number_div divisor.ne']

@[simp] theorem isUndefined_number : isUndefined (number p) = false := rfl

@[simp] theorem less_number : less (number p) (number q) = decide (p < q) := rfl

@[simp] theorem larger_number : larger (number p) (number q) = number (max p q) := by
  rw [larger, isUndefined_number, less_number, Bool.false_or]
  split
  · rename_i less
    rw [max_eq_left (of_decide_eq_true less).le]
  · rename_i notLess
    rw [max_eq_right (not_lt.mp (by simpa using notLess))]

@[simp] theorem same_number : same (number p) (number q) = decide (p = q) := by
  simp only [same, isUndefined_number, less_number, Bool.not_false, Bool.true_and]
  rcases lt_trichotomy p q with below | rfl | above
  · simp [below, below.ne]
  · simp
  · simp [above, above.ne']

theorem gapless_number (first behind : Nat) : Gapless (values.map number) first behind := by
  intro x member
  obtain ⟨q, -, rfl⟩ := List.mem_map.mp (List.mem_of_mem_take (List.mem_of_mem_drop member))
  rfl

theorem sum_number : sum (values.map number) = number values.sum := by
  have adds (start : ℚ) : (values.map number).foldl (· + ·) (number start) = number (start + values.sum) := by
    induction values generalizing start with
    | nil => simp
    | cons value rest ih => rw [List.map_cons, List.foldl_cons, number_add, ih, List.sum_cons, add_assoc]
  have started := adds (-(0 : Nat))
  rwa [Nat.cast_zero, neg_zero, zero_add] at started

theorem mean_number (nonempty : values ≠ []) : mean (values.map number) = number (values.sum / values.length) := by
  have count : (values.length : ℚ) ≠ 0 := Nat.cast_ne_zero.mpr (mt List.length_eq_zero_iff.mp nonempty)
  rw [mean, sum_number, List.length_map, ofNat_number, number_div count]

/-- A number of a set. -/
def In (s : Set ℚ) (x : Exact) : Prop := ∃ q ∈ s, x = number q

/-- One step of smoothing weighs the new number and the one before it, with weights that are not negative and sum up
to one: it does not leave a set without holes. -/
theorem In.blend {s : Set ℚ} (convex : Convex ℚ s) {weight : ℚ} (nonneg : 0 ≤ weight) (atMost : weight ≤ 1) {x y : Exact}
    (value : x.In s) (previous : y.In s) : (blend (number weight) x y).In s := by
  obtain ⟨p, pIn, rfl⟩ := value
  obtain ⟨q, qIn, rfl⟩ := previous
  refine ⟨_, convex pIn qIn nonneg (sub_nonneg.mpr atMost) (add_sub_cancel weight 1), ?_⟩
  simp [SignalDesk.blend]

end Exact

/-- A bar with rational prices, for arithmetic without rounding. -/
def Bar.exact (b : Bar ℚ) : Bar Exact :=
  ⟨b.time, .number b.opening, .number b.high, .number b.low, .number b.closing, .number b.volume⟩

/-- The closes of bars with rational prices. -/
def exactCloses (bars : List (Bar ℚ)) : List Exact := (bars.map Bar.exact).map Bar.closing

theorem exactCloses_eq (bars : List (Bar ℚ)) : exactCloses bars = (bars.map Bar.closing).map .number := by
  rw [exactCloses, List.map_map, List.map_map]
  rfl

end SignalDesk
