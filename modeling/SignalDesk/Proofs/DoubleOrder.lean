import Mathlib
import SignalDesk.Volatility

namespace SignalDesk

open Float.Model Float.Model.UnpackedFloat

/-- The place of a double on the number line, in steps between neighbours. The two zeros share one. -/
def linePlace (x : Float) : Int :=
  let bits := x.toBits.toNat
  if bits < 2 ^ 63 then bits else -(bits - 2 ^ 63 : Nat)

/-- What an unpacked double with a place on the number line looks like. A finite one is either
subnormal or has the leading bit of its mantissa set, so the exponent decides first. -/
inductive Located : UnpackedFloat → Int → Prop
  | infinity (s : Sign) : Located (.infinity s) (s.apply (2047 * 2 ^ 52))
  | zero (s : Sign) : Located (.zero s) 0
  | finite (s : Sign) (m : Nat) (e : Int) (positive : 0 < m) : m < 2 ^ 53 → -1074 ≤ e → e ≤ 971 →
      e = -1074 ∨ 2 ^ 52 ≤ m → Located (.finite s m e positive) (s.apply ((e + 1074) * 2 ^ 52 + m))

theorem toNat_unpackMantissa (b : BitVec Format.binary64.numBits) :
    (unpackMantissa b).toNat = b.toNat % 2 ^ 52 := by
  simp [unpackMantissa, BitVec.extractLsb]

theorem toNat_unpackExponent (b : BitVec Format.binary64.numBits) :
    (unpackExponent b).toNat = b.toNat / 2 ^ 52 % 2 ^ 11 := by
  simp [unpackExponent, BitVec.extractLsb, Nat.shiftRight_eq_div_pow]

theorem toNat_unpackSign (b : BitVec Format.binary64.numBits) :
    (unpackSign b).toNat = b.toNat / 2 ^ 63 % 2 := by
  simp [unpackSign, BitVec.extractLsb, Nat.shiftRight_eq_div_pow]

/-- A word splits into its sign and a magnitude below the sign bit. -/
theorem linePlace_eq_apply (x : Float) :
    linePlace x = (Sign.ofBitVec (@unpackSign Format.binary64 x.toBits.toBitVec)).apply
      (x.toBits.toNat % 2 ^ 63 : Nat) := by
  have size : x.toBits.toNat < 2 ^ 64 := x.toBits.toNat_lt
  have sign := toNat_unpackSign x.toBits.toBitVec
  by_cases positive : x.toBits.toNat < 2 ^ 63
  · have clear : @unpackSign Format.binary64 x.toBits.toBitVec = 0#1 := by
      apply BitVec.eq_of_toNat_eq
      rw [sign]
      change x.toBits.toNat / 2 ^ 63 % 2 = 0
      omega
    rw [clear]
    simp only [linePlace, if_pos positive, Nat.mod_eq_of_lt positive]
    rfl
  · have set : @unpackSign Format.binary64 x.toBits.toBitVec = 1#1 := by
      apply BitVec.eq_of_toNat_eq
      rw [sign]
      change x.toBits.toNat / 2 ^ 63 % 2 = 1
      omega
    rw [set]
    have low : x.toBits.toNat % 2 ^ 63 = x.toBits.toNat - 2 ^ 63 := by omega
    simp only [linePlace, if_neg positive, low]
    rfl

theorem Located.ofMagnitude {s : Sign} {m magnitude : Nat} {e : Int} (positive : 0 < m)
    (below : m < 2 ^ 53) (low : -1074 ≤ e) (high : e ≤ 971) (normal : e = -1074 ∨ 2 ^ 52 ≤ m)
    (value : (magnitude : Int) = (e + 1074) * 2 ^ 52 + m) :
    Located (.finite s m e positive) (s.apply magnitude) := by
  rw [value]
  exact .finite s m e positive below low high normal

theorem located_unpack {x : Float} (defined : x.isNaN = false) :
    Located x.toModel.unpack (linePlace x) := by
  rw [linePlace_eq_apply]
  change (UnpackedFloat.unpack Format.binary64 x.toBits.toBitVec).isNaN = false at defined
  change Located (UnpackedFloat.unpack Format.binary64 x.toBits.toBitVec) _
  have mantissa := toNat_unpackMantissa x.toBits.toBitVec
  have exponent := toNat_unpackExponent x.toBits.toBitVec
  change _ = x.toBits.toNat % 2 ^ 52 at mantissa
  change _ = x.toBits.toNat / 2 ^ 52 % 2 ^ 11 at exponent
  have bias : ((Format.binary64.exponentBias : Nat) : Int) = 1023 := rfl
  have width : ((Format.binary64.mantissaBitsWithoutImplicit : Nat) : Int) = 52 := rfl
  simp only [UnpackedFloat.unpack] at defined ⊢
  split at defined
  · rename_i top
    have full : x.toBits.toNat / 2 ^ 52 % 2 ^ 11 = 2047 := by rw [← exponent, top]; rfl
    split at defined
    · rename_i none
      have empty : x.toBits.toNat % 2 ^ 52 = 0 := by rw [← mantissa, none]; rfl
      have magnitude : x.toBits.toNat % 2 ^ 63 = 2047 * 2 ^ 52 := by omega
      rw [if_pos top, if_pos none, magnitude]
      exact .infinity _
    · cases defined
  · rename_i notTop
    have notFull : x.toBits.toNat / 2 ^ 52 % 2 ^ 11 ≠ 2047 := by
      intro full
      exact notTop (BitVec.eq_of_toNat_eq (exponent.trans full))
    rw [if_neg notTop]
    split
    · rename_i bottom
      have low : x.toBits.toNat / 2 ^ 52 % 2 ^ 11 = 0 := by rw [← exponent, bottom]; rfl
      split
      · rename_i none
        have empty : x.toBits.toNat % 2 ^ 52 = 0 := by rw [← mantissa, none]; rfl
        have magnitude : x.toBits.toNat % 2 ^ 63 = 0 := by omega
        rw [magnitude]
        generalize Sign.ofBitVec _ = s
        cases s <;> exact .zero _
      · apply Located.ofMagnitude <;> omega
    · rename_i notBottom
      have notLow : x.toBits.toNat / 2 ^ 52 % 2 ^ 11 ≠ 0 := by
        intro low
        exact notBottom (BitVec.eq_of_toNat_eq (exponent.trans low))
      have leading : (1#1 ++ @unpackMantissa Format.binary64 x.toBits.toBitVec).toNat =
          2 ^ 52 + x.toBits.toNat % 2 ^ 52 := by
        rw [← mantissa, BitVec.toNat_append, Nat.shiftLeft_eq]
        exact (Nat.two_pow_add_eq_or_of_lt (@unpackMantissa Format.binary64 x.toBits.toBitVec).isLt 1).symm
      apply Located.ofMagnitude <;> omega

theorem isFinite_of_linePlace {x : Float} (defined : x.isNaN = false) (low : -(2047 * 2 ^ 52) < linePlace x)
    (high : linePlace x < 2047 * 2 ^ 52) : x.isFinite = true := by
  have located := located_unpack defined
  change x.toModel.unpack.isFinite = true
  generalize x.toModel.unpack = unpacked at located ⊢
  generalize linePlace x = place at *
  cases located with
  | infinity s => cases s <;> simp only [Sign.apply] at low high <;> omega
  | zero s => rfl
  | finite s m e positive => rfl

/-- The infinities are the ends of the number line. -/
theorem linePlace_bounds {x : Float} (defined : x.isNaN = false) :
    -(2047 * 2 ^ 52) ≤ linePlace x ∧ linePlace x ≤ 2047 * 2 ^ 52 := by
  have located := located_unpack defined
  generalize x.toModel.unpack = unpacked at located
  generalize linePlace x = place at *
  cases located with
  | infinity s => cases s <;> simp only [Sign.apply] <;> omega
  | zero s => omega
  | finite s m e positive => cases s <;> simp only [Sign.apply] <;> omega

theorem compare_magnitudes {m n : Nat} {e f : Int} (mBelow : m < 2 ^ 53) (nBelow : n < 2 ^ 53)
    (eLow : -1074 ≤ e) (fLow : -1074 ≤ f) (mNormal : e = -1074 ∨ 2 ^ 52 ≤ m)
    (nNormal : f = -1074 ∨ 2 ^ 52 ≤ n) :
    (Ord.compare e f).then (Ord.compare m n) =
      Ord.compare ((e + 1074) * 2 ^ 52 + m) ((f + 1074) * 2 ^ 52 + n) := by
  rcases Int.lt_trichotomy e f with less | same | greater
  · rw [Int.compare_eq_lt.mpr less]
    exact (Int.compare_eq_lt.mpr (by omega)).symm
  · rw [Int.compare_eq_eq.mpr same]
    rcases Nat.lt_trichotomy m n with less | equal | greater
    · rw [Nat.compare_eq_lt.mpr less]
      exact (Int.compare_eq_lt.mpr (by omega)).symm
    · rw [Nat.compare_eq_eq.mpr equal]
      exact (Int.compare_eq_eq.mpr (by omega)).symm
    · rw [Nat.compare_eq_gt.mpr greater]
      exact (Int.compare_eq_gt.mpr (by omega)).symm
  · rw [Int.compare_eq_gt.mpr greater]
    exact (Int.compare_eq_gt.mpr (by omega)).symm

theorem compare_neg_neg (i j : Int) : Ord.compare (-i) (-j) = Ord.compare j i := by
  simp only [Int.compare_eq_ite_lt, Int.neg_lt_neg_iff]

theorem Located.compare {a b : UnpackedFloat} {i j : Int} (atI : Located a i) (atJ : Located b j) :
    a.compare b = some (Ord.compare i j) := by
  have before {i j : Int} (less : i < j) : some Ordering.lt = some (Ord.compare i j) :=
    congrArg some (Int.compare_eq_lt.mpr less).symm
  have behind {i j : Int} (greater : j < i) : some Ordering.gt = some (Ord.compare i j) :=
    congrArg some (Int.compare_eq_gt.mpr greater).symm
  cases atI with
  | infinity s =>
    cases atJ with
    | infinity t => cases s <;> cases t <;> rfl
    | zero t => cases s <;> rfl
    | finite t n f positive below low high normal =>
      cases s
      · exact before (by cases t <;> simp only [Sign.apply] <;> omega)
      · exact behind (by cases t <;> simp only [Sign.apply] <;> omega)
  | zero s =>
    cases atJ with
    | infinity t => cases t <;> rfl
    | zero t => rfl
    | finite t n f positive below low high normal =>
      cases t
      · exact behind (by simp only [Sign.apply]; omega)
      · exact before (by simp only [Sign.apply]; omega)
  | finite s m e mPositive mBelow eLow eHigh mNormal =>
    cases atJ with
    | infinity t =>
      cases t
      · exact behind (by cases s <;> simp only [Sign.apply] <;> omega)
      · exact before (by cases s <;> simp only [Sign.apply] <;> omega)
    | zero t =>
      cases s
      · exact before (by simp only [Sign.apply]; omega)
      · exact behind (by simp only [Sign.apply]; omega)
    | finite t n f nPositive nBelow fLow fHigh nNormal =>
      have magnitudes := compare_magnitudes mBelow nBelow eLow fLow mNormal nNormal
      cases s <;> cases t
      · simp only [UnpackedFloat.compare, magnitudes, Int.compare_swap, Sign.apply,
          compare_neg_neg]
      · exact before (by simp only [Sign.apply]; omega)
      · exact behind (by simp only [Sign.apply]; omega)
      · exact congrArg some magnitudes

/-- Two defined doubles compare as their places do. -/
theorem compare_unpack {x y : Float} (xDefined : x.isNaN = false) (yDefined : y.isNaN = false) :
    x.toModel.unpack.compare y.toModel.unpack = some (Ord.compare (linePlace x) (linePlace y)) :=
  (located_unpack xDefined).compare (located_unpack yDefined)

theorem compare_unpack_of_isNaN {x y : Float} (undefined : ¬(x.isNaN = false ∧ y.isNaN = false)) :
    x.toModel.unpack.compare y.toModel.unpack = none := by
  change ¬(x.toModel.unpack.isNaN = false ∧ y.toModel.unpack.isNaN = false) at undefined
  generalize x.toModel.unpack = u at *
  generalize y.toModel.unpack = v at *
  cases u with
  | notANumber => rfl
  | _ =>
    cases v with
    | notANumber => rfl
    | _ => exact absurd ⟨rfl, rfl⟩ undefined

theorem le_iff_linePlace {x y : Float} :
    x ≤ y ↔ x.isNaN = false ∧ y.isNaN = false ∧ linePlace x ≤ linePlace y := by
  change decide ((x.toModel.unpack.compare y.toModel.unpack).any (·.isLE) = true) = true ↔ _
  by_cases defined : x.isNaN = false ∧ y.isNaN = false
  · rw [compare_unpack defined.1 defined.2]
    simp only [Option.any_some, Int.isLE_compare, defined.1, defined.2, decide_eq_true_eq, true_and]
  · rw [compare_unpack_of_isNaN defined]
    simp only [Option.any_none, Bool.false_eq_true, decide_false, false_iff]
    exact fun le => defined ⟨le.1, le.2.1⟩

theorem lt_iff_linePlace {x y : Float} :
    x < y ↔ x.isNaN = false ∧ y.isNaN = false ∧ linePlace x < linePlace y := by
  change decide ((x.toModel.unpack.compare y.toModel.unpack == some .lt) = true) = true ↔ _
  by_cases defined : x.isNaN = false ∧ y.isNaN = false
  · rw [compare_unpack defined.1 defined.2]
    simp only [beq_iff_eq, Option.some.injEq, Int.compare_eq_lt, defined.1, defined.2, decide_eq_true_eq,
      true_and]
  · rw [compare_unpack_of_isNaN defined]
    simp only [beq_iff_eq, reduceCtorEq, decide_false, Bool.false_eq_true, false_iff]
    exact fun less => defined ⟨less.1, less.2.1⟩

theorem double_beq_iff {x y : Float} :
    (x == y) = true ↔ x.isNaN = false ∧ y.isNaN = false ∧ linePlace x = linePlace y := by
  change (x.toModel.unpack.compare y.toModel.unpack == some .eq) = true ↔ _
  by_cases defined : x.isNaN = false ∧ y.isNaN = false
  · rw [compare_unpack defined.1 defined.2]
    simp only [beq_iff_eq, Option.some.injEq, Int.compare_eq_eq, defined.1, defined.2, true_and]
  · rw [compare_unpack_of_isNaN defined]
    simp only [beq_iff_eq, reduceCtorEq, false_iff]
    exact fun same => defined ⟨same.1, same.2.1⟩

theorem double_le_refl {x : Float} (defined : x.isNaN = false) : x ≤ x :=
  le_iff_linePlace.mpr ⟨defined, defined, le_rfl⟩

theorem double_le_trans {x y z : Float} (first : x ≤ y) (second : y ≤ z) : x ≤ z := by
  rw [le_iff_linePlace] at *
  exact ⟨first.1, second.2.1, by omega⟩

theorem double_le_of_lt {x y : Float} (less : x < y) : x ≤ y := by
  rw [lt_iff_linePlace] at less
  exact le_iff_linePlace.mpr ⟨less.1, less.2.1, less.2.2.le⟩

theorem double_lt_of_lt_of_le {x y z : Float} (first : x < y) (second : y ≤ z) : x < z := by
  rw [lt_iff_linePlace] at *
  rw [le_iff_linePlace] at second
  exact ⟨first.1, second.2.1, by omega⟩

theorem double_not_lt_of_le {x y : Float} (le : x ≤ y) : ¬y < x := by
  have above := (le_iff_linePlace.mp le).2.2
  intro less
  have below := (lt_iff_linePlace.mp less).2.2
  omega

theorem not_lt_self (x : Float) : ¬x < x := fun less => lt_irrefl _ (lt_iff_linePlace.mp less).2.2

theorem double_lt_of_not_le {x y : Float} (xDefined : x.isNaN = false) (yDefined : y.isNaN = false)
    (notLe : ¬y ≤ x) : x < y := by
  rw [le_iff_linePlace] at notLe
  refine lt_iff_linePlace.mpr ⟨xDefined, yDefined, Int.not_le.mp ?_⟩
  exact fun le => notLe ⟨yDefined, xDefined, le⟩

theorem double_le_of_not_lt {x y : Float} (xDefined : x.isNaN = false) (yDefined : y.isNaN = false)
    (notLess : ¬x < y) : y ≤ x := by
  rw [lt_iff_linePlace] at notLess
  refine le_iff_linePlace.mpr ⟨yDefined, xDefined, Int.not_lt.mp ?_⟩
  exact fun less => notLess ⟨xDefined, yDefined, less⟩

/-- The total order tells all doubles apart, the two zeros as well. -/
theorem totalRank_injective : Function.Injective totalRank := by
  intro x y same
  refine Float.toBits_inj.mp (UInt64.toNat_inj.mp ?_)
  simp only [totalRank, Nat.shiftLeft_eq] at same
  split at same <;> split at same <;> omega

/-- There is one undefined double, and it ranks beyond the infinities. -/
theorem totalRank_of_isNaN {x : Float} (undefined : x.isNaN = true) : totalRank x = 2047 * 2 ^ 52 + 2 ^ 51 := by
  rw [Float.isNaN_eq_decide_eq_nan, decide_eq_true_eq] at undefined
  rw [undefined]
  decide

theorem totalRank_le_of_defined {x : Float} (defined : x.isNaN = false) : totalRank x ≤ 2047 * 2 ^ 52 := by
  have place := (linePlace_bounds defined).2
  simp only [totalRank, linePlace, Nat.shiftLeft_eq] at place ⊢
  split_ifs at place ⊢ <;> omega

theorem linePlace_le_of_totalRank_le {x y : Float} (le : totalRank x ≤ totalRank y) : linePlace x ≤ linePlace y := by
  simp only [totalRank, linePlace, Nat.shiftLeft_eq] at le ⊢
  split_ifs at le ⊢ <;> omega

theorem totalRank_lt_of_lt {x y : Float} (less : x < y) : totalRank x < totalRank y := by
  have places := (lt_iff_linePlace.mp less).2.2
  exact Int.not_le.mp fun le => absurd (linePlace_le_of_totalRank_le le) (Int.not_le.mpr places)

/-- The two zeros are the only equal numbers that are apart in the total order. -/
theorem zeros_of_totalRank_lt {x y : Float} (le : x ≤ y) (apart : totalRank y < totalRank x) :
    x = 0.0 ∧ y = -0.0 := by
  have order := (le_iff_linePlace.mp le).2.2
  have plus : (0.0 : Float).toBits.toNat = 0 := by decide
  have minus : (-0.0 : Float).toBits.toNat = 2 ^ 63 := by decide
  simp only [totalRank, linePlace, Nat.shiftLeft_eq] at order apart
  refine ⟨Float.toBits_inj.mp (UInt64.toNat_inj.mp ?_), Float.toBits_inj.mp (UInt64.toNat_inj.mp ?_)⟩
  · split_ifs at order apart <;> omega
  · split_ifs at order apart <;> omega

/-- The total order is the one of the number line, with minus zero below zero and whatever is undefined at the end. -/
theorem totalRank_le_iff {x y : Float} :
    totalRank x ≤ totalRank y ↔ y.isNaN = true ∨ x ≤ y ∧ ¬(x = 0.0 ∧ y = -0.0) := by
  cases yUndefined : y.isNaN with
  | true =>
    refine iff_of_true ?_ (Or.inl rfl)
    rw [totalRank_of_isNaN yUndefined]
    cases xUndefined : x.isNaN with
    | true => exact (totalRank_of_isNaN xUndefined).le
    | false => exact (totalRank_le_of_defined xUndefined).trans (by decide)
  | false =>
    rw [or_iff_right Bool.false_ne_true]
    constructor
    · intro le
      have xDefined : x.isNaN = false := by
        refine Bool.eq_false_iff.mpr fun xUndefined => ?_
        have top := totalRank_of_isNaN xUndefined
        have below := totalRank_le_of_defined yUndefined
        omega
      refine ⟨le_iff_linePlace.mpr ⟨xDefined, yUndefined, linePlace_le_of_totalRank_le le⟩, ?_⟩
      rintro ⟨rfl, rfl⟩
      exact absurd le (by decide)
    · rintro ⟨le, notZeros⟩
      exact Int.not_lt.mp fun apart => notZeros (zeros_of_totalRank_lt le apart)

end SignalDesk
