import SignalDesk.Proofs.RoundedDouble

namespace SignalDesk

open Float.Model Float.Model.UnpackedFloat LinePlace

theorem signed_apply (s : Sign) (m : Nat) (q : ℚ) : ((s.apply m : Int) : ℚ) * q = signed s (m * q) := by
  cases s <;> simp [Sign.apply, signed]

/-- Lowering the exponent keeps the number. -/
theorem decreaseExponent_value {m : Nat} {e target : Int} (lower : target ≤ e) :
    ((decreaseExponent m e target).1 : ℚ) * 2 ^ target = m * 2 ^ e := by
  obtain ⟨d, rfl⟩ : ∃ d : Nat, e = target + d := ⟨(e - target).toNat, by omega⟩
  have shift : (target + d - target).toNat = d := by omega
  simp only [decreaseExponent, shift, Nat.shiftLeft_eq]
  rw [zpow_add₀ two_ne_zero, zpow_natCast]
  push_cast
  ring

theorem round_settled (s : Sign) {m : Nat} (positive : 0 < m) (e : Int) :
    Settled (UnpackedFloat.round .binary64 s m e) (signed s (m * 2 ^ e)) := by
  obtain ⟨d, shift⟩ : ∃ d, (e - Format.binary64.targetExponent (totalExponent m e)).toNat = d := ⟨_, rfl⟩
  have rounding : UnpackedFloat.round .binary64 s m e =
      roundWithAccuracy .binary64 s (m <<< d) (e - d) .exact := by
    rw [← shift]
    rfl
  rw [targetExponent_eq] at shift
  have value : (m : ℚ) * 2 ^ e = (m <<< d : Nat) * 2 ^ (e - d) := by
    rw [Nat.shiftLeft_eq, zpow_sub₀ two_ne_zero, zpow_natCast]
    push_cast
    field_simp
  have fine : 2 ^ 52 ≤ m <<< d ∨ e - d ≤ -1074 := by
    by_cases lowest : e - d ≤ -1074
    · exact Or.inr lowest
    · have filled : 52 ≤ m.log2 + d := by omega
      have leading := Nat.mul_le_mul_right (2 ^ d) (Nat.log2_self_le positive.ne')
      rw [← Nat.pow_add] at leading
      rw [Nat.shiftLeft_eq]
      exact Or.inl ((Nat.pow_le_pow_right Nat.two_pos filled).trans leading)
  obtain ⟨place, near, aligned⟩ := roundWithAccuracy_aligned s (.exact _) fine
  rw [rounding, value]
  exact ⟨s, _, place, by positivity, rfl, near, aligned⟩

theorem normalize_settled (m e : Int) : Settled (UnpackedFloat.normalize .binary64 m e .positive) (m * 2 ^ e) := by
  unfold UnpackedFloat.normalize
  rcases lt_trichotomy m 0 with negative | rfl | positive
  · rw [Int.compare_eq_lt.mpr negative]
    have settled := round_settled .negative (m := (-m).toNat) (by omega) e
    rw [← signed_apply] at settled
    simpa [Sign.apply, Int.toNat_of_nonneg (by omega : 0 ≤ -m)] using settled
  · simpa [unpackedValue] using (Aligned.zero .positive).settled
  · rw [Int.compare_eq_gt.mpr positive]
    have settled := round_settled .positive (m := m.toNat) (by omega) e
    rw [← signed_apply] at settled
    simpa [Sign.apply, Int.toNat_of_nonneg positive.le] using settled

theorem add_settled {a b : UnpackedFloat} {s t : Sign} {i j : Nat} (first : Aligned a s i)
    (second : Aligned b t j) :
    Settled (UnpackedFloat.add .binary64 a b) (unpackedValue a + unpackedValue b) := by
  cases a with
  | infinity | notANumber => cases first
  | zero s =>
    cases b with
    | infinity | notANumber => cases second
    | zero t =>
      have sum : (0 : ℚ) + 0 = 0 := add_zero 0
      simp only [UnpackedFloat.add, unpackedValue, sum]
      split
      · exact (Aligned.zero _).settled
      · exact (Aligned.zero _).settled
    | finite t n f positive =>
      rw [show unpackedValue (.zero s) = 0 from rfl, zero_add]
      exact second.settled
  | finite s m e positive =>
    cases b with
    | infinity | notANumber => cases second
    | zero t =>
      rw [show unpackedValue (.zero t) = 0 from rfl, add_zero]
      exact first.settled
    | finite t n f otherPositive =>
      have settled := normalize_settled (s.apply (decreaseExponent m e (min e f)).1 +
        t.apply (decreaseExponent n f (min e f)).1) (min e f)
      rw [Int.cast_add, add_mul, signed_apply, signed_apply, decreaseExponent_value (min_le_left e f),
        decreaseExponent_value (min_le_right e f)] at settled
      exact settled

theorem neg_aligned {u : UnpackedFloat} {s : Sign} {place : Nat} (aligned : Aligned u s place) :
    Aligned u.neg (-s) place := by
  cases aligned with
  | zero => exact .zero _
  | finite _ m e positive _ below normal low value => exact .finite _ _ _ _ _ below normal low value

theorem signed_neg (s : Sign) (q : ℚ) : signed (-s) q = -signed s q := by
  cases s
  · exact (neg_neg q).symm
  · rfl

theorem unpackedValue_neg (u : UnpackedFloat) : unpackedValue u.neg = -unpackedValue u := by
  cases u with
  | finite s m e positive => exact signed_neg s _
  | _ => exact neg_zero.symm

/-- A difference is a sum with the opposite. -/
theorem sub_eq_add_opposite (a b : UnpackedFloat) :
    UnpackedFloat.sub .binary64 a b = UnpackedFloat.add .binary64 a b.neg := by
  cases a <;> cases b <;> try rfl
  rename_i s m e positive t n f otherPositive
  have opposite (k : Int) : (-t).apply k = -t.apply k := by
    cases t
    · exact (neg_neg k).symm
    · rfl
  simp only [UnpackedFloat.sub, UnpackedFloat.add, UnpackedFloat.neg, opposite, sub_eq_add_neg]

theorem signed_mul (s t : Sign) (p q : ℚ) : signed (s * t) (p * q) = signed s p * signed t q := by
  cases s <;> cases t
  · exact (neg_mul_neg p q).symm
  · exact (neg_mul p q).symm
  · exact (mul_neg p q).symm
  · rfl

theorem signed_div (s t : Sign) (p q : ℚ) : signed (s / t) (p / q) = signed s p / signed t q := by
  cases s <;> cases t
  · exact (neg_div_neg_eq p q).symm
  · exact (neg_div q p).symm
  · exact (div_neg p).symm
  · rfl

/-- A product is rounded once, as long as it has all the bits of a mantissa or the least exponent. -/
theorem mul_finite_settled (s t : Sign) {m n : Nat} (positive : 0 < m) (otherPositive : 0 < n) {e f : Int}
    (fine : 2 ^ 52 ≤ m * n ∨ e + f ≤ -1074) :
    Settled (UnpackedFloat.mul .binary64 (.finite s m e positive) (.finite t n f otherPositive))
      (signed s (m * 2 ^ e) * signed t (n * 2 ^ f)) := by
  obtain ⟨place, near, aligned⟩ := roundWithAccuracy_aligned (s * t) (.exact (m * n)) fine
  refine ⟨s * t, _, place, by positivity, ?_, near, aligned⟩
  rw [← signed_mul, zpow_add₀ two_ne_zero]
  congr 1
  push_cast
  ring

theorem mul_settled {a b : UnpackedFloat} {s t : Sign} {i j : Nat} (first : Aligned a s i)
    (second : Aligned b t j) :
    Settled (UnpackedFloat.mul .binary64 a b) (unpackedValue a * unpackedValue b) := by
  cases first with
  | zero =>
    rw [show unpackedValue (.zero s) = 0 from rfl, zero_mul]
    cases second with
    | zero => exact (Aligned.zero _).settled
    | finite => exact (Aligned.zero _).settled
  | finite _ m e positive _ below normal low =>
    cases second with
    | zero =>
      rw [show unpackedValue (.zero t) = 0 from rfl, mul_zero]
      exact (Aligned.zero _).settled
    | finite _ n f otherPositive _ otherBelow otherNormal otherLow =>
      have fine : 2 ^ 52 ≤ m * n ∨ e + f ≤ -1074 := by
        rcases normal with lowest | large
        · rcases otherNormal with otherLowest | otherLarge
          · exact Or.inr (by omega)
          · exact Or.inl (otherLarge.trans (Nat.le_mul_of_pos_left n positive))
        · exact Or.inl (large.trans (Nat.le_mul_of_pos_right m otherPositive))
      exact mul_finite_settled s t positive otherPositive fine

/-- The rest of a division tells where the quotient lies. -/
theorem Holds.quotient (m : Nat) {n : Nat} (positive : 0 < n) :
    Holds (.ofMantissaAndAccuracy (m / n) (accuracyOfFraction (m % n) n)) (m / n) := by
  have divisor : (0 : ℚ) < n := Nat.cast_pos.mpr positive
  have rest : (m % n : Nat) < (n : ℚ) := Nat.cast_lt.mpr (Nat.mod_lt m positive)
  have quotient : (m : ℚ) / n = (m / n : Nat) + (m % n : Nat) / n := by
    rw [div_eq_iff divisor.ne', add_mul, div_mul_cancel₀ _ divisor.ne']
    exact_mod_cast (Nat.div_add_mod' m n).symm
  rw [quotient]
  generalize m / n = q
  generalize m % n = r at *
  unfold accuracyOfFraction
  split
  · rename_i none
    rw [none, Nat.cast_zero, zero_div, add_zero]
    exact .exact q
  · rename_i some
    have above : (0 : ℚ) < r / n := div_pos (Nat.cast_pos.mpr (Nat.pos_of_ne_zero some)) divisor
    have below : (r : ℚ) / n < 1 := (div_lt_one divisor).mpr rest
    rcases Nat.lt_trichotomy (2 * r) n with less | half | more
    · rw [Nat.compare_eq_lt.mpr less]
      have lower : (r : ℚ) / n < 1 / 2 := by
        rw [div_lt_div_iff₀ divisor two_pos]
        exact_mod_cast (by omega : r * 2 < 1 * n)
      exact .below (by linarith) (by linarith)
    · rw [Nat.compare_eq_eq.mpr half]
      have equal : (r : ℚ) / n = 1 / 2 := by
        rw [div_eq_div_iff divisor.ne' two_ne_zero]
        exact_mod_cast (by omega : r * 2 = 1 * n)
      exact .half (congrArg _ equal)
    · rw [Nat.compare_eq_gt.mpr more]
      have higher : (1 : ℚ) / 2 < r / n := by
        rw [div_lt_div_iff₀ two_pos divisor]
        exact_mod_cast (by omega : 1 * n < r * 2)
      exact .above (by linarith) (by linarith)

/-- A quotient is computed to enough bits, whatever the operands. -/
theorem div_finite_settled (s t : Sign) {m n : Nat} (positive : 0 < m) (otherPositive : 0 < n) (e f : Int) :
    Settled (UnpackedFloat.div .binary64 (.finite s m e positive) (.finite t n f otherPositive))
      (signed s (m * 2 ^ e) / signed t (n * 2 ^ f)) := by
  obtain ⟨target, isTarget⟩ : ∃ target, min (e - f)
    (Format.binary64.targetExponent (totalExponent m e - totalExponent n f)) = target := ⟨_, rfl⟩
  obtain ⟨d, shift⟩ : ∃ d, (e - f - target).toNat = d := ⟨_, rfl⟩
  have dividing : UnpackedFloat.div .binary64 (.finite s m e positive) (.finite t n f otherPositive) =
      roundWithAccuracy .binary64 (s / t) ((m <<< d) / n) target (accuracyOfFraction ((m <<< d) % n) n) := by
    rw [← shift, ← isTarget]
    rfl
  change min (e - f) (max ((m.log2 : Int) + 1 + e - (n.log2 + 1 + f) - 53) (-1074)) = target at isTarget
  have fine : 2 ^ 52 ≤ (m <<< d) / n ∨ target ≤ -1074 := by
    by_cases lowest : target ≤ -1074
    · exact Or.inr lowest
    · have filled : 52 + (n.log2 + 1) ≤ m.log2 + d := by omega
      have leading := Nat.mul_le_mul_right (2 ^ d) (Nat.log2_self_le positive.ne')
      have divisorBelow : 2 ^ 52 * n ≤ 2 ^ 52 * 2 ^ (n.log2 + 1) :=
        Nat.mul_le_mul_left _ Nat.lt_log2_self.le
      rw [← Nat.pow_add] at leading divisorBelow
      rw [Nat.le_div_iff_mul_le otherPositive, Nat.shiftLeft_eq]
      exact Or.inl (divisorBelow.trans ((Nat.pow_le_pow_right Nat.two_pos filled).trans leading))
  obtain ⟨place, near, aligned⟩ := roundWithAccuracy_aligned (s / t) (Holds.quotient (m <<< d) otherPositive) fine
  rw [dividing]
  refine ⟨s / t, _, place, by positivity, ?_, near, aligned⟩
  rw [← signed_div]
  congr 1
  have split : e = target + d + f := by omega
  rw [split, zpow_add₀ two_ne_zero, zpow_add₀ two_ne_zero, zpow_natCast, Nat.shiftLeft_eq]
  have divisor : (n : ℚ) ≠ 0 := Nat.cast_ne_zero.mpr otherPositive.ne'
  have power : (2 : ℚ) ^ f ≠ 0 := zpow_ne_zero f two_ne_zero
  push_cast
  field_simp

theorem div_settled {a b : UnpackedFloat} {s t : Sign} {i j : Nat} (first : Aligned a s i)
    (second : Aligned b t j) (divisor : 0 < j) :
    Settled (UnpackedFloat.div .binary64 a b) (unpackedValue a / unpackedValue b) := by
  cases second with
  | zero => omega
  | finite _ n f otherPositive _ otherBelow otherNormal otherLow =>
    cases first with
    | zero =>
      rw [show unpackedValue (.zero s) = 0 from rfl, zero_div]
      exact (Aligned.zero _).settled
    | finite _ m e positive _ below normal low => exact div_finite_settled s t positive otherPositive e f

/-- The residual bits of a root tell on which side of the middle the root lies: it is never the middle itself. -/
theorem Holds.root (m : Nat) : ∃ q : ℚ, 0 ≤ q ∧ Holds (.ofMantissaAndAccuracy m.sqrt
    (if m - m.sqrt * m.sqrt = 0 then .exact
      else .inexact (if m - m.sqrt * m.sqrt ≤ m.sqrt then .lt else .gt))) q := by
  generalize m.sqrt = root
  have nonneg : (0 : ℚ) ≤ root := Nat.cast_nonneg _
  split
  · exact ⟨root, nonneg, .exact root⟩
  split
  · exact ⟨root + 1 / 4, by linarith, .below (by linarith) (by linarith)⟩
  · exact ⟨root + 3 / 4, by linarith, .above (by linarith) (by linarith)⟩

/-- A root is computed to enough bits, whatever the operand. It may be irrational; the number has the same bits. -/
theorem sqrt_finite_settled {m : Nat} (positive : 0 < m) (e : Int) :
    ∃ q : ℚ, 0 ≤ q ∧ Settled (UnpackedFloat.sqrt .binary64 (.finite .positive m e positive)) q := by
  obtain ⟨target, isTarget⟩ : ∃ target, min (e.ediv 2)
    (Format.binary64.targetExponent ((totalExponent m e + 1).ediv 2)) = target := ⟨_, rfl⟩
  obtain ⟨d, shift⟩ : ∃ d, (e - 2 * target).toNat = d := ⟨_, rfl⟩
  have rooting : UnpackedFloat.sqrt .binary64 (.finite .positive m e positive) =
      roundWithAccuracy .binary64 .positive (m <<< d).sqrt target
        (if (m <<< d) - (m <<< d).sqrt * (m <<< d).sqrt = 0 then .exact
          else .inexact (if (m <<< d) - (m <<< d).sqrt * (m <<< d).sqrt ≤ (m <<< d).sqrt then .lt else .gt)) := by
    rw [← shift, ← isTarget]
    rfl
  change min (e / 2) (max (((m.log2 : Int) + 1 + e + 1) / 2 - 53) (-1074)) = target at isTarget
  have fine : 2 ^ 52 ≤ (m <<< d).sqrt ∨ target ≤ -1074 := by
    by_cases lowest : target ≤ -1074
    · exact Or.inr lowest
    · have filled : 104 ≤ m.log2 + d := by omega
      have leading := Nat.mul_le_mul_right (2 ^ d) (Nat.log2_self_le positive.ne')
      rw [← Nat.pow_add] at leading
      rw [Nat.le_sqrt, ← Nat.pow_add, Nat.shiftLeft_eq]
      exact Or.inl ((Nat.pow_le_pow_right Nat.two_pos filled).trans leading)
  obtain ⟨q, nonneg, holds⟩ := Holds.root (m <<< d)
  obtain ⟨place, near, aligned⟩ := roundWithAccuracy_aligned .positive holds fine
  rw [rooting]
  have power : (0 : ℚ) ≤ q * 2 ^ target := by positivity
  exact ⟨q * 2 ^ target, power, .positive, _, place, power, rfl, near, aligned⟩

section Rounded

variable {x y : Float}

theorem rounds_add (xFinite : x.isFinite = true) (yFinite : y.isFinite = true) :
    Rounds (exactValue x + exactValue y) (x + y) := by
  obtain ⟨s, i, first, -⟩ := aligned_unpack xFinite
  obtain ⟨t, j, second, -⟩ := aligned_unpack yFinite
  rw [exactValue_eq_unpackedValue xFinite, exactValue_eq_unpackedValue yFinite]
  exact (add_settled first second).rounds

theorem rounds_sub (xFinite : x.isFinite = true) (yFinite : y.isFinite = true) :
    Rounds (exactValue x - exactValue y) (x - y) := by
  obtain ⟨s, i, first, -⟩ := aligned_unpack xFinite
  obtain ⟨t, j, second, -⟩ := aligned_unpack yFinite
  have settled := add_settled first (neg_aligned second)
  rw [← sub_eq_add_opposite, unpackedValue_neg, ← sub_eq_add_neg] at settled
  rw [exactValue_eq_unpackedValue xFinite, exactValue_eq_unpackedValue yFinite]
  exact settled.rounds

theorem rounds_mul (xFinite : x.isFinite = true) (yFinite : y.isFinite = true) :
    Rounds (exactValue x * exactValue y) (x * y) := by
  obtain ⟨s, i, first, -⟩ := aligned_unpack xFinite
  obtain ⟨t, j, second, -⟩ := aligned_unpack yFinite
  rw [exactValue_eq_unpackedValue xFinite, exactValue_eq_unpackedValue yFinite]
  exact (mul_settled first second).rounds

theorem rounds_div (xFinite : x.isFinite = true) (yFinite : y.isFinite = true) (divisor : exactValue y ≠ 0) :
    Rounds (exactValue x / exactValue y) (x / y) := by
  obtain ⟨s, i, first, -⟩ := aligned_unpack xFinite
  obtain ⟨t, j, second, value, -⟩ := aligned_unpack yFinite
  have positive : 0 < j := by
    refine Nat.pos_of_ne_zero fun zero => divisor ?_
    rw [exactValue, value, zero, placeValue_apply, sizeAt_zero]
    cases t <;> simp [signed]
  rw [exactValue_eq_unpackedValue xFinite, exactValue_eq_unpackedValue yFinite]
  exact (div_settled first second positive).rounds

theorem rounds_neg (xFinite : x.isFinite = true) : Rounds (-exactValue x) (-x) := by
  obtain ⟨s, i, aligned, -⟩ := aligned_unpack xFinite
  rw [exactValue_eq_unpackedValue xFinite, ← unpackedValue_neg]
  exact (neg_aligned aligned).settled.rounds

/-- An operation that keeps what is undefined is defined on defined operands only. -/
theorem operands_defined {f : UnpackedFloat → UnpackedFloat → UnpackedFloat} {z : Float}
    (left : ∀ u, f .notANumber u = .notANumber) (right : ∀ u, f u .notANumber = .notANumber)
    (opened : z = .ofModel (.pack (f x.toModel.unpack y.toModel.unpack))) (defined : z.isNaN = false) :
    x.isNaN = false ∧ y.isNaN = false := by
  have known := defined_of_unpack opened defined
  change x.toModel.unpack.isNaN = false ∧ y.toModel.unpack.isNaN = false
  generalize x.toModel.unpack = u at known ⊢
  generalize y.toModel.unpack = v at known ⊢
  constructor
  · cases u with
    | notANumber => exact absurd (left v) known
    | _ => rfl
  · cases v with
    | notANumber => exact absurd (right u) known
    | _ => rfl

theorem defined_of_add (defined : (x + y).isNaN = false) : x.isNaN = false ∧ y.isNaN = false :=
  operands_defined (fun _ => rfl) (fun u => by cases u <;> rfl) (f := UnpackedFloat.add .binary64) rfl defined

theorem defined_of_sub (defined : (x - y).isNaN = false) : x.isNaN = false ∧ y.isNaN = false :=
  operands_defined (fun _ => rfl) (fun u => by cases u <;> rfl) (f := UnpackedFloat.sub .binary64) rfl defined

theorem defined_of_mul (defined : (x * y).isNaN = false) : x.isNaN = false ∧ y.isNaN = false :=
  operands_defined (fun _ => rfl) (fun u => by cases u <;> rfl) (f := UnpackedFloat.mul .binary64) rfl defined

theorem defined_of_div (defined : (x / y).isNaN = false) : x.isNaN = false ∧ y.isNaN = false :=
  operands_defined (fun _ => rfl) (fun u => by cases u <;> rfl) (f := UnpackedFloat.div .binary64) rfl defined

end Rounded

/-- One of the two zeros. -/
structure IsZero (x : Float) : Prop where
  defined : x.isNaN = false
  place : linePlace x = 0

namespace IsZero

variable {x y : Float}

theorem literal : IsZero 0.0 := ⟨by decide, by decide⟩

theorem of_rounds (rounds : Rounds 0 x) : IsZero x :=
  ⟨rounds.defined, rounds.nearest.eq (Nat.zero_le _) sizeAt_zero.symm⟩

theorem isFinite (zero : IsZero x) : x.isFinite = true :=
  isFinite_of_linePlace zero.defined (by rw [zero.place]; decide) (by rw [zero.place]; decide)

theorem exactValue_eq (zero : IsZero x) : exactValue x = 0 := by
  rw [exactValue, zero.place]
  exact sizeAt_zero

theorem nonneg (zero : IsZero x) : 0.0 ≤ x :=
  le_iff_linePlace.mpr ⟨by decide, zero.defined, by rw [literal.place, zero.place]⟩

theorem unpack (zero : IsZero x) : ∃ s, x.toModel.unpack = .zero s := by
  have located := located_unpack zero.defined
  rw [zero.place] at located
  generalize x.toModel.unpack = u at *
  generalize isZero : (0 : Int) = i at *
  cases located with
  | zero s => exact ⟨s, rfl⟩
  | infinity s => cases s <;> cases isZero
  | finite s m e positive below low high normal =>
    cases s <;> simp only [Float.Model.UnpackedFloat.Sign.apply] at isZero <;> omega

theorem sub_same (finite : x.isFinite = true) : IsZero (x - x) := by
  have rounds := rounds_sub finite finite
  rw [sub_self] at rounds
  exact .of_rounds rounds

theorem neg (zero : IsZero x) : IsZero (-x) := by
  have rounds := rounds_neg zero.isFinite
  rw [zero.exactValue_eq, neg_zero] at rounds
  exact .of_rounds rounds

theorem add (zero : IsZero x) (otherZero : IsZero y) : IsZero (x + y) := by
  have rounds := rounds_add zero.isFinite otherZero.isFinite
  rw [zero.exactValue_eq, otherZero.exactValue_eq, add_zero] at rounds
  exact .of_rounds rounds

theorem mul_right (zero : IsZero y) (finite : x.isFinite = true) : IsZero (x * y) := by
  have rounds := rounds_mul finite zero.isFinite
  rw [zero.exactValue_eq, mul_zero] at rounds
  exact .of_rounds rounds

theorem mul_left (zero : IsZero x) (finite : y.isFinite = true) : IsZero (x * y) := by
  have rounds := rounds_mul zero.isFinite finite
  rw [zero.exactValue_eq, zero_mul] at rounds
  exact .of_rounds rounds

theorem div (zero : IsZero x) (finite : y.isFinite = true) (divisor : exactValue y ≠ 0) : IsZero (x / y) := by
  have rounds := rounds_div zero.isFinite finite divisor
  rw [zero.exactValue_eq, zero_div] at rounds
  exact .of_rounds rounds

theorem not_lt (zero : IsZero x) (otherZero : IsZero y) : ¬x < y := by
  intro less
  have order := (lt_iff_linePlace.mp less).2.2
  rw [zero.place, otherZero.place] at order
  exact lt_irrefl _ order

end IsZero

theorem nonneg_iff_exactValue {x : Float} (defined : x.isNaN = false) : 0.0 ≤ x ↔ 0 ≤ exactValue x := by
  rw [exactValue_le_iff (by decide) defined, IsZero.literal.exactValue_eq]

theorem pos_iff_exactValue {x : Float} (defined : x.isNaN = false) : 0.0 < x ↔ 0 < exactValue x := by
  rw [← not_le, ← IsZero.literal.exactValue_eq, ← exactValue_le_iff defined (by decide)]
  exact ⟨fun less le => double_not_lt_of_le le less, double_lt_of_not_le (by decide) defined⟩

/-- A power of two times the least positive double. -/
def tickSize (k : Nat) : ℚ := 2 ^ k / unitSteps

theorem tickSize_pos (k : Nat) : 0 < tickSize k := div_pos (by positivity) unitSteps_pos

theorem tickSize_add (k j : Nat) : tickSize (k + j) = tickSize k * 2 ^ j := by
  rw [tickSize, pow_add, tickSize, div_mul_eq_mul_div]

theorem tickSize_whole : tickSize 1074 = 1 := by
  rw [tickSize, ← Nat.cast_ofNat (n := 2), ← Nat.cast_pow 2 1074, ← unitSteps, div_self unitSteps_pos.ne']

/-- A whole number of 53 bits times a power of two is a size on the number line. -/
theorem exists_sizeAt {n : Nat} (small : n < 2 ^ 53) (k : Nat) :
    ∃ place, place < (k + 2) * 2 ^ 52 ∧ sizeAt place = n * tickSize k := by
  by_cases zero : n = 0
  · exact ⟨0, by omega, by rw [sizeAt_zero, zero, Nat.cast_zero, zero_mul]⟩
  obtain ⟨d, isShift⟩ : ∃ d, min k (52 - n.log2) = d := ⟨_, rfl⟩
  have short := (Nat.log2_lt zero).mpr small
  have below : n * 2 ^ d < 2 ^ 53 := by
    calc n * 2 ^ d < 2 ^ (n.log2 + 1) * 2 ^ d := Nat.mul_lt_mul_of_pos_right Nat.lt_log2_self (Nat.two_pow_pos d)
      _ = 2 ^ (n.log2 + 1 + d) := (Nat.pow_add 2 _ _).symm
      _ ≤ 2 ^ 53 := Nat.pow_le_pow_right Nat.two_pos (by omega)
  have normal : k - d = 0 ∨ 2 ^ 52 ≤ n * 2 ^ d := by
    by_cases all : k ≤ 52 - n.log2
    · exact Or.inl (by omega)
    · right
      calc 2 ^ 52 = 2 ^ n.log2 * 2 ^ d := by rw [← Nat.pow_add]; congr 1; omega
        _ ≤ n * 2 ^ d := Nat.mul_le_mul_right _ (Nat.log2_self_le zero)
  refine ⟨(k - d) * 2 ^ 52 + n * 2 ^ d, by omega, ?_⟩
  rw [sizeAt, steps_scaled below.le normal, Nat.mul_assoc, ← Nat.pow_add, Nat.add_sub_cancel' (by omega),
    tickSize, ← mul_div_assoc]
  push_cast
  rfl

theorem exists_sizeAt_whole {n : Nat} (small : n < 2 ^ 53) (k : Nat) :
    ∃ place, place < (k + 1076) * 2 ^ 52 ∧ sizeAt place = n * 2 ^ k := by
  obtain ⟨place, below, size⟩ := exists_sizeAt small (k + 1074)
  exact ⟨place, below, by rw [size, Nat.add_comm, tickSize_add, tickSize_whole, one_mul]⟩

theorem ofNat_settled (n : Nat) : Settled (UnpackedFloat.ofNat .binary64 n) n := by
  have settled := normalize_settled n 0
  rw [zpow_zero, mul_one, Int.cast_natCast] at settled
  exact settled

/-- A whole number of 53 bits is a double. -/
theorem Rounds.whole {n : Nat} {x : Float} (rounds : Rounds n x) (small : n < 2 ^ 53) :
    x.isFinite = true ∧ exactValue x = n := by
  obtain ⟨place, below, size⟩ := exists_sizeAt_whole small 0
  have limit : infinityPlace = 2047 * 2 ^ 52 := rfl
  have value : (n : ℚ) = placeValue place := by
    change (n : ℚ) = sizeAt place
    rw [size, pow_zero, mul_one]
  have found := rounds.nearest.eq (by omega) value
  refine ⟨isFinite_of_linePlace rounds.defined (by omega) (by omega), ?_⟩
  rw [exactValue, found, value]

theorem exactValue_one : exactValue 1.0 = 1 := by
  have read : Rounds (1 : Nat) (1 : UInt64).toFloat := (ofNat_settled 1).rounds
  have same : (1 : UInt64).toFloat = 1.0 := by decide
  rw [← same, (read.whole (by decide)).2, Nat.cast_one]

theorem exactValue_two : exactValue 2.0 = 2 := by
  have read : Rounds (2 : Nat) (2 : UInt64).toFloat := (ofNat_settled 2).rounds
  have same : (2 : UInt64).toFloat = 2.0 := by decide
  rw [← same, (read.whole (by decide)).2]
  rfl

/-- The powers of ten up to the twenty-second are doubles. -/
theorem steps_powersOfTen : ∀ e : Fin 23,
    Float.exactlyRepresentablePowersOfTen[e].toBits.toNat < infinityPlace ∧
      steps Float.exactlyRepresentablePowersOfTen[e].toBits.toNat = 10 ^ e.val * unitSteps := by
  decide +kernel

theorem exactValue_powerOfTen {e : Nat} (small : e < Float.exactlyRepresentablePowersOfTen.size) :
    Float.exactlyRepresentablePowersOfTen[e].isFinite = true ∧
      exactValue Float.exactlyRepresentablePowersOfTen[e] = 10 ^ e := by
  obtain ⟨below, size⟩ := steps_powersOfTen ⟨e, small⟩
  change Float.exactlyRepresentablePowersOfTen[e].toBits.toNat < _ at below
  change steps Float.exactlyRepresentablePowersOfTen[e].toBits.toNat = _ at size
  have limit : infinityPlace = 2047 * 2 ^ 52 := rfl
  generalize Float.exactlyRepresentablePowersOfTen[e] = x at below size
  have place : linePlace x = x.toBits.toNat := by
    simp only [linePlace]
    rw [if_pos (by omega)]
  have defined : x.isNaN = false := isNaN_eq_false_of_word (by omega)
  refine ⟨isFinite_of_linePlace defined (by omega) (by omega), ?_⟩
  rw [exactValue, place]
  change sizeAt _ = _
  rw [sizeAt, size, Nat.cast_mul, mul_div_assoc, div_self unitSteps_pos.ne', mul_one]
  push_cast
  rfl

/-- Digits with a power of ten are rounded to the nearest double, as long as the power is in any range. -/
theorem ofScientific_settled (m : Nat) {e : Int} (high : e ≤ 2 ^ 11) (low : -(2 ^ 11 + m.log2) ≤ e) :
    Settled (UnpackedFloat.ofScientific .binary64 m e) (m * 10 ^ e) := by
  unfold UnpackedFloat.ofScientific
  split
  · rename_i none
    rw [none, Nat.cast_zero, zero_mul]
    exact (Aligned.zero .positive).settled
  · rename_i some
    have positive : 0 < m := Nat.pos_of_ne_zero some
    rw [if_neg (by change ¬e > 2 ^ 11; omega), if_neg (by change ¬e < -(2 ^ 11 + (m.log2 : Int)); omega)]
    split
    · rename_i whole
      obtain ⟨places, rfl⟩ := Int.eq_ofNat_of_zero_le whole
      have filled : 2 ^ 52 ≤ (m <<< 53) * 10 ^ places := by
        have digits := Nat.mul_le_mul_right (2 ^ 53) positive
        have power : 0 < 10 ^ places := by positivity
        rw [Nat.shiftLeft_eq]
        calc 2 ^ 52 ≤ m * 2 ^ 53 := by omega
          _ ≤ m * 2 ^ 53 * 10 ^ places := Nat.le_mul_of_pos_right _ power
      have product := mul_finite_settled .positive .positive (m := m <<< 53) (n := 10 ^ places)
        (by rw [Nat.shiftLeft_eq]; positivity) (by positivity) (e := -53) (f := 0) (Or.inl filled)
      have value : (m : ℚ) * (10 : ℚ) ^ (places : Int) = signed .positive ((m <<< 53 : Nat) * 2 ^ (-53 : Int)) *
          signed .positive ((10 ^ places : Nat) * 2 ^ (0 : Int)) := by
        rw [Nat.shiftLeft_eq, zpow_natCast, zpow_neg]
        simp only [signed]
        push_cast
        field_simp
      rw [value]
      exact product
    · rename_i negative
      obtain ⟨places, rfl⟩ : ∃ places : Nat, e = -places := ⟨e.natAbs, by omega⟩
      have quotient := div_finite_settled .positive .positive positive (n := 10 ^ places) (by positivity) 0 0
      have value : (m : ℚ) * (10 : ℚ) ^ (-places : Int) = signed .positive (m * 2 ^ (0 : Int)) /
          signed .positive ((10 ^ places : Nat) * 2 ^ (0 : Int)) := by
        rw [zpow_neg, zpow_natCast, zpow_zero, mul_one, mul_one, ← div_eq_mul_inv]
        simp only [signed]
        push_cast
        rfl
      rw [value]
      simp only [Int.neg_neg, Int.toNat_natCast]
      exact quotient

theorem rounds_ofScientific (m : Nat) {e : Int} (high : e ≤ 2 ^ 11) (low : -(2 ^ 11 + m.log2) ≤ e) :
    Rounds (m * 10 ^ e) (Float.ofScientific m (decide (e < 0)) e.natAbs) := by
  unfold Float.ofScientific
  split
  · rename_i fast
    have word : m.toUInt64.toNat = m := Nat.mod_eq_of_lt (by omega : m < 2 ^ 64)
    have read : Rounds (m.toUInt64.toNat : ℚ) m.toUInt64.toFloat := (ofNat_settled _).rounds
    rw [word] at read
    obtain ⟨finite, value⟩ := read.whole fast.1
    have inTable : e.natAbs < Float.exactlyRepresentablePowersOfTen.size := Nat.lt_succ_of_le fast.2
    obtain ⟨powerFinite, power⟩ := exactValue_powerOfTen inTable
    dsimp only
    generalize Float.exactlyRepresentablePowersOfTen[e.natAbs] = powerOfTen at powerFinite power ⊢
    by_cases negative : e < 0
    · have quotient := rounds_div finite powerFinite (by rw [power]; positivity)
      have scaled : (m : ℚ) * 10 ^ e = m / 10 ^ e.natAbs := by
        obtain ⟨places, rfl⟩ : ∃ places : Nat, e = -places := ⟨e.natAbs, by omega⟩
        rw [Int.natAbs_neg, Int.natAbs_natCast, zpow_neg, zpow_natCast, div_eq_mul_inv]
      rw [value, power, ← scaled] at quotient
      rwa [if_pos (decide_eq_true negative)]
    · have product := rounds_mul finite powerFinite
      have scaled : (m : ℚ) * 10 ^ e = m * 10 ^ e.natAbs := by
        rw [← zpow_natCast, Int.natAbs_of_nonneg (by omega)]
      rw [value, power, ← scaled] at product
      rwa [if_neg (by simpa using negative)]
  · have exponent : (if decide (e < 0) = true then Int.negOfNat e.natAbs else Int.ofNat e.natAbs) = e := by
      split_ifs with negative
      · have below := of_decide_eq_true negative
        rw [Int.negOfNat_eq]
        change -(e.natAbs : Int) = e
        omega
      · exact Int.natAbs_of_nonneg (by simpa using negative)
    simp only [exponent]
    exact (ofScientific_settled m high low).rounds

/-- A whole number is read as the nearest double, whatever its size. -/
theorem rounds_ofNat (n : Nat) : Rounds n (Float.ofNat n) := by
  have rounds := rounds_ofScientific n (e := 0) (by decide) (by omega)
  rw [zpow_zero, mul_one] at rounds
  exact rounds

/-- What is between zero and one stays there. -/
theorem Rounds.of_unit {q : ℚ} {x : Float} (rounds : Rounds q x) (low : 0 ≤ q) (high : q ≤ 1) :
    x.isFinite = true ∧ 0 ≤ exactValue x ∧ exactValue x ≤ 1 := by
  have one : exactValue 1.0 = placeValue (1023 * 2 ^ 52) := by
    rw [exactValue, show linePlace 1.0 = 1023 * 2 ^ 52 by decide]
  rw [exactValue_one] at one
  have above := rounds.nearest.le_of_placeValue_le (j := 0) (Nat.zero_le _) (sizeAt_zero.trans_le low)
  have below := rounds.nearest.le_of_le_placeValue (by decide) (high.trans_eq one)
  refine ⟨isFinite_of_linePlace rounds.defined (by omega) (by omega), ?_, ?_⟩
  · exact sizeAt_zero ▸ placeValue_strictMono.monotone above
  · exact one ▸ placeValue_strictMono.monotone below

/-- A positive number of 64 bits is read as a finite double from one on. -/
theorem ofNat_positive {n : Nat} (positive : 0 < n) (small : n < 2 ^ 64) :
    (Float.ofNat n).isFinite = true ∧ 1 ≤ exactValue (Float.ofNat n) := by
  have rounds := rounds_ofNat n
  have limit : infinityPlace = 2047 * 2 ^ 52 := rfl
  obtain ⟨one, oneBelow, oneSize⟩ := exists_sizeAt_whole (n := 1) (by decide) 0
  obtain ⟨top, topBelow, topSize⟩ := exists_sizeAt_whole (n := 1) (by decide) 64
  rw [Nat.cast_one, one_mul] at oneSize topSize
  rw [pow_zero] at oneSize
  have above := rounds.nearest.le_of_placeValue_le (j := one) (by omega)
    (oneSize.trans_le (by exact_mod_cast positive))
  have below := rounds.nearest.le_of_le_placeValue (j := top) (by omega)
    ((by exact_mod_cast small.le : (n : ℚ) ≤ 2 ^ 64).trans_eq topSize.symm)
  refine ⟨isFinite_of_linePlace rounds.defined (by omega) (by omega), ?_⟩
  exact oneSize.symm.trans_le (placeValue_strictMono.monotone above)

theorem zero_lt_ofNat {n : Nat} (positive : 0 < n) (small : n < 2 ^ 64) : 0.0 < Float.ofNat n := by
  obtain ⟨finite, large⟩ := ofNat_positive positive small
  exact (pos_iff_exactValue (isNaN_eq_false finite)).mpr (zero_lt_one.trans_le large)

end SignalDesk
