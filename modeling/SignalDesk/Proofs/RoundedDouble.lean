import SignalDesk.Proofs.DoubleRounding

namespace SignalDesk

open Float.Model Float.Model.UnpackedFloat LinePlace

/-- The place of the infinite double, behind the greatest finite one. -/
def infinityPlace : Nat := 2047 * 2 ^ 52

theorem toNat_packComponents (s : Sign) (exponent : BitVec 11) (mantissa : BitVec 52) :
    (packComponents .binary64 s exponent mantissa).toNat =
      s.toBitVec.toNat * 2 ^ 63 + (exponent.toNat * 2 ^ 52 + mantissa.toNat) := by
  have exponentBound := exponent.isLt
  have mantissaBound := mantissa.isLt
  rw [packComponents, BitVec.toNat_append, ← Nat.shiftLeft_add_eq_or_of_lt mantissaBound, BitVec.toNat_append,
    ← Nat.shiftLeft_add_eq_or_of_lt exponentBound, Nat.shiftLeft_eq, Nat.shiftLeft_eq]
  omega

/-- The word of a rounded double has its sign and its place. -/
theorem Aligned.toNat_pack {u : UnpackedFloat} {s : Sign} {place : Nat} (aligned : Aligned u s place) :
    (UnpackedFloat.pack .binary64 u).toNat = s.toBitVec.toNat * 2 ^ 63 + min place infinityPlace := by
  cases aligned with
  | zero =>
    rw [UnpackedFloat.pack, packedZero, toNat_packComponents]
    rfl
  | finite _ m e positive _ below normal low value =>
    have bias : (e + Format.binary64.exponentBias + Format.binary64.mantissaBitsWithoutImplicit).toNat =
        (e + 1075).toNat := by
      change (e + 1023 + 52).toNat = _
      omega
    have filled : m.log2 + 1 = Format.binary64.mantissaBits ↔ 2 ^ 52 ≤ m := by
      have short := (Nat.log2_lt positive.ne').mpr below
      have long := Nat.le_log2 positive.ne' (k := 52)
      change m.log2 + 1 = 53 ↔ _
      omega
    have limit : infinityPlace = 2047 * 2 ^ 52 := rfl
    simp only [UnpackedFloat.pack, bias, filled]
    split
    · rename_i large
      change 2048 ≤ _ at large
      rw [packedInfinity, toNat_packComponents]
      change _ + (2047 * 2 ^ 52 + 0) = _
      omega
    · rename_i small
      change ¬2048 ≤ _ at small
      split
      · rw [toNat_packComponents, BitVec.toNat_ofNat, BitVec.toNat_ofNat]
        omega
      · rw [toNat_packComponents, BitVec.toNat_ofNat]
        change _ + (0 * 2 ^ 52 + m % 2 ^ 52) = _
        omega

theorem isNaN_eq_false_of_word {x : Float} (bounded : x.toBits.toNat % 2 ^ 63 ≤ infinityPlace) :
    x.isNaN = false := by
  change (UnpackedFloat.unpack Format.binary64 x.toBits.toBitVec).isNaN = false
  have mantissa := toNat_unpackMantissa x.toBits.toBitVec
  have exponent := toNat_unpackExponent x.toBits.toBitVec
  change _ = x.toBits.toNat % 2 ^ 52 at mantissa
  change _ = x.toBits.toNat / 2 ^ 52 % 2 ^ 11 at exponent
  have limit : infinityPlace = 2047 * 2 ^ 52 := rfl
  unfold UnpackedFloat.unpack
  simp only
  split
  · rename_i top
    have full : x.toBits.toNat / 2 ^ 52 % 2 ^ 11 = 2047 := by rw [← exponent, top]; rfl
    have empty : @unpackMantissa Format.binary64 x.toBits.toBitVec = 0#52 := by
      apply BitVec.eq_of_toNat_eq
      rw [mantissa]
      change _ = 0
      omega
    rw [if_pos empty]
    rfl
  · split
    · split <;> rfl
    · rfl

theorem linePlace_of_word {x : Float} {s : Sign} {magnitude : Nat} (small : magnitude < 2 ^ 63)
    (word : x.toBits.toNat = s.toBitVec.toNat * 2 ^ 63 + magnitude) : linePlace x = s.apply magnitude := by
  cases s with
  | positive =>
    change _ = 0 * 2 ^ 63 + magnitude at word
    simp only [linePlace, word, Sign.apply]
    rw [if_pos (by omega)]
    omega
  | negative =>
    change _ = 1 * 2 ^ 63 + magnitude at word
    simp only [linePlace, word, Sign.apply]
    rw [if_neg (by omega)]
    omega

/-- A size with a sign. -/
def signed (s : Sign) (size : ℚ) : ℚ :=
  match s with
  | .negative => -size
  | .positive => size

/-- The size of the double at a place. -/
def sizeAt (place : Nat) : ℚ := steps place / unitSteps

theorem sizeAt_zero : sizeAt 0 = 0 := by
  rw [sizeAt, steps_zero, Nat.cast_zero, zero_div]

theorem sizeAt_strictMono : StrictMono sizeAt := by
  refine strictMono_nat_of_lt_succ fun place => ?_
  refine div_lt_div_of_pos_right (Nat.cast_lt.mpr ?_) unitSteps_pos
  have next := steps_succ place
  have gap := spacing_pos place
  omega

theorem sizeAt_nonneg (place : Nat) : 0 ≤ sizeAt place :=
  sizeAt_zero ▸ sizeAt_strictMono.monotone place.zero_le

theorem nearestTo_zero : NearestTo 0 0 := by
  rw [NearestTo, if_pos rfl, zero_mul]
  exact Nat.cast_nonneg _

/-- The size of a double rounds to itself. -/
theorem nearestTo_sizeAt (place : Nat) : NearestTo place (sizeAt place) := by
  rcases Nat.eq_zero_or_pos place with rfl | positive
  · exact sizeAt_zero ▸ nearestTo_zero
  · exact (roundsTo_steps positive (div_unitSteps_mul_halfSteps _)).nearestTo

/-- The number at a place of the number line. -/
def placeValue : Int → ℚ
  | .ofNat place => sizeAt place
  | .negSucc place => -sizeAt (place + 1)

theorem placeValue_apply (s : Sign) (place : Nat) : placeValue (s.apply place) = signed s (sizeAt place) := by
  cases s with
  | positive => rfl
  | negative =>
    cases place with
    | zero =>
      change sizeAt 0 = -sizeAt 0
      rw [sizeAt_zero, neg_zero]
    | succ place => rfl

theorem placeValue_strictMono : StrictMono placeValue := by
  refine strictMono_int_of_lt_succ fun place => ?_
  have above (n : Nat) : sizeAt n < sizeAt (n + 1) := sizeAt_strictMono n.lt_succ_self
  cases place with
  | ofNat n => exact above n
  | negSucc n =>
    cases n with
    | zero =>
      change -sizeAt 1 < sizeAt 0
      linarith [above 0, sizeAt_zero]
    | succ n => exact neg_lt_neg (above (n + 1))

/-- The place on the number line of the double nearest to a number. Beyond the greatest finite double it is
the one of the infinite double. -/
def NearestOnLine (place : Int) (q : ℚ) : Prop :=
  ∃ s size n, 0 ≤ size ∧ q = signed s size ∧ NearestTo n size ∧ place = s.apply (min n infinityPlace : Nat)

namespace NearestOnLine

variable {i j : Int} {q r : ℚ}

/-- Rounding keeps the order. -/
theorem mono (near : NearestOnLine i q) (otherNear : NearestOnLine j r) (le : q ≤ r) : i ≤ j := by
  obtain ⟨s, size, n, nonneg, rfl, nearest, rfl⟩ := near
  obtain ⟨t, otherSize, m, otherNonneg, rfl, otherNearest, rfl⟩ := otherNear
  cases s <;> cases t <;> simp only [signed] at le <;> simp only [Sign.apply]
  · have := otherNearest.mono nearest (by linarith)
    omega
  · omega
  · -- both numbers are zero
    have zero : size = 0 := by linarith
    have otherZero : otherSize = 0 := by linarith
    have first := nearest.unique (zero ▸ nearestTo_zero)
    have second := otherNearest.unique (otherZero ▸ nearestTo_zero)
    omega
  · have := nearest.mono otherNearest le
    omega

theorem of_placeValue (bounded : i.natAbs ≤ infinityPlace) : NearestOnLine i (placeValue i) := by
  obtain ⟨s, n, rfl⟩ : ∃ (s : Sign) (n : Nat), i = s.apply n := by
    rcases i.natAbs_eq with positive | negative
    · exact ⟨.positive, i.natAbs, positive⟩
    · exact ⟨.negative, i.natAbs, negative⟩
  have small : n ≤ infinityPlace := by
    cases s <;> simpa [Sign.apply] using bounded
  refine ⟨s, sizeAt n, n, sizeAt_nonneg n, placeValue_apply s n, nearestTo_sizeAt n, ?_⟩
  rw [Nat.min_eq_left small]

theorem le_of_placeValue_le (near : NearestOnLine i q) (bounded : j.natAbs ≤ infinityPlace)
    (le : placeValue j ≤ q) : j ≤ i :=
  (of_placeValue bounded).mono near le

theorem le_of_le_placeValue (near : NearestOnLine i q) (bounded : j.natAbs ≤ infinityPlace)
    (le : q ≤ placeValue j) : i ≤ j :=
  near.mono (of_placeValue bounded) le

/-- A number on the line rounds to itself. -/
theorem eq (near : NearestOnLine i q) (bounded : j.natAbs ≤ infinityPlace) (value : q = placeValue j) : i = j :=
  Int.le_antisymm (near.le_of_le_placeValue bounded value.le) (near.le_of_placeValue_le bounded value.ge)

end NearestOnLine

/-- The double is the nearest one to the number. -/
structure Rounds (q : ℚ) (x : Float) : Prop where
  defined : x.isNaN = false
  nearest : NearestOnLine (linePlace x) q

theorem Rounds.mono {q r : ℚ} {x y : Float} (rounds : Rounds q x) (otherRounds : Rounds r y) (le : q ≤ r) :
    x ≤ y :=
  le_iff_linePlace.mpr ⟨rounds.defined, otherRounds.defined, rounds.nearest.mono otherRounds.nearest le⟩

/-- The number that a double stands for. -/
def exactValue (x : Float) : ℚ := placeValue (linePlace x)

theorem exactValue_le_iff {x y : Float} (xDefined : x.isNaN = false) (yDefined : y.isNaN = false) :
    x ≤ y ↔ exactValue x ≤ exactValue y := by
  rw [le_iff_linePlace, exactValue, exactValue, placeValue_strictMono.le_iff_le]
  exact ⟨fun le => le.2.2, fun le => ⟨xDefined, yDefined, le⟩⟩

/-- Two defined doubles are equal if they stand for one number. -/
theorem double_beq_iff_exactValue {x y : Float} (xDefined : x.isNaN = false) (yDefined : y.isNaN = false) :
    (x == y) = true ↔ exactValue x = exactValue y := by
  rw [double_beq_iff, exactValue, exactValue, placeValue_strictMono.injective.eq_iff]
  exact ⟨fun same => same.2.2, fun same => ⟨xDefined, yDefined, same⟩⟩

/-- An unpacked double that a number is rounded to before it is packed. -/
def Settled (u : UnpackedFloat) (q : ℚ) : Prop :=
  ∃ s size place, 0 ≤ size ∧ q = signed s size ∧ NearestTo place size ∧ Aligned u s place

theorem Settled.rounds {u : UnpackedFloat} {q : ℚ} (settled : Settled u q) : Rounds q (.ofModel (.pack u)) := by
  obtain ⟨s, size, place, nonneg, value, near, aligned⟩ := settled
  have word : (Float.ofModel (.pack u)).toBits.toNat = s.toBitVec.toNat * 2 ^ 63 + min place infinityPlace :=
    aligned.toNat_pack
  have limit : infinityPlace = 2047 * 2 ^ 52 := rfl
  exact ⟨isNaN_eq_false_of_word (by omega), s, size, place, nonneg, value, near,
    linePlace_of_word (by omega) word⟩

/-- The number that an unpacked double stands for. -/
def unpackedValue : UnpackedFloat → ℚ
  | .finite s m e _ => signed s (m * 2 ^ e)
  | _ => 0

theorem Aligned.value {u : UnpackedFloat} {s : Sign} {place : Nat} (aligned : Aligned u s place) :
    unpackedValue u = signed s (sizeAt place) := by
  cases aligned with
  | zero => cases s <;> simp [unpackedValue, signed, sizeAt_zero]
  | finite _ m e _ _ below normal low value =>
    obtain ⟨k, rfl⟩ : ∃ k : Nat, e = k - 1074 := ⟨(e + 1074).toNat, by omega⟩
    have split : place = k * 2 ^ 52 + m := by omega
    rw [unpackedValue, sizeAt, split, steps_scaled below.le (by omega), zpow_sub₀ two_ne_zero, zpow_natCast,
      ← unitSteps_eq_zpow]
    congr 1
    push_cast
    ring

theorem isNaN_eq_false {x : Float} (finite : x.isFinite = true) : x.isNaN = false := by
  change x.toModel.unpack.isFinite = true at finite
  change x.toModel.unpack.isNaN = false
  revert finite
  cases x.toModel.unpack <;> simp [UnpackedFloat.isFinite, UnpackedFloat.isNaN]

/-- What is packed to a defined double was a number. -/
theorem defined_of_unpack {x : Float} {u : UnpackedFloat} (opened : x = .ofModel (.pack u)) (defined : x.isNaN = false) :
    u ≠ .notANumber := by
  rintro rfl
  rw [opened] at defined
  exact absurd defined (by decide)

/-- What a finite double looks like when it is unpacked. -/
theorem aligned_unpack {x : Float} (finite : x.isFinite = true) :
    ∃ s place, Aligned x.toModel.unpack s place ∧ linePlace x = s.apply place ∧ place < infinityPlace := by
  have located := located_unpack (isNaN_eq_false finite)
  change x.toModel.unpack.isFinite = true at finite
  have limit : infinityPlace = 2047 * 2 ^ 52 := rfl
  generalize x.toModel.unpack = u at *
  generalize linePlace x = i at *
  cases located with
  | infinity s => cases finite
  | zero s => exact ⟨s, 0, .zero s, by cases s <;> rfl, by omega⟩
  | finite s m e positive below low high normal =>
    refine ⟨s, ((e + 1074) * 2 ^ 52 + m).toNat, .finite _ _ _ _ _ below normal low (by omega), ?_, by omega⟩
    rw [Int.toNat_of_nonneg (by omega)]

/-- What is aligned already is not rounded. -/
theorem Aligned.settled {u : UnpackedFloat} {s : Sign} {place : Nat} (aligned : Aligned u s place) :
    Settled u (unpackedValue u) :=
  ⟨s, sizeAt place, place, sizeAt_nonneg place, aligned.value, nearestTo_sizeAt place, aligned⟩

theorem exactValue_eq_unpackedValue {x : Float} (finite : x.isFinite = true) :
    exactValue x = unpackedValue x.toModel.unpack := by
  obtain ⟨s, place, aligned, value, -⟩ := aligned_unpack finite
  rw [exactValue, value, placeValue_apply, aligned.value]

theorem rounds_exactValue {x : Float} (finite : x.isFinite = true) : Rounds (exactValue x) x := by
  obtain ⟨s, place, -, value, small⟩ := aligned_unpack finite
  refine ⟨isNaN_eq_false finite, .of_placeValue ?_⟩
  rw [value]
  cases s <;> simp only [Sign.apply] <;> omega

/-- A double whose place is not the one of the two zeros is known by it. -/
theorem eq_of_linePlace {x y : Float} (same : linePlace x = linePlace y) (different : linePlace x ≠ 0) : x = y := by
  refine Float.toBits_inj.mp (UInt64.toNat_inj.mp ?_)
  simp only [linePlace] at same different
  split at same <;> split at same <;> split at different <;> omega

/-- Nothing between zero and a finite double is infinite. -/
theorem isFinite_of_le {x y : Float} (finite : y.isFinite = true) (nonneg : 0.0 ≤ x) (le : x ≤ y) :
    x.isFinite = true := by
  have zero : linePlace 0.0 = 0 := by decide
  have limit : infinityPlace = 2047 * 2 ^ 52 := rfl
  have above := (le_iff_linePlace.mp nonneg).2.2
  have below := (le_iff_linePlace.mp le).2.2
  obtain ⟨s, place, -, atPlace, small⟩ := aligned_unpack finite
  refine isFinite_of_linePlace (le_iff_linePlace.mp le).1 (by omega) ?_
  cases s <;> simp only [Sign.apply] at atPlace <;> omega

end SignalDesk
