import SignalDesk.Proofs.RoundingError

namespace SignalDesk

open Float.Model Float.Model.UnpackedFloat LinePlace

/-- A size is cut off behind the point. -/
theorem roundToInt_eq (s : Sign) (m : Nat) (e : Int) : roundToInt s m e = s.apply ⌊(m * 2 ^ e : ℚ)⌋₊ := by
  obtain ⟨d, whole⟩ : ∃ d, e.toNat = d := ⟨_, rfl⟩
  obtain ⟨k, part⟩ : ∃ k, (-(e - d)).toNat = k := ⟨_, rfl⟩
  have cut : roundToInt s m e = s.apply (ExtendedMantissa.ofMantissaAndAccuracy (m <<< d) .exact >>> k).mantissa := by
    simp only [roundToInt, decreaseExponent, shiftToExponent, Int.sub_zero, Int.zero_sub, whole, part]
  have size : ((m <<< d : Nat) : ℚ) / 2 ^ k = m * 2 ^ e := by
    rw [show e = d - k by omega, zpow_sub₀ two_ne_zero, zpow_natCast, zpow_natCast, Nat.shiftLeft_eq, ← mul_div_assoc]
    push_cast
    rfl
  obtain ⟨low, high⟩ := ((Holds.exact (m <<< d)).shiftRight k).bounds
  rw [size] at low high
  rw [cut, (Nat.floor_eq_iff (by positivity)).mpr ⟨low, high⟩]

/-- A double from zero on that is read as a word of 64 bits loses what is behind the point. -/
theorem toNat_toUInt64 {x : Float} (finite : x.isFinite = true) (nonneg : 0 ≤ exactValue x) :
    x.toUInt64.toNat = min ⌊exactValue x⌋₊ (2 ^ 64 - 1) := by
  have read : x.toUInt64 = UInt64.ofNatClamp (x.toModel.unpack.toInt 0 (UInt64.size - 1)).toNat := rfl
  rw [read]
  obtain ⟨s, place, aligned, -⟩ := aligned_unpack finite
  rw [exactValue_eq_unpackedValue finite] at nonneg ⊢
  have whole : (x.toModel.unpack.toInt 0 (UInt64.size - 1)).toNat = ⌊unpackedValue x.toModel.unpack⌋₊ := by
    generalize x.toModel.unpack = u at *
    cases aligned with
    | zero => simp [toInt, unpackedValue]
    | finite _ m e positive =>
      have size : (0 : ℚ) < m * 2 ^ e := by positivity
      cases s with
      | negative =>
        simp only [unpackedValue, signed] at nonneg
        linarith
      | positive =>
        rw [toInt, roundToInt_eq]
        rfl
  rw [whole]
  by_cases fits : ⌊unpackedValue x.toModel.unpack⌋₊ < UInt64.size
  · rw [UInt64.toNat_ofNatClamp_of_lt fits]
    exact (Nat.min_eq_left (Nat.le_pred_of_lt fits)).symm
  · rw [UInt64.toNat_ofNatClamp_of_le (Nat.not_lt.mp fits)]
    exact (Nat.min_eq_right (Nat.le_of_lt (Nat.not_lt.mp fits))).symm

/-- What is computed from an undefined value is read as zero. -/
theorem toUInt64_of_undefined {x : Float} (undefined : x.isNaN = true) (y z : Float) :
    (x / y * z).toUInt64 = 0 := by
  have unpacked : x.toModel.unpack = .notANumber := by
    change x.toModel.unpack.isNaN = true at undefined
    revert undefined
    cases x.toModel.unpack <;> simp [UnpackedFloat.isNaN]
  have quotient : x / y = .ofModel (.pack .notANumber) := by
    change Float.ofModel (.pack (UnpackedFloat.div _ x.toModel.unpack y.toModel.unpack)) = _
    rw [unpacked]
    cases y.toModel.unpack <;> rfl
  have again : (Float.ofModel (.pack .notANumber)).toModel.unpack = .notANumber := rfl
  have product : x / y * z = .ofModel (.pack .notANumber) := by
    rw [quotient]
    change Float.ofModel (.pack (UnpackedFloat.mul _ _ z.toModel.unpack)) = _
    rw [again]
    cases z.toModel.unpack <;> rfl
  rw [product]
  decide

theorem gapAt_eq_tickSize {place k : Nat} (binade : place / 2 ^ 52 = k + 1) : gapAt place = tickSize k := by
  rw [gapAt, spacing, binade, Nat.add_sub_cancel, tickSize, Nat.cast_pow, Nat.cast_ofNat]

/-- From 2^53 on every double is a whole number. -/
theorem exactValue_whole {x : Float} (large : 2 ^ 53 ≤ exactValue x) : ∃ n : Nat, exactValue x = n := by
  cases atPlace : linePlace x with
  | negSucc place =>
    rw [exactValue, atPlace] at large
    have size := sizeAt_nonneg (place + 1)
    change 2 ^ 53 ≤ -sizeAt (place + 1) at large
    linarith
  | ofNat place =>
    rw [exactValue, atPlace] at large ⊢
    change 2 ^ 53 ≤ sizeAt place at large
    change ∃ n : Nat, sizeAt place = n
    have start : sizeAt (1075 * 2 ^ 52) = 2 ^ 52 := by
      have scaled := steps_scaled (k := 1074) (n := 2 ^ 52) (by decide) (by decide)
      rw [← Nat.succ_mul] at scaled
      rw [sizeAt, scaled, ← unitSteps, Nat.cast_mul, mul_div_assoc, div_self unitSteps_pos.ne', mul_one]
      norm_num
    have behind : 1075 * 2 ^ 52 ≤ place := by
      by_contra before
      have less := sizeAt_strictMono (Nat.not_le.mp before)
      rw [start] at less
      linarith
    obtain ⟨k, binade⟩ : ∃ k, place / 2 ^ 52 = 1074 + k + 1 := ⟨place / 2 ^ 52 - 1075, by omega⟩
    refine ⟨significand place * 2 ^ k, ?_⟩
    have gap : gapAt place = 2 ^ k := by rw [gapAt_eq_tickSize binade, tickSize_add, tickSize_whole, one_mul]
    rw [sizeAt, steps, Nat.cast_mul, mul_div_assoc, ← gapAt, gap]
    push_cast
    rfl

/-- The whole part of a double is a double. -/
theorem exactValue_ofNat_floor {x : Float} (finite : x.isFinite = true) (nonneg : 0 ≤ exactValue x) :
    (Float.ofNat ⌊exactValue x⌋₊).isFinite = true ∧ exactValue (Float.ofNat ⌊exactValue x⌋₊) = ⌊exactValue x⌋₊ := by
  have rounds := rounds_ofNat ⌊exactValue x⌋₊
  rcases Nat.lt_or_ge ⌊exactValue x⌋₊ (2 ^ 53) with small | large
  · exact rounds.whole small
  · have reached := (Nat.le_floor_iff nonneg).mp large
    push_cast at reached
    obtain ⟨n, whole⟩ := exactValue_whole reached
    rw [whole, Nat.floor_natCast] at rounds ⊢
    rw [← whole] at rounds
    exact ⟨rounds.within finite le_rfl, (rounds.exactValue_eq finite).trans whole⟩

end SignalDesk
