import SignalDesk.Proofs.TomlNumbers

namespace SignalDesk

namespace NumberStyle

/-- A number that shows its point has digits on both sides of it. -/
theorem positional_eq_point (style : NumberStyle) (pointed : style.pointZero = true) {d : Decimal}
    (canonical : d.digits = 0 → d.exponent ≤ 0) :
    ∃ whole fraction, (style.positional d).toList = whole ++ '.' :: fraction ∧ Toml.IsWholePart whole ∧
      (∀ c ∈ fraction, c.isDigit = true) ∧ fraction ≠ [] := by
  by_cases exponent : 0 ≤ d.exponent
  · refine ⟨Nat.toDigits 10 d.digits ++ List.replicate d.exponent.toNat '0', ['0'], ?_, ⟨?_, ?_⟩, ?_, ?_⟩
    · simp only [positional, if_pos exponent, pointed, if_true, String.toList_append, String.toList_ofList]
      rfl
    · exact List.forall_mem_append.mpr ⟨isDigit_toDigits _, isDigit_zeros _⟩
    · rcases Nat.eq_zero_or_pos d.digits with zero | positive
      · have none : d.exponent.toNat = 0 := by
          have := canonical zero
          omega
        rw [zero, none]
        exact .inl rfl
      · obtain ⟨c, cs, digits, nonzero⟩ := toDigits_eq_cons positive
        rw [digits]
        exact .inr ⟨c, _, List.cons_append, nonzero⟩
    · exact isDigit_zeros 1
    · exact List.cons_ne_nil _ _
  · obtain ⟨places, negative⟩ : ∃ places : Nat, d.exponent = -(places + 1 : Nat) := ⟨(-d.exponent).toNat - 1, by omega⟩
    simp only [positional, if_neg exponent, String.toList_append, String.toList_ofList]
    rw [negative, Int.neg_neg, Int.toNat_natCast]
    generalize known : List.replicate (places + 1 + 1 - (Nat.toDigits 10 d.digits).length) '0' ++
      Nat.toDigits 10 d.digits = padded
    have length : padded.length = max (places + 2) (Nat.toDigits 10 d.digits).length := by
      rw [← known, List.length_append, List.length_replicate]
      omega
    have digits : ∀ c ∈ padded, c.isDigit = true := by
      rw [← known]
      exact List.forall_mem_append.mpr ⟨isDigit_zeros _, isDigit_toDigits _⟩
    refine ⟨padded.take (padded.length - (places + 1)), padded.drop (padded.length - (places + 1)), by simp,
      ⟨fun c member => digits c (List.mem_of_mem_take member), ?_⟩,
      fun c member => digits c (List.mem_of_mem_drop member), ?_⟩
    · by_cases long : places + 2 ≤ (Nat.toDigits 10 d.digits).length
      · have positive : 0 < d.digits := by
          refine Nat.pos_of_ne_zero fun zero => ?_
          rw [zero] at long
          change places + 2 ≤ 1 at long
          omega
        obtain ⟨c, cs, chars, nonzero⟩ := toDigits_eq_cons positive
        rw [Nat.sub_eq_zero_of_le (by omega), List.replicate_zero, List.nil_append, chars] at known
        obtain ⟨more, kept⟩ : ∃ more, padded.length - (places + 1) = more + 1 :=
          ⟨padded.length - (places + 2), by omega⟩
        rw [kept, ← known, List.take_succ_cons]
        exact .inr ⟨c, _, rfl, nonzero⟩
      · -- zeros are written up to the one before the point
        obtain ⟨zeros, some⟩ : ∃ zeros, places + 1 + 1 - (Nat.toDigits 10 d.digits).length = zeros + 1 :=
          ⟨places + 1 - (Nat.toDigits 10 d.digits).length, by omega⟩
        have single : padded.length - (places + 1) = 1 := by omega
        rw [single, ← known, some, List.replicate_succ]
        exact .inl rfl
    · rw [← List.length_pos_iff, List.length_drop]
      omega

end NumberStyle

/-- The word of a double that is not zero is told by its place. -/
theorem word_of_linePlace {x : Float} {s : Float.Model.UnpackedFloat.Sign} {place : Nat} (positive : 0 < place)
    (known : linePlace x = s.apply place) :
    x.toBits.toNat % 2 ^ 63 = place ∧ (x.toBits >>> 63 == 1) = (s == .negative) := by
  have word := x.toBits.toNat_lt
  have sign : (x.toBits >>> 63 == 1) = decide (2 ^ 63 ≤ x.toBits.toNat) := by
    have top : (x.toBits >>> 63).toNat = x.toBits.toNat / 2 ^ 63 := by
      rw [UInt64.toNat_shiftRight, Nat.shiftRight_eq_div_pow]
      rfl
    rw [Bool.eq_iff_iff, beq_iff_eq, decide_eq_true_eq, ← UInt64.toNat_inj, top]
    change _ = 1 ↔ _
    omega
  rw [sign]
  simp only [linePlace] at known
  cases s with
  | positive =>
    simp only [Float.Model.UnpackedFloat.Sign.apply] at known
    split at known
    · exact ⟨by omega, decide_eq_false (by omega)⟩
    · omega
  | negative =>
    simp only [Float.Model.UnpackedFloat.Sign.apply] at known
    split at known
    · omega
    · exact ⟨by omega, decide_eq_true (by omega)⟩

theorem NumberText.toFloat_point (negative : Bool) (whole fraction : List Char) :
    NumberText.toFloat ⟨negative, whole.map fun c => c.toNat - '0'.toNat,
      some (fraction.map fun c => c.toNat - '0'.toNat), none⟩ =
        if negative then -Decimal.toFloat ⟨Nat.ofDigitChars 10 (whole ++ fraction) 0, -fraction.length⟩
        else Decimal.toFloat ⟨Nat.ofDigitChars 10 (whole ++ fraction) 0, -fraction.length⟩ := by
  simp only [NumberText.toFloat, Option.getD_some, Option.getD_none, ← List.map_append, digitsValue_map,
    List.length_map, zero_sub]

/-- A double that is not zero is its size with its sign. -/
theorem eq_of_size {x size : Float} {s : Float.Model.UnpackedFloat.Sign} {place : Nat}
    (known : linePlace x = s.apply place) (positive : 0 < place) (small : place < infinityPlace)
    (finite : size.isFinite = true) (same : linePlace size = place) :
    (if s == .negative then -size else size) = x := by
  cases s with
  | positive =>
    change size = x
    exact eq_of_linePlace (same.trans known.symm) (by omega)
  | negative =>
    change -size = x
    have mirrored : linePlace (-size) = linePlace x := by
      rw [known]
      refine (rounds_neg finite).nearest.eq ?_ ?_
      · simp only [Float.Model.UnpackedFloat.Sign.apply]
        omega
      · rw [placeValue_apply, exactValue, same]
        rfl
    refine eq_of_linePlace mirrored ?_
    rw [mirrored, known]
    simp only [Float.Model.UnpackedFloat.Sign.apply]
    omega

theorem render_zero : NumberStyle.toml.render 0.0 = "0.0" := by decide +kernel

theorem render_negativeZero : NumberStyle.toml.render (-0.0) = "-0.0" := by decide +kernel

/-- A finite double is read back from its TOML text. -/
theorem isPointText_toml {x : Float} (finite : x.isFinite = true) :
    Toml.IsPointText (NumberStyle.toml.render x).toList x := by
  obtain ⟨s, place, -, known, small⟩ := aligned_unpack finite
  rcases Nat.eq_zero_or_pos place with rfl | positive
  · have zeros : x.toBits.toNat = 0 ∨ x.toBits.toNat = 2 ^ 63 := by
      simp only [linePlace] at known
      split at known
      · cases s <;> simp only [Float.Model.UnpackedFloat.Sign.apply] at known <;> omega
      · cases s <;> simp only [Float.Model.UnpackedFloat.Sign.apply] at known <;> omega
    rcases zeros with zero | zero
    · obtain rfl : x = 0.0 := Float.toBits_inj.mp (UInt64.toNat_inj.mp (zero.trans (by decide)))
      rw [render_zero]
      exact ⟨false, ['0'], ['0'], rfl, ⟨isDigit_zeros 1, .inl rfl⟩, isDigit_zeros 1, List.cons_ne_nil _ _, rfl⟩
    · obtain rfl : x = -0.0 := Float.toBits_inj.mp (UInt64.toNat_inj.mp (zero.trans (by decide)))
      rw [render_negativeZero]
      exact ⟨true, ['0'], ['0'], rfl, ⟨isDigit_zeros 1, .inl rfl⟩, isDigit_zeros 1, List.cons_ne_nil _ _, rfl⟩
  · obtain ⟨word, sign⟩ := word_of_linePlace positive known
    have limit : infinityPlace = 2047 * 2 ^ 52 := rfl
    have written := (roundsTo_shortest .up (x := x) (by omega) (by omega)).nearestTo
    rw [word] at written
    have nonzero := written.digits_ne_zero positive small
    obtain ⟨whole, fraction, text, part, digits, some⟩ := NumberStyle.toml.positional_eq_point rfl
      (d := Decimal.shortest .up x) fun zero => absurd zero nonzero
    have value : (Decimal.mk (Nat.ofDigitChars 10 (whole ++ fraction) 0) (-fraction.length)).value =
        (Decimal.shortest .up x).value := by
      have read := NumberStyle.toml.positionalValue_positional (Decimal.shortest .up x)
      rw [text, positionalValue_point part.1 digits] at read
      rw [← read, Decimal.value, zpow_neg, zpow_natCast, div_eq_mul_inv]
    rw [← value] at written
    obtain ⟨readFinite, readPlace⟩ := Decimal.linePlace_toFloat written positive small
    refine ⟨s == .negative, whole, fraction, ?_, part, digits, some, ?_⟩
    · rw [NumberStyle.render_finite _ finite, sign, String.toList_append, ← text]
      cases s <;> rfl
    · rw [NumberText.toFloat_point]
      exact eq_of_size known positive small readFinite readPlace

end SignalDesk
