import SignalDesk.Decimal.NumberStyle
import SignalDesk.Proofs.InstantText
import SignalDesk.Proofs.DoubleOrder
import SignalDesk.Proofs.RoundingInterval

namespace SignalDesk

/-- What a text of digits with at most one point among them amounts to. -/
def positionalValue (text : List Char) : ℚ :=
  let whole := takeDigits 10 text
  let fraction := takeDigits 10 (whole.2.drop 1)
  digitsValue 10 (whole.1 ++ fraction.1) / 10 ^ fraction.1.length

theorem takeDigits_self {cs : List Char} (digits : ∀ c ∈ cs, c.isDigit = true) :
    takeDigits 10 cs = (cs.map fun c => c.toNat - '0'.toNat, []) := by
  have read : takeDigits 10 (cs ++ []) = _ := takeDigits_append digits nofun
  rwa [List.append_nil] at read

theorem positionalValue_digits {whole : List Char} (digits : ∀ c ∈ whole, c.isDigit = true) :
    positionalValue whole = Nat.ofDigitChars 10 whole 0 := by
  simp only [positionalValue, takeDigits_self digits, List.drop_nil, takeDigits, List.append_nil,
    digitsValue_map, List.length_nil, pow_zero, div_one]

theorem positionalValue_point {whole fraction : List Char} (wholeDigits : ∀ c ∈ whole, c.isDigit = true)
    (fractionDigits : ∀ c ∈ fraction, c.isDigit = true) :
    positionalValue (whole ++ '.' :: fraction) =
      Nat.ofDigitChars 10 (whole ++ fraction) 0 / 10 ^ fraction.length := by
  simp only [positionalValue, takeDigits_append wholeDigits (endsNumber_cons '.' fraction rfl),
    List.drop_succ_cons, List.drop_zero, takeDigits_self fractionDigits, List.length_map, ← List.map_append,
    digitsValue_map]

theorem isDigit_toDigits (n : Nat) : ∀ c ∈ Nat.toDigits 10 n, c.isDigit = true :=
  fun _ member => Nat.isDigit_of_mem_toDigits (by decide) (by decide) member

theorem isDigit_zeros (n : Nat) : ∀ c ∈ List.replicate n '0', c.isDigit = true := by
  intro c member
  rw [List.eq_of_mem_replicate member]
  rfl

namespace NumberStyle

/-- A number that is written without an exponent is read back from its digits, whatever the style. -/
theorem positionalValue_positional (style : NumberStyle) (d : Decimal) :
    positionalValue (style.positional d).toList = d.value := by
  have amount : Nat.ofDigitChars 10 (Nat.toDigits 10 d.digits) 0 = d.digits :=
    Nat.ofDigitChars_toDigits (by decide) (by decide)
  by_cases whole : 0 ≤ d.exponent
  · obtain ⟨zeros, exponent⟩ := Int.eq_ofNat_of_zero_le whole
    have digits : ∀ c ∈ Nat.toDigits 10 d.digits ++ List.replicate zeros '0', c.isDigit = true :=
      List.forall_mem_append.mpr ⟨isDigit_toDigits _, isDigit_zeros _⟩
    have value : d.value = Nat.ofDigitChars 10 (Nat.toDigits 10 d.digits ++ List.replicate zeros '0') 0 := by
      rw [Nat.ofDigitChars_append, amount, Nat.ofDigitChars_replicate_zero, Decimal.value, exponent,
        zpow_natCast]
      push_cast
      ring
    simp only [positional, if_pos whole, String.toList_append, String.toList_ofList]
    rw [exponent, Int.toNat_natCast, value]
    cases style.pointZero with
    | false =>
      rw [if_neg Bool.false_ne_true, String.toList_empty, List.append_nil, positionalValue_digits digits]
    | true =>
      rw [if_pos rfl, show ".0".toList = '.' :: List.replicate 1 '0' from rfl,
        positionalValue_point digits (isDigit_zeros 1), Nat.ofDigitChars_append, Nat.ofDigitChars_replicate_zero,
        List.length_replicate]
      push_cast
      field_simp
  · obtain ⟨places, exponent⟩ : ∃ places : Nat, d.exponent = -places := ⟨(-d.exponent).toNat, by omega⟩
    simp only [positional, if_neg whole, String.toList_append, String.toList_ofList]
    rw [exponent, Int.neg_neg, Int.toNat_natCast]
    generalize known : List.replicate (places + 1 - (Nat.toDigits 10 d.digits).length) '0' ++
      Nat.toDigits 10 d.digits = padded
    have digits : ∀ c ∈ padded, c.isDigit = true := by
      rw [← known]
      exact List.forall_mem_append.mpr ⟨isDigit_zeros _, isDigit_toDigits _⟩
    have long : places ≤ padded.length := by
      rw [← known, List.length_append, List.length_replicate]
      omega
    have paddedAmount : Nat.ofDigitChars 10 padded 0 = d.digits := by
      rw [← known, Nat.ofDigitChars_append, Nat.ofDigitChars_replicate_zero, Nat.mul_zero, amount]
    rw [show ".".toList = ['.'] from rfl, List.append_assoc, List.singleton_append,
      positionalValue_point (fun c member => digits c (List.mem_of_mem_take member))
        (fun c member => digits c (List.mem_of_mem_drop member)),
      List.take_append_drop, paddedAmount, List.length_drop, Nat.sub_sub_self long, Decimal.value, exponent,
      zpow_neg, zpow_natCast, div_eq_mul_inv]

end NumberStyle

/-- The bits of a positive double are its place on the number line. -/
theorem toBits_of_positive {x : Float} (positive : 0.0 < x) (finite : x.isFinite = true) :
    0 < x.toBits.toNat ∧ x.toBits.toNat < 2047 * 2 ^ 52 := by
  obtain ⟨-, defined, above⟩ := lt_iff_linePlace.mp positive
  have zero : linePlace 0.0 = 0 := by decide
  rw [zero] at above
  have below : linePlace x < 2047 * 2 ^ 52 := by
    have located := located_unpack defined
    change x.toModel.unpack.isFinite = true at finite
    generalize x.toModel.unpack = unpacked at located finite
    generalize linePlace x = place at *
    cases located with
    | infinity s => cases finite
    | zero s => decide
    | finite s m e large small low high normal => cases s <;> simp only [Float.Model.UnpackedFloat.Sign.apply] <;> omega
  simp only [linePlace] at above below
  split at above
  · omega
  · omega

/-- A finite double is written with its sign and the digits of its size. -/
theorem NumberStyle.render_finite (style : NumberStyle) {x : Float} (finite : x.isFinite = true) :
    style.render x =
      (if x.toBits >>> 63 == 1 then "-" else "") ++ style.magnitude (Decimal.shortest style.tie x) := by
  have regular : x.isNaN = false ∧ x.isInf = false := by
    change x.toModel.unpack.isFinite = true at finite
    change x.toModel.unpack.isNaN = false ∧ x.toModel.unpack.isInf = false
    generalize x.toModel.unpack = unpacked at finite
    cases unpacked with
    | infinity | notANumber => cases finite
    | _ => exact ⟨rfl, rfl⟩
  simp only [render, regular.1, regular.2, Bool.false_eq_true, if_false]

theorem showNumber_eq_positional {x : Float} (positive : 0.0 < x) (finite : x.isFinite = true) :
    showNumber x = NumberStyle.message.positional (Decimal.shortest .up x) := by
  obtain ⟨-, below⟩ := toBits_of_positive positive finite
  have noSign : (x.toBits >>> 63 == 1) = false := by
    rw [beq_eq_false_iff_ne]
    intro sign
    have word := congrArg UInt64.toNat sign
    rw [UInt64.toNat_shiftRight, Nat.shiftRight_eq_div_pow] at word
    change x.toBits.toNat / 2 ^ 63 = 1 at word
    omega
  rw [showNumber, NumberStyle.render_finite _ finite, noSign, if_neg Bool.false_ne_true, String.empty_append]
  rfl

/-- Different positive numbers are written differently. -/
theorem showNumber_injective {x y : Float} (xPositive : 0.0 < x) (xFinite : x.isFinite = true)
    (yPositive : 0.0 < y) (yFinite : y.isFinite = true) (same : showNumber x = showNumber y) : x = y := by
  obtain ⟨xAbove, xBelow⟩ := toBits_of_positive xPositive xFinite
  obtain ⟨yAbove, yBelow⟩ := toBits_of_positive yPositive yFinite
  rw [showNumber_eq_positional xPositive xFinite, showNumber_eq_positional yPositive yFinite] at same
  have value : (Decimal.shortest .up x).value = (Decimal.shortest .up y).value := by
    rw [← NumberStyle.message.positionalValue_positional, same, NumberStyle.positionalValue_positional]
  have xRounds := roundsTo_shortest .up (x := x) (by omega) (by omega)
  rw [value] at xRounds
  have sizes := xRounds.unique (roundsTo_shortest .up (by omega) (by omega))
  have bits : x.toBits.toNat = y.toBits.toNat := by omega
  rw [← Float.ofBits_toBits x, UInt64.toNat_inj.mp bits, Float.ofBits_toBits]

end SignalDesk
