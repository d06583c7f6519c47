import SignalDesk.Proofs.DecimalReading
import SignalDesk.Proofs.WrittenNumbers
import SignalDesk.Toml.Printer
import SignalDesk.Toml.Reader

namespace SignalDesk

/-- Only the number zero starts with a zero. -/
theorem toDigits_eq_cons {n : Nat} (positive : 0 < n) : ∃ c cs, Nat.toDigits 10 n = c :: cs ∧ c ≠ '0' := by
  induction n using Nat.strongRecOn with
  | ind n ih =>
    by_cases small : n < 10
    · refine ⟨n.digitChar, [], Nat.toDigits_of_lt_base small, ?_⟩
      interval_cases n <;> decide
    · obtain ⟨c, cs, digits, nonzero⟩ := ih (n / 10) (by omega) (by omega)
      refine ⟨c, cs ++ [(n % 10).digitChar], ?_, nonzero⟩
      rw [Nat.toDigits_of_base_le (by decide) (Nat.not_lt.mp small), digits, List.cons_append]

namespace Toml

theorem readDigits_append {cs : List Char} (digits : ∀ c ∈ cs, c.isDigit = true) (some : cs ≠ []) {c : Char}
    (ends : digitValue? 10 c = none ∧ c ≠ '_') (rest : List Char) :
    readDigits 10 (cs ++ c :: rest) = .some (cs.map fun c => c.toNat - '0'.toNat, c :: rest) := by
  induction cs with
  | nil => exact absurd rfl some
  | cons d cs ih =>
    obtain ⟨digit, later⟩ := List.forall_mem_cons.mp digits
    cases cs with
    | nil =>
      have stop : readDigits 10 (c :: rest) = none := by
        rw [readDigits, ends.1]
        rfl
      rw [List.cons_append, List.nil_append, readDigits, digitValue?_of_isDigit digit]
      simp [ends.2, stop]
    | cons e cs =>
      have noUnderscore : e ≠ '_' := by
        rintro rfl
        exact absurd (later _ List.mem_cons_self) (by decide)
      have read := ih later (List.cons_ne_nil e cs)
      rw [List.cons_append] at read
      rw [List.cons_append, List.cons_append, readDigits, digitValue?_of_isDigit digit]
      simp [noUnderscore, read]

theorem mapM_eq_none {α β : Type} {f : α → Option β} {x : α} {xs : List α} (member : x ∈ xs) (fails : f x = none) :
    xs.mapM f = none := by
  induction xs with
  | nil => cases member
  | cons y ys ih =>
    rw [List.mapM_cons]
    rcases List.mem_cons.mp member with rfl | later
    · rw [fails]
      rfl
    · rw [ih later]
      cases f y <;> rfl

/-- Behind a fixed number of digits in a line comes a character of the line, or its end. -/
theorem fixedDigits?_next {count value : Nat} {cs rest after : List Char} {c : Char}
    (read : fixedDigits? count (cs ++ '\n' :: rest) = some (value, c :: after)) : c ∈ cs ∨ c = '\n' := by
  rw [fixedDigits?] at read
  by_cases inLine : count ≤ cs.length
  · rw [List.drop_append_of_le_length inLine] at read
    obtain ⟨digits, -, found⟩ := Option.bind_eq_some_iff.mp read
    split_ifs at found
    obtain ⟨-, behind⟩ := Prod.mk.inj (Option.some.inj found)
    cases left : cs.drop count with
    | nil =>
      rw [left] at behind
      exact .inr (List.cons.inj behind).1.symm
    | cons d ds =>
      rw [left] at behind
      obtain rfl := (List.cons.inj behind).1
      exact .inl (List.mem_of_mem_drop (left ▸ List.mem_cons_self))
  · have lineEnd : '\n' ∈ (cs ++ '\n' :: rest).take count := by
      rw [List.take_append]
      obtain ⟨more, length⟩ : ∃ more, count - cs.length = more + 1 := ⟨count - cs.length - 1, by omega⟩
      rw [length, List.take_succ_cons]
      exact List.mem_append_right _ List.mem_cons_self
    rw [mapM_eq_none lineEnd (by decide)] at read
    cases read

theorem fixedDigits?_minus (count : Nat) (rest : List Char) : fixedDigits? (count + 1) ('-' :: rest) = none := by
  rw [fixedDigits?, mapM_eq_none (x := '-') (by simp) (by decide)]
  rfl

/-- A number with at most one point is no date and no time. -/
theorem startsMoment_number {cs : List Char} (number : ∀ c ∈ cs, c.isDigit = true ∨ c = '.') (rest : List Char) :
    startsMoment (cs ++ '\n' :: rest) = false := by
  have next {count value : Nat} {after : List Char} {c : Char}
      (read : fixedDigits? count (cs ++ '\n' :: rest) = some (value, c :: after)) : c ≠ '-' ∧ c ≠ ':' := by
    rcases fixedDigits?_next read with member | rfl
    · rcases number c member with digit | rfl
      · constructor <;> rintro rfl <;> cases digit
      · decide
    · decide
  rw [startsMoment.eq_def]
  split
  · rename_i read
    exact absurd rfl (next read).1
  · rename_i read _
    exact absurd rfl (next read).2
  · rfl

theorem startsMoment_minus (rest : List Char) : startsMoment ('-' :: rest) = false := by
  rw [startsMoment, fixedDigits?_minus, fixedDigits?_minus]

/-- The whole part of a number starts with no zero, unless it is zero. -/
def IsWholePart (whole : List Char) : Prop :=
  (∀ c ∈ whole, c.isDigit = true) ∧ (whole = ['0'] ∨ ∃ c cs, whole = c :: cs ∧ c ≠ '0')

theorem isWholePart_toDigits (n : Nat) : IsWholePart (Nat.toDigits 10 n) := by
  refine ⟨isDigit_toDigits n, ?_⟩
  rcases Nat.eq_zero_or_pos n with rfl | positive
  · exact .inl rfl
  · exact .inr (toDigits_eq_cons positive)

theorem IsWholePart.eq_cons {whole : List Char} (part : IsWholePart whole) :
    ∃ c cs, whole = c :: cs ∧ c.isDigit = true ∧ (c = '0' → cs = []) := by
  obtain ⟨digits, rfl | ⟨c, cs, rfl, nonzero⟩⟩ := part
  · exact ⟨_, _, rfl, rfl, fun _ => rfl⟩
  · exact ⟨c, cs, rfl, digits c List.mem_cons_self, fun zero => absurd zero nonzero⟩

def minus (negative : Bool) : List Char := if negative then ['-'] else []

theorem readSign_minus (negative : Bool) {c : Char} (digit : c.isDigit = true) (s : List Char) :
    readSign (minus negative ++ c :: s) = (negative, c :: s) := by
  cases negative with
  | true => rfl
  | false =>
    rw [minus, if_neg Bool.false_ne_true, List.nil_append, readSign.eq_def]
    split <;> simp_all

theorem readDecimal_whole (negative : Bool) {whole : List Char} (part : IsWholePart whole) (rest : List Char) :
    readDecimal (minus negative ++ (whole ++ '\n' :: rest)) =
      some (⟨negative, whole.map fun c => c.toNat - '0'.toNat, none, none⟩, '\n' :: rest) := by
  obtain ⟨digits, rfl | ⟨c, cs, rfl, nonzero⟩⟩ := part
  · cases negative <;> rfl
  · have read := readDigits_append digits (List.cons_ne_nil c cs) (c := '\n') (by decide) rest
    have sign := readSign_minus negative (digits c List.mem_cons_self) (cs ++ '\n' :: rest)
    rw [List.cons_append] at read ⊢
    simp [readDecimal, sign, nonzero, read]

theorem readDecimal_point (negative : Bool) {whole fraction : List Char} (part : IsWholePart whole)
    (digits : ∀ c ∈ fraction, c.isDigit = true) (some : fraction ≠ []) (rest : List Char) :
    readDecimal (minus negative ++ (whole ++ '.' :: (fraction ++ '\n' :: rest))) =
      .some (⟨negative, whole.map fun c => c.toNat - '0'.toNat,
        .some (fraction.map fun c => c.toNat - '0'.toNat), none⟩, '\n' :: rest) := by
  have behind := readDigits_append digits some (c := '\n') (by decide) rest
  obtain ⟨wholeDigits, rfl | ⟨c, cs, rfl, nonzero⟩⟩ := part
  · have sign := readSign_minus negative (c := '0') rfl ('.' :: (fraction ++ '\n' :: rest))
    rw [List.cons_append, List.nil_append]
    simp [readDecimal, sign, behind]
  · have read := readDigits_append wholeDigits (List.cons_ne_nil c cs) (c := '.') (by decide)
      (fraction ++ '\n' :: rest)
    have sign := readSign_minus negative (wholeDigits c List.mem_cons_self)
      (cs ++ '.' :: (fraction ++ '\n' :: rest))
    rw [List.cons_append] at read ⊢
    simp [readDecimal, sign, nonzero, read, behind]

/-- A word starts with another character than a number. -/
theorem hasWord_digit {c : Char} (digit : c.isDigit = true) (s : List Char) :
    hasWord "inf" (c :: s) = false ∧ hasWord "nan" (c :: s) = false ∧ hasWord "true" (c :: s) = false ∧
      hasWord "false" (c :: s) = false := by
  have letter {d : Char} (noDigit : d.isDigit = false) : d ≠ c := by
    rintro rfl
    rw [digit] at noDigit
    cases noDigit
  simp [hasWord, List.isPrefixOf_cons_cons, letter (d := 'i') rfl, letter (d := 'n') rfl, letter (d := 't') rfl,
    letter (d := 'f') rfl]

/-- What a decimal number means as a value. -/
def decimalValue? (n : NumberText) : Option Document :=
  if n.isWhole then wholeNumber? n.toInt
  else if n.toFloat == 1.0 / 0.0 then none
  else some (.float n.toFloat)

theorem readNumber_decimal (negative : Bool) {whole : List Char} (part : IsWholePart whole) {d : Char}
    (next : d = '.' ∨ d = '\n') {s rest : List Char} {n : NumberText} {value : Document}
    (read : readDecimal (minus negative ++ (whole ++ d :: s)) = some (n, rest))
    (means : decimalValue? n = some value) :
    readNumber (minus negative ++ (whole ++ d :: s)) = some (value, rest) := by
  obtain ⟨c, cs, rfl, digit, zero⟩ := part.eq_cons
  obtain ⟨inf, nan, -⟩ := hasWord_digit digit (cs ++ d :: s)
  have sign := readSign_minus negative digit (cs ++ d :: s)
  have noBase (base : Char) (letter : base = 'x' ∨ base = 'o' ∨ base = 'b') (after : List Char) :
      minus negative ++ c :: (cs ++ d :: s) ≠ '0' :: base :: after := by
    cases negative with
    | true => exact fun same => absurd (List.cons.inj same).1 (by decide)
    | false =>
      intro same
      obtain ⟨rfl, behind⟩ := List.cons.inj same
      rw [zero rfl, List.nil_append] at behind
      obtain rfl := (List.cons.inj behind).1
      rcases next with rfl | rfl <;> revert letter <;> decide
  rw [List.cons_append] at read ⊢
  rw [readNumber]
  case x => exact fun after => noBase 'x' (by decide) after
  case x_1 => exact fun after => noBase 'o' (by decide) after
  case x_2 => exact fun after => noBase 'b' (by decide) after
  simp only [sign, inf, nan, read, Bool.false_eq_true, if_false, Option.bind_eq_bind, Option.bind_some]
  rw [decimalValue?] at means
  split_ifs at means ⊢
  · rw [means]
    rfl
  · cases means
    rfl

/-- A number is no text, no word and no date. -/
theorem readScalar_decimal (negative : Bool) {c : Char} (digit : c.isDigit = true) {cs : List Char}
    (number : ∀ d ∈ cs, d.isDigit = true ∨ d = '.') {rest after : List Char} {value : Document}
    (read : readNumber (minus negative ++ (c :: cs ++ '\n' :: rest)) = some (value, after)) :
    readScalar (minus negative ++ (c :: cs ++ '\n' :: rest)) = some (value, after) := by
  cases negative with
  | true =>
    have noMoment := startsMoment_minus (c :: cs ++ '\n' :: rest)
    simp only [minus, if_true, List.cons_append, List.nil_append] at read noMoment ⊢
    simp [readScalar, hasWord, List.isPrefixOf_cons_cons, noMoment, read]
  | false =>
    have noMoment := startsMoment_number (List.forall_mem_cons.mpr ⟨.inl digit, number⟩) rest
    obtain ⟨-, -, yes, no⟩ := hasWord_digit digit (cs ++ '\n' :: rest)
    have noQuote : c ≠ '"' := by rintro rfl; cases digit
    have noApostrophe : c ≠ '\'' := by rintro rfl; cases digit
    simp only [minus, Bool.false_eq_true, if_false, List.cons_append, List.nil_append] at read noMoment ⊢
    simp [readScalar, noQuote, noApostrophe, yes, no, noMoment, read]

theorem toList_toString (n : Int) :
    (toString n).toList = minus (decide (n < 0)) ++ Nat.toDigits 10 n.natAbs := by
  rw [Int.toString_eq_repr, Int.repr_eq_if]
  by_cases negative : n < 0
  · have magnitude : (-n).toNat = n.natAbs := by omega
    rw [if_neg (by omega), String.toList_append, Nat.toList_repr, magnitude, minus, if_pos (by simpa using negative)]
    rfl
  · have magnitude : n.toNat = n.natAbs := by omega
    rw [if_pos (by omega), Nat.toList_repr, magnitude, minus, if_neg (by simpa using negative)]
    rfl

theorem digitsValue_toDigits (n : Nat) :
    digitsValue 10 ((Nat.toDigits 10 n).map fun c => c.toNat - '0'.toNat) = n := by
  rw [digitsValue_map, Nat.ofDigitChars_toDigits (by decide) (by decide)]

theorem readScalar_int {n : Int} (held : Int64.minValue.toInt ≤ n ∧ n ≤ Int64.maxValue.toInt) (rest : List Char) :
    readScalar ((toString n).toList ++ '\n' :: rest) = some (.int n, '\n' :: rest) := by
  have part := isWholePart_toDigits n.natAbs
  have read := readDecimal_whole (decide (n < 0)) part rest
  have means : decimalValue? ⟨decide (n < 0), (Nat.toDigits 10 n.natAbs).map fun c => c.toNat - '0'.toNat,
      none, none⟩ = some (.int n) := by
    have value : (if decide (n < 0) = true then -(n.natAbs : Int) else n.natAbs) = n := by
      split_ifs with negative
      · have below := of_decide_eq_true negative
        omega
      · have above : ¬n < 0 := by simpa using negative
        omega
    simp only [decimalValue?, NumberText.isWhole, Option.isNone_none, Bool.and_self, if_true, NumberText.toInt,
      digitsValue_toDigits, value, wholeNumber?, if_pos held]
  have number := readNumber_decimal (decide (n < 0)) part (.inr rfl) read means
  rw [toList_toString, List.append_assoc]
  obtain ⟨c, cs, digits, digit, -⟩ := part.eq_cons
  rw [digits] at number part ⊢
  exact readScalar_decimal _ digit
    (fun d member => .inl (part.1 d (List.mem_cons_of_mem c member))) number

theorem ne_infinity {x : Float} (finite : x.isFinite = true) : (x == 1.0 / 0.0) = false := by
  change x.toModel.unpack.isFinite = true at finite
  change x.toModel.unpack.beq (1.0 / 0.0 : Float).toModel.unpack = false
  have infinite : (1.0 / 0.0 : Float).toModel.unpack = .infinity .positive := rfl
  rw [infinite]
  cases unpacked : x.toModel.unpack with
  | infinity | notANumber =>
    rw [unpacked] at finite
    cases finite
  | _ => rfl

/-- A text with a point that is read as a double. -/
def IsPointText (text : List Char) (x : Float) : Prop :=
  ∃ negative whole fraction, text = minus negative ++ (whole ++ '.' :: fraction) ∧ IsWholePart whole ∧
    (∀ c ∈ fraction, c.isDigit = true) ∧ fraction ≠ [] ∧
    NumberText.toFloat ⟨negative, whole.map fun c => c.toNat - '0'.toNat,
      some (fraction.map fun c => c.toNat - '0'.toNat), none⟩ = x

theorem IsPointText.readScalar {text : List Char} {x : Float} (t : IsPointText text x) (finite : x.isFinite = true)
    (rest : List Char) : readScalar (text ++ '\n' :: rest) = some (.float x, '\n' :: rest) := by
  obtain ⟨negative, whole, fraction, rfl, part, digits, some, value⟩ := t
  have read := readDecimal_point negative part digits some rest
  have means : decimalValue? ⟨negative, whole.map fun c => c.toNat - '0'.toNat,
      .some (fraction.map fun c => c.toNat - '0'.toNat), none⟩ = .some (.float x) := by
    simp only [decimalValue?, NumberText.isWhole, Option.isNone_some, Bool.false_and, Bool.false_eq_true,
      if_false, value, ne_infinity finite]
  have number := readNumber_decimal negative part (.inl rfl) read means
  obtain ⟨c, cs, rfl, digit, -⟩ := part.eq_cons
  have inNumber : ∀ d ∈ cs ++ '.' :: fraction, d.isDigit = true ∨ d = '.' := by
    intro d member
    rcases List.mem_append.mp member with inWhole | behind
    · exact .inl (part.1 d (List.mem_cons_of_mem c inWhole))
    · rcases List.mem_cons.mp behind with rfl | inFraction
      · exact .inr rfl
      · exact .inl (digits d inFraction)
  have scalar := readScalar_decimal negative digit inNumber
    (show _ = Option.some (Document.float x, '\n' :: rest) by simpa using number)
  simpa using scalar

end Toml

end SignalDesk
