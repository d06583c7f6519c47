import Mathlib.Algebra.Group.Nat.Defs
import SignalDesk.Proofs.Calendar

namespace SignalDesk

/-- A number ends in front of these characters. -/
def EndsNumber (rest : List Char) : Prop := ∀ c ∈ rest.head?, digitValue? 10 c = none

theorem endsNumber_cons (c : Char) (rest : List Char) (other : digitValue? 10 c = none) :
    EndsNumber (c :: rest) := by
  intro d first
  cases first
  exact other

theorem isDigit_bounds {c : Char} (digit : c.isDigit = true) : 48 ≤ c.toNat ∧ c.toNat ≤ 57 := by
  simp only [Char.isDigit, Bool.and_eq_true, decide_eq_true_eq, ge_iff_le, UInt32.le_iff_toNat_le] at digit
  exact digit

theorem digitValue?_of_isDigit {c : Char} (digit : c.isDigit = true) :
    digitValue? 10 c = some (c.toNat - '0'.toNat) := by
  have bounds := isDigit_bounds digit
  have decimal : '0' ≤ c ∧ c ≤ '9' := bounds
  have zero : '0'.toNat = 48 := rfl
  simp only [digitValue?, if_pos decimal, Option.filter_some, zero]
  rw [if_pos (by simp; omega)]

theorem isBlank_of_isDigit {c : Char} (digit : c.isDigit = true) : isBlank c = false := by
  have bounds := isDigit_bounds digit
  simp [isBlank, blankRanges]
  omega

theorem takeDigits_append {cs rest : List Char} (digits : ∀ c ∈ cs, c.isDigit = true) (ends : EndsNumber rest) :
    takeDigits 10 (cs ++ rest) = (cs.map fun c => c.toNat - '0'.toNat, rest) := by
  induction cs with
  | nil =>
    cases rest with
    | nil => rfl
    | cons c rest => simp only [List.nil_append, takeDigits, ends c rfl, List.map_nil]
  | cons c cs ih =>
    rw [List.forall_mem_cons] at digits
    simp only [List.cons_append, takeDigits, digitValue?_of_isDigit digits.1, ih digits.2, List.map_cons]

theorem digitsValue_map (cs : List Char) :
    digitsValue 10 (cs.map fun c => c.toNat - '0'.toNat) = Nat.ofDigitChars 10 cs 0 := by
  simp only [digitsValue, Nat.ofDigitChars_eq_foldl, List.foldl_map, Nat.mul_comm]

theorem skipBlanks_cons {c : Char} {rest : List Char} (visible : isBlank c = false) :
    skipBlanks (c :: rest) = c :: rest := by
  simp [skipBlanks, visible]

theorem skipBlanks_digits {cs rest : List Char} (digits : ∀ c ∈ cs, c.isDigit = true) (some : cs ≠ []) :
    skipBlanks (cs ++ rest) = cs ++ rest := by
  cases cs with
  | nil => exact absurd rfl some
  | cons c cs => exact skipBlanks_cons (isBlank_of_isDigit (digits c List.mem_cons_self))

namespace Instant

theorem readDigits_append {width : Option Nat} {cs rest : List Char} (digits : ∀ c ∈ cs, c.isDigit = true)
    (some : cs ≠ []) (narrow : ∀ w ∈ width, cs.length ≤ w) (ends : EndsNumber rest) :
    readDigits width (cs ++ rest) = .some (Nat.ofDigitChars 10 cs 0, rest) := by
  have all : (width.map (cs.map fun c => c.toNat - '0'.toNat).take).getD
      (cs.map fun c => c.toNat - '0'.toNat) = cs.map fun c => c.toNat - '0'.toNat := by
    cases width with
    | none => rfl
    | some w => exact List.take_of_length_le (by rw [List.length_map]; exact narrow w rfl)
  simp only [readDigits, takeDigits_append digits ends, all, digitsValue_map]
  simp [some]

theorem toList_padded (width n : Nat) : (padded width n).toList =
    List.replicate (width - (Nat.toDigits 10 n).length) '0' ++ Nat.toDigits 10 n := by
  simp [padded]

theorem isDigit_of_mem_padded {width n : Nat} : ∀ c ∈ (padded width n).toList, c.isDigit = true := by
  intro c member
  rw [toList_padded, List.mem_append] at member
  rcases member with zero | digit
  · rw [List.eq_of_mem_replicate zero]
    rfl
  · exact Nat.isDigit_of_mem_toDigits (by decide) (by decide) digit

theorem padded_ne_nil (width n : Nat) : (padded width n).toList ≠ [] := by
  rw [toList_padded]
  exact List.append_ne_nil_of_right_ne_nil _ Nat.toDigits_ne_nil

theorem ofDigitChars_padded (width n : Nat) : Nat.ofDigitChars 10 (padded width n).toList 0 = n := by
  rw [toList_padded, Nat.ofDigitChars_append, Nat.ofDigitChars_replicate_zero, Nat.mul_zero,
    Nat.ofDigitChars_toDigits (by decide) (by decide)]

theorem length_padded {width n : Nat} (pos : 0 < width) (fits : n < 10 ^ width) :
    (padded width n).toList.length = width := by
  have digits : (Nat.toDigits 10 n).length ≤ width :=
    (Nat.length_toDigits_le_iff (by decide) pos).mpr fits
  rw [toList_padded, List.length_append, List.length_replicate]
  omega

/-- A number is read back from its digits, whatever the width that was asked for. -/
theorem readDigits_padded {width n : Nat} {limit : Option Nat} {rest : List Char}
    (narrow : ∀ w ∈ limit, (padded width n).toList.length ≤ w) (ends : EndsNumber rest) :
    readDigits limit ((padded width n).toList ++ rest) = some (n, rest) := by
  rw [readDigits_append isDigit_of_mem_padded (padded_ne_nil width n) narrow ends, ofDigitChars_padded]

theorem readTwo_padded (n : Nat) {rest : List Char} (fits : n < 100) (ends : EndsNumber rest) :
    readTwo ((padded 2 n).toList ++ rest) = some (n, rest) := by
  rw [readTwo, skipBlanks_digits isDigit_of_mem_padded (padded_ne_nil 2 n)]
  refine readDigits_padded ?_ ends
  rintro w ⟨⟩
  exact Nat.le_of_eq (length_padded (by decide) fits)

theorem expect_cons {mark : Char} {rest : List Char} (visible : isBlank mark = false) :
    expect mark (mark :: rest) = some rest := by
  simp [expect, skipBlanks_cons visible]

theorem readYear_digits {cs rest : List Char} (digits : ∀ c ∈ cs, c.isDigit = true) (some : cs ≠ []) :
    readYear (cs ++ rest) = (readDigits (.some 4) (cs ++ rest)).map fun (n, rest) => ((n : Int), rest) := by
  rw [readYear, skipBlanks_digits digits some]
  obtain ⟨c, cs, rfl⟩ := List.exists_cons_of_ne_nil some
  have digit := digits c List.mem_cons_self
  have noMinus : c ≠ '-' := by rintro rfl; cases digit
  have noPlus : c ≠ '+' := by rintro rfl; cases digit
  simp [noMinus, noPlus]

theorem readYear_minus (rest : List Char) :
    readYear ('-' :: rest) = (readDigits none rest).map fun (n, rest) => (-(n : Int), rest) := rfl

theorem readYear_plus (rest : List Char) :
    readYear ('+' :: rest) = (readDigits none rest).map fun (n, rest) => ((n : Int), rest) := rfl

theorem readYear_yearText (year : Int) (rest : List Char) :
    readYear ((yearText year).toList ++ '-' :: rest) = some (year, '-' :: rest) := by
  have ends : EndsNumber ('-' :: rest) := endsNumber_cons _ _ rfl
  have signed : readDigits none ((padded 4 year.natAbs).toList ++ '-' :: rest) =
      some (year.natAbs, '-' :: rest) := readDigits_padded nofun ends
  by_cases plain : 0 ≤ year ∧ year ≤ 9999
  · have fits : year.natAbs < 10 ^ 4 := by omega
    have narrow : ∀ w ∈ some 4, (padded 4 year.natAbs).toList.length ≤ w := by
      rintro w ⟨⟩
      exact Nat.le_of_eq (length_padded (by decide) fits)
    rw [yearText, if_pos plain, readYear_digits isDigit_of_mem_padded (padded_ne_nil 4 _),
      readDigits_padded narrow ends]
    simp [Int.natAbs_of_nonneg plain.1]
  · rw [yearText, if_neg plain, String.toList_append, List.append_assoc]
    by_cases negative : year < 0
    · have value : -(year.natAbs : Int) = year := by omega
      simp only [if_pos negative, String.reduceToList, List.cons_append, List.nil_append, readYear_minus,
        signed, Option.map_some, value]
    · have value : (year.natAbs : Int) = year := by omega
      simp only [if_neg negative, String.reduceToList, List.cons_append, List.nil_append, readYear_plus,
        signed, Option.map_some, value]

theorem readDate_dateText (t : Instant) (rest : List Char) :
    readDate (t.dateText.toList ++ 'T' :: rest) =
      some (CivilDate.ofDays (t.seconds.fdiv 86400), 'T' :: rest) := by
  obtain ⟨d, -, sameDate⟩ := CivilDate.exists_marchDay (t.seconds.fdiv 86400)
  have valid : (CivilDate.ofDays (t.seconds.fdiv 86400)).isValid = true := sameDate ▸ d.isValid_date
  simp only [dateText]
  generalize CivilDate.ofDays (t.seconds.fdiv 86400) = date at valid ⊢
  have twoDigits : date.month < 100 ∧ date.day < 100 := by
    rw [CivilDate.isValid_iff] at valid
    have length : CivilDate.monthLength date.year date.month ≤ 31 := by
      simp only [CivilDate.monthLength]
      split_ifs <;> omega
    omega
  have hyphen (rest : List Char) : expect '-' ('-' :: rest) = some rest := expect_cons rfl
  have month (rest : List Char) := readTwo_padded date.month twoDigits.1 (endsNumber_cons '-' rest rfl)
  have day := readTwo_padded date.day twoDigits.2 (endsNumber_cons 'T' rest rfl)
  simp only [String.toList_append, List.append_assoc, String.reduceToList, List.cons_append, List.nil_append]
  simp [readDate, readYear_yearText, hyphen, month, day, valid]

theorem readFraction_padded {width k : Nat} {rest : List Char} (pos : 0 < width) (short : width ≤ 9)
    (fits : k < 10 ^ width) (ends : EndsNumber rest) :
    readFraction ('.' :: ((padded width k).toList ++ rest)) = some (k * 10 ^ (9 - width), rest) := by
  have length := length_padded pos fits
  have value := ofDigitChars_padded width k
  obtain ⟨c, cs, chars⟩ := List.exists_cons_of_ne_nil (padded_ne_nil width k)
  rw [chars] at length value
  rw [readFraction, takeDigits_append isDigit_of_mem_padded ends, chars]
  have kept : (((c :: cs).map fun c => c.toNat - '0'.toNat).take 9) =
      (c :: cs).map fun c => c.toNat - '0'.toNat :=
    List.take_of_length_le (by rw [List.length_map, length]; exact short)
  have all : digitsValue 10 ((c :: cs).map fun c => c.toNat - '0'.toNat) = k := by
    rw [digitsValue_map, value]
  simp only [List.map_cons] at kept all ⊢
  simp only [kept, all, List.length_cons, List.length_map]
  simp only [List.length_cons] at length
  rw [length]
  rfl

theorem readFraction_fractionText {nanos : Nat} (fits : nanos < 1000000000) (rest : List Char) :
    readFraction ((fractionText nanos).toList ++ 'Z' :: rest) = some (nanos, 'Z' :: rest) := by
  have ends : EndsNumber ('Z' :: rest) := endsNumber_cons _ _ rfl
  have point (width k : Nat) : ("." ++ padded width k).toList ++ 'Z' :: rest =
      '.' :: ((padded width k).toList ++ 'Z' :: rest) := by simp
  rw [fractionText]
  split_ifs with none millis micros
  · subst none
    rfl
  · rw [point, readFraction_padded (by decide) (by decide) (by omega) ends]
    simp only [Option.some.injEq, Prod.mk.injEq, and_true]
    omega
  · rw [point, readFraction_padded (by decide) (by decide) (by omega) ends]
    simp only [Option.some.injEq, Prod.mk.injEq, and_true]
    omega
  · rw [point, readFraction_padded (by decide) (by decide) (by omega) ends]
    simp

theorem endsNumber_fractionText (nanos : Nat) (rest : List Char) :
    EndsNumber ((fractionText nanos).toList ++ 'Z' :: rest) := by
  rw [fractionText]
  split_ifs
  · exact endsNumber_cons _ _ rfl
  all_goals
    rw [String.toList_append, List.append_assoc]
    exact endsNumber_cons _ _ rfl

/-- A sixtieth second is a leap second. -/
theorem readTime_parts {hour minute second nanos : Nat} (hourFits : hour < 24) (minuteFits : minute < 60)
    (secondFits : second ≤ 60) (nanosFit : nanos < 1000000000) (rest : List Char) :
    readTime ((padded 2 hour ++ ":" ++ padded 2 minute ++ ":" ++ padded 2 second ++
        fractionText nanos).toList ++ 'Z' :: rest) =
      some (hour * 3600 + minute * 60 + (if second = 60 then 59 else second),
        nanos + (if second = 60 then 1000000000 else 0), 'Z' :: rest) := by
  have readHour (rest : List Char) := readTwo_padded hour (by omega) (endsNumber_cons ':' rest rfl)
  have readMinute (rest : List Char) := readTwo_padded minute (by omega) (endsNumber_cons ':' rest rfl)
  have readSecond := readTwo_padded second (by omega) (endsNumber_fractionText nanos rest)
  have colon (rest : List Char) : expect ':' (':' :: rest) = some rest := expect_cons rfl
  have inRange : hour < 24 ∧ minute < 60 ∧ second ≤ 60 := ⟨hourFits, minuteFits, secondFits⟩
  simp only [String.toList_append, List.append_assoc, String.reduceToList, List.cons_append, List.nil_append]
  simp [readTime, readHour, readMinute, readSecond, colon, readFraction_fractionText nanosFit rest, inRange]

/-- A time that a clock can show: of a second, or of a leap second at the end of a minute. -/
structure Regular (t : Instant) : Prop where
  inRange : t.inRange = true
  nanos : t.nanos < 1000000000 ∨ t.seconds % 60 = 59 ∧ t.nanos < 2000000000

theorem readTime_timeText {t : Instant} (regular : t.Regular) (rest : List Char) :
    readTime (t.timeText.toList ++ 'Z' :: rest) =
      some ((t.seconds - t.seconds.fdiv 86400 * 86400).toNat, t.nanos, 'Z' :: rest) := by
  have nanos := regular.nanos
  simp only [timeText, Int.fdiv_eq_ediv_of_nonneg t.seconds (by decide : (0 : Int) ≤ 86400)]
  obtain ⟨ofDay, atDay⟩ : ∃ n : Nat, n = (t.seconds - t.seconds / 86400 * 86400).toNat := ⟨_, rfl⟩
  by_cases leap : 1000000000 ≤ t.nanos
  · have sixtieth : ofDay % 60 + 1 = 60 := by omega
    simp only [← atDay, leap, decide_true, if_true, sixtieth]
    rw [readTime_parts (by omega) (by omega) (by omega) (by omega)]
    simp only [if_true, Option.some.injEq, Prod.mk.injEq, and_true]
    omega
  · have others : ofDay % 60 ≠ 60 := by omega
    simp only [← atDay, leap, decide_false, Bool.false_eq_true, if_false, Nat.add_zero]
    rw [readTime_parts (by omega) (by omega) (by omega) (by omega)]
    simp only [if_neg others, Option.some.injEq, Prod.mk.injEq, and_true]
    omega

/-- A time is read back from its text. -/
theorem ofText?_toText {t : Instant} (regular : t.Regular) : ofText? t.toText = some t := by
  have date := readDate_dateText t (t.timeText.toList ++ ['Z'])
  have time := readTime_timeText regular []
  have offset : readOffset (skipBlanks ['Z']) = some (0, []) := rfl
  have chars : t.toText.toList = t.dateText.toList ++ 'T' :: (t.timeText.toList ++ ['Z']) := by
    simp [toText]
  have inRange := regular.inRange
  obtain ⟨d, sameDays, sameDate⟩ := CivilDate.exists_marchDay (t.seconds.fdiv 86400)
  have days : (CivilDate.ofDays (t.seconds.fdiv 86400)).toDays = t.seconds.fdiv 86400 := by
    rw [sameDate, d.toDays_date, sameDays]
  rw [Int.fdiv_eq_ediv_of_nonneg t.seconds (by decide : (0 : Int) ≤ 86400)] at *
  -- the date is read as the start of its day, and the range begins and ends with a whole day
  have startInRange : (Instant.mk (t.seconds / 86400 * 86400) 0).inRange = true := by
    simp only [Instant.inRange, Bool.and_eq_true, decide_eq_true_eq] at inRange ⊢
    generalize CivilDate.toDays _ = first at inRange ⊢
    generalize CivilDate.toDays _ = last at inRange ⊢
    omega
  obtain ⟨ofDay, atDay⟩ : ∃ n : Nat, n = (t.seconds - t.seconds / 86400 * 86400).toNat := ⟨_, rfl⟩
  have whole : t.seconds / 86400 * 86400 + ofDay = t.seconds := by omega
  have finish : skipBlanks [] = [] := rfl
  rw [← atDay] at time
  simp [ofText?, chars, date, time, offset, days, whole, startInRange, inRange, finish]

end Instant

end SignalDesk
