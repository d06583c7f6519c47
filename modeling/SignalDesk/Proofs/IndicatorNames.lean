import SignalDesk.Indicator
import SignalDesk.Proofs.InstantText

namespace SignalDesk

/-- Where a number stands between texts, the first of them without a digit, all three can be told. -/
theorem eq_of_digits_between {before front behind back : List Char} {m n : Nat}
    (beforeFree : ∀ c ∈ before, c.isDigit = false) (frontFree : ∀ c ∈ front, c.isDigit = false)
    (behindEnds : EndsNumber behind) (backEnds : EndsNumber back)
    (same : before ++ (Nat.toDigits 10 m ++ behind) = front ++ (Nat.toDigits 10 n ++ back)) :
    before = front ∧ m = n ∧ behind = back := by
  have digits (k : Nat) : ∀ c ∈ Nat.toDigits 10 k, c.isDigit = true :=
    fun c member => Nat.isDigit_of_mem_toDigits (by decide) (by decide) member
  have lead {stem rest : List Char} (free : ∀ c ∈ stem, c.isDigit = false) (k : Nat) :
      (stem ++ (Nat.toDigits 10 k ++ rest)).takeWhile (fun c => !c.isDigit) = stem := by
    rw [List.takeWhile_append_of_pos (by simpa using free)]
    obtain ⟨c, cs, first⟩ := List.exists_cons_of_ne_nil (Nat.toDigits_ne_nil (n := k) (b := 10))
    have digit := digits k c (first ▸ List.mem_cons_self)
    simp [first, digit]
  have stems : before = front := by
    rw [← lead beforeFree m, same, lead frontFree n]
  subst stems
  have rest := congrArg (takeDigits 10) (List.append_cancel_left same)
  rw [takeDigits_append (digits m) behindEnds, takeDigits_append (digits n) backEnds, Prod.mk.injEq] at rest
  refine ⟨rfl, ?_, rest.2⟩
  have values := congrArg (digitsValue 10) rest.1
  rwa [digitsValue_map, digitsValue_map, Nat.ofDigitChars_toDigits (by decide) (by decide),
    Nat.ofDigitChars_toDigits (by decide) (by decide)] at values

namespace Indicator

/-- What stands in front of the period in the name of an indicator. -/
def stem : Indicator → String
  | sma _ => "sma_"
  | ema _ => "ema_"
  | rsi _ => "rsi_"
  | atr _ => "atr_"
  | bollinger band _ _ => "bollinger_" ++ band.label ++ "_"
  | donchian band _ => "donchian_" ++ band.label ++ "_"

/-- What stands behind the period. -/
def suffix : Indicator → String
  | bollinger _ _ multiplier => "_" ++ showNumber multiplier
  | _ => ""

theorem toList_name (indicator : Indicator) : indicator.name.toList =
    indicator.stem.toList ++ (Nat.toDigits 10 indicator.period ++ indicator.suffix.toList) := by
  have asItIs (s : String) : toString s = s := rfl
  cases indicator <;> simp [name, stem, suffix, period, asItIs]

theorem isDigit_stem (indicator : Indicator) : ∀ c ∈ indicator.stem.toList, c.isDigit = false := by
  cases indicator with
  | bollinger band _ _ => cases band <;> simp [stem, Band.label]
  | donchian band _ => cases band <;> simp [stem, Band.label]
  | _ => simp [stem]

theorem endsNumber_suffix (indicator : Indicator) : EndsNumber indicator.suffix.toList := by
  cases indicator with
  | bollinger _ _ multiplier =>
    simp only [suffix, String.toList_append]
    exact endsNumber_cons '_' _ rfl
  | _ => exact nofun

/-- A name tells the kind of an indicator, its period and the text of its multiplier. -/
theorem parts_of_name_eq {i j : Indicator} (same : i.name = j.name) :
    i.stem = j.stem ∧ i.period = j.period ∧ i.suffix = j.suffix := by
  have chars := congrArg String.toList same
  rw [toList_name, toList_name] at chars
  obtain ⟨stems, periods, suffixes⟩ := eq_of_digits_between i.isDigit_stem j.isDigit_stem
    i.endsNumber_suffix j.endsNumber_suffix chars
  exact ⟨String.toList_inj.mp stems, periods, String.toList_inj.mp suffixes⟩

theorem lookback_eq_of_name_eq {i j : Indicator} (same : i.name = j.name) : i.lookback = j.lookback := by
  obtain ⟨stems, periods, -⟩ := parts_of_name_eq same
  have byStem (indicator : Indicator) : indicator.lookback =
      if indicator.stem = "rsi_" ∨ indicator.stem = "atr_" then indicator.period
      else indicator.period - 1 := by
    cases indicator with
    | bollinger band _ _ => cases band <;> rfl
    | donchian band _ => cases band <;> rfl
    | _ => rfl
  rw [byStem, byStem, stems, periods]

end Indicator

end SignalDesk
