import Mathlib.Tactic.ByContra
import Mathlib.Tactic.SplitIfs
import SignalDesk.Instant

namespace SignalDesk.CivilDate

/-- The year of a day within a cycle of 400 years that begin in March, and the day of that year. Only
a leap year has a day of number 365. -/
theorem yearOfCycle_bounds {day year dayOfYear : Int} (nonneg : 0 ≤ day) (within : day < 146097)
    (atYear : year = (day - day / 1460 + day / 36524 - day / 146096) / 365)
    (atDay : dayOfYear = day - (365 * year + year / 4 - year / 100)) :
    (0 ≤ year ∧ year < 400) ∧ (0 ≤ dayOfYear ∧ dayOfYear ≤ 365) ∧
      (dayOfYear = 365 → (year + 1) % 4 = 0 ∧ ((year + 1) % 100 ≠ 0 ∨ (year + 1) % 400 = 0)) := by
  have last : day / 146096 = 0 ∨ day = 146096 := by omega
  have century : day / 36524 = 0 ∨ day / 36524 = 1 ∨ day / 36524 = 2 ∨ day / 36524 = 3 ∨
      day / 36524 = 4 := by omega
  rcases last with inside | rfl
  · have hundreds : ∃ c : Int, 0 ≤ c ∧ c ≤ 3 ∧ day / 36524 = c ∧ year / 100 = c ∧ 0 ≤ year ∧
        year < 400 := by
      rcases century with c | c | c | c | c
      · exact ⟨0, by omega⟩
      · exact ⟨1, by omega⟩
      · exact ⟨2, by omega⟩
      · exact ⟨3, by omega⟩
      · omega
    obtain ⟨c, cNonneg, cLast, dayHundreds, yearHundreds, yearNonneg, yearLast⟩ := hundreds
    refine ⟨⟨yearNonneg, yearLast⟩, ⟨by omega, by omega⟩, fun long => ?_⟩
    have fourth : year % 4 = 3 := by
      by_contra common
      have fours : day / 1460 = year / 4 := by omega
      omega
    refine ⟨by omega, ?_⟩
    by_contra short
    omega
  · -- the leap day that ends a cycle: the quotient by 146096 is there for it alone
    subst atYear atDay
    decide

/-- A day by its cycle, its year within the cycle and its number within the year. Cycles and years begin
in March, so that the leap day is the last one. -/
structure MarchDay where
  cycle : Int
  year : Int
  dayOfYear : Int
  year_bounds : 0 ≤ year ∧ year < 400
  dayOfYear_bounds : 0 ≤ dayOfYear ∧ dayOfYear ≤ 365
  leap : dayOfYear = 365 → (year + 1) % 4 = 0 ∧ ((year + 1) % 100 ≠ 0 ∨ (year + 1) % 400 = 0)

theorem isValid_iff {date : CivilDate} :
    date.isValid = true ↔ (1 ≤ date.month ∧ date.month ≤ 12) ∧ 1 ≤ date.day ∧
      date.day ≤ monthLength date.year date.month := by
  simp [isValid, and_assoc]

namespace MarchDay

def toDays (d : MarchDay) : Int :=
  d.cycle * 146097 + (d.year * 365 + d.year / 4 - d.year / 100 + d.dayOfYear) - 719468

/-- The month, March being the first with the number zero. -/
def month (d : MarchDay) : Int := (5 * d.dayOfYear + 2) / 153

def day (d : MarchDay) : Int := d.dayOfYear - (153 * d.month + 2) / 5 + 1

def date (d : MarchDay) : CivilDate :=
  let month := if d.month < 10 then d.month + 3 else d.month - 9
  let year := d.year + d.cycle * 400
  ⟨if month ≤ 2 then year + 1 else year, month.toNat, d.day.toNat⟩

theorem month_bounds (d : MarchDay) : (0 ≤ d.month ∧ d.month ≤ 11) ∧ 1 ≤ d.day := by
  have within := d.dayOfYear_bounds
  simp only [day, month]
  omega

/-- The civil year of the day: the leap day and the month before it end a year of March days. -/
theorem toDays_date (d : MarchDay) : d.date.toDays = d.toDays := by
  obtain ⟨⟨monthNonneg, monthLast⟩, dayPos⟩ := d.month_bounds
  have within := d.year_bounds
  have split : d.dayOfYear = (153 * d.month + 2) / 5 + d.day - 1 := by simp only [day]; omega
  have dayNat : (d.day.toNat : Int) = d.day := Int.toNat_of_nonneg (by omega)
  have sameCycle : (d.year + d.cycle * 400) / 400 = d.cycle := by omega
  have sameYear : d.year + d.cycle * 400 - d.cycle * 400 = d.year := by omega
  by_cases early : d.month < 10
  · have inYear : ¬ (d.month + 3).toNat ≤ 2 := by omega
    have notFirst : ¬ d.month + 3 ≤ 2 := by omega
    have monthNat : ((d.month + 3).toNat : Int) - 3 = d.month := by omega
    simp (disch := decide) only [CivilDate.toDays, date, if_pos early, if_neg inYear, if_neg notFirst, dayNat,
      monthNat, Int.fdiv_eq_ediv_of_nonneg, sameCycle, sameYear, toDays]
    omega
  · have inYear : (d.month - 9).toNat ≤ 2 := by omega
    have first : d.month - 9 ≤ 2 := by omega
    have monthNat : ((d.month - 9).toNat : Int) + 9 = d.month := by omega
    simp (disch := decide) only [CivilDate.toDays, date, if_neg early, if_pos inYear, if_pos first, dayNat,
      monthNat, Int.fdiv_eq_ediv_of_nonneg, Int.add_sub_cancel, sameCycle, sameYear, toDays]
    omega

theorem isLeapYear_iff (year : Int) :
    isLeapYear year = true ↔ year % 4 = 0 ∧ (year % 100 ≠ 0 ∨ year % 400 = 0) := by
  simp [isLeapYear]

theorem isValid_date (d : MarchDay) : d.date.isValid = true := by
  obtain ⟨⟨monthNonneg, monthLast⟩, dayPos⟩ := d.month_bounds
  have within := d.dayOfYear_bounds
  have leap := d.leap
  have atMonth : d.month = (5 * d.dayOfYear + 2) / 153 := rfl
  have atDay : d.day = d.dayOfYear - (153 * d.month + 2) / 5 + 1 := rfl
  rw [isValid_iff]
  by_cases february : d.month = 11
  · have last : d.day ≤ 29 := by omega
    have date : d.date = ⟨d.year + d.cycle * 400 + 1, 2, d.day.toNat⟩ := by simp [date, february]
    rw [date]
    simp only [monthLength, if_true, isLeapYear_iff]
    split_ifs <;> omega
  · have notFebruary : d.date.month ≠ 2 := by
      simp only [date]
      omega
    simp only [monthLength, if_neg notFebruary]
    simp only [date]
    split_ifs <;> omega

end MarchDay

/-- Every day is a day of a year that begins in March. -/
theorem exists_marchDay (days : Int) : ∃ d : MarchDay, d.toDays = days ∧ ofDays days = d.date := by
  obtain ⟨cycle, atCycle⟩ : ∃ cycle, cycle = (days + 719468) / 146097 := ⟨_, rfl⟩
  obtain ⟨day, atDay⟩ : ∃ day, day = days + 719468 - cycle * 146097 := ⟨_, rfl⟩
  obtain ⟨year, atYear⟩ : ∃ year, year = (day - day / 1460 + day / 36524 - day / 146096) / 365 := ⟨_, rfl⟩
  obtain ⟨dayOfYear, atDayOfYear⟩ : ∃ n, n = day - (365 * year + year / 4 - year / 100) := ⟨_, rfl⟩
  obtain ⟨yearBounds, dayBounds, leap⟩ := yearOfCycle_bounds (by omega) (by omega) atYear atDayOfYear
  refine ⟨⟨cycle, year, dayOfYear, yearBounds, dayBounds, leap⟩, ?_, ?_⟩
  · simp only [MarchDay.toDays]
    omega
  · simp (disch := decide) only [ofDays, MarchDay.date, MarchDay.day, MarchDay.month, Int.fdiv_eq_ediv_of_nonneg,
      ← atCycle, ← atDay, ← atYear, ← atDayOfYear]
    rfl

end SignalDesk.CivilDate
