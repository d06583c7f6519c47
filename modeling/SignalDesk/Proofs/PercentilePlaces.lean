import SignalDesk.Proofs.VolatilityGate
import SignalDesk.Proofs.WholeParts

namespace SignalDesk

open Float.Model Float.Model.UnpackedFloat LinePlace

theorem isFinite_hundred : (100.0 : Float).isFinite = true := by decide

theorem exactValue_hundred : exactValue 100.0 = 100 := by
  have read : Rounds (100 : Nat) (100 : UInt64).toFloat := (ofNat_settled 100).rounds
  have same : (100 : UInt64).toFloat = 100.0 := by decide
  rw [← same, (read.whole (by decide)).2]
  rfl

/-- The double in front of one at a place. -/
theorem exactValue_le_of_lt {x y : Float} {place : Nat} (less : x < y) (atPlace : linePlace y = (place + 1 : Nat)) :
    exactValue x ≤ exactValue y - gapAt place := by
  have before := (lt_iff_linePlace.mp less).2.2
  have next : exactValue y = sizeAt place + gapAt place := by
    rw [exactValue, atPlace, ← sizeAt_succ]
    rfl
  rw [next, add_sub_cancel_right]
  exact placeValue_strictMono.monotone (show linePlace x ≤ (place : Nat) by omega)

variable {p : Float}

theorem finite_of_percentage (positive : 0.0 < p) (less : p < 100.0) : p.isFinite = true :=
  isFinite_of_le isFinite_hundred (double_le_of_lt positive) (double_le_of_lt less)

/-- The greatest double below one. -/
theorem sizeAt_beforeOne : sizeAt (1023 * 2 ^ 52 - 1) = 1 - 1 / 2 ^ 53 := by
  have one := exactValue_one
  have unit := tickSize_whole
  have next := sizeAt_succ (1023 * 2 ^ 52 - 1)
  rw [exactValue, show linePlace 1.0 = (1023 * 2 ^ 52 - 1 + 1 : Nat) by decide] at one
  change sizeAt (1023 * 2 ^ 52 - 1 + 1) = 1 at one
  rw [tickSize_add 1021 53] at unit
  rw [one, gapAt_eq_tickSize (k := 1021) (by decide)] at next
  generalize sizeAt (1023 * 2 ^ 52 - 1) = before at *
  generalize tickSize 1021 = gap at *
  linarith

/-- A percentage below a hundred is a part that is below one by at least half the precision of a double. -/
theorem fraction_bounds (positive : 0.0 < p) (less : p < 100.0) :
    (p / 100.0).isFinite = true ∧ 0 ≤ exactValue (p / 100.0) ∧ exactValue (p / 100.0) ≤ 1 - 1 / 2 ^ 53 := by
  have finite := finite_of_percentage positive less
  have rounds := rounds_div finite isFinite_hundred (by rw [exactValue_hundred]; decide)
  have low := (nonneg_iff_exactValue (isNaN_eq_false finite)).mp (double_le_of_lt positive)
  have high := exactValue_le_of_lt less (show linePlace 100.0 = (4636737291354636287 + 1 : Nat) by decide)
  have unit := tickSize_whole
  rw [gapAt_eq_tickSize (k := 1028) (by decide), exactValue_hundred] at high
  rw [tickSize_add 1028 46] at unit
  rw [exactValue_hundred] at rounds
  obtain ⟨quotientFinite, nonneg, -⟩ := rounds.of_unit (by positivity) (by linarith)
  have below : exactValue p / 100 ≤ sizeAt (1023 * 2 ^ 52 - 1) := by
    rw [sizeAt_beforeOne]
    linarith
  have place := rounds.nearest.le_of_le_placeValue (j := (1023 * 2 ^ 52 - 1 : Nat)) (by decide) below
  exact ⟨quotientFinite, nonneg, (placeValue_strictMono.monotone place).trans_eq sizeAt_beforeOne⟩

/-- What lies below a double by half the precision is rounded to the double in front of it or further down. -/
theorem linePlace_le_of_rounds {q : ℚ} {x : Float} {place : Nat} (rounds : Rounds q x) (normal : 2 ^ 52 ≤ place)
    (below : q ≤ (1 - 1 / 2 ^ 53) * sizeAt (place + 1)) : linePlace x ≤ place := by
  obtain ⟨s, size, n, nonneg, value, nearest, found⟩ := rounds.nearest
  by_contra above
  cases s with
  | negative =>
    rw [found] at above
    simp only [Sign.apply] at above
    omega
  | positive =>
    rw [found] at above
    simp only [Sign.apply] at above
    obtain ⟨before, rfl⟩ : ∃ before, n = before + 1 := ⟨n - 1, by omega⟩
    have far : sizeAt place ≤ sizeAt before := sizeAt_strictMono.monotone (by omega)
    have gap := gapAt_le_of_normal normal
    have next := sizeAt_succ place
    have positive := gapAt_pos place
    have halfway : sizeAt place + gapAt place / 2 ≤ size := by
      rcases Nat.eq_or_lt_of_le (show place ≤ before by omega) with rfl | further
      · exact nearest.halfway_le
      · have beyond : sizeAt (place + 1) ≤ sizeAt before := sizeAt_strictMono.monotone further
        have close := nearest.halfway_le
        have more := gapAt_pos before
        linarith
    simp only [signed] at value
    linarith

/-- The rank that a percentage has among some values. -/
def percentileRank (count : Nat) (p : Float) : Float := p / 100.0 * Float.ofNat (count - 1)

/-- A percentage below a hundred never reaches the last value. -/
theorem percentileRank_bounds {count : Nat} (several : 2 ≤ count) (fits : count - 1 < 2 ^ 64) (positive : 0.0 < p)
    (less : p < 100.0) : (percentileRank count p).isFinite = true ∧ 0 ≤ exactValue (percentileRank count p) ∧
      exactValue (percentileRank count p) < (count - 1 : Nat) := by
  obtain ⟨fractionFinite, nonneg, part⟩ := fraction_bounds positive less
  obtain ⟨scaleFinite, scale⟩ := ofNat_positive (by omega : 0 < count - 1) fits
  have rounds : Rounds _ (percentileRank count p) := rounds_mul fractionFinite scaleFinite
  obtain ⟨place, atPlace, normal⟩ : ∃ place : Nat, linePlace (Float.ofNat (count - 1)) = (place + 1 : Nat) ∧
      2 ^ 52 ≤ place := by
    have one : linePlace 1.0 = 1023 * 2 ^ 52 := by decide
    have above : linePlace 1.0 ≤ linePlace (Float.ofNat (count - 1)) :=
      placeValue_strictMono.le_iff_le.mp (exactValue_one.trans_le scale)
    exact ⟨(linePlace (Float.ofNat (count - 1))).toNat - 1, by omega, by omega⟩
  have scaleValue : exactValue (Float.ofNat (count - 1)) = sizeAt (place + 1) := by
    rw [exactValue, atPlace]
    rfl
  have placeBelow := linePlace_le_of_rounds rounds normal
    (by rw [scaleValue]; exact mul_le_mul_of_nonneg_right part (sizeAt_nonneg _))
  have placeNonneg := rounds.nearest.le_of_placeValue_le (j := 0) (Nat.zero_le _)
    (sizeAt_zero.trans_le (mul_nonneg nonneg (by linarith)))
  have bounds := linePlace_bounds (isNaN_eq_false scaleFinite)
  refine ⟨isFinite_of_linePlace rounds.defined (by omega) (by omega), ?_, ?_⟩
  · exact sizeAt_zero.symm.trans_le (placeValue_strictMono.monotone placeNonneg)
  · -- the double in front of the rounded scale is less than the scale itself
    refine (placeValue_strictMono.monotone placeBelow).trans_lt (not_le.mp fun reaches => ?_)
    have limit : infinityPlace = 2047 * 2 ^ 52 := rfl
    have same := (rounds_ofNat (count - 1)).nearest.le_of_le_placeValue (j := (place : Nat)) (by omega) reaches
    omega

theorem percentileRank_lower_lt {count : Nat} (several : 2 ≤ count) (notLow : ¬p ≤ 0.0) (notHigh : ¬100.0 ≤ p) :
    (percentileRank count p).toUInt64.toNat + 1 < count := by
  cases undefined : p.isNaN with
  | true =>
    rw [percentileRank, toUInt64_of_undefined undefined]
    exact several
  | false =>
    by_cases fits : count - 1 < 2 ^ 64
    · have positive := double_lt_of_not_le (by decide) undefined notLow
      have less := double_lt_of_not_le undefined (by decide) notHigh
      obtain ⟨finite, nonneg, below⟩ := percentileRank_bounds several fits positive less
      have floor := (Nat.floor_lt nonneg).mpr below
      rw [toNat_toUInt64 finite nonneg]
      omega
    · have word := (percentileRank count p).toUInt64.toNat_lt
      omega

/-- Of several values a percentile is one of the ends, or lies between one value and the next. -/
theorem percentilePlace_cases {count : Nat} (several : 2 ≤ count) (p : Float) :
    (p ≤ 0.0 ∧ percentilePlace count p = .exactly 0) ∨
      (¬p ≤ 0.0 ∧ 100.0 ≤ p ∧ percentilePlace count p = .exactly (count - 1)) ∨
      (¬p ≤ 0.0 ∧ ¬100.0 ≤ p ∧ ∃ lower, lower = (percentileRank count p).toUInt64.toNat ∧ lower + 1 < count ∧
        percentilePlace count p = .between lower (lower + 1) (percentileRank count p - Float.ofNat lower)) := by
  have notFew : ¬count ≤ 1 := by omega
  by_cases low : p ≤ 0.0
  · exact Or.inl ⟨low, if_pos (Or.inr low)⟩
  have inner : ¬(count ≤ 1 ∨ p ≤ 0.0) := not_or.mpr ⟨notFew, low⟩
  by_cases high : 100.0 ≤ p
  · exact Or.inr (Or.inl ⟨low, high, (if_neg inner).trans (if_pos high)⟩)
  have inside := percentileRank_lower_lt several low high
  refine Or.inr (Or.inr ⟨low, high, _, rfl, inside, (if_neg inner).trans ((if_neg high).trans ?_)⟩)
  change Place.between _ (min ((percentileRank count p).toUInt64.toNat + 1) (count - 1)) _ = _
  rw [Nat.min_eq_left (by omega)]
  rfl

/-- The values that are read for a percentile at a place. -/
def Place.indices : Place → List Nat
  | .exactly index => [index]
  | .between lower upper _ => [lower, upper]

theorem percentilePlace_inside {count : Nat} (filled : 0 < count) (p : Float) :
    ∀ index ∈ (percentilePlace count p).indices, index < count := by
  rcases Nat.lt_or_ge count 2 with few | several
  · have single : percentilePlace count p = .exactly 0 := if_pos (Or.inl (by omega))
    simpa [single, Place.indices] using filled
  · rcases percentilePlace_cases several p with ⟨-, place⟩ | ⟨-, -, place⟩ | ⟨-, -, lower, -, inside, place⟩
    · simpa [place, Place.indices] using filled
    · simpa [place, Place.indices] using filled
    · simpa [place, Place.indices] using ⟨by omega, inside⟩

/-- Of values there are all percentiles. -/
theorem percentileSorted_isSome {sorted : List Float} (filled : sorted ≠ []) (p : Float) :
    (percentileSorted sorted p).isSome = true := by
  have inside := percentilePlace_inside (List.length_pos_iff.mpr filled) p
  unfold percentileSorted
  cases place : percentilePlace sorted.length p with
  | exactly index =>
    rw [place, Place.indices, List.forall_mem_singleton] at inside
    simp [inside]
  | between lower upper share =>
    rw [place, Place.indices, List.forall_mem_cons, List.forall_mem_singleton] at inside
    simp [inside.1, inside.2]

theorem isBand_iff {low high : Float} : isBand low high = true ↔ 0.0 ≤ low ∧ low ≤ high ∧ high ≤ 100.0 := by
  simp only [isBand, Bool.and_eq_true, decide_eq_true_eq, Bool.not_eq_true', decide_eq_false_iff_not]
  constructor
  · rintro ⟨⟨⟨⟨lowest, lowBelow⟩, highAbove⟩, highest⟩, ordered⟩
    have lowDefined := (le_iff_linePlace.mp lowest).2.1
    have highDefined := (le_iff_linePlace.mp highAbove).2.1
    exact ⟨lowest, double_le_of_not_lt highDefined lowDefined ordered, highest⟩
  · rintro ⟨lowest, ordered, highest⟩
    exact ⟨⟨⟨⟨lowest, double_le_trans ordered highest⟩, double_le_trans lowest ordered⟩, highest⟩,
      double_not_lt_of_le ordered⟩

/-- A series of which the gate can tell nothing. -/
def Inconclusive (series : List Float) : Prop :=
  series = [] ∨ (∃ last, series.getLast? = some last ∧ last.isFinite = false) ∨
    (series.filter Float.isFinite).length < 2

theorem length_finiteSorted (series : List Float) :
    (finiteSorted series).length = (series.filter Float.isFinite).length := List.length_mergeSort _

theorem volatilityGate_of_not_isBand {low high : Float} (noBand : isBand low high = false) (series : List Float) :
    volatilityGate series low high = .error (.invalidParameter (.band none low high)) := by
  rw [volatilityGate, noBand]
  rfl

theorem volatilityGate_of_inconclusive {series : List Float} {low high : Float} (band : isBand low high = true)
    (inconclusive : Inconclusive series) :
    ∃ lack, volatilityGate series low high = .error (.insufficientData lack) := by
  simp only [volatilityGate, band, Bool.not_true, Bool.false_eq_true, if_false]
  cases last : series.getLast? with
  | none => exact ⟨_, rfl⟩
  | some tested =>
    cases finite : tested.isFinite with
    | false => exact ⟨_, by simp only [finite, Bool.not_false, if_true]; rfl⟩
    | true =>
      have few : (finiteSorted series).length < 2 := by
        rw [length_finiteSorted]
        rcases inconclusive with rfl | ⟨other, same, undefined⟩ | few
        · cases last
        · rw [last] at same
          cases same
          rw [finite] at undefined
          cases undefined
        · exact few
      simp only [finite, Bool.not_true, Bool.false_eq_true, if_false]
      rw [← finiteSorted]
      generalize finiteSorted series = sorted at *
      rcases sorted with _ | ⟨a, _ | ⟨b, rest⟩⟩
      · exact ⟨_, rfl⟩
      · exact ⟨_, rfl⟩
      · rw [List.length_cons, List.length_cons] at few
        omega

theorem volatilityGate_of_conclusive {series : List Float} {low high : Float} (band : isBand low high = true)
    (conclusive : ¬Inconclusive series) :
    ∃ gate, volatilityGate series low high = .ok gate ∧ series.getLast? = some gate.testedValue ∧
      percentileSorted (finiteSorted series) low = some gate.minThreshold ∧
      percentileSorted (finiteSorted series) high = some gate.maxThreshold ∧
      (gate.passed = true ↔ gate.minThreshold ≤ gate.testedValue ∧ gate.testedValue ≤ gate.maxThreshold) := by
  rw [Inconclusive, not_or, not_or] at conclusive
  obtain ⟨filled, decided, several⟩ := conclusive
  have last := List.getLast?_eq_some_getLast filled
  have finite : (series.getLast filled).isFinite = true :=
    Bool.not_eq_false _ ▸ fun undefined => decided ⟨_, last, undefined⟩
  rw [← length_finiteSorted, Nat.not_lt] at several
  have values : finiteSorted series ≠ [] := List.ne_nil_of_length_pos (by omega)
  obtain ⟨minThreshold, lower⟩ := Option.isSome_iff_exists.mp (percentileSorted_isSome values low)
  obtain ⟨maxThreshold, upper⟩ := Option.isSome_iff_exists.mp (percentileSorted_isSome values high)
  let gate : GateResult := ⟨series.getLast filled >= minThreshold && series.getLast filled <= maxThreshold,
    minThreshold, maxThreshold, series.getLast filled⟩
  have answer : volatilityGate series low high = .ok gate :=
    volatilityGate_eq_ok.mpr ⟨band, last, finite, several, lower, upper, rfl⟩
  refine ⟨gate, answer, last, lower, upper, ?_⟩
  rw [Bool.and_eq_true, decide_eq_true_eq, decide_eq_true_eq]

/-- The gate refuses what is no band, then what it can tell nothing of, and decides everything else. No percentile
of any values, be it a percentage or not, reads beyond them. -/
theorem volatilityGate_decides (series : List Float) (low high : Float) :
    ((∃ fault, volatilityGate series low high = .error (.invalidParameter fault)) ↔
      ¬(0.0 ≤ low ∧ low ≤ high ∧ high ≤ 100.0)) ∧
    (0.0 ≤ low ∧ low ≤ high ∧ high ≤ 100.0 →
      ((∃ lack, volatilityGate series low high = .error (.insufficientData lack)) ↔ Inconclusive series) ∧
      (¬Inconclusive series → ∃ gate, volatilityGate series low high = .ok gate ∧
        series.getLast? = some gate.testedValue ∧
        percentileSorted (finiteSorted series) low = some gate.minThreshold ∧
        percentileSorted (finiteSorted series) high = some gate.maxThreshold ∧
        (gate.passed = true ↔ gate.minThreshold ≤ gate.testedValue ∧ gate.testedValue ≤ gate.maxThreshold))) ∧
    ∀ sorted : List Float, sorted ≠ [] → ∀ p, (percentileSorted sorted p).isSome = true ∧
      ∀ index ∈ (percentilePlace sorted.length p).indices, index < sorted.length := by
  refine ⟨?_, fun band => ?_, fun sorted filled p => ?_⟩
  · rw [← isBand_iff, Bool.not_eq_true]
    refine ⟨fun refused => ?_, fun noBand => ⟨_, volatilityGate_of_not_isBand noBand series⟩⟩
    obtain ⟨fault, answer⟩ := refused
    by_contra band
    rw [Bool.not_eq_false] at band
    by_cases inconclusive : Inconclusive series
    · obtain ⟨lack, other⟩ := volatilityGate_of_inconclusive band inconclusive
      rw [other] at answer
      cases answer
    · obtain ⟨gate, other, -⟩ := volatilityGate_of_conclusive band inconclusive
      rw [other] at answer
      cases answer
  · rw [← isBand_iff] at band
    refine ⟨⟨fun lacking => ?_, volatilityGate_of_inconclusive band⟩, volatilityGate_of_conclusive band⟩
    obtain ⟨lack, answer⟩ := lacking
    by_contra conclusive
    obtain ⟨gate, other, -⟩ := volatilityGate_of_conclusive band conclusive
    rw [other] at answer
    cases answer
  · exact ⟨percentileSorted_isSome filled p, percentilePlace_inside (List.length_pos_iff.mpr filled) p⟩

theorem gappedVolatility_decides :
    ¬Inconclusive [0.0 / 0.0, 1.0, 3.0] ∧ ((0.0 : Float) ≤ 0.0 ∧ (0.0 : Float) ≤ 99.9 ∧ (99.9 : Float) ≤ 100.0) ∧
    (∃ gate, volatilityGate [0.0 / 0.0, 1.0, 3.0] 0.0 99.9 = .ok gate ∧ gate.testedValue = 3.0 ∧
      (gate.passed = true ↔ gate.minThreshold ≤ 3.0 ∧ 3.0 ≤ gate.maxThreshold)) ∧
    ∀ index ∈ (percentilePlace 3 (0.0 / 0.0)).indices, index < 3 := by
  have conclusive : ¬Inconclusive [0.0 / 0.0, 1.0, 3.0] := by
    rintro (none | ⟨last, same, undefined⟩ | few)
    · cases none
    · cases same
      revert undefined
      decide
    · revert few
      decide
  have band : (0.0 : Float) ≤ 0.0 ∧ (0.0 : Float) ≤ 99.9 ∧ (99.9 : Float) ≤ 100.0 := by decide
  obtain ⟨-, decided, inside⟩ := volatilityGate_decides [0.0 / 0.0, 1.0, 3.0] 0.0 99.9
  obtain ⟨gate, answer, last, -, -, passes⟩ := (decided band).2 conclusive
  have tested : 3.0 = gate.testedValue := Option.some.inj last
  rw [← tested] at passes
  exact ⟨conclusive, band, ⟨gate, answer, tested.symm, passes⟩, (inside [0.0 / 0.0, 1.0, 3.0] nofun (0.0 / 0.0)).2⟩

end SignalDesk
