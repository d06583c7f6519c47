import SignalDesk.Proofs.PercentilePlaces

namespace SignalDesk

/-- A share of something, between nothing and all of it. -/
structure IsShare (x : Float) : Prop where
  finite : x.isFinite = true
  nonneg : 0 ≤ exactValue x
  atMost : exactValue x ≤ 1

/-- What a share leaves. -/
theorem IsShare.rest {share : Float} (given : IsShare share) : IsShare (1.0 - share) ∧
    |exactValue (1.0 - share) - (1 - exactValue share)| ≤ 1 / 2 ^ 53 + leastError := by
  have low := given.nonneg
  have high := given.atMost
  have rounds := rounds_sub isFinite_one given.finite
  rw [exactValue_one] at rounds
  obtain ⟨finite, nonneg, atMost⟩ := rounds.of_unit (by linarith) (by linarith)
  refine ⟨⟨finite, nonneg, atMost⟩, ?_⟩
  have far := one_le_overflow
  have unit : |1 - exactValue share| ≤ 1 := abs_le.mpr ⟨by linarith, by linarith⟩
  have close := rounds.error le_rfl (by linarith)
  linarith

/-- A share of a double is in range, and rounded by a part of itself. -/
theorem IsShare.of {share x : Float} (given : IsShare share) (finite : x.isFinite = true) {largest : ℚ}
    (inside : |exactValue x| ≤ largest) : (x * share).isFinite = true ∧
      |exactValue x * exactValue share| ≤ largest * exactValue share ∧
      |exactValue (x * share) - exactValue x * exactValue share| ≤
        largest * exactValue share / 2 ^ 53 + leastError := by
  have rounds := rounds_mul finite given.finite
  have size : |exactValue x * exactValue share| = |exactValue x| * exactValue share := by
    rw [abs_mul, abs_of_nonneg given.nonneg]
  have part : |exactValue x * exactValue share| ≤ |exactValue x| := by
    rw [size]
    exact mul_le_of_le_one_right (abs_nonneg _) given.atMost
  have scaled : |exactValue x| * exactValue share ≤ largest * exactValue share :=
    mul_le_mul_of_nonneg_right inside given.nonneg
  have top := abs_exactValue_le finite
  have positive := overflow_pos
  refine ⟨rounds.within finite part, size.trans_le scaled, (rounds.error le_rfl (by linarith)).trans ?_⟩
  rw [size]
  linarith

/-- The mean of two doubles, with a share of the second, as it is computed. -/
def blended (a b share : Float) : Float := a * (1.0 - share) + b * share

/-- A blend is off by a part of the larger of its values. -/
theorem blended_error {a b share : Float} {largest : ℚ} (given : IsShare share) (aFinite : a.isFinite = true)
    (bFinite : b.isFinite = true) (aInside : |exactValue a| ≤ largest) (bInside : |exactValue b| ≤ largest)
    (top : largest ≤ overflow - overflow / 2 ^ 53) :
    (blended a b share).isNaN = false ∧
      |exactValue (blended a b share) - (exactValue a * (1 - exactValue share) + exactValue b * exactValue share)| ≤
        largest / 2 ^ 50 + 4 * leastError := by
  obtain ⟨rest, restClose⟩ := given.rest
  obtain ⟨firstFinite, firstSize, firstClose⟩ := rest.of aFinite aInside
  obtain ⟨secondFinite, secondSize, secondClose⟩ := given.of bFinite bInside
  have rounds := rounds_add firstFinite secondFinite
  refine ⟨rounds.defined, ?_⟩
  have nonneg : 0 ≤ largest := (abs_nonneg _).trans aInside
  have least := leastError_le
  have positive := leastError_pos
  have far := one_le_overflow
  -- the shares add up to a little more than one at most
  have shares : largest * (exactValue (1.0 - share) + exactValue share) ≤ largest * (1 + 1 / 2 ^ 53 + 1 / 2 ^ 60) := by
    refine mul_le_mul_of_nonneg_left ?_ nonneg
    linarith [(abs_le.mp restClose).2]
  have restPart : |exactValue a * exactValue (1.0 - share) - exactValue a * (1 - exactValue share)| ≤
      largest * (1 / 2 ^ 53 + 1 / 2 ^ 60) := by
    rw [← mul_sub, abs_mul]
    exact mul_le_mul aInside (by linarith) (abs_nonneg _) nonneg
  generalize exactValue a * exactValue (1.0 - share) = aPart at *
  generalize exactValue b * exactValue share = bPart at *
  rw [abs_le] at firstClose secondClose firstSize secondSize restPart
  have size : |exactValue (a * (1.0 - share)) + exactValue (b * share)| ≤
      largest * (1 + 1 / 2 ^ 53 + 1 / 2 ^ 60) * (1 + 1 / 2 ^ 53) + 2 * leastError :=
    abs_le.mpr ⟨by linarith, by linarith⟩
  have close := rounds.error (show (1 : ℚ) / 2 ^ 53 ≤ 1 / 2 ^ 52 by norm_num) (size.trans (by linarith))
  rw [abs_le] at close
  exact abs_le.mpr ⟨by unfold blended; linarith, by unfold blended; linarith⟩

/-- Where nothing is added, the first value stays what it is. -/
theorem exactValue_blended_zero {a b share : Float} (aFinite : a.isFinite = true) (bFinite : b.isFinite = true)
    (zero : IsZero share) : exactValue (blended a b share) = exactValue a := by
  have restRounds := rounds_sub isFinite_one zero.isFinite
  rw [exactValue_one, zero.exactValue_eq, sub_zero, ← Nat.cast_one] at restRounds
  obtain ⟨restFinite, rest⟩ := restRounds.whole (by decide)
  have first := rounds_mul aFinite restFinite
  rw [rest, Nat.cast_one, mul_one] at first
  have firstFinite := first.within aFinite le_rfl
  have nothing := zero.mul_right bFinite
  have total := rounds_add firstFinite nothing.isFinite
  rw [nothing.exactValue_eq, add_zero] at total
  exact (total.exactValue_eq firstFinite).trans (first.exactValue_eq aFinite)

/-- Between two values, a percentile lies behind the first by what its rank has behind the point. -/
theorem percentilePlace_between {count : Nat} {p : Float} (several : 2 ≤ count) (fits : count - 1 < 2 ^ 64)
    (positive : 0.0 < p) (less : p < 100.0) :
    ∃ share, percentilePlace count p = .between ⌊exactValue (percentileRank count p)⌋₊
        (⌊exactValue (percentileRank count p)⌋₊ + 1) share ∧
      ⌊exactValue (percentileRank count p)⌋₊ + 1 < count ∧ IsShare share ∧
      Rounds (exactValue (percentileRank count p) - ⌊exactValue (percentileRank count p)⌋₊) share := by
  obtain ⟨finite, nonneg, below⟩ := percentileRank_bounds several fits positive less
  have floorBelow := (Nat.floor_lt nonneg).mpr below
  have word : (percentileRank count p).toUInt64.toNat = ⌊exactValue (percentileRank count p)⌋₊ := by
    rw [toNat_toUInt64 finite nonneg]
    omega
  obtain ⟨wholeFinite, whole⟩ := exactValue_ofNat_floor finite nonneg
  have rounds := rounds_sub finite wholeFinite
  rw [whole] at rounds
  have low := Nat.floor_le nonneg
  have high := Nat.lt_floor_add_one (exactValue (percentileRank count p))
  obtain ⟨shareFinite, shareNonneg, atMost⟩ := rounds.of_unit (by linarith) (by linarith)
  have notLow : ¬p ≤ 0.0 := fun atMost => double_not_lt_of_le atMost positive
  have notHigh : ¬100.0 ≤ p := fun atLeast => double_not_lt_of_le atLeast less
  rcases percentilePlace_cases several p with ⟨low, -⟩ | ⟨-, high, -⟩ | ⟨-, -, lower, isLower, -, place⟩
  · exact absurd low notLow
  · exact absurd high notHigh
  · rw [word] at isLower
    subst isLower
    exact ⟨_, place, by omega, ⟨shareFinite, shareNonneg, atMost⟩, rounds⟩

/-- The number that a value stands for; there is none behind the last one. -/
def valueAt (values : List Float) (index : Nat) : ℚ := exactValue (values.getD index 0.0)

/-- The percentile at a place as it would be without rounding. -/
def Place.blend (values : List Float) : Place → ℚ
  | .exactly index => valueAt values index
  | .between lower upper share =>
    valueAt values lower * (1 - exactValue share) + valueAt values upper * exactValue share

/-- How far rounding can take a percentile away from there, by the largest size among the values. -/
def Place.slack (largest : ℚ) : Place → ℚ
  | .exactly _ => 0
  | .between _ _ share => if exactValue share = 0 then 0 else largest / 2 ^ 50 + 4 * leastError

/-- The percentile is one of the values. -/
def Place.OnValue : Place → Prop
  | .exactly _ => True
  | .between _ _ share => exactValue share = 0

theorem Place.OnValue.slack_eq {place : Place} (onValue : place.OnValue) (largest : ℚ) : place.slack largest = 0 := by
  cases place with
  | exactly index => rfl
  | between lower upper share => exact if_pos onValue

/-- Values in ascending order, each of them finite. -/
structure Ascending (values : List Float) : Prop where
  finite : ∀ value ∈ values, value.isFinite = true
  ordered : ∀ {i j : Nat}, i ≤ j → j < values.length → valueAt values i ≤ valueAt values j

theorem mem_finiteSorted {series : List Float} {x : Float} :
    x ∈ finiteSorted series ↔ x ∈ series ∧ x.isFinite = true := by
  rw [finiteSorted, List.mem_mergeSort, List.mem_filter]

theorem pairwise_finiteSorted (series : List Float) :
    (finiteSorted series).Pairwise fun x y => totalLe x y = true := by
  refine List.pairwise_mergeSort (fun x y z first second => ?_) (fun x y => ?_) _
  · simp only [totalLe, decide_eq_true_eq] at *
    omega
  · simp only [totalLe, Bool.or_eq_true, decide_eq_true_eq]
    omega

theorem finiteSorted_ascending (series : List Float) : Ascending (finiteSorted series) := by
  refine ⟨fun value member => (mem_finiteSorted.mp member).2, fun {i j} le inside => ?_⟩
  have sorted := pairwise_finiteSorted series
  rcases Nat.eq_or_lt_of_le le with rfl | less
  · exact le_rfl
  · have pair := List.pairwise_iff_getElem.mp sorted i j (by omega) inside less
    have places := linePlace_le_of_totalRank_le (of_decide_eq_true pair)
    rw [valueAt, valueAt, List.getD_eq_getElem _ _ (by omega), List.getD_eq_getElem _ _ inside]
    exact placeValue_strictMono.monotone places

theorem percentileRank_mono {count : Nat} {low high : Float} (several : 2 ≤ count) (fits : count - 1 < 2 ^ 64)
    (lowPositive : 0.0 < low) (lowLess : low < 100.0) (highPositive : 0.0 < high) (highLess : high < 100.0)
    (ordered : low ≤ high) : exactValue (percentileRank count low) ≤ exactValue (percentileRank count high) := by
  have hundred : 0 < exactValue 100.0 := by
    rw [exactValue_hundred]
    decide
  have lowFinite := finite_of_percentage lowPositive lowLess
  have highFinite := finite_of_percentage highPositive highLess
  have percentages := (exactValue_le_iff (isNaN_eq_false lowFinite) (isNaN_eq_false highFinite)).mp ordered
  have lowPart := rounds_div lowFinite isFinite_hundred hundred.ne'
  have highPart := rounds_div highFinite isFinite_hundred hundred.ne'
  have parts := lowPart.exactValue_mono highPart ((div_le_div_iff_of_pos_right hundred).mpr percentages)
  obtain ⟨scaleFinite, scale⟩ := ofNat_positive (by omega : 0 < count - 1) fits
  have lowRank := rounds_mul (fraction_bounds lowPositive lowLess).1 scaleFinite
  have highRank := rounds_mul (fraction_bounds highPositive highLess).1 scaleFinite
  exact lowRank.exactValue_mono highRank (mul_le_mul_of_nonneg_right parts (by linarith))

/-- What lies between two values in proportion is between them. -/
theorem Ascending.blend_between {values : List Float} (ascending : Ascending values) {lower : Nat} {share : Float}
    (inside : lower + 1 < values.length) (given : IsShare share) :
    valueAt values lower ≤ (Place.between lower (lower + 1) share).blend values ∧
      (Place.between lower (lower + 1) share).blend values ≤ valueAt values (lower + 1) := by
  have step := ascending.ordered (Nat.le_succ lower) inside
  have first := mul_le_mul_of_nonneg_right step given.nonneg
  have second := mul_le_mul_of_nonneg_right step (sub_nonneg.mpr given.atMost)
  simp only [Place.blend]
  constructor <;> linarith

section Percentiles

variable {values : List Float} {p low high : Float} (ascending : Ascending values) (several : 2 ≤ values.length)
  (fits : values.length < 2 ^ 64)

include several

theorem percentile_cases (defined : p.isNaN = false) :
    (p ≤ 0.0 ∧ percentilePlace values.length p = .exactly 0) ∨
      (100.0 ≤ p ∧ percentilePlace values.length p = .exactly (values.length - 1)) ∨
      (0.0 < p ∧ p < 100.0) := by
  rcases percentilePlace_cases several p with first | ⟨-, last⟩ | ⟨notLow, notHigh, -⟩
  · exact Or.inl first
  · exact Or.inr (Or.inl last)
  · exact Or.inr (Or.inr ⟨double_lt_of_not_le (by decide) defined notLow,
      double_lt_of_not_le defined (by decide) notHigh⟩)

include ascending fits

/-- A percentile without rounding is between the least and the greatest value. -/
theorem blend_bounds (defined : p.isNaN = false) :
    valueAt values 0 ≤ (percentilePlace values.length p).blend values ∧
      (percentilePlace values.length p).blend values ≤ valueAt values (values.length - 1) := by
  rcases percentile_cases several defined with ⟨-, place⟩ | ⟨-, place⟩ | ⟨positive, less⟩
  · rw [place]
    exact ⟨le_rfl, ascending.ordered (Nat.zero_le _) (by omega)⟩
  · rw [place]
    exact ⟨ascending.ordered (Nat.zero_le _) (by omega), le_rfl⟩
  · obtain ⟨share, place, inside, given, -⟩ := percentilePlace_between several (by omega) positive less
    obtain ⟨above, below⟩ := ascending.blend_between inside given
    rw [place]
    exact ⟨(ascending.ordered (Nat.zero_le _) (by omega)).trans above,
      below.trans (ascending.ordered (by omega) (by omega))⟩

/-- Without rounding, percentiles are in the order of their percentages. -/
theorem blend_mono (ordered : low ≤ high) :
    (percentilePlace values.length low).blend values ≤ (percentilePlace values.length high).blend values := by
  obtain ⟨lowDefined, highDefined, -⟩ := le_iff_linePlace.mp ordered
  rcases percentile_cases several lowDefined with ⟨-, place⟩ | ⟨lowHigh, -⟩ | ⟨lowPositive, lowLess⟩
  · rw [place]
    exact (blend_bounds ascending several fits highDefined).1
  all_goals rcases percentile_cases several highDefined with ⟨highLow, -⟩ | ⟨-, place⟩ | ⟨highPositive, highLess⟩
  · exact absurd (double_le_trans (double_le_trans lowHigh ordered) highLow) (by decide)
  · rw [place]
    exact (blend_bounds ascending several fits lowDefined).2
  · exact absurd (double_le_trans lowHigh ordered) fun le => double_not_lt_of_le le highLess
  · exact absurd (double_le_trans ordered highLow) fun le => double_not_lt_of_le le lowPositive
  · rw [place]
    exact (blend_bounds ascending several fits lowDefined).2
  · have ranks := percentileRank_mono several (by omega) lowPositive lowLess highPositive highLess ordered
    obtain ⟨lowShare, lowPlace, lowInside, lowGiven, lowRounds⟩ :=
      percentilePlace_between several (by omega) lowPositive lowLess
    obtain ⟨highShare, highPlace, highInside, highGiven, highRounds⟩ :=
      percentilePlace_between several (by omega) highPositive highLess
    rw [lowPlace, highPlace]
    generalize exactValue (percentileRank values.length low) = lowRank at *
    generalize exactValue (percentileRank values.length high) = highRank at *
    rcases Nat.eq_or_lt_of_le (Nat.floor_mono ranks) with same | less
    · -- in one section the shares decide
      rw [same] at lowRounds ⊢
      have shares := lowRounds.exactValue_mono highRounds (sub_le_sub_right ranks _)
      have step := ascending.ordered (Nat.le_succ ⌊highRank⌋₊) highInside
      have further := mul_le_mul_of_nonneg_left shares (sub_nonneg.mpr step)
      simp only [Place.blend]
      linarith
    · calc (Place.between ⌊lowRank⌋₊ (⌊lowRank⌋₊ + 1) lowShare).blend values
          ≤ valueAt values (⌊lowRank⌋₊ + 1) := (ascending.blend_between lowInside lowGiven).2
        _ ≤ valueAt values ⌊highRank⌋₊ := ascending.ordered less (by omega)
        _ ≤ _ := (ascending.blend_between highInside highGiven).1

/-- A percentile is off by its slack. -/
theorem percentileSorted_near {largest : ℚ} {t : Float} (inside : ∀ value ∈ values, |exactValue value| ≤ largest)
    (top : largest ≤ overflow - overflow / 2 ^ 53) (defined : p.isNaN = false)
    (found : percentileSorted values p = some t) :
    t.isNaN = false ∧ |exactValue t - (percentilePlace values.length p).blend values| ≤
      (percentilePlace values.length p).slack largest := by
  have onValue {index : Nat} (place : percentilePlace values.length p = .exactly index) :
      t.isNaN = false ∧ |exactValue t - (percentilePlace values.length p).blend values| ≤
        (percentilePlace values.length p).slack largest := by
    simp only [percentileSorted, place] at found
    have value : values.getD index 0.0 = t := by rw [List.getD_eq_getElem?_getD, found, Option.getD_some]
    rw [place, Place.blend, Place.slack, valueAt, value, sub_self, abs_zero]
    exact ⟨isNaN_eq_false (ascending.finite t (List.mem_of_getElem? found)), le_rfl⟩
  rcases percentile_cases several defined with ⟨-, place⟩ | ⟨-, place⟩ | ⟨positive, less⟩
  · exact onValue place
  · exact onValue place
  · obtain ⟨share, place, within, given, -⟩ := percentilePlace_between several (by omega) positive less
    generalize ⌊exactValue (percentileRank values.length p)⌋₊ = lower at place within
    have lowerWithin : lower < values.length := by omega
    simp only [percentileSorted, place, List.getElem?_eq_getElem within, List.getElem?_eq_getElem lowerWithin] at found
    have computed : blended values[lower] values[lower + 1] share = t := Option.some.inj found
    have lowerMember := List.getElem_mem lowerWithin
    have upperMember := List.getElem_mem within
    have lowerFinite := ascending.finite _ lowerMember
    have upperFinite := ascending.finite _ upperMember
    obtain ⟨blendDefined, close⟩ := blended_error given lowerFinite upperFinite (inside _ lowerMember)
      (inside _ upperMember) top
    rw [← computed, place, Place.blend, Place.slack, valueAt, valueAt, List.getD_eq_getElem _ _ lowerWithin,
      List.getD_eq_getElem _ _ within]
    refine ⟨blendDefined, ?_⟩
    split
    · rename_i nothing
      have zero : IsZero share := ⟨isNaN_eq_false given.finite,
        placeValue_strictMono.injective (nothing.trans sizeAt_zero.symm)⟩
      rw [exactValue_blended_zero lowerFinite upperFinite zero, nothing, sub_zero, mul_one, mul_zero, add_zero,
        sub_self, abs_zero]
    · exact close

end Percentiles

/-- The least and the greatest of the finite values of a series. -/
structure Spans (series : List Float) (least greatest : Float) : Prop where
  leastMember : least ∈ series
  leastFinite : least.isFinite = true
  greatestMember : greatest ∈ series
  greatestFinite : greatest.isFinite = true
  encloses : ∀ x ∈ series, x.isFinite = true → least ≤ x ∧ x ≤ greatest

theorem Spans.exactValue_le {series : List Float} {least greatest value : Float}
    (spans : Spans series least greatest) (member : value ∈ finiteSorted series) :
    exactValue least ≤ exactValue value ∧ exactValue value ≤ exactValue greatest := by
  obtain ⟨listed, finite⟩ := mem_finiteSorted.mp member
  obtain ⟨above, below⟩ := spans.encloses value listed finite
  exact ⟨(exactValue_le_iff (isNaN_eq_false spans.leastFinite) (isNaN_eq_false finite)).mp above,
    (exactValue_le_iff (isNaN_eq_false finite) (isNaN_eq_false spans.greatestFinite)).mp below⟩

/-- In ascending order they come first and last. -/
theorem Spans.ends {series : List Float} {least greatest : Float} (spans : Spans series least greatest) :
    exactValue least = valueAt (finiteSorted series) 0 ∧
      exactValue greatest = valueAt (finiteSorted series) ((finiteSorted series).length - 1) := by
  have ascending := finiteSorted_ascending series
  have atIndex {index : Nat} (within : index < (finiteSorted series).length) :
      valueAt (finiteSorted series) index = exactValue (finiteSorted series)[index] := by
    rw [valueAt, List.getD_eq_getElem _ _ within]
  have enclosed {index : Nat} (within : index < (finiteSorted series).length) :
      exactValue least ≤ valueAt (finiteSorted series) index ∧
        valueAt (finiteSorted series) index ≤ exactValue greatest := by
    rw [atIndex within]
    exact spans.exactValue_le (List.getElem_mem within)
  obtain ⟨i, iWithin, atLeast⟩ := List.getElem_of_mem (mem_finiteSorted.mpr ⟨spans.leastMember, spans.leastFinite⟩)
  obtain ⟨j, jWithin, atGreatest⟩ :=
    List.getElem_of_mem (mem_finiteSorted.mpr ⟨spans.greatestMember, spans.greatestFinite⟩)
  constructor
  · refine le_antisymm (enclosed (by omega)).1 ?_
    rw [← atLeast, ← atIndex iWithin]
    exact ascending.ordered (Nat.zero_le i) iWithin
  · refine le_antisymm ?_ (enclosed (by omega)).2
    rw [← atGreatest, ← atIndex jWithin]
    exact ascending.ordered (by omega) (by omega)

/-- Where a percentage lies among the finite values of a series. -/
def gatePlace (series : List Float) (p : Float) : Place := percentilePlace (series.filter Float.isFinite).length p

/-- The bounds of a gate are defined, in order and between two values, but for some slack each. -/
structure Enclosed (least greatest : Float) (lowSlack highSlack : ℚ) (gate : GateResult) : Prop where
  minDefined : gate.minThreshold.isNaN = false
  maxDefined : gate.maxThreshold.isNaN = false
  above : exactValue least - lowSlack ≤ exactValue gate.minThreshold
  ordered : exactValue gate.minThreshold ≤ exactValue gate.maxThreshold + (lowSlack + highSlack)
  below : exactValue gate.maxThreshold ≤ exactValue greatest + highSlack

/-- The bounds of the gate are in order and enclosed by the finite values as far as rounding allows; an infinite
bound counts as the overflow. Where both percentiles are values of the series they are so without slack, and a
series that does not vary passes. -/
theorem volatilityGate_enclosed {series : List Float} {low high least greatest : Float} {gate : GateResult}
    (short : series.length < 2 ^ 64) (spans : Spans series least greatest)
    (answer : volatilityGate series low high = .ok gate) :
    Enclosed least greatest ((gatePlace series low).slack (max |exactValue least| |exactValue greatest|))
        ((gatePlace series high).slack (max |exactValue least| |exactValue greatest|)) gate ∧
      ((gatePlace series low).OnValue → (gatePlace series high).OnValue →
        least ≤ gate.minThreshold ∧ gate.minThreshold ≤ gate.maxThreshold ∧ gate.maxThreshold ≤ greatest ∧
          (greatest ≤ least → gate.passed = true)) := by
  obtain ⟨band, last, tested, several, lower, upper, compared⟩ := volatilityGate_eq_ok.mp answer
  obtain ⟨-, ordered, -⟩ := isBand_iff.mp band
  obtain ⟨lowDefined, highDefined, -⟩ := le_iff_linePlace.mp ordered
  have ascending := finiteSorted_ascending series
  have fits : (finiteSorted series).length < 2 ^ 64 := by
    rw [length_finiteSorted]
    exact (List.length_filter_le _ _).trans_lt short
  have leastDefined := isNaN_eq_false spans.leastFinite
  have greatestDefined := isNaN_eq_false spans.greatestFinite
  have inside : ∀ value ∈ finiteSorted series, |exactValue value| ≤ max |exactValue least| |exactValue greatest| :=
    fun value member => abs_le_max_abs_abs (spans.exactValue_le member).1 (spans.exactValue_le member).2
  have top := max_le (abs_exactValue_le spans.leastFinite) (abs_exactValue_le spans.greatestFinite)
  obtain ⟨minDefined, minNear⟩ := percentileSorted_near ascending several fits inside top lowDefined lower
  obtain ⟨maxDefined, maxNear⟩ := percentileSorted_near ascending several fits inside top highDefined upper
  have lowBounds := blend_bounds ascending several fits lowDefined
  have highBounds := blend_bounds ascending several fits highDefined
  have blends := blend_mono ascending several fits ordered
  rw [← spans.ends.1, ← spans.ends.2] at lowBounds highBounds
  rw [length_finiteSorted, ← gatePlace] at minNear maxNear lowBounds highBounds
  rw [length_finiteSorted, ← gatePlace, ← gatePlace] at blends
  rw [abs_le] at minNear maxNear
  refine ⟨⟨minDefined, maxDefined, by linarith, by linarith, by linarith⟩, fun lowOn highOn => ?_⟩
  rw [lowOn.slack_eq] at minNear
  rw [highOn.slack_eq] at maxNear
  have above : least ≤ gate.minThreshold := (exactValue_le_iff leastDefined minDefined).mpr (by linarith)
  have thresholds : gate.minThreshold ≤ gate.maxThreshold :=
    (exactValue_le_iff minDefined maxDefined).mpr (by linarith)
  have below : gate.maxThreshold ≤ greatest := (exactValue_le_iff maxDefined greatestDefined).mpr (by linarith)
  refine ⟨above, thresholds, below, fun still => ?_⟩
  obtain ⟨testedAbove, testedBelow⟩ := spans.encloses gate.testedValue (List.mem_of_getLast? last) tested
  have reached : gate.minThreshold ≤ gate.testedValue :=
    double_le_trans (double_le_trans thresholds below) (double_le_trans still testedAbove)
  have left : gate.testedValue ≤ gate.maxThreshold :=
    double_le_trans (double_le_trans testedBelow still) (double_le_trans above thresholds)
  rw [compared, Bool.and_eq_true]
  exact ⟨decide_eq_true reached, decide_eq_true left⟩

/-- The upper percentile is one of the values, and the lower one is in the middle of two. -/
theorem steppingVolatility_enclosed :
    ([1.0, 3.0] : List Float).length < 2 ^ 64 ∧ Spans [1.0, 3.0] 1.0 3.0 ∧
      volatilityGate [1.0, 3.0] 50.0 100.0 = .ok ⟨true, 2.0, 3.0, 3.0⟩ ∧
      Enclosed 1.0 3.0 ((gatePlace [1.0, 3.0] 50.0).slack (max |exactValue 1.0| |exactValue 3.0|))
        ((gatePlace [1.0, 3.0] 100.0).slack (max |exactValue 1.0| |exactValue 3.0|)) ⟨true, 2.0, 3.0, 3.0⟩ := by
  have short : ([1.0, 3.0] : List Float).length < 2 ^ 64 := by decide
  have spans : Spans [1.0, 3.0] 1.0 3.0 := by
    refine ⟨List.mem_cons_self, by decide, List.mem_cons_of_mem _ List.mem_cons_self, by decide, ?_⟩
    simp only [List.forall_mem_cons]
    exact ⟨fun _ => by decide, fun _ => by decide, nofun⟩
  have ascending : [(1.0 : Float), 3.0].Pairwise fun x y => totalLe x y = true := by decide
  have sorted : finiteSorted [1.0, 3.0] = [1.0, 3.0] := List.mergeSort_of_pairwise ascending
  have answer : volatilityGate [1.0, 3.0] 50.0 100.0 = .ok ⟨true, 2.0, 3.0, 3.0⟩ := by
    refine volatilityGate_eq_ok.mpr ⟨by decide, rfl, by decide, ?_⟩
    rw [sorted]
    exact ⟨by decide, by decide +kernel, by decide +kernel, by decide⟩
  exact ⟨short, spans, answer, (volatilityGate_enclosed short spans answer).1⟩

/-- Of two equal volatilities the twentieth percentile is greater than both: a tenth does not come back from its
parts, and the gate refuses what never moved. -/
theorem twinVolatility_refused :
    ∃ gate, volatilityGate [0.1, 0.1] 20.0 100.0 = .ok gate ∧ Spans [0.1, 0.1] 0.1 0.1 ∧
      gate.maxThreshold = 0.1 ∧ gate.maxThreshold < gate.minThreshold ∧ gate.passed = false := by
  have ascending : [(0.1 : Float), 0.1].Pairwise fun x y => totalLe x y = true := by decide
  have sorted : finiteSorted [0.1, 0.1] = [0.1, 0.1] := List.mergeSort_of_pairwise ascending
  refine ⟨⟨false, 0.10000000000000002, 0.1, 0.1⟩, volatilityGate_eq_ok.mpr ⟨by decide, rfl, by decide, ?_⟩, ?_, rfl,
    by decide, rfl⟩
  · rw [sorted]
    exact ⟨by decide, by decide +kernel, by decide +kernel, by decide⟩
  · refine ⟨List.mem_cons_self, by decide, List.mem_cons_self, by decide, ?_⟩
    simp only [List.forall_mem_cons]
    exact ⟨fun _ => by decide, fun _ => by decide, nofun⟩

end SignalDesk
