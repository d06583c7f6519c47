import SignalDesk.Proofs.ThresholdBounds

namespace SignalDesk

open Float.Model Float.Model.UnpackedFloat LinePlace

/-- Places with one leading bit hold whole multiples of a power of two. -/
theorem sizeAt_scaled {k n : Nat} (bounded : n ≤ 2 ^ 53) (normal : 2 ^ 52 ≤ n) :
    sizeAt (k * 2 ^ 52 + n) = n * tickSize k := by
  rw [sizeAt, steps_scaled bounded (Or.inr normal), tickSize, ← mul_div_assoc]
  push_cast
  rfl

/-- From one half to one the doubles are whole parts of 2^53. -/
theorem sizeAt_part {m : Nat} (bounded : m ≤ 2 ^ 53) (normal : 2 ^ 52 ≤ m) :
    sizeAt (1021 * 2 ^ 52 + m) = m / 2 ^ 53 := by
  have unit := tickSize_whole
  rw [tickSize_add 1021 53] at unit
  rw [sizeAt_scaled bounded normal, eq_div_iff (by positivity), mul_assoc, unit, mul_one]

theorem gapAt_mono {place other : Nat} (le : place ≤ other) : gapAt place ≤ gapAt other := by
  have binades := Nat.div_le_div_right (c := 2 ^ 52) le
  refine div_le_div_of_nonneg_right (Nat.cast_le.mpr ?_) unitSteps_pos.le
  exact Nat.pow_le_pow_right Nat.two_pos (Nat.sub_le_sub_right binades 1)

/-- The overflow in gaps between the greatest doubles. -/
theorem overflow_eq_tickSize : overflow = 2 ^ 53 * tickSize 2045 := by
  have places : infinityPlace = 2045 * 2 ^ 52 + 2 ^ 53 := rfl
  rw [overflow, places, sizeAt_scaled le_rfl (by decide)]
  push_cast
  rfl

theorem overflow_eq : overflow = 2 ^ 1024 := by
  rw [overflow_eq_tickSize, show 2045 = 1074 + 971 from rfl, tickSize_add, tickSize_whole, one_mul, ← pow_add]

theorem overflow_far : 1 ≤ overflow / 2 ^ 106 := by
  rw [overflow_eq, one_le_div (by positivity)]
  exact pow_le_pow_right₀ one_le_two (by decide)

/-- What is less than the halfway behind a double is not rounded further out. -/
theorem NearestTo.le_of_lt_halfway {n place : Nat} {size : ℚ} (near : NearestTo n size)
    (below : size < sizeAt place + gapAt place / 2) : n ≤ place := by
  by_contra above
  obtain ⟨before, rfl⟩ : ∃ before, n = before + 1 := ⟨n - 1, by omega⟩
  have half := near.halfway_le
  rcases Nat.eq_or_lt_of_le (show place ≤ before by omega) with rfl | further
  · linarith
  · have beyond : sizeAt (place + 1) ≤ sizeAt before := sizeAt_strictMono.monotone further
    have next := sizeAt_succ place
    have gap := gapAt_pos place
    have more := gapAt_pos before
    linarith

namespace Rounds

variable {q : ℚ} {x : Float} {place : Nat}

/-- So it stays within the double, and finite if the double is. -/
theorem within_place (rounds : Rounds q x) (inside : place < infinityPlace)
    (below : |q| < sizeAt place + gapAt place / 2) : x.isFinite = true ∧ |exactValue x| ≤ sizeAt place := by
  obtain ⟨s, size, n, nonneg, value, nearest, atPlace⟩ := rounds.nearest
  have limit : infinityPlace = 2047 * 2 ^ 52 := rfl
  rw [value, abs_signed, abs_of_nonneg nonneg] at below
  have small := nearest.le_of_lt_halfway below
  rw [Nat.min_eq_left (by omega)] at atPlace
  constructor
  · refine isFinite_of_linePlace rounds.defined ?_ ?_ <;> rw [atPlace] <;> cases s <;> simp only [Sign.apply] <;> omega
  · rw [exactValue, atPlace, placeValue_apply, abs_signed, abs_of_nonneg (sizeAt_nonneg n)]
    exact sizeAt_strictMono.monotone small

/-- Only what reaches the halfway behind the greatest double overflows. -/
theorem isFinite_of_lt (rounds : Rounds q x) (below : |q| < overflow - overflow / 2 ^ 54) : x.isFinite = true := by
  have last : infinityPlace - 1 = 2045 * 2 ^ 52 + (2 ^ 53 - 1) := rfl
  have inside : infinityPlace - 1 < infinityPlace := by decide
  refine (rounds.within_place inside ?_).1
  rw [last, sizeAt_scaled (by decide) (by decide), gapAt_eq_tickSize (k := 2045) (by decide)]
  rw [overflow_eq_tickSize] at below
  push_cast
  linarith

end Rounds

namespace IsShare

variable {a b x y : Float}

/-- A share of more than a half is rounded to a whole number of parts. -/
theorem parts (given : IsShare x) (most : 1 / 2 < exactValue x) :
    ∃ m : Nat, 2 ^ 52 < m ∧ m ≤ 2 ^ 53 ∧ exactValue x = m / 2 ^ 53 := by
  have half : placeValue (1021 * 2 ^ 52 + 2 ^ 52 : Nat) = 1 / 2 := (sizeAt_part (by decide) le_rfl).trans (by norm_num)
  have whole : placeValue (1021 * 2 ^ 52 + 2 ^ 53 : Nat) = 1 := (sizeAt_part le_rfl (by decide)).trans (by norm_num)
  have low := placeValue_strictMono.lt_iff_lt.mp (half.trans_lt most)
  have high := placeValue_strictMono.le_iff_le.mp (given.atMost.trans_eq whole.symm)
  obtain ⟨m, place⟩ : ∃ m : Nat, linePlace x = (1021 * 2 ^ 52 + m : Nat) :=
    ⟨(linePlace x).toNat - 1021 * 2 ^ 52, by omega⟩
  refine ⟨m, by omega, by omega, ?_⟩
  rw [exactValue, place]
  exact sizeAt_part (by omega) (by omega)

/-- The greatest double falls short of the overflow by one part of 2^53, and what is more than half of it does so
by as much. -/
theorem of_most (given : IsShare x) (most : 1 / 2 < exactValue x) (finite : a.isFinite = true) :
    |exactValue (a * x)| ≤ overflow * exactValue x - overflow / 2 ^ 53 := by
  obtain ⟨m, low, high, value⟩ := given.parts most
  have top := (given.of finite (abs_exactValue_le finite)).2.1
  have size : sizeAt (2045 * 2 ^ 52 + (m - 1)) = (m - 1) * tickSize 2045 := by
    rw [sizeAt_scaled (by omega) (by omega), Nat.cast_sub (by omega), Nat.cast_one]
  have gap : gapAt (2045 * 2 ^ 52 + (m - 1)) = tickSize 2045 := gapAt_eq_tickSize (by omega)
  have many : (2 : ℚ) ^ 52 < m := by exact_mod_cast low
  have below : |exactValue a * exactValue x| <
      sizeAt (2045 * 2 ^ 52 + (m - 1)) + gapAt (2045 * 2 ^ 52 + (m - 1)) / 2 := by
    refine top.trans_lt ?_
    rw [size, gap, value, overflow_eq_tickSize]
    have positive := tickSize_pos 2045
    have scaled := mul_lt_mul_of_pos_right many positive
    linarith
  have limit : infinityPlace = 2047 * 2 ^ 52 := rfl
  have bounded := ((rounds_mul finite given.finite).within_place (by omega) below).2
  rw [size] at bounded
  rw [value, overflow_eq_tickSize]
  linarith

/-- Something, however little, stays below its share of the overflow. -/
theorem of_some (given : IsShare y) (some : 0 < exactValue y) (finite : b.isFinite = true) :
    |exactValue (b * y)| < overflow * exactValue y := by
  obtain ⟨-, size, close⟩ := given.of finite (abs_exactValue_le finite)
  have least : leastError < exactValue y := by
    have positive : 0 < linePlace y := placeValue_strictMono.lt_iff_lt.mp (sizeAt_zero.trans_lt some)
    have first : sizeAt 1 ≤ exactValue y :=
      placeValue_strictMono.monotone (show ((1 : Nat) : Int) ≤ linePlace y by omega)
    have gap : sizeAt 1 = 2 * leastError := by
      rw [sizeAt_succ 0, sizeAt_zero, zero_add, gapAt, spacing, Nat.zero_div, Nat.zero_sub, pow_zero, Nat.cast_one,
        leastError, unitSteps, Nat.cast_pow, Nat.cast_ofNat, pow_succ _ 1074]
      field_simp
    linarith [leastError_pos]
  have far : exactValue y ≤ overflow / 2 ^ 106 * exactValue y := le_mul_of_one_le_left some.le overflow_far
  have apart := abs_le.mp close
  have inside := abs_le.mp size
  exact abs_lt.mpr ⟨by linarith, by linarith⟩

/-- Two shares of which one is more than half do not add up to an overflow, even if they are rounded to a bit more
than all there is. -/
theorem add_lt (large : IsShare x) (most : 1 / 2 < exactValue x) (small : IsShare y)
    (whole : exactValue x + exactValue y ≤ 1 + 1 / 2 ^ 54) (aFinite : a.isFinite = true)
    (bFinite : b.isFinite = true) :
    |exactValue (a * x)| + |exactValue (b * y)| < overflow - overflow / 2 ^ 54 := by
  have first := large.of_most most aFinite
  have positive := overflow_pos
  have total := mul_le_mul_of_nonneg_left whole positive.le
  rcases small.nonneg.eq_or_lt with nothing | some
  · obtain ⟨-, size, close⟩ := small.of bFinite (abs_exactValue_le bFinite)
    rw [← nothing, mul_zero] at size close
    have second : |exactValue (b * y)| ≤ leastError := by simpa using close
    have all := mul_le_mul_of_nonneg_left large.atMost positive.le
    linarith [leastError_le, overflow_far]
  · have second := small.of_some some bFinite
    linarith

/-- No more than half of the greatest double is rounded to no more than half of it. -/
theorem of_half (given : IsShare x) (half : exactValue x ≤ 1 / 2) (finite : a.isFinite = true) :
    |exactValue (a * x)| ≤ (overflow - overflow / 2 ^ 53) / 2 := by
  have size := (given.of finite (abs_exactValue_le finite)).2.1
  have top : 0 ≤ overflow - overflow / 2 ^ 53 := (abs_nonneg _).trans (abs_exactValue_le finite)
  have part := mul_le_mul_of_nonneg_left half top
  obtain ⟨middle, inside, value⟩ : ∃ place, place < infinityPlace ∧
      sizeAt place = (overflow - overflow / 2 ^ 53) / 2 := by
    refine ⟨2044 * 2 ^ 52 + (2 ^ 53 - 1), by decide, ?_⟩
    rw [sizeAt_scaled (by decide) (by decide), overflow_eq_tickSize, tickSize_add 2044 1]
    push_cast
    linarith
  have gap := gapAt_pos middle
  rw [← value]
  exact ((rounds_mul finite given.finite).within_place inside (by linarith)).2

/-- What a share leaves is rounded up by a quarter of the precision at most. -/
theorem rest_le (given : IsShare x) : exactValue (1.0 - x) + exactValue x ≤ 1 + 1 / 2 ^ 54 := by
  have rounds := rounds_sub isFinite_one given.finite
  rw [exactValue_one] at rounds
  have low := given.nonneg
  have high := given.atMost
  obtain ⟨s, size, n, nonneg, value, nearest, place⟩ := rounds.nearest
  rw [exactValue, place, placeValue_apply]
  cases s with
  | negative =>
    have below := sizeAt_nonneg (min n infinityPlace)
    simp only [signed]
    linarith
  | positive =>
    simp only [signed] at value ⊢
    obtain ⟨last, inside, one, gap⟩ : ∃ last, last + 1 < infinityPlace ∧ sizeAt (last + 1) = 1 ∧
        gapAt last = 1 / 2 ^ 53 := by
      have unit := tickSize_whole
      have place : 1021 * 2 ^ 52 + (2 ^ 53 - 1) + 1 = 1021 * 2 ^ 52 + 2 ^ 53 := rfl
      refine ⟨1021 * 2 ^ 52 + (2 ^ 53 - 1), by decide, ?_, ?_⟩
      · rw [place, sizeAt_part le_rfl (by decide)]
        norm_num
      · rw [tickSize_add 1021 53] at unit
        rw [gapAt_eq_tickSize (k := 1021) (by decide), eq_div_iff (by positivity), unit]
    have small : n ≤ last + 1 := nearest.le_of_lt_halfway (by linarith [gapAt_pos (last + 1)])
    rw [Nat.min_eq_left (by omega)]
    cases n with
    | zero =>
      rw [sizeAt_zero]
      linarith
    | succ before =>
      have half := nearest.halfway_le
      have narrow := gapAt_mono (show before ≤ last by omega)
      rw [sizeAt_succ]
      linarith

end IsShare

/-- No blend of finite doubles overflows. -/
theorem blended_isFinite {a b share : Float} (given : IsShare share) (aFinite : a.isFinite = true)
    (bFinite : b.isFinite = true) : (blended a b share).isFinite = true := by
  obtain ⟨rest, -⟩ := given.rest
  have whole := given.rest_le
  have firstFinite := (rest.of aFinite (abs_exactValue_le aFinite)).1
  have secondFinite := (given.of bFinite (abs_exactValue_le bFinite)).1
  refine (rounds_add firstFinite secondFinite).isFinite_of_lt ((abs_add_le _ _).trans_lt ?_)
  rcases lt_or_ge (1 / 2) (exactValue (1.0 - share)) with most | half
  · exact rest.add_lt most given whole aFinite bFinite
  rcases lt_or_ge (1 / 2) (exactValue share) with most | otherHalf
  · rw [add_comm]
    exact given.add_lt most rest (by linarith) bFinite aFinite
  · have first := rest.of_half half aFinite
    have second := given.of_half otherHalf bFinite
    linarith [overflow_pos]

/-- No percentile of finite values overflows. -/
theorem percentileSorted_isFinite {values : List Float} {p t : Float}
    (finite : ∀ value ∈ values, value.isFinite = true) (several : 2 ≤ values.length)
    (fits : values.length < 2 ^ 64) (defined : p.isNaN = false) (found : percentileSorted values p = some t) :
    t.isFinite = true := by
  have onValue {index : Nat} (place : percentilePlace values.length p = .exactly index) : t.isFinite = true := by
    simp only [percentileSorted, place] at found
    exact finite t (List.mem_of_getElem? found)
  rcases percentile_cases several defined with ⟨-, place⟩ | ⟨-, place⟩ | ⟨positive, less⟩
  · exact onValue place
  · exact onValue place
  · obtain ⟨share, place, within, given, -⟩ := percentilePlace_between several (by omega) positive less
    generalize ⌊exactValue (percentileRank values.length p)⌋₊ = lower at place within
    have lowerWithin : lower < values.length := by omega
    simp only [percentileSorted, place, List.getElem?_eq_getElem within, List.getElem?_eq_getElem lowerWithin] at found
    have computed : blended values[lower] values[lower + 1] share = t := Option.some.inj found
    rw [← computed]
    exact blended_isFinite given (finite _ (List.getElem_mem lowerWithin)) (finite _ (List.getElem_mem within))

/-- Whatever the finite volatilities are, the gate compares finite numbers. -/
theorem volatilityGate_isFinite {series : List Float} {low high : Float} {gate : GateResult}
    (short : series.length < 2 ^ 64) (answer : volatilityGate series low high = .ok gate) :
    gate.testedValue.isFinite = true ∧ gate.minThreshold.isFinite = true ∧ gate.maxThreshold.isFinite = true := by
  obtain ⟨band, -, tested, several, lower, upper, -⟩ := volatilityGate_eq_ok.mp answer
  obtain ⟨-, ordered, -⟩ := isBand_iff.mp band
  obtain ⟨lowDefined, highDefined, -⟩ := le_iff_linePlace.mp ordered
  have finite : ∀ value ∈ finiteSorted series, value.isFinite = true :=
    fun _ member => (mem_finiteSorted.mp member).2
  have fits : (finiteSorted series).length < 2 ^ 64 := by
    rw [length_finiteSorted]
    exact (List.length_filter_le _ _).trans_lt short
  exact ⟨tested, percentileSorted_isFinite finite several fits lowDefined lower,
    percentileSorted_isFinite finite several fits highDefined upper⟩

end SignalDesk
