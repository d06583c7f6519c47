import SignalDesk.Proofs.ThresholdBounds

namespace SignalDesk

theorem totalLe_antisymm {x y : Float} (before : totalLe x y = true) (behind : totalLe y x = true) : x = y :=
  totalRank_injective (Int.le_antisymm (of_decide_eq_true before) (of_decide_eq_true behind))

/-- Only one arrangement of the finite values ascends. -/
theorem finiteSorted_eq {series sorted : List Float} (same : (series.filter Float.isFinite).Perm sorted)
    (ascending : sorted.Pairwise fun x y => totalLe x y = true) : finiteSorted series = sorted := by
  have perm : (finiteSorted series).Perm sorted := (List.mergeSort_perm _ _).trans same
  refine List.Perm.eq_of_pairwise ?_ (pairwise_finiteSorted series) ascending perm
  intro x y _ _ before behind
  exact totalLe_antisymm before behind

/-- The order in which the values came is lost. -/
theorem finiteSorted_eq_of_perm {series other : List Float}
    (same : (series.filter Float.isFinite).Perm (other.filter Float.isFinite)) :
    finiteSorted series = finiteSorted other :=
  finiteSorted_eq (same.trans (List.mergeSort_perm _ _).symm) (pairwise_finiteSorted other)

/-- The gate knows of a series its last value and which finite values occur in it how often. -/
theorem volatilityGate_congr {series other : List Float} (last : series.getLast? = other.getLast?)
    (same : (series.filter Float.isFinite).Perm (other.filter Float.isFinite)) (low high : Float) :
    volatilityGate series low high = volatilityGate other low high := by
  have sorted := finiteSorted_eq_of_perm same
  unfold finiteSorted at sorted
  simp only [volatilityGate, last, sorted]

theorem percentileSorted_lowest {p : Float} (low : p ≤ 0.0) (sorted : List Float) :
    percentileSorted sorted p = sorted[0]? := by
  have place : percentilePlace sorted.length p = .exactly 0 := if_pos (Or.inr low)
  simp only [percentileSorted, place]

theorem percentileSorted_highest {p : Float} (high : 100.0 ≤ p) {sorted : List Float} (several : 2 ≤ sorted.length) :
    percentileSorted sorted p = sorted[sorted.length - 1]? := by
  have notLow : ¬(sorted.length ≤ 1 ∨ p ≤ 0.0) := by
    rintro (few | low)
    · omega
    · exact absurd (double_le_trans high low) (by decide)
  have place : percentilePlace sorted.length p = .exactly (sorted.length - 1) := (if_neg notLow).trans (if_pos high)
  simp only [percentileSorted, place]

/-- A volatility at its peak passes the full band. -/
theorem volatilityGate_peak {series values : List Float} {least greatest : Float}
    (finite : series.filter Float.isFinite = values) (ascending : values.Pairwise fun x y => totalLe x y = true)
    (several : 2 ≤ values.length) (first : values[0]? = some least)
    (last : values[values.length - 1]? = some greatest) (tested : series.getLast? = some greatest) :
    volatilityGate series 0.0 100.0 = .ok ⟨true, least, greatest, greatest⟩ := by
  have sorted : finiteSorted series = values := by
    rw [finiteSorted, finite]
    exact List.mergeSort_of_pairwise ascending
  have listed {x : Float} {index : Nat} (atIndex : values[index]? = some x) : x.isFinite = true :=
    (List.mem_filter.mp (finite ▸ List.mem_of_getElem? atIndex)).2
  have places : linePlace least ≤ linePlace greatest := by
    obtain ⟨inside, isLeast⟩ := List.getElem?_eq_some_iff.mp first
    obtain ⟨lastInside, isGreatest⟩ := List.getElem?_eq_some_iff.mp last
    have pair := List.pairwise_iff_getElem.mp ascending 0 (values.length - 1) inside lastInside (by omega)
    rw [isLeast, isGreatest] at pair
    exact linePlace_le_of_totalRank_le (of_decide_eq_true pair)
  have above : least ≤ greatest :=
    le_iff_linePlace.mpr ⟨isNaN_eq_false (listed first), isNaN_eq_false (listed last), places⟩
  have itself : greatest ≤ greatest :=
    le_iff_linePlace.mpr ⟨isNaN_eq_false (listed last), isNaN_eq_false (listed last), le_rfl⟩
  refine volatilityGate_eq_ok.mpr ⟨by decide, tested, listed last, ?_⟩
  rw [sorted, percentileSorted_lowest (by decide), percentileSorted_highest (by decide) several]
  refine ⟨several, first, last, ?_⟩
  rw [eq_comm, Bool.and_eq_true]
  exact ⟨decide_eq_true above, decide_eq_true itself⟩

section Ends

variable {series : List Float} {x y : Float}

/-- An earlier one of the sorted values is not greater than a later one. -/
theorem finiteSorted_le {i j : Nat} (le : i ≤ j) (first : (finiteSorted series)[i]? = some x)
    (second : (finiteSorted series)[j]? = some y) : x ≤ y := by
  have value {k : Nat} {z : Float} (found : (finiteSorted series)[k]? = some z) :
      valueAt (finiteSorted series) k = exactValue z := by
    rw [valueAt, List.getD_eq_getElem?_getD, found, Option.getD_some]
  have finite {k : Nat} {z : Float} (found : (finiteSorted series)[k]? = some z) : z.isNaN = false :=
    isNaN_eq_false (mem_finiteSorted.mp (List.mem_of_getElem? found)).2
  obtain ⟨inside, -⟩ := List.getElem?_eq_some_iff.mp second
  rw [exactValue_le_iff (finite first) (finite second), ← value first, ← value second]
  exact (finiteSorted_ascending series).ordered le inside

theorem finiteSorted_first_le (first : (finiteSorted series)[0]? = some x) (member : y ∈ series)
    (finite : y.isFinite = true) : x ≤ y := by
  obtain ⟨i, found⟩ := List.mem_iff_getElem?.mp (mem_finiteSorted.mpr ⟨member, finite⟩)
  exact finiteSorted_le (Nat.zero_le i) first found

theorem le_finiteSorted_last (last : (finiteSorted series)[(finiteSorted series).length - 1]? = some x)
    (member : y ∈ series) (finite : y.isFinite = true) : y ≤ x := by
  obtain ⟨i, found⟩ := List.mem_iff_getElem?.mp (mem_finiteSorted.mpr ⟨member, finite⟩)
  obtain ⟨inside, -⟩ := List.getElem?_eq_some_iff.mp found
  exact finiteSorted_le (by omega) found last

end Ends

/-- The full band reaches from the least to the greatest finite value. -/
theorem volatilityGate_spans {series : List Float} {gate : GateResult}
    (answer : volatilityGate series 0.0 100.0 = .ok gate) : Spans series gate.minThreshold gate.maxThreshold := by
  obtain ⟨-, -, -, several, lower, upper, -⟩ := volatilityGate_eq_ok.mp answer
  rw [percentileSorted_lowest (by decide)] at lower
  rw [percentileSorted_highest (by decide) several] at upper
  obtain ⟨leastMember, leastFinite⟩ := mem_finiteSorted.mp (List.mem_of_getElem? lower)
  obtain ⟨greatestMember, greatestFinite⟩ := mem_finiteSorted.mp (List.mem_of_getElem? upper)
  exact ⟨leastMember, leastFinite, greatestMember, greatestFinite, fun x member finite =>
    ⟨finiteSorted_first_le lower member finite, le_finiteSorted_last upper member finite⟩⟩

/-- The full band lets everything pass and bounds it by the least and the greatest finite value. Whatever the band,
the answer rests on the last value and on the finite values as a multiset: it is the same for the earlier ones in
another order, and with and without values among them that are not finite. -/
theorem volatilityGate_of_multiset (series : List Float) :
    (∀ gate, volatilityGate series 0.0 100.0 = .ok gate →
      gate.passed = true ∧ Spans series gate.minThreshold gate.maxThreshold) ∧
    ∀ low high : Float,
      (∀ other : List Float, other.getLast? = series.getLast? →
        (other.filter Float.isFinite).Perm (series.filter Float.isFinite) →
          volatilityGate other low high = volatilityGate series low high) ∧
      (∀ earlier last, earlier.Perm series →
        volatilityGate (earlier ++ [last]) low high = volatilityGate (series ++ [last]) low high) ∧
      ∀ gap behind last, gap.isFinite = false →
        volatilityGate (series ++ gap :: behind ++ [last]) low high =
          volatilityGate (series ++ behind ++ [last]) low high := by
  refine ⟨fun gate answer => ?_, fun low high => ⟨fun other last same => ?_, fun earlier last perm => ?_,
    fun gap behind last undefined => ?_⟩⟩
  · have spans := volatilityGate_spans answer
    obtain ⟨-, last, finite, -, -, -, compared⟩ := volatilityGate_eq_ok.mp answer
    obtain ⟨above, below⟩ := spans.encloses gate.testedValue (List.mem_of_getLast? last) finite
    refine ⟨?_, spans⟩
    rw [compared, Bool.and_eq_true]
    exact ⟨decide_eq_true above, decide_eq_true below⟩
  · exact volatilityGate_congr last same low high
  · have same : (earlier ++ [last]).getLast? = (series ++ [last]).getLast? := by simp
    exact volatilityGate_congr same ((perm.append_right [last]).filter _) low high
  · have same : (series ++ gap :: behind ++ [last]).getLast? = (series ++ behind ++ [last]).getLast? :=
      List.getLast?_concat.trans List.getLast?_concat.symm
    have skipped : (series ++ gap :: behind ++ [last]).filter Float.isFinite =
        (series ++ behind ++ [last]).filter Float.isFinite := by
      simp [undefined]
    exact volatilityGate_congr same (.of_eq skipped) low high

/-- Both zeros, of which the negative one is the lesser in the total order, and a gap. -/
theorem zeroedVolatility_of_multiset :
    volatilityGate [0.0, 0.0 / 0.0, 2.0, -0.0, 0.0] 0.0 100.0 = .ok ⟨true, -0.0, 2.0, 0.0⟩ ∧
      Spans [0.0, 0.0 / 0.0, 2.0, -0.0, 0.0] (-0.0) 2.0 ∧
      ([2.0, -0.0, 0.0] : List Float).Perm [0.0, 2.0, -0.0] ∧ (0.0 / 0.0 : Float).isFinite = false ∧
      volatilityGate ([2.0, -0.0, 0.0] ++ [0.0]) 25.0 50.0 = volatilityGate ([0.0, 2.0, -0.0] ++ [0.0]) 25.0 50.0 ∧
      volatilityGate ([0.0] ++ 0.0 / 0.0 :: [2.0, -0.0] ++ [0.0]) 25.0 50.0 =
        volatilityGate ([0.0] ++ [2.0, -0.0] ++ [0.0]) 25.0 50.0 := by
  have sorted : finiteSorted [0.0, 0.0 / 0.0, 2.0, -0.0, 0.0] = [-0.0, 0.0, 0.0, 2.0] :=
    finiteSorted_eq (by decide) (by decide)
  have answer : volatilityGate [0.0, 0.0 / 0.0, 2.0, -0.0, 0.0] 0.0 100.0 = .ok ⟨true, -0.0, 2.0, 0.0⟩ := by
    refine volatilityGate_eq_ok.mpr ⟨by decide, rfl, by decide, ?_⟩
    rw [sorted]
    exact ⟨by decide, rfl, rfl, by decide⟩
  have rotated : ([2.0, -0.0, 0.0] : List Float).Perm [0.0, 2.0, -0.0] := by decide
  have undefined : (0.0 / 0.0 : Float).isFinite = false := by decide
  obtain ⟨full, -⟩ := volatilityGate_of_multiset [0.0, 0.0 / 0.0, 2.0, -0.0, 0.0]
  obtain ⟨-, reordered, -⟩ := (volatilityGate_of_multiset [0.0, 2.0, -0.0]).2 25.0 50.0
  obtain ⟨-, -, gapless⟩ := (volatilityGate_of_multiset [0.0]).2 25.0 50.0
  exact ⟨answer, (full _ answer).2, rotated, undefined, reordered _ 0.0 rotated,
    gapless _ [2.0, -0.0] 0.0 undefined⟩

end SignalDesk
