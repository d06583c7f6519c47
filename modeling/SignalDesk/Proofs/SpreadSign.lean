import SignalDesk.Proofs.DoubleArithmetic
import SignalDesk.Strategy.TrendFollowing

namespace SignalDesk

open Float.Model Float.Model.UnpackedFloat LinePlace

theorem unpack_infinite {x : Float} (defined : x.isNaN = false) (infinite : x.isFinite = false) :
    ∃ s, x.toModel.unpack = .infinity s ∧ linePlace x = s.apply infinityPlace := by
  have located := located_unpack defined
  change x.toModel.unpack.isFinite = false at infinite
  generalize x.toModel.unpack = u at *
  generalize linePlace x = i at *
  cases located with
  | infinity s => exact ⟨s, rfl, rfl⟩
  | zero => cases infinite
  | finite => cases infinite

theorem unpack_positive {x : Float} (finite : x.isFinite = true) (positive : 0 < exactValue x) :
    ∃ m e some, x.toModel.unpack = .finite .positive m e some := by
  obtain ⟨s, place, aligned, -⟩ := aligned_unpack finite
  rw [exactValue_eq_unpackedValue finite] at positive
  generalize x.toModel.unpack = u at *
  cases aligned with
  | zero => exact absurd positive (lt_irrefl 0)
  | finite _ m e some =>
    cases s with
    | positive => exact ⟨m, e, some, rfl⟩
    | negative =>
      have size : (0 : ℚ) ≤ m * 2 ^ e := by positivity
      simp only [unpackedValue, signed] at positive
      linarith

/-- A double on one side of zero, at a place or further out. -/
structure Beyond (s : Sign) (n : Nat) (x : Float) : Prop where
  defined : x.isNaN = false
  place : ∃ m, n ≤ m ∧ linePlace x = s.apply m

namespace Beyond

variable {s : Sign} {n k : Nat} {x y : Float}

theorem of_rounds {q size : ℚ} (rounds : Rounds q x) (value : q = signed s size) (large : sizeAt n ≤ size)
    (bounded : n ≤ infinityPlace) : Beyond s n x := by
  refine ⟨rounds.defined, ?_⟩
  cases s with
  | positive =>
    have above := rounds.nearest.le_of_placeValue_le (j := n) (by omega) (large.trans_eq value.symm)
    exact ⟨(linePlace x).toNat, by omega, by simp only [Sign.apply]; omega⟩
  | negative =>
    have below := rounds.nearest.le_of_le_placeValue (j := Sign.negative.apply n) (by simp only [Sign.apply]; omega)
      (by rw [value, placeValue_apply]; exact neg_le_neg large)
    simp only [Sign.apply] at below
    exact ⟨(-linePlace x).toNat, by omega, by simp only [Sign.apply]; omega⟩

theorem exactValue_eq (beyond : Beyond s n x) : ∃ size, sizeAt n ≤ size ∧ exactValue x = signed s size := by
  obtain ⟨m, further, place⟩ := beyond.place
  exact ⟨sizeAt m, sizeAt_strictMono.monotone further, by rw [exactValue, place, placeValue_apply]⟩

theorem unpack_infinite (beyond : Beyond s n x) (infinite : x.isFinite = false) :
    x.toModel.unpack = .infinity s := by
  obtain ⟨t, unpacked, place⟩ := SignalDesk.unpack_infinite beyond.defined infinite
  obtain ⟨m, further, same⟩ := beyond.place
  have limit : infinityPlace = 2047 * 2 ^ 52 := rfl
  rw [place] at same
  cases s <;> cases t <;> simp only [Sign.apply] at same
  · exact unpacked
  · omega
  · omega
  · exact unpacked

theorem infinity (s : Sign) : Beyond s infinityPlace (.ofModel (.pack (.infinity s))) := by
  cases s
  · exact ⟨by decide, infinityPlace, le_rfl, by decide⟩
  · exact ⟨by decide, infinityPlace, le_rfl, by decide⟩

theorem mono {m : Nat} (beyond : Beyond s n x) (less : m ≤ n) : Beyond s m x := by
  obtain ⟨defined, place, further, same⟩ := beyond
  exact ⟨defined, place, less.trans further, same⟩

/-- A quotient by a positive double stays on its side of zero. -/
theorem div (beyond : Beyond s n x) (finite : y.isFinite = true) (positive : 0 < exactValue y)
    (large : sizeAt k * exactValue y ≤ sizeAt n) (bounded : k ≤ infinityPlace) : Beyond s k (x / y) := by
  cases xFinite : x.isFinite with
  | true =>
    obtain ⟨size, above, value⟩ := beyond.exactValue_eq
    have rounds := rounds_div xFinite finite positive.ne'
    have quotient : exactValue x / exactValue y = signed s (size / exactValue y) := by
      rw [value]
      cases s
      · exact neg_div _ _
      · rfl
    exact of_rounds rounds quotient ((le_div_iff₀ positive).mpr (large.trans above)) bounded
  | false =>
    obtain ⟨m, e, leading, unpacked⟩ := unpack_positive finite positive
    have infinite := beyond.unpack_infinite xFinite
    have quotient : x / y = .ofModel (.pack (.infinity s)) := by
      change Float.ofModel (.pack (UnpackedFloat.div _ x.toModel.unpack y.toModel.unpack)) = _
      rw [infinite, unpacked]
      cases s <;> rfl
    rw [quotient]
    exact (infinity s).mono bounded

/-- A product with a double from one on stays where it is or moves out. -/
theorem mul (beyond : Beyond s n x) (finite : y.isFinite = true) (large : 1 ≤ exactValue y)
    (bounded : n ≤ infinityPlace) : Beyond s n (x * y) := by
  cases xFinite : x.isFinite with
  | true =>
    obtain ⟨size, above, value⟩ := beyond.exactValue_eq
    have rounds := rounds_mul xFinite finite
    have product : exactValue x * exactValue y = signed s (size * exactValue y) := by
      rw [value]
      cases s
      · exact neg_mul _ _
      · rfl
    have nonneg := (sizeAt_nonneg n).trans above
    exact of_rounds rounds product (above.trans (le_mul_of_one_le_right nonneg large)) bounded
  | false =>
    obtain ⟨m, e, leading, unpacked⟩ := unpack_positive finite (by linarith)
    have infinite := beyond.unpack_infinite xFinite
    have product : x * y = .ofModel (.pack (.infinity s)) := by
      change Float.ofModel (.pack (UnpackedFloat.mul _ x.toModel.unpack y.toModel.unpack)) = _
      rw [infinite, unpacked]
      cases s <;> rfl
    rw [product]
    exact (infinity s).mono bounded

end Beyond

theorem Beyond.positive {n : Nat} {x : Float} (beyond : Beyond .positive n x) (some : 0 < n) : 0.0 < x := by
  obtain ⟨m, further, place⟩ := beyond.place
  have zero : linePlace 0.0 = 0 := by decide
  simp only [Sign.apply] at place
  exact lt_iff_linePlace.mpr ⟨by decide, beyond.defined, by omega⟩

theorem Beyond.negative {n : Nat} {x : Float} (beyond : Beyond .negative n x) (some : 0 < n) : x < 0.0 := by
  obtain ⟨m, further, place⟩ := beyond.place
  have zero : linePlace 0.0 = 0 := by decide
  simp only [Sign.apply] at place
  exact lt_iff_linePlace.mpr ⟨beyond.defined, by decide, by omega⟩

theorem linePlace_of_positive {x : Float} (finite : x.isFinite = true) (positive : 0.0 < x) :
    ∃ place : Nat, 0 < place ∧ place < infinityPlace ∧ linePlace x = place := by
  obtain ⟨s, place, -, value, small⟩ := aligned_unpack finite
  have zero : linePlace 0.0 = 0 := by decide
  have above := (lt_iff_linePlace.mp positive).2.2
  rw [value, zero] at above
  cases s <;> simp only [Sign.apply] at above
  · omega
  · exact ⟨place, by omega, small, value⟩

theorem exactValue_pos {x : Float} (finite : x.isFinite = true) (positive : 0.0 < x) : 0 < exactValue x :=
  (pos_iff_exactValue (isNaN_eq_false finite)).mp positive

/-- Doubles of one place are the same one, unless they are zeros. -/
theorem eq_of_not_lt {x y : Float} (xDefined : x.isNaN = false) (yFinite : y.isFinite = true) (positive : 0.0 < y)
    (notAbove : ¬y < x) (notBelow : ¬x < y) : x = y := by
  obtain ⟨p, some, -, place⟩ := linePlace_of_positive yFinite positive
  have yDefined := isNaN_eq_false yFinite
  have le := (le_iff_linePlace.mp (double_le_of_not_lt yDefined xDefined notAbove)).2.2
  have ge := (le_iff_linePlace.mp (double_le_of_not_lt xDefined yDefined notBelow)).2.2
  exact eq_of_linePlace (by omega) (by omega)

/-- The distance from the double at a place to the next one. -/
def gapAt (place : Nat) : ℚ := spacing place / unitSteps

theorem sizeAt_succ (place : Nat) : sizeAt (place + 1) = sizeAt place + gapAt place := by
  rw [sizeAt, steps_succ, sizeAt, gapAt, Nat.cast_add, add_div]

/-- A double is less than 2^53 times as great as its distance to the next one. -/
theorem sizeAt_succ_le (place : Nat) : sizeAt (place + 1) ≤ 2 ^ 53 * gapAt place := by
  have mantissa : significand place + 1 ≤ 2 ^ 53 := by
    unfold significand
    split <;> omega
  rw [sizeAt, gapAt, mul_div_assoc', div_le_div_iff_of_pos_right unitSteps_pos, steps_succ, steps]
  exact_mod_cast (Nat.succ_mul _ _).symm.trans_le (Nat.mul_le_mul_right (spacing place) mantissa)

theorem exists_gapAt {place : Nat} (finite : place < infinityPlace) :
    ∃ g, g ≤ infinityPlace ∧ sizeAt g = gapAt place := by
  have limit : infinityPlace = 2047 * 2 ^ 52 := rfl
  obtain ⟨g, below, size⟩ := exists_sizeAt (n := 1) (by decide) (place / 2 ^ 52 - 1)
  refine ⟨g, by omega, ?_⟩
  rw [size, Nat.cast_one, one_mul, gapAt, spacing, Nat.cast_pow, Nat.cast_ofNat, tickSize]

/-- The part of a double that its distance to another double is at least. -/
theorem exists_leastPart : ∃ h, 0 < h ∧ h ≤ infinityPlace ∧ sizeAt h * 2 ^ 53 = 1 := by
  have limit : infinityPlace = 2047 * 2 ^ 52 := rfl
  obtain ⟨h, below, size⟩ := exists_sizeAt (n := 1) (by decide) 1021
  have whole : sizeAt h * 2 ^ 53 = 1 := by
    rw [size, Nat.cast_one, one_mul, ← tickSize_add, tickSize_whole]
  refine ⟨h, Nat.pos_of_ne_zero ?_, by omega, whole⟩
  rintro rfl
  rw [sizeAt_zero, zero_mul] at whole
  exact zero_ne_one whole

namespace TrendFollowing

/-- Where the averages differ, so does their rounded distance in percent from zero. -/
theorem spreadPercent_beyond {fast slow : Float} {s : Sign} {size : ℚ} {place : Nat}
    (fastFinite : fast.isFinite = true) (slowFinite : slow.isFinite = true) (positive : 0 < exactValue slow)
    (finite : place < infinityPlace)
    (difference : exactValue fast - exactValue slow = signed s size) (apart : gapAt place ≤ size)
    (near : exactValue slow ≤ sizeAt (place + 1)) : ∃ h, 0 < h ∧ Beyond s h (spreadPercent fast slow) := by
  obtain ⟨g, gBounded, gSize⟩ := exists_gapAt finite
  obtain ⟨h, hPositive, hBounded, hSize⟩ := exists_leastPart
  have distance : Beyond s g (fast - slow) :=
    .of_rounds (rounds_sub fastFinite slowFinite) difference (gSize.trans_le apart) gBounded
  have part : sizeAt h * exactValue slow ≤ sizeAt g := by
    calc sizeAt h * exactValue slow ≤ sizeAt h * (2 ^ 53 * gapAt place) :=
          mul_le_mul_of_nonneg_left (near.trans (sizeAt_succ_le place)) (sizeAt_nonneg h)
      _ = sizeAt g := by rw [← mul_assoc, hSize, one_mul, gSize]
  have hundred : 1 ≤ exactValue 100.0 := by
    rw [← exactValue_one]
    exact (exactValue_le_iff (by decide) (by decide)).mp (by decide)
  exact ⟨h, hPositive, (distance.div slowFinite positive part hBounded).mul (by decide) hundred hBounded⟩

variable {fast slow : Float}

theorem spreadPercent_of_lt (fastFinite : fast.isFinite = true) (slowFinite : slow.isFinite = true)
    (positive : 0.0 < slow) (less : slow < fast) : 0.0 < spreadPercent fast slow := by
  obtain ⟨p, some, finite, place⟩ := linePlace_of_positive slowFinite positive
  have slowValue : exactValue slow = sizeAt p := by rw [exactValue, place]; rfl
  have above : sizeAt (p + 1) ≤ exactValue fast := by
    have next := (lt_iff_linePlace.mp less).2.2
    exact placeValue_strictMono.monotone (show ((p + 1 : Nat) : Int) ≤ linePlace fast by omega)
  have apart : gapAt p ≤ exactValue fast - exactValue slow := by
    rw [slowValue]
    linarith [sizeAt_succ p]
  obtain ⟨h, hPositive, beyond⟩ := spreadPercent_beyond (s := .positive) fastFinite slowFinite
    (exactValue_pos slowFinite positive) finite rfl apart
    (slowValue ▸ (sizeAt_strictMono p.lt_succ_self).le)
  exact beyond.positive hPositive

theorem spreadPercent_of_gt (fastFinite : fast.isFinite = true) (slowFinite : slow.isFinite = true)
    (positive : 0.0 < slow) (greater : fast < slow) : spreadPercent fast slow < 0.0 := by
  obtain ⟨p, some, finite, place⟩ := linePlace_of_positive slowFinite positive
  obtain ⟨before, rfl⟩ : ∃ before, p = before + 1 := ⟨p - 1, by omega⟩
  have slowValue : exactValue slow = sizeAt (before + 1) := by rw [exactValue, place]; rfl
  have below : exactValue fast ≤ sizeAt before := by
    have next := (lt_iff_linePlace.mp greater).2.2
    exact placeValue_strictMono.monotone (show linePlace fast ≤ (before : Nat) by omega)
  have apart : gapAt before ≤ exactValue slow - exactValue fast := by
    rw [slowValue]
    linarith [sizeAt_succ before]
  obtain ⟨h, hPositive, beyond⟩ := spreadPercent_beyond (s := .negative) fastFinite slowFinite
    (exactValue_pos slowFinite positive) (by omega) (neg_sub _ _).symm apart slowValue.le
  exact beyond.negative hPositive

theorem spreadPercent_self (finite : slow.isFinite = true) (positive : 0.0 < slow) :
    IsZero (spreadPercent slow slow) := by
  have divisor := (exactValue_pos finite positive).ne'
  exact ((IsZero.sub_same finite).div finite divisor).mul_left (by decide)

/-- The strategy follows the order of the averages: the rounded distance in percent has the right sign. -/
theorem direction_spreadPercent (fastFinite : fast.isFinite = true) (slowFinite : slow.isFinite = true)
    (positive : 0.0 < slow) :
    direction (spreadPercent fast slow) = if slow < fast then .buy else if fast < slow then .sell else .hold := by
  unfold direction
  by_cases less : slow < fast
  · rw [if_pos less, if_pos (spreadPercent_of_lt fastFinite slowFinite positive less)]
  by_cases greater : fast < slow
  · have below := spreadPercent_of_gt fastFinite slowFinite positive greater
    have notAbove : ¬spreadPercent fast slow > 0.0 := double_not_lt_of_le (double_le_of_lt below)
    rw [if_neg less, if_pos greater, if_neg notAbove, if_pos below]
  · have same := eq_of_not_lt (isNaN_eq_false fastFinite) slowFinite positive less greater
    have nothing := spreadPercent_self slowFinite positive
    rw [if_neg less, if_neg greater, same, if_neg (IsZero.literal.not_lt nothing),
      if_neg (nothing.not_lt .literal)]

theorem direction_trades_iff (fastFinite : fast.isFinite = true) (slowFinite : slow.isFinite = true)
    (positive : 0.0 < slow) : direction (spreadPercent fast slow) ≠ .hold ↔ fast ≠ slow := by
  rw [direction_spreadPercent fastFinite slowFinite positive]
  split
  · rename_i less
    exact iff_of_true nofun fun same => not_lt_self slow (same ▸ less)
  split
  · rename_i greater
    exact iff_of_true nofun fun same => not_lt_self slow (same ▸ greater)
  · rename_i notLess notGreater
    have same := eq_of_not_lt (isNaN_eq_false fastFinite) slowFinite positive notLess notGreater
    exact iff_of_false (fun trades => trades rfl) (fun differ => differ same)

end TrendFollowing

end SignalDesk
