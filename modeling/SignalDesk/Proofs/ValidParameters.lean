import SignalDesk.Proofs.MonotoneDoubles
import SignalDesk.Proofs.RecentValues

namespace SignalDesk

/-- A text without the blanks around it. -/
def trimmed (s : String) : List Char := (skipBlanks (skipBlanks s.toList).reverse).reverse

theorem isBlankText_iff {s : String} : isBlankText s = true ↔ trimmed s = [] := by
  rw [isBlankText, List.all_eq_true, trimmed, List.reverse_eq_nil_iff, skipBlanks, List.dropWhile_eq_nil_iff]
  simp only [List.mem_reverse]
  constructor
  · intro blank c member
    exact blank c ((List.dropWhile_sublist _).subset member)
  · intro blank c member
    -- what is not skipped at the front would begin with something that is no blank
    cases left : skipBlanks s.toList with
    | nil => exact List.dropWhile_eq_nil_iff.mp left c member
    | cons d rest =>
      have front := List.head?_dropWhile_not isBlank s.toList
      rw [← skipBlanks, left] at front
      rw [left] at blank
      exact absurd (blank d List.mem_cons_self) (by simpa using front)

/-- From here on every double is a whole number. -/
theorem exactValue_firstWhole : exactValue 9007199254740992.0 = 2 ^ 53 := by
  have read : Rounds (2 ^ 53 : Nat) (9007199254740992 : UInt64).toFloat := (ofNat_settled _).rounds
  have same : (9007199254740992 : UInt64).toFloat = 9007199254740992.0 := by decide
  obtain ⟨place, below, size⟩ := exists_sizeAt_whole (n := 1) (by decide) 53
  have limit : infinityPlace = 2047 * 2 ^ 52 := rfl
  have value : ((2 ^ 53 : Nat) : ℚ) = placeValue place := by
    change _ = sizeAt place
    rw [size]
    push_cast
    ring
  rw [← same, exactValue, read.nearest.eq (by omega) value, ← value]
  push_cast
  rfl

theorem abs_of_positive {x : Float} (positive : 0.0 < x) : x.abs = x := by
  obtain ⟨-, defined, above⟩ := lt_iff_linePlace.mp positive
  rw [show linePlace 0.0 = 0 by decide] at above
  obtain ⟨-, place⟩ := linePlace_abs defined
  exact eq_of_linePlace (by omega) (by omega)

/-- A positive double has no fraction if and only if it stands for a whole number. -/
theorem isWhole_iff {x : Float} (finite : x.isFinite = true) (positive : 0.0 < x) :
    isWhole x = true ↔ ∃ n : Nat, exactValue x = n := by
  have defined := isNaN_eq_false finite
  have nonneg := (exactValue_pos finite positive).le
  rw [isWhole, abs_of_positive positive, Bool.or_eq_true, decide_eq_true_eq]
  by_cases large : (9007199254740992.0 : Float) ≤ x
  · refine ⟨fun _ => exactValue_whole ?_, fun _ => Or.inl large⟩
    rw [← exactValue_firstWhole]
    exact (exactValue_le_iff (by decide) defined).mp large
  · have small : exactValue x < 2 ^ 53 := by
      rw [← exactValue_firstWhole]
      exact lt_of_not_ge fun above => large ((exactValue_le_iff (by decide) defined).mpr above)
    have floor : ⌊exactValue x⌋₊ < 2 ^ 53 := (Nat.floor_lt nonneg).mpr (by exact_mod_cast small)
    have word : x.toUInt64.toNat = ⌊exactValue x⌋₊ := by
      rw [toNat_toUInt64 finite nonneg]
      omega
    obtain ⟨wholeFinite, whole⟩ := exactValue_ofNat_floor finite nonneg
    rw [word, double_beq_iff_exactValue (isNaN_eq_false wholeFinite) defined, whole]
    constructor
    · rintro (above | same)
      · exact absurd above large
      · exact ⟨_, same.symm⟩
    · rintro ⟨n, same⟩
      rw [same, Nat.floor_natCast]
      exact Or.inr rfl

namespace Parameters

variable {p : Parameters} {name : String} {default value : Float}

/-- What a number is read as: itself, or what stands for it where nothing is set. -/
def Reads (p : Parameters) (name : String) (default value : Float) : Prop :=
  p.values.get? name = some (.number value) ∨ p.values.get? name = none ∧ value = default

theorem numberOr_eq_ok : p.numberOr name default = .ok value ↔ p.Reads name default value := by
  simp only [numberOr, number, Reads, bind_eq_ok]
  cases p.values.get? name with
  | none =>
    constructor
    · rintro ⟨_, ⟨⟩, ⟨⟩⟩
      exact Or.inr ⟨rfl, rfl⟩
    · rintro (⟨⟨⟩⟩ | ⟨-, rfl⟩)
      exact ⟨none, rfl, rfl⟩
  | some setting =>
    cases setting with
    | number n =>
      constructor
      · rintro ⟨_, ⟨⟩, ⟨⟩⟩
        exact Or.inl rfl
      · rintro (⟨⟨⟩⟩ | ⟨⟨⟩, -⟩)
        exact ⟨some value, rfl, rfl⟩
    | text t =>
      constructor
      · rintro ⟨_, ⟨⟩, _⟩
      · rintro (⟨⟨⟩⟩ | ⟨⟨⟩, -⟩)

theorem volatilityBand_eq_ok {low high : Float} :
    p.volatilityBand = .ok (low, high) ↔ p.Reads minVolatilityPercentile 0.0 low ∧
      p.Reads maxVolatilityPercentile 100.0 high ∧ isBand low high = true := by
  simp only [volatilityBand, bind_eq_ok, numberOr_eq_ok, ite_eq_iff, Except.ok.injEq, Prod.mk.injEq, reduceCtorEq,
    and_false, or_false]
  constructor
  · rintro ⟨_, lowRead, _, highRead, band, rfl, rfl⟩
    exact ⟨lowRead, highRead, band⟩
  · rintro ⟨lowRead, highRead, band⟩
    exact ⟨low, lowRead, high, highRead, band, rfl, rfl⟩

/-- A lookback that is not set is none, and one that is set has to be a whole number from two on. -/
theorem volatilityLookback_isOk : (∃ lookback, p.volatilityLookback = .ok lookback) ↔
    ∀ setting, p.values.get? volatilityLookbackName = some setting →
      ∃ n, setting = .number n ∧ n.isFinite = true ∧ 2.0 ≤ n ∧ isWhole n = true := by
  constructor
  · rintro ⟨lookback, read⟩ setting set
    cases lookback with
    | none =>
      simp only [volatilityLookback, number, set] at read
      cases setting with
      | number n =>
        obtain ⟨_, ⟨⟩, rest⟩ := bind_eq_ok.mp read
        dsimp only at rest
        split at rest <;> cases rest
      | text t => cases read
    | some k =>
      obtain ⟨n, found, finite, large, whole, -⟩ := volatilityLookback_eq_some.mp read
      rw [found] at set
      cases set
      exact ⟨n, rfl, finite, large, whole⟩
  · intro valid
    cases set : p.values.get? volatilityLookbackName with
    | none => exact ⟨none, volatilityLookback_unset set⟩
    | some setting =>
      obtain ⟨n, rfl, finite, large, whole⟩ := valid setting set
      exact ⟨_, volatilityLookback_eq_some.mpr ⟨n, set, finite, large, whole, rfl⟩⟩

theorem firstNotFinite_eq_none :
    p.firstNotFinite = none ↔ ∀ name n, p.values.get? name = some (.number n) → n.isFinite = true := by
  simp only [firstNotFinite, List.findSome?_eq_none_iff, SortedMap.get?_eq_some]
  constructor
  · intro nothing name n listed
    simpa using nothing (name, .number n) listed
  · rintro finite ⟨name, _ | _⟩ listed
    · exact if_pos (finite name _ listed)
    · rfl

theorem validate_eq_ok : p.validate = .ok () ↔ isBlankText p.strategyId = false ∧ p.firstNotFinite = none ∧
    (∃ lookback, p.volatilityLookback = .ok lookback) ∧ ∃ band, p.volatilityBand = .ok band := by
  unfold validate
  cases isBlankText p.strategyId with
  | true => simp
  | false =>
    cases p.firstNotFinite with
    | some found => simp
    | none => simp [bind_eq_ok]

/-- A name that is more than blanks, only finite numbers, a lookback that is not set or a whole number from two on, and
percentages in order as the band, of which nothing and everything stand in for what is not set. -/
structure Valid (p : Parameters) : Prop where
  named : trimmed p.strategyId ≠ []
  finite : ∀ name n, p.values.get? name = some (.number n) → n.isFinite = true
  lookback : ∀ setting, p.values.get? volatilityLookbackName = some setting →
    ∃ (n : Float) (k : Nat), setting = .number n ∧ exactValue n = k ∧ 2 ≤ k
  band : ∃ low high, p.Reads minVolatilityPercentile 0.0 low ∧ p.Reads maxVolatilityPercentile 100.0 high ∧
    0.0 ≤ low ∧ low ≤ high ∧ high ≤ 100.0

/-- Among finite doubles those from two on without a fraction are the whole numbers from two on. -/
theorem lookback_iff {n : Float} (finite : n.isFinite = true) :
    2.0 ≤ n ∧ isWhole n = true ↔ ∃ k : Nat, exactValue n = k ∧ 2 ≤ k := by
  have order : 2.0 ≤ n ↔ 2 ≤ exactValue n := by
    rw [exactValue_le_iff (by decide) (isNaN_eq_false finite), exactValue_two]
  constructor
  · rintro ⟨large, whole⟩
    have positive : 0.0 < n := double_lt_of_lt_of_le (by decide) large
    obtain ⟨k, value⟩ := (isWhole_iff finite positive).mp whole
    rw [order, value] at large
    exact ⟨k, value, by exact_mod_cast large⟩
  · rintro ⟨k, value, two⟩
    have large : 2.0 ≤ n := by
      rw [order, value]
      exact_mod_cast two
    exact ⟨large, (isWhole_iff finite (double_lt_of_lt_of_le (by decide) large)).mpr ⟨k, value⟩⟩

theorem validate_iff_valid : p.validate = .ok () ↔ p.Valid := by
  rw [validate_eq_ok, ← Bool.not_eq_true, isBlankText_iff, firstNotFinite_eq_none, volatilityLookback_isOk]
  constructor
  · rintro ⟨named, finite, lookback, ⟨low, high⟩, read⟩
    obtain ⟨lowRead, highRead, ordered⟩ := volatilityBand_eq_ok.mp read
    refine ⟨named, finite, fun setting set => ?_, low, high, lowRead, highRead, isBand_iff.mp ordered⟩
    obtain ⟨n, rfl, nFinite, whole⟩ := lookback setting set
    obtain ⟨k, value⟩ := (lookback_iff nFinite).mp whole
    exact ⟨n, k, rfl, value⟩
  · rintro ⟨named, finite, lookback, low, high, lowRead, highRead, ordered⟩
    refine ⟨named, finite, fun setting set => ?_, (low, high), ?_⟩
    · obtain ⟨n, k, rfl, value⟩ := lookback setting set
      have nFinite := finite _ n set
      exact ⟨n, rfl, nFinite, (lookback_iff nFinite).mpr ⟨k, value⟩⟩
    · exact volatilityBand_eq_ok.mpr ⟨lowRead, highRead, isBand_iff.mpr ordered⟩

end Parameters

/-- With valid parameters the band and the lookback are known, so the gate is all that is left. -/
theorem checkVolatility_of_valid {market : Snapshot} {key : String} {series : List Float} {p : Parameters}
    (valid : p.validate = .ok ()) (found : market.indicators.get? key = some series) :
    ∃ low high lookback, isBand low high = true ∧ p.volatilityLookback = .ok lookback ∧
      checkVolatility market key p = volatilityGate (trailing lookback series) low high := by
  obtain ⟨-, -, ⟨lookback, window⟩, ⟨low, high⟩, read⟩ := Parameters.validate_eq_ok.mp valid
  refine ⟨low, high, lookback, (Parameters.volatilityBand_eq_ok.mp read).2.2, window, ?_⟩
  rw [checkVolatility, read]
  simp only [found, window]
  rfl

/-- Validation accepts exactly the valid parameters. With these the volatility of a market is judged wherever its series is
there: if there is no answer, then for want of data among the last values, and for nothing else. -/
theorem Parameters.validate_decides (p : Parameters) :
    (p.validate = .ok () ↔ p.Valid) ∧
    (p.validate = .ok () → ∀ market key series, market.indicators.get? key = some series →
      ∃ lookback, p.volatilityLookback = .ok lookback ∧
        ((∃ gate, checkVolatility market key p = .ok gate) ∨
          ∃ lack, checkVolatility market key p = .error (.insufficientData lack) ∧
            Inconclusive (trailing lookback series))) := by
  refine ⟨validate_iff_valid, fun valid market key series found => ?_⟩
  obtain ⟨low, high, lookback, band, window, gated⟩ := checkVolatility_of_valid valid found
  refine ⟨lookback, window, ?_⟩
  rw [gated]
  by_cases inconclusive : Inconclusive (trailing lookback series)
  · obtain ⟨lack, refused⟩ := volatilityGate_of_inconclusive band inconclusive
    exact Or.inr ⟨lack, refused, inconclusive⟩
  · obtain ⟨gate, answer, -⟩ := volatilityGate_of_conclusive band inconclusive
    exact Or.inl ⟨gate, answer⟩

/-- The last two volatilities, in a band that reaches from one of the zeros to the very end. -/
def lastTwo : Parameters :=
  (Parameters.set ⟨" breakout", ∅, true⟩ volatilityLookbackName (.number 2.0)).setBand (-0.0) 100.0

/-- Of the last two values one is missing. -/
def patchyMarket : Snapshot := ⟨"BTC/USDC", .hour, [], (∅ : SeriesCache).insert "atr_14" [1.0, 2.0, 0.0 / 0.0, 3.0]⟩

theorem lastTwo_decides :
    lastTwo.validate = .ok () ∧ lastTwo.Valid ∧
      patchyMarket.indicators.get? "atr_14" = some [1.0, 2.0, 0.0 / 0.0, 3.0] ∧
      ∃ lookback, lastTwo.volatilityLookback = .ok lookback ∧
        ((∃ gate, checkVolatility patchyMarket "atr_14" lastTwo = .ok gate) ∨
          ∃ lack, checkVolatility patchyMarket "atr_14" lastTwo = .error (.insufficientData lack) ∧
            Inconclusive (trailing lookback [1.0, 2.0, 0.0 / 0.0, 3.0])) := by
  have valid : lastTwo.validate = .ok () := rfl
  have found : patchyMarket.indicators.get? "atr_14" = some [1.0, 2.0, 0.0 / 0.0, 3.0] := rfl
  obtain ⟨decides, judged⟩ := Parameters.validate_decides lastTwo
  exact ⟨valid, decides.mp valid, found, judged valid _ _ _ found⟩

end SignalDesk
