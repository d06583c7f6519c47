import SignalDesk.Proofs.EvaluationFaults
import SignalDesk.Proofs.VolatilityMultiset
import SignalDesk.Proofs.VolatilityVeto
import SignalDesk.Proofs.WholeParts

namespace SignalDesk

namespace SortedMap

variable {α : Type} {key k : String} {value : α}

/-- The map without a key. -/
def erase (map : SortedMap α) (key : String) : SortedMap α :=
  ⟨map.entries.filter fun entry => entry.1 != key, map.ascending.sublist (List.filter_sublist.map _)⟩

theorem get?_erase (map : SortedMap α) : (map.erase key).get? k = if k = key then none else map.get? k := by
  refine Option.ext fun value => ?_
  rw [get?_eq_some, erase, List.mem_filter, bne_iff_ne, ← get?_eq_some]
  by_cases mine : k = key
  · simp [mine]
  · simp [mine]

theorem erase_insert {map : SortedMap α} (found : map.get? key = some value) :
    (map.erase key).insert key value = map := by
  refine ext_get? fun k => ?_
  rw [get?_insert, get?_erase]
  by_cases mine : k = key
  · rw [if_pos mine, mine, found]
  · rw [if_neg mine, if_neg mine]

end SortedMap

/-- An entry in which nothing is found makes no difference to a search. -/
theorem findSome?_insertEntry {α β : Type} {f : String × α → Option β} {key : String} {value : α}
    (nothing : f (key, value) = none) {entries : List (String × α)} (absent : entries.lookup key = none) :
    (insertEntry key value entries).findSome? f = entries.findSome? f := by
  induction entries with
  | nil => simp [insertEntry, nothing]
  | cons entry rest ih =>
    obtain ⟨k, v⟩ := entry
    have different : key ≠ k := by
      rintro rfl
      simp at absent
    rw [List.lookup_cons, beq_false_of_ne different] at absent
    rw [insertEntry, if_neg different]
    split
    · rw [List.findSome?_cons, nothing]
    · rw [List.findSome?_cons, List.findSome?_cons, ih absent]

namespace Parameters

/-- The parameters as if a number or a text had not been set. -/
def without (p : Parameters) (name : String) : Parameters := { p with values := p.values.erase name }

variable {p : Parameters} {name other : String} {value : Setting}

theorem without_set (found : p.values.get? name = some value) : (p.without name).set name value = p := by
  simp only [without, set, SortedMap.erase_insert found]

theorem number_set (different : other ≠ name) : (p.set name value).number other = p.number other := by
  simp only [number, set, SortedMap.get?_insert, if_neg different]

theorem numberOr_set (different : other ≠ name) (default : Float) :
    (p.set name value).numberOr other default = p.numberOr other default := by
  simp only [numberOr, number_set different]

theorem positive_set (different : other ≠ name) (default : Float) :
    (p.set name value).positive other default = p.positive other default := by
  simp only [positive, numberOr_set different]
  rfl

theorem volatilityLookback_eq_some {k : Nat} : p.volatilityLookback = .ok (some k) ↔
    ∃ n, p.values.get? volatilityLookbackName = some (.number n) ∧ n.isFinite = true ∧ 2.0 ≤ n ∧
      isWhole n = true ∧ n.toUInt64.toNat = k := by
  simp only [volatilityLookback, number, bind_eq_ok]
  constructor
  · rintro ⟨read, found, rest⟩
    split at found
    · cases found
      cases rest
    · rename_i n set
      cases found
      simp only [ite_eq_iff, Bool.and_eq_true, decide_eq_true_eq, Except.ok.injEq, Option.some.injEq, reduceCtorEq,
        and_false, or_false] at rest
      exact ⟨n, set, rest.1.1.1, rest.1.1.2, rest.1.2, rest.2⟩
    · cases found
  · rintro ⟨n, set, finite, large, whole, rfl⟩
    have valid : (n.isFinite && n >= 2.0 && isWhole n) = true := by
      simp only [finite, whole, Bool.and_true, Bool.true_and]
      exact decide_eq_true large
    exact ⟨some n, by rw [set], if_pos valid⟩

/-- A valid lookback is the whole number that is set, as far as 64 bits reach. -/
theorem lookback_of_number {n : Float} (finite : n.isFinite = true) (large : 2.0 ≤ n) :
    n.toUInt64.toNat = min ⌊exactValue n⌋₊ (2 ^ 64 - 1) ∧ 2 ≤ n.toUInt64.toNat := by
  have above := (exactValue_le_iff (by decide) (isNaN_eq_false finite)).mp large
  rw [exactValue_two] at above
  have word := toNat_toUInt64 finite (by linarith)
  have floor : 2 ≤ ⌊exactValue n⌋₊ := Nat.le_floor (by exact_mod_cast above)
  exact ⟨word, by omega⟩

section Unset

variable {n : Float} {k : Nat} (unset : p.values.get? volatilityLookbackName = none)
  (valid : (p.set volatilityLookbackName (.number n)).volatilityLookback = .ok (some k))

theorem volatilityBand_setLookback :
    (p.set volatilityLookbackName value).volatilityBand = p.volatilityBand := by
  simp only [volatilityBand, numberOr_set (show minVolatilityPercentile ≠ volatilityLookbackName by decide),
    numberOr_set (show maxVolatilityPercentile ≠ volatilityLookbackName by decide)]
  rfl

include unset

theorem volatilityLookback_unset : p.volatilityLookback = .ok none := by
  simp only [volatilityLookback, number, unset]
  rfl

include valid

/-- Parameters with a valid lookback are refused for what they were refused before. -/
theorem validate_setLookback : (p.set volatilityLookbackName (.number n)).validate = p.validate := by
  obtain ⟨m, set, finite, -⟩ := volatilityLookback_eq_some.mp valid
  obtain rfl : n = m := by simpa [Parameters.set] using set
  have nothing : (p.set volatilityLookbackName (.number n)).firstNotFinite = p.firstNotFinite :=
    findSome?_insertEntry (by simp [finite]) unset
  simp only [validate, nothing, valid, volatilityLookback_unset unset, volatilityBand_setLookback]
  rfl

end Unset

end Parameters

/-- The last values of a series tell each of them from behind. -/
theorem reverse_trailing_getElem? {count back : Nat} (within : back < count) (series : List Float) :
    (trailing (some count) series).reverse[back]? = series.reverse[back]? := by
  rw [trailing, ← List.take_reverse, List.getElem?_take_of_lt within]

/-- Nothing is cut off by a count that reaches beyond the series. -/
theorem trailing_of_length_le {count : Nat} {series : List Float} (long : series.length ≤ count) :
    trailing (some count) series = series := by
  rw [trailing, Nat.sub_eq_zero_of_le long, List.drop_zero]

/-- Two markets of one symbol with the same last bar, of which each series that is asked for ends with the same
values, as many as are read of it, or is missing in both. -/
structure Snapshot.AgreesRecently (market : Snapshot) (required : List String) (depth : String → Nat)
    (other : Snapshot) : Prop where
  symbol : market.symbol = other.symbol
  latestBar : market.latestBar = other.latestBar
  series : ∀ key ∈ required, (market.indicators.get? key).map (trailing (some (depth key))) =
    (other.indicators.get? key).map (trailing (some (depth key)))

namespace Snapshot.AgreesRecently

variable {market other : Snapshot} {required : List String} {depth : String → Nat} {key : String}
  (agrees : market.AgreesRecently required depth other)

include agrees

theorem contains (asked : key ∈ required) : market.indicators.contains key = other.indicators.contains key := by
  have present := congrArg Option.isSome (agrees.series key asked)
  rwa [Option.isSome_map, Option.isSome_map] at present

theorem preflight (name : String) (p : Parameters) :
    preflight name required market p = SignalDesk.preflight name required other p := by
  have missing : market.indicators.missing required = other.indicators.missing required :=
    List.filter_congr fun key asked => by rw [agrees.contains asked]
  simp only [SignalDesk.preflight, missing, asOf, agrees.latestBar, agrees.symbol]

theorem latestClose : market.latestClose = other.latestClose := by
  simp only [Snapshot.latestClose, agrees.latestBar, agrees.symbol]

theorem finiteBack (asked : key ∈ required) {back : Nat} (within : back < depth key) :
    market.finiteBack key back = other.finiteBack key back := by
  have ends := agrees.series key asked
  cases found : market.indicators.get? key with
  | none =>
    rw [found, Option.map_none] at ends
    have absent := Option.map_eq_none_iff.mp ends.symm
    simp only [Snapshot.finiteBack, found, absent]
  | some series =>
    rw [found, Option.map_some] at ends
    obtain ⟨others, foundToo, same⟩ := Option.map_eq_some_iff.mp ends.symm
    have value : series.reverse[back]? = others.reverse[back]? := by
      rw [← reverse_trailing_getElem? within series, ← same, reverse_trailing_getElem? within others]
    simp only [Snapshot.finiteBack, found, foundToo, value]

theorem checkVolatility {p : Parameters} (asked : key ∈ required)
    (valid : p.volatilityLookback = .ok (some (depth key))) :
    checkVolatility market key p = SignalDesk.checkVolatility other key p := by
  have ends := agrees.series key asked
  cases found : market.indicators.get? key with
  | none =>
    rw [found, Option.map_none] at ends
    have absent := Option.map_eq_none_iff.mp ends.symm
    simp only [SignalDesk.checkVolatility, found, absent]
  | some series =>
    rw [found, Option.map_some] at ends
    obtain ⟨others, foundToo, same⟩ := Option.map_eq_some_iff.mp ends.symm
    have window : volatilityGate (trailing (some (depth key)) series) =
        volatilityGate (trailing (some (depth key)) others) := congrArg volatilityGate same.symm
    simp only [SignalDesk.checkVolatility, found, foundToo, valid]
    refine bind_congr fun band => ?_
    exact congrFun (congrFun window band.1) band.2

end Snapshot.AgreesRecently

/-- How many values of a series are read: of the one that is gated as many as the lookback says, of any other two. -/
def readDepth (gated : String) (lookback : Nat) (key : String) : Nat := if key = gated then lookback else 2

theorem Snapshot.AgreesRecently.lastTwo {market other : Snapshot} {required : List String} {gated key : String}
    {k : Nat} (agrees : market.AgreesRecently required (readDepth gated k) other) (several : 2 ≤ k)
    (asked : key ∈ required) :
    market.latestFinite key = other.latestFinite key ∧ market.previousFinite key = other.previousFinite key := by
  have deep : 2 ≤ readDepth gated k key := by
    unfold readDepth
    split <;> omega
  exact ⟨agrees.finiteBack asked (by omega), agrees.finiteBack asked (by omega)⟩

namespace TradingRule

/-- A rule with a lookback judges two markets alike that differ in what lies further back. -/
theorem evaluate_agreesRecently {rule : TradingRule} {key : String} {p : Parameters} {k : Nat}
    {market other : Snapshot} (watched : rule.gateKey? = some key) (valid : p.volatilityLookback = .ok (some k))
    (agrees : market.AgreesRecently rule.strategy.required (readDepth key k) other) :
    rule.strategy.evaluate market p = rule.strategy.evaluate other p := by
  -- a breakout reads the last volatility as well, which any lookback leaves in reach
  have several : 2 ≤ k := by
    obtain ⟨n, -, finite, large, -, rfl⟩ := Parameters.volatilityLookback_eq_some.mp valid
    exact (Parameters.lookback_of_number finite large).2
  have gate : p.volatilityLookback = .ok (some (readDepth key k key)) := by rw [valid, readDepth, if_pos rfl]
  cases rule with
  | trendFollowing rule =>
    cases watched
    have fast := agrees.lastTwo several (name_mem_required (.trendFollowing rule) (.head _))
    have slow := agrees.lastTwo several (name_mem_required (.trendFollowing rule) (.tail _ (.head _)))
    have asked := name_mem_required (.trendFollowing rule) (.tail _ (.tail _ (.head _)))
    have gated := agrees.checkVolatility asked gate
    have ready := agrees.preflight rule.name p
    simp only [strategy, TrendFollowing.strategy] at ready ⊢
    simp only [TrendFollowing.evaluate, ready, gated, fast, slow, agrees.symbol]
  | meanReversion rule =>
    cases watched
    have upper := agrees.lastTwo several (name_mem_required (.meanReversion rule) (.head _))
    have lower := agrees.lastTwo several (name_mem_required (.meanReversion rule) (.tail _ (.head _)))
    have oscillator := agrees.lastTwo several (name_mem_required (.meanReversion rule) (.tail _ (.tail _ (.head _))))
    have asked := name_mem_required (.meanReversion rule) (.tail _ (.tail _ (.tail _ (.head _))))
    have gated := agrees.checkVolatility asked gate
    have ready := agrees.preflight rule.name p
    simp only [strategy, MeanReversion.strategy] at ready ⊢
    simp only [MeanReversion.evaluate, ready, gated, agrees.latestClose, upper, lower, oscillator, agrees.symbol]
  | breakout rule =>
    cases watched
    have upper := agrees.lastTwo several (name_mem_required (.breakout rule) (.head _))
    have lower := agrees.lastTwo several (name_mem_required (.breakout rule) (.tail _ (.head _)))
    have asked := name_mem_required (.breakout rule) (.tail _ (.tail _ (.head _)))
    have volatility := agrees.lastTwo several asked
    have gated := agrees.checkVolatility asked gate
    have ready := agrees.preflight rule.name p
    simp only [strategy, Breakout.strategy] at ready ⊢
    simp only [Breakout.evaluate, ready, gated, agrees.latestClose, upper, lower, volatility, agrees.symbol]
  | spreadReversion rule => cases watched

section Unset

variable {key : String} {p : Parameters} {n : Float} {k : Nat} {market : Snapshot}
  (unset : p.values.get? volatilityLookbackName = none)
  (valid : (p.set volatilityLookbackName (.number n)).volatilityLookback = .ok (some k))
  (long : ∀ series, market.indicators.get? key = some series → series.length ≤ k)

include unset valid long

theorem checkVolatility_setLookback :
    checkVolatility market key (p.set volatilityLookbackName (.number n)) = checkVolatility market key p := by
  simp only [checkVolatility, Parameters.volatilityBand_setLookback, valid, Parameters.volatilityLookback_unset unset]
  cases found : market.indicators.get? key with
  | none => rfl
  | some series =>
    have window : trailing (some k) series = trailing none series := trailing_of_length_le (long series found)
    refine bind_congr fun band => ?_
    exact congrArg (volatilityGate · band.1 band.2) window

/-- A lookback that reaches beyond the volatilities makes no difference. -/
theorem evaluate_setLookback {rule : TradingRule} (watched : rule.gateKey? = some key) :
    rule.strategy.evaluate market (p.set volatilityLookbackName (.number n)) = rule.strategy.evaluate market p := by
  have ready (name : String) (required : List String) :
      preflight name required market (p.set volatilityLookbackName (.number n)) =
        preflight name required market p := by
    simp only [preflight, Parameters.validate_setLookback unset valid]
  have gate := checkVolatility_setLookback unset valid long
  cases rule with
  | trendFollowing rule =>
    cases watched
    have saturation : "spread_saturation_pct" ≠ volatilityLookbackName := by decide
    simp only [strategy, TrendFollowing.strategy, TrendFollowing.evaluate, ready, gate,
      Parameters.positive_set saturation]
  | meanReversion rule =>
    cases watched
    have oversold : "oversold" ≠ volatilityLookbackName := by decide
    have overbought : "overbought" ≠ volatilityLookbackName := by decide
    simp only [strategy, MeanReversion.strategy, MeanReversion.evaluate, MeanReversion.bounds, ready, gate,
      Parameters.numberOr_set oversold, Parameters.numberOr_set overbought]
  | breakout rule =>
    cases watched
    simp only [strategy, Breakout.strategy, Breakout.evaluate, ready, gate]
  | spreadReversion rule => cases watched

end Unset

end TradingRule

/-- A gated strategy with a lookback sees of a market its symbol, its last bar, as many of the last volatilities as
the lookback says and the last two values of every other series that it asks for. The lookback is the whole number
that is set, or the greatest number of 64 bits in its place, and one that reaches beyond the volatilities has no
effect. -/
theorem StrategyKind.evaluate_forgets {kind : StrategyKind} {atr : UInt64} {strategy : Strategy} {p : Parameters}
    {k : Nat} (watches : kind.atrPeriod? = some atr) (created : kind.create = .ok strategy)
    (valid : p.volatilityLookback = .ok (some k)) :
    (∀ market other : Snapshot,
      market.AgreesRecently strategy.required (readDepth (Indicator.atr atr.toNat).name k) other →
        strategy.evaluate market p = strategy.evaluate other p) ∧
    ∃ n, p.values.get? volatilityLookbackName = some (.number n) ∧ k = min ⌊exactValue n⌋₊ (2 ^ 64 - 1) ∧
      ∀ market : Snapshot,
        (∀ series, market.indicators.get? (Indicator.atr atr.toNat).name = some series →
          series.length < 2 ^ 64 ∧ (series.length : ℚ) ≤ exactValue n) →
        strategy.evaluate market p = strategy.evaluate market (p.without volatilityLookbackName) := by
  obtain ⟨rule, accepted, rfl⟩ := create_eq_ok.mp created
  have watched := rule_gateKey? accepted
  rw [watches, Option.map_some] at watched
  refine ⟨fun market other agrees => TradingRule.evaluate_agreesRecently watched valid agrees, ?_⟩
  obtain ⟨n, set, finite, large, -, word⟩ := Parameters.volatilityLookback_eq_some.mp valid
  have count := (Parameters.lookback_of_number finite large).1
  rw [word] at count
  refine ⟨n, set, count, fun market long => ?_⟩
  have unset : (p.without volatilityLookbackName).values.get? volatilityLookbackName = none := by
    rw [Parameters.without, SortedMap.get?_erase, if_pos rfl]
  have whole := Parameters.without_set set
  rw [← whole] at valid
  have reaches : ∀ series, market.indicators.get? (Indicator.atr atr.toNat).name = some series → series.length ≤ k := by
    intro series found
    obtain ⟨short, below⟩ := long series found
    have floor := Nat.le_floor below
    omega
  have same := TradingRule.evaluate_setLookback unset valid reaches watched
  rwa [whole] at same

/-- A market after a quiet past. -/
def quietPast : Snapshot where
  symbol := "BTC/USDC"
  timeframe := .hour
  bars := [⟨⟨0, 0⟩, 90.0, 91.0, 89.0, 90.0, 5.0⟩, ⟨⟨3600, 0⟩, 100.0, 101.0, 99.0, 100.0, 5.0⟩]
  indicators := (∅ : SeriesCache)
    |>.insert "atr_14" [1.0, 2.0, 2.0, 3.0, 4.0]
    |>.insert "donchian_lower_20" [80.0, 95.0, 95.0]
    |>.insert "donchian_upper_20" [99.0, 105.0, 105.0]

/-- The same market after a stormy past. -/
def stormyPast : Snapshot where
  symbol := "BTC/USDC"
  timeframe := .day
  bars := [⟨⟨3600, 0⟩, 100.0, 101.0, 99.0, 100.0, 5.0⟩]
  indicators := (∅ : SeriesCache)
    |>.insert "atr_14" [50.0, 2.0, 3.0, 4.0]
    |>.insert "donchian_lower_20" [95.0, 95.0]
    |>.insert "donchian_upper_20" [105.0, 105.0]

/-- Parameters that let the highest quarter of the last volatilities pass. -/
def shortSighted (lookback : Float) : Parameters :=
  (Parameters.setBand ⟨"breakout", ∅, true⟩ 75.0 100.0).set volatilityLookbackName (.number lookback)

theorem quietPast_agreesRecently :
    quietPast.AgreesRecently (Breakout.required ⟨"breakout", 20, 14⟩)
      (readDepth (Indicator.atr (14 : UInt64).toNat).name 3) stormyPast where
  symbol := rfl
  latestBar := rfl
  series := by
    have required : Breakout.required ⟨"breakout", 20, 14⟩ =
      ["atr_14", "donchian_lower_20", "donchian_upper_20"] := rfl
    have gated : (Indicator.atr (14 : UInt64).toNat).name = "atr_14" := rfl
    have volatilities : readDepth "atr_14" 3 "atr_14" = 3 := if_pos rfl
    have lows : readDepth "atr_14" 3 "donchian_lower_20" = 2 := if_neg (by decide)
    have highs : readDepth "atr_14" 3 "donchian_upper_20" = 2 := if_neg (by decide)
    rw [required, gated]
    simp only [List.forall_mem_cons, volatilities, lows, highs]
    refine ⟨?_, ?_, ?_, nofun⟩
    · exact (show _ = some [2.0, 3.0, 4.0] from rfl).trans rfl
    · exact (show _ = some [95.0, 95.0] from rfl).trans rfl
    · exact (show _ = some [105.0, 105.0] from rfl).trans rfl

/-- After a quiet past the last volatility is among the highest. -/
theorem quietPast_passes :
    ∃ s, (Breakout.strategy ⟨"breakout", 20, 14⟩).evaluate quietPast
        ((shortSighted 3.0).without volatilityLookbackName) = .ok s ∧ s.isVetoed = false := by
  have ascending : [(1.0 : Float), 2.0, 2.0, 3.0, 4.0].Pairwise fun x y => totalLe x y = true := by decide
  have sorted : finiteSorted [1.0, 2.0, 2.0, 3.0, 4.0] = [1.0, 2.0, 2.0, 3.0, 4.0] :=
    List.mergeSort_of_pairwise ascending
  have decided : volatilityGate [1.0, 2.0, 2.0, 3.0, 4.0] 75.0 100.0 = .ok ⟨true, 3.0, 4.0, 4.0⟩ := by
    refine volatilityGate_eq_ok.mpr ⟨by decide, rfl, by decide, ?_⟩
    rw [sorted]
    exact ⟨by decide, by decide +kernel, by decide +kernel, by decide⟩
  have gate : checkVolatility quietPast (Indicator.atr 14).name ((shortSighted 3.0).without volatilityLookbackName) =
      .ok ⟨true, 3.0, 4.0, 4.0⟩ :=
    checkVolatility_eq_ok.mpr ⟨75.0, 100.0, [1.0, 2.0, 2.0, 3.0, 4.0], none, rfl, rfl, rfl, decided⟩
  have plain := (Breakout.answer_plain ⟨"breakout", 20, 14⟩ "BTC/USDC" ⟨3600, 0⟩ 100.0 105.0 95.0 4.0).not_vetoed
  refine ⟨_, Breakout.evaluate_eq_ok.mpr ⟨_, preflight_eq_ok.mpr ⟨rfl, rfl, rfl⟩, _, gate, Or.inr ⟨rfl, ?_⟩⟩, plain⟩
  exact ⟨100.0, rfl, 105.0, rfl, 95.0, rfl, 4.0, rfl, rfl⟩

/-- After a stormy past it is not. -/
theorem stormyPast_vetoed :
    ∃ s, (Breakout.strategy ⟨"breakout", 20, 14⟩).evaluate stormyPast
        ((shortSighted 3.0).without volatilityLookbackName) = .ok s ∧ s.isVetoed = true := by
  have ascending : [(2.0 : Float), 3.0, 4.0, 50.0].Pairwise fun x y => totalLe x y = true := by decide
  have same : ([50.0, 2.0, 3.0, 4.0].filter Float.isFinite).Perm [2.0, 3.0, 4.0, 50.0] := by decide
  have decided : volatilityGate [50.0, 2.0, 3.0, 4.0] 75.0 100.0 = .ok ⟨false, 15.5, 50.0, 4.0⟩ := by
    refine volatilityGate_eq_ok.mpr ⟨by decide, rfl, by decide, ?_⟩
    rw [finiteSorted_eq same ascending]
    exact ⟨by decide, by decide +kernel, by decide +kernel, by decide⟩
  have gate : checkVolatility stormyPast (Indicator.atr 14).name ((shortSighted 3.0).without volatilityLookbackName) =
      .ok ⟨false, 15.5, 50.0, 4.0⟩ :=
    checkVolatility_eq_ok.mpr ⟨75.0, 100.0, [50.0, 2.0, 3.0, 4.0], none, rfl, rfl, rfl, decided⟩
  exact ⟨_, Breakout.evaluate_eq_ok.mpr ⟨_, preflight_eq_ok.mpr ⟨rfl, rfl, rfl⟩, _, gate, Or.inl ⟨rfl, rfl⟩⟩,
    volatilityVeto_isVetoed ..⟩

/-- A lookback of three hides the difference that decides without it, and one beyond 64 bits hides nothing. -/
theorem stormyPast_forgotten :
    (StrategyKind.breakout 20 14 none).atrPeriod? = some 14 ∧
      (StrategyKind.breakout 20 14 none).create = .ok (Breakout.strategy ⟨"breakout", 20, 14⟩) ∧
      (shortSighted 3.0).volatilityLookback = .ok (some 3) ∧
      (shortSighted 1e20).volatilityLookback = .ok (some (2 ^ 64 - 1)) ∧
      (∃ s, (Breakout.strategy ⟨"breakout", 20, 14⟩).evaluate quietPast
          ((shortSighted 3.0).without volatilityLookbackName) = .ok s ∧ s.isVetoed = false) ∧
      (∃ s, (Breakout.strategy ⟨"breakout", 20, 14⟩).evaluate stormyPast
          ((shortSighted 3.0).without volatilityLookbackName) = .ok s ∧ s.isVetoed = true) ∧
      (Breakout.strategy ⟨"breakout", 20, 14⟩).evaluate quietPast (shortSighted 3.0) =
        (Breakout.strategy ⟨"breakout", 20, 14⟩).evaluate stormyPast (shortSighted 3.0) ∧
      (Breakout.strategy ⟨"breakout", 20, 14⟩).evaluate stormyPast (shortSighted 1e20) =
        (Breakout.strategy ⟨"breakout", 20, 14⟩).evaluate stormyPast
          ((shortSighted 1e20).without volatilityLookbackName) := by
  have watches : (StrategyKind.breakout 20 14 none).atrPeriod? = some 14 := rfl
  have created : (StrategyKind.breakout 20 14 none).create = .ok (Breakout.strategy ⟨"breakout", 20, 14⟩) := rfl
  have three : (shortSighted 3.0).volatilityLookback = .ok (some 3) :=
    Parameters.volatilityLookback_eq_some.mpr ⟨3.0, rfl, by decide, by decide, by decide, by decide⟩
  have most : (shortSighted 1e20).volatilityLookback = .ok (some (2 ^ 64 - 1)) :=
    Parameters.volatilityLookback_eq_some.mpr ⟨1e20, rfl, by decide, by decide, by decide, by decide⟩
  have forgets := (StrategyKind.evaluate_forgets watches created three).1 quietPast stormyPast quietPast_agreesRecently
  obtain ⟨n, -, count, unlimited⟩ := (StrategyKind.evaluate_forgets watches created most).2
  refine ⟨watches, created, three, most, quietPast_passes, stormyPast_vetoed, forgets,
    unlimited stormyPast fun series found => ?_⟩
  obtain rfl : [50.0, 2.0, 3.0, 4.0] = series := Option.some.inj found
  have large : 4 ≤ ⌊exactValue n⌋₊ := by omega
  exact ⟨by decide, (Nat.le_floor_iff' (by decide)).mp large⟩

end SignalDesk
