import SignalDesk.Proofs.EvaluationFaults
import SignalDesk.Proofs.IndicatorSharing

namespace SignalDesk

namespace StrategyKind

def zscoreKey? : StrategyKind → Option String
  | spreadReversion zscoreKey _ => some zscoreKey
  | _ => none

theorem rule_zscoreKey? {kind : StrategyKind} {rule : TradingRule} (accepted : kind.rule = .ok rule) :
    rule.zscoreKey? = kind.zscoreKey? := by
  rw [rule_eq_describedRule accepted]
  cases kind <;> rfl

theorem mem_required {kind : StrategyKind} {strategy : Strategy} (created : kind.create = .ok strategy)
    {key : String} :
    key ∈ strategy.required ↔
      (∃ indicator ∈ kind.indicators, indicator.name = key) ∨ kind.zscoreKey? = some key := by
  obtain ⟨rule, accepted, rfl⟩ := create_eq_ok.mp created
  rw [TradingRule.mem_required, indicators_of_rule accepted, rule_zscoreKey? accepted]

end StrategyKind

/-- The series that accepted kinds require are those that their indicators provide, and those of spreads. -/
theorem requiredIndicators_eq_ok {kinds : List StrategyKind}
    (accepted : ∀ kind ∈ kinds, ∃ strategy, kind.create = .ok strategy) :
    ∃ keys, requiredIndicators kinds = .ok keys ∧ keys.Pairwise (· < ·) ∧
      ∀ key, key ∈ keys ↔ (∃ indicator ∈ indicatorSet kinds, indicator.name = key) ∨
        ∃ kind ∈ kinds, kind.zscoreKey? = some key := by
  obtain ⟨strategies, created, members⟩ := mapM_mem accepted
  refine ⟨sortedNames (strategies.flatMap Strategy.required), ?_, pairwise_sortedNames _, fun key => ?_⟩
  · rw [requiredIndicators, created]
    rfl
  · rw [mem_sortedNames, List.mem_flatMap]
    constructor
    · rintro ⟨strategy, listed, asked⟩
      obtain ⟨kind, known, made⟩ := (members strategy).mp listed
      rcases (StrategyKind.mem_required made).mp asked with ⟨indicator, mine, rfl⟩ | spread
      · exact Or.inl ⟨indicator, mem_indicatorSet.mpr ⟨kind, known, mine⟩, rfl⟩
      · exact Or.inr ⟨kind, known, spread⟩
    · have backwards {kind : StrategyKind} (known : kind ∈ kinds)
          (asks : (∃ indicator ∈ kind.indicators, indicator.name = key) ∨ kind.zscoreKey? = some key) :
          ∃ strategy ∈ strategies, key ∈ strategy.required := by
        obtain ⟨strategy, made⟩ := accepted kind known
        exact ⟨strategy, (members strategy).mpr ⟨kind, known, made⟩, (StrategyKind.mem_required made).mpr asks⟩
      rintro (⟨indicator, listed, same⟩ | ⟨kind, known, spread⟩)
      · obtain ⟨kind, known, mine⟩ := mem_indicatorSet.mp listed
        exact backwards known (Or.inl ⟨indicator, mine, same⟩)
      · exact backwards known (Or.inr spread)

/-- Any fault but that a series is missing. -/
def Fault.NotMissing : Fault → Prop
  | missingIndicators _ => False
  | _ => True

/-- On the series of the indicators of all kinds no strategy of one of them misses a series, if it trades no
spread. -/
theorem evaluate_faults {kinds : List StrategyKind} {bars : List (Bar Float)} {cache : SeriesCache}
    (computed : SeriesCache.compute bars (indicatorSet kinds) = .ok cache) {kind : StrategyKind}
    (known : kind ∈ kinds) (noSpread : kind.zscoreKey? = none) {strategy : Strategy}
    (created : kind.create = .ok strategy) (symbol : String) (timeframe : Timeframe) (p : Parameters) :
    FaultsIn Fault.NotMissing (strategy.evaluate ⟨symbol, timeframe, bars, cache⟩ p) := by
  obtain ⟨rule, accepted, rfl⟩ := StrategyKind.create_eq_ok.mp created
  have present : ∀ key ∈ rule.strategy.required, cache.contains key = true := by
    intro key asked
    rcases (StrategyKind.mem_required created).mp asked with ⟨indicator, mine, rfl⟩ | spread
    · have listed := mem_indicatorSet.mpr ⟨kind, known, mine⟩
      exact Option.isSome_of_eq_some (SeriesCache.get?_compute_of_mem computed (indicatorSet_sound kinds) listed)
    · rw [noSpread] at spread
      cases spread
  refine (rule.evaluate_faults ⟨symbol, timeframe, bars, cache⟩ p).mono fun fault expected => ?_
  cases fault with
  | missingIndicators keys =>
    obtain ⟨some, absent⟩ := expected
    obtain ⟨key, member⟩ := List.exists_mem_of_ne_nil keys some
    obtain ⟨asked, missing⟩ := absent key member
    exact absurd (present key asked) (Bool.eq_false_iff.mp missing)
  | _ => trivial

/-- What is computed for a list of kinds is what their strategies ask for. -/
structure SeriesProvided (kinds : List StrategyKind) : Prop where
  distinct : ((indicatorSet kinds).map Indicator.name).Nodup
  required : (∀ kind ∈ kinds, ∃ strategy, kind.create = .ok strategy) →
    ∃ keys, requiredIndicators kinds = .ok keys ∧ keys.Pairwise (· < ·) ∧
      ∀ key, key ∈ keys ↔ (∃ indicator ∈ indicatorSet kinds, indicator.name = key) ∨
        ∃ kind ∈ kinds, kind.zscoreKey? = some key
  refused : ∀ before kind after fault, kinds = before ++ kind :: after →
    (∀ earlier ∈ before, ∃ strategy, earlier.create = .ok strategy) → kind.create = .error fault →
      requiredIndicators kinds = .error fault
  computable : ∀ bars : List (Bar Float),
    (∀ indicator ∈ indicatorSet kinds, indicator.period + bars.length < positionLimit) →
    (bars = [] → .rsi (positionLimit - 1) ∉ indicatorSet kinds) →
      ∃ cache, SeriesCache.compute bars (indicatorSet kinds) = .ok cache
  answers : ∀ bars cache, SeriesCache.compute bars (indicatorSet kinds) = .ok cache →
    ∀ kind ∈ kinds, kind.zscoreKey? = none → ∀ strategy, kind.create = .ok strategy →
      ∀ symbol timeframe p keys,
        strategy.evaluate ⟨symbol, timeframe, bars, cache⟩ p ≠ .error (.missingIndicators keys)

theorem series_provided (kinds : List StrategyKind) : SeriesProvided kinds where
  distinct := distinctByName_names_nodup _
  required := requiredIndicators_eq_ok
  refused before kind after fault split earlier refusal := by
    rw [split, requiredIndicators, mapM_stops earlier refusal]
    rfl
  computable _ bounded notWidest :=
    SeriesCache.compute_ok_of_bounded (indicatorSet_sound kinds) bounded notWidest
  answers _ _ computed _ known noSpread _ created symbol timeframe p keys missing :=
    evaluate_faults computed known noSpread created symbol timeframe p (.missingIndicators keys) missing

/-- One kind of each rule. -/
def oneOfEach : List StrategyKind :=
  [.trendFollowing 10 50 .exponential 14 none, .meanReversion 20 2.0 14 14 none, .breakout 20 14 none,
    .spreadReversion "basis_z" none]

theorem oneOfEach_provided :
    (∀ kind ∈ oneOfEach, ∃ strategy, kind.create = .ok strategy) ∧
      (∀ indicator ∈ indicatorSet oneOfEach,
        indicator.period + Indicator.gappedBars.length < positionLimit) ∧
      ∃ keys cache, requiredIndicators oneOfEach = .ok keys ∧ "basis_z" ∈ keys ∧
        SeriesCache.compute Indicator.gappedBars (indicatorSet oneOfEach) = .ok cache ∧
        ∀ kind ∈ oneOfEach, kind.zscoreKey? = none → ∀ strategy, kind.create = .ok strategy →
          ∀ p keys, strategy.evaluate ⟨"BTC/USDC", .hour, Indicator.gappedBars, cache⟩ p ≠
            .error (.missingIndicators keys) := by
  have accepted : ∀ kind ∈ oneOfEach, ∃ strategy, kind.create = .ok strategy := by
    simp only [oneOfEach, List.forall_mem_cons]
    exact ⟨⟨_, rfl⟩, ⟨_, rfl⟩, ⟨_, rfl⟩, ⟨_, rfl⟩, List.forall_mem_nil _⟩
  have bounded : ∀ indicator ∈ indicatorSet oneOfEach,
      indicator.period + Indicator.gappedBars.length < positionLimit := by
    have each : ∀ kind ∈ oneOfEach, ∀ indicator ∈ kind.indicators,
        indicator.period + Indicator.gappedBars.length < positionLimit := by decide
    intro indicator member
    obtain ⟨kind, known, asked⟩ := mem_indicatorSet.mp member
    exact each kind known indicator asked
  obtain ⟨keys, run, -, members⟩ := (series_provided oneOfEach).required accepted
  obtain ⟨cache, computed⟩ := (series_provided oneOfEach).computable Indicator.gappedBars bounded nofun
  have spread : .spreadReversion "basis_z" none ∈ oneOfEach := by simp only [oneOfEach, List.mem_cons, or_true, true_or]
  exact ⟨accepted, bounded, keys, cache, run, (members "basis_z").mpr (Or.inr ⟨_, spread, rfl⟩), computed,
    fun kind known noSpread strategy created p =>
      (series_provided oneOfEach).answers _ _ computed kind known noSpread strategy created _ _ p⟩

end SignalDesk
