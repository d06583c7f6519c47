import SignalDesk.Proofs.RequiredSeries
import SignalDesk.Proofs.TextOrder

namespace SignalDesk

theorem SeriesCache.mem_missing {cache : SeriesCache} {names : List String} {name : String} :
    name ∈ cache.missing names ↔ name ∈ names ∧ cache.contains name = false := by
  rw [missing, List.mem_filter, Bool.not_eq_true']

/-- The checks before a judgement miss series exactly if nothing is wrong with the parameters, whose faults come first.
Whether there is a bar is asked afterwards. -/
theorem preflight_eq_missing {name : String} {required : List String} {market : Snapshot} {p : Parameters}
    {keys : List String} :
    preflight name required market p = .error (.missingIndicators keys) ↔
      p.validate = .ok () ∧ market.indicators.missing required = keys ∧ keys ≠ [] := by
  cases valid : p.validate with
  | error fault =>
    have setting := p.validate_faults fault valid
    rw [preflight, valid]
    constructor
    · intro refused
      cases refused
      exact setting.elim
    · rintro ⟨⟨⟩, -⟩
  | ok _ =>
    rw [preflight, valid]
    change (if (market.indicators.missing required).isEmpty then _ else _) = _ ↔ _
    split
    · rename_i present
      rw [List.isEmpty_iff.mp present]
      constructor
      · intro refused
        split at refused <;> cases refused
      · rintro ⟨-, rfl, some⟩
        exact absurd rfl some
    · rename_i some
      rw [List.isEmpty_iff] at some
      constructor
      · intro refused
        cases refused
        exact ⟨rfl, rfl, some⟩
      · rintro ⟨-, rfl, -⟩
        rfl

namespace TradingRule

variable {rule : TradingRule}

/-- Every rule makes the checks before it judges. -/
theorem evaluate_preflighted (rule : TradingRule) (market : Snapshot) (p : Parameters) :
    ∃ judge : Instant → Except Fault Signal, rule.strategy.evaluate market p =
      preflight rule.strategy.name rule.strategy.required market p >>= judge := by
  cases rule <;> simp only [strategy, TrendFollowing.strategy, MeanReversion.strategy, Breakout.strategy,
    SpreadReversion.strategy] <;> exact ⟨_, rfl⟩

theorem pairwise_required (rule : TradingRule) : rule.strategy.required.Pairwise (· < ·) := by
  cases rule with
  | spreadReversion rule => exact List.pairwise_singleton _ _
  | trendFollowing rule | meanReversion rule | breakout rule =>
    simp only [strategy, TrendFollowing.strategy, TrendFollowing.required, MeanReversion.strategy,
      MeanReversion.required, Breakout.strategy, Breakout.required]
    exact pairwise_sortedNames _

/-- A rule misses what the checks miss: once they are passed every series is there that it reads. -/
theorem evaluate_eq_missing {market : Snapshot} {p : Parameters} {keys : List String} :
    rule.strategy.evaluate market p = .error (.missingIndicators keys) ↔
      p.validate = .ok () ∧ market.indicators.missing rule.strategy.required = keys ∧ keys ≠ [] := by
  obtain ⟨judge, run⟩ := rule.evaluate_preflighted market p
  cases ready : preflight rule.strategy.name rule.strategy.required market p with
  | error fault =>
    rw [← preflight_eq_missing, run, ready]
    change (.error fault : Except Fault Signal) = _ ↔ _
    rw [Except.error.injEq, Except.error.injEq]
  | ok time =>
    obtain ⟨-, present, -⟩ := preflight_eq_ok.mp ready
    constructor
    · intro missed
      obtain ⟨some, absent⟩ := rule.evaluate_faults market p _ missed
      obtain ⟨key, member⟩ := List.exists_mem_of_ne_nil keys some
      have listed := SeriesCache.mem_missing.mpr (absent key member)
      rw [present] at listed
      cases listed
    · rintro ⟨-, rfl, some⟩
      exact absurd present some

end TradingRule

/-- A strategy misses series if and only if its parameters are valid and one that it requires is not there, whatever
else the market lacks and whatever is wrong with the settings of its own. Then it names all that are not there, in the
order of their bytes and each once. -/
theorem StrategyKind.evaluate_missing {kind : StrategyKind} {strategy : Strategy}
    (created : kind.create = .ok strategy) (market : Snapshot) (p : Parameters) :
    ((∃ keys, strategy.evaluate market p = .error (.missingIndicators keys)) ↔
      p.validate = .ok () ∧ ∃ key ∈ strategy.required, market.indicators.contains key = false) ∧
    ∀ keys, strategy.evaluate market p = .error (.missingIndicators keys) →
      (∀ key, key ∈ keys ↔ key ∈ strategy.required ∧ market.indicators.contains key = false) ∧
      (keys.map byteValues).Pairwise (· < ·) := by
  obtain ⟨rule, -, rfl⟩ := create_eq_ok.mp created
  simp only [TradingRule.evaluate_eq_missing]
  constructor
  · constructor
    · rintro ⟨keys, valid, rfl, some⟩
      obtain ⟨key, member⟩ := List.exists_mem_of_ne_nil _ some
      exact ⟨valid, key, SeriesCache.mem_missing.mp member⟩
    · rintro ⟨valid, key, absent⟩
      exact ⟨_, valid, rfl, List.ne_nil_of_mem (SeriesCache.mem_missing.mpr absent)⟩
  · rintro keys ⟨-, rfl, -⟩
    refine ⟨fun key => SeriesCache.mem_missing, List.pairwise_map.mpr ?_⟩
    exact (rule.pairwise_required.sublist List.filter_sublist).imp fun less => byteValues_strictMono less

def longTrend : TrendFollowing := ⟨"trend_following", 10, 50, .simple, 14⟩

/-- A market without a bar, of which one average is known. -/
def barelessMarket : Snapshot := ⟨"BTC/USDC", .hour, [], (∅ : SeriesCache).insert "sma_10" []⟩

/-- Valid parameters under which no market can be judged. -/
def wordySaturation : Parameters := Parameters.set ⟨"trend_following", ∅, true⟩ "spread_saturation_pct" (.text "wide")

theorem barelessMarket_missing :
    (StrategyKind.trendFollowing 10 50 .simple 14 none).create = .ok longTrend.strategy ∧
      wordySaturation.validate = .ok () ∧
      ∃ keys, longTrend.strategy.evaluate barelessMarket wordySaturation = .error (.missingIndicators keys) ∧
        "atr_14" ∈ keys ∧ "sma_50" ∈ keys ∧ "sma_10" ∉ keys ∧ (keys.map byteValues).Pairwise (· < ·) := by
  have created : (StrategyKind.trendFollowing 10 50 .simple 14 none).create = .ok longTrend.strategy := rfl
  have valid : wordySaturation.validate = .ok () := rfl
  obtain ⟨decides, lists⟩ := StrategyKind.evaluate_missing created barelessMarket wordySaturation
  obtain ⟨keys, missed⟩ := decides.mpr ⟨valid, "sma_50", by decide, by decide⟩
  obtain ⟨members, ascending⟩ := lists keys missed
  exact ⟨created, valid, keys, missed, (members _).mpr ⟨by decide, by decide⟩,
    (members _).mpr ⟨by decide, by decide⟩, fun listed => absurd ((members _).mp listed).2 (by decide), ascending⟩

end SignalDesk
