import Mathlib.Data.List.Sort
import SignalDesk.Proofs.ReportDocuments
import SignalDesk.Proofs.SymbolGroups
import SignalDesk.Proofs.TieBreaks

namespace SignalDesk

namespace SortedMap

variable {α : Type}

theorem mem_keys_iff_get? {map : SortedMap α} {key : String} :
    key ∈ map.keys ↔ ∃ value, map.get? key = some value := by
  rw [mem_keys, contains, Option.isSome_iff_exists]

/-- A map is its keys with what stands under them. -/
theorem entries_eq_map_keys {map : SortedMap α} {content : String → α}
    (under : ∀ key ∈ map.keys, map.get? key = some (content key)) :
    map.entries = map.keys.map fun key => (key, content key) := by
  rw [keys, List.map_map]
  refine (List.map_id _).symm.trans (List.map_congr_left fun entry member => ?_)
  have stored := under entry.1 (List.mem_map_of_mem member)
  rw [get?_eq_some.mpr member] at stored
  exact Prod.ext rfl (Option.some.inj stored)

end SortedMap

/-- The signals by their symbols, as one pass collects them: each goes behind those of its symbol that came
before it. -/
def collectBySymbol (signals : List Signal) : SortedMap (List Signal) :=
  signals.foldl (fun batches s => batches.insert s.symbol ((batches.get? s.symbol).getD [] ++ [s])) ∅

theorem collectBySymbol_concat (signals : List Signal) (s : Signal) :
    collectBySymbol (signals ++ [s]) = (collectBySymbol signals).insert s.symbol
      (((collectBySymbol signals).get? s.symbol).getD [] ++ [s]) :=
  List.foldl_concat _ _ _ _

theorem ofSymbol_concat (signals : List Signal) (s : Signal) (symbol : String) :
    ofSymbol (signals ++ [s]) symbol = ofSymbol signals symbol ++ if symbol = s.symbol then [s] else [] := by
  rw [ofSymbol, ofSymbol, List.filter_append]
  by_cases mine : symbol = s.symbol
  · simp [mine]
  · simp [mine, Ne.symm mine]

/-- However the symbols alternate, the pass collects under each of them its own signals in their order. The
induction is on the signals from the last one on, which the pass takes last. -/
theorem get?_collectBySymbol (signals : List Signal) (symbol : String) :
    (collectBySymbol signals).get? symbol =
      if symbol ∈ signals.map Signal.symbol then some (ofSymbol signals symbol) else none := by
  induction signals using List.reverseRecOn with
  | nil => rfl
  | append_singleton earlier s ih =>
    rw [collectBySymbol_concat, SortedMap.get?_insert, ofSymbol_concat]
    by_cases mine : symbol = s.symbol
    · subst mine
      have before : ((collectBySymbol earlier).get? s.symbol).getD [] = ofSymbol earlier s.symbol := by
        rw [ih]
        split_ifs with known
        · rfl
        · exact (not_not.mp (mt ofSymbol_ne_nil.mp known)).symm
      simp [before]
    · simp [mine, ih]

theorem mem_keys_collectBySymbol {signals : List Signal} {symbol : String} :
    symbol ∈ (collectBySymbol signals).keys ↔ symbol ∈ signals.map Signal.symbol := by
  rw [SortedMap.mem_keys_iff_get?, get?_collectBySymbol]
  split_ifs with known
  · exact iff_of_true ⟨_, rfl⟩ known
  · exact iff_of_false nofun known

/-- What the pass collects, in the order of the symbols. -/
theorem entries_collectBySymbol (signals : List Signal) :
    (collectBySymbol signals).entries =
      (sortedNames (signals.map Signal.symbol)).map fun symbol => (symbol, ofSymbol signals symbol) := by
  have keys : (collectBySymbol signals).keys = sortedNames (signals.map Signal.symbol) := by
    refine List.Pairwise.eq_of_mem_iff (collectBySymbol signals).ascending (pairwise_sortedNames _) fun symbol => ?_
    rw [mem_sortedNames]
    exact mem_keys_collectBySymbol
  rw [← keys]
  refine SortedMap.entries_eq_map_keys fun symbol known => ?_
  rw [get?_collectBySymbol, if_pos (mem_keys_collectBySymbol.mp known)]

/-- Collects the signals by their symbols in one pass, then decides over each batch. -/
def aggregateCollected (ranks : Ranks) (policy : ConfidencePolicy) (mode : TradingMode) (signals : List Signal) :
    Except Fault (SortedMap Verdict) :=
  if signals.isEmpty then .error .emptyInput
  else do
    let verdicts ← (collectBySymbol signals).entries.mapM fun (symbol, batch) => do
      return (symbol, ← aggregate ranks policy mode batch)
    return SortedMap.ofList verdicts

theorem aggregateBySymbol_eq_collected (ranks : Ranks) (policy : ConfidencePolicy) (mode : TradingMode)
    (signals : List Signal) :
    aggregateBySymbol ranks policy mode signals = aggregateCollected ranks policy mode signals := by
  rw [aggregateCollected, entries_collectBySymbol, List.mapM_map]
  rfl

/-- The verdicts over a batch, symbol by symbol. -/
structure DecidesBySymbol (ranks : Ranks) (policy : ConfidencePolicy) (mode : TradingMode) (signals : List Signal)
    (verdicts : SortedMap Verdict) : Prop where
  keys : ∀ symbol, symbol ∈ verdicts.keys ↔ ∃ s ∈ signals, s.symbol = symbol
  /-- No symbol has two verdicts. -/
  once : verdicts.keys.Nodup
  /-- The signals of other symbols have no say. -/
  values : ∀ symbol ∈ verdicts.keys, ∃ verdict, verdicts.get? symbol = some verdict ∧
    aggregate ranks policy mode (ofSymbol signals symbol) = .ok verdict
  ownSymbol : ∀ symbol verdict, verdicts.get? symbol = some verdict →
    ∀ s ∈ verdict.signal?, s ∈ signals ∧ s.symbol = symbol

section

variable {ranks : Ranks} {policy : ConfidencePolicy} {mode : TradingMode} {signals : List Signal}
  {verdicts : SortedMap Verdict}

theorem aggregate_isOk_iff : (∃ verdict, aggregate ranks policy mode signals = .ok verdict) ↔ signals ≠ [] := by
  refine ⟨?_, aggregate_ok_of_ne_nil⟩
  rintro ⟨verdict, decided⟩ rfl
  cases decided

theorem aggregateBySymbol_eq_error {fault : Fault} :
    aggregateBySymbol ranks policy mode signals = .error fault ↔ signals = [] ∧ fault = .emptyInput := by
  constructor
  · intro refused
    by_cases empty : signals = []
    · subst empty
      cases refused
      exact ⟨rfl, rfl⟩
    · obtain ⟨verdicts, decided, -⟩ := @aggregateBySymbol_of_ne_nil ranks policy mode signals empty
      cases refused.symm.trans decided
  · rintro ⟨rfl, rfl⟩
    rfl

theorem get?_of_aggregateBySymbol (decided : aggregateBySymbol ranks policy mode signals = .ok verdicts)
    {symbol : String} {verdict : Verdict} :
    verdicts.get? symbol = some verdict ↔ aggregate ranks policy mode (ofSymbol signals symbol) = .ok verdict := by
  have nonempty : signals ≠ [] := by
    rintro rfl
    cases decided
  obtain ⟨others, decidedToo, contents⟩ := aggregateBySymbol_of_ne_nil nonempty
  obtain rfl : verdicts = others := Except.ok.inj (decided.symm.trans decidedToo)
  exact contents symbol verdict

theorem decidesBySymbol_of_ok (decided : aggregateBySymbol ranks policy mode signals = .ok verdicts) :
    DecidesBySymbol ranks policy mode signals verdicts where
  keys symbol := by
    simp only [SortedMap.mem_keys_iff_get?, get?_of_aggregateBySymbol decided, aggregate_isOk_iff, ofSymbol_ne_nil,
      List.mem_map]
  once := verdicts.keys_nodup
  values symbol known := by
    obtain ⟨verdict, found⟩ := SortedMap.mem_keys_iff_get?.mp known
    exact ⟨verdict, found, (get?_of_aggregateBySymbol decided).mp found⟩
  ownSymbol symbol verdict found s speaksOf := by
    have inBatch := aggregate_signal?_mem ((get?_of_aggregateBySymbol decided).mp found) s speaksOf
    obtain ⟨member, own⟩ := List.mem_filter.mp inBatch
    exact ⟨member, eq_of_beq own⟩

end

/-- To decide symbol by symbol is to collect the signals in one pass and decide over each batch. Only the empty
batch is refused. Every symbol has the verdict that its own signals have alone, whatever other signals stand
between them. -/
theorem aggregateBySymbol_decides (ranks : Ranks) (policy : ConfidencePolicy) (mode : TradingMode)
    (signals : List Signal) :
    aggregateBySymbol ranks policy mode signals = aggregateCollected ranks policy mode signals ∧
      (∀ fault, aggregateBySymbol ranks policy mode signals = .error fault ↔ signals = [] ∧ fault = .emptyInput) ∧
      (signals ≠ [] → ∃ verdicts, aggregateBySymbol ranks policy mode signals = .ok verdicts ∧
        DecidesBySymbol ranks policy mode signals verdicts) ∧
      ∀ others verdicts more, aggregateBySymbol ranks policy mode signals = .ok verdicts →
        aggregateBySymbol ranks policy mode others = .ok more →
          ∀ symbol, ofSymbol signals symbol = ofSymbol others symbol →
            verdicts.get? symbol = more.get? symbol := by
  refine ⟨aggregateBySymbol_eq_collected ranks policy mode signals, fun fault => aggregateBySymbol_eq_error, ?_, ?_⟩
  · intro nonempty
    obtain ⟨verdicts, decided, -⟩ := aggregateBySymbol_of_ne_nil nonempty
    exact ⟨verdicts, decided, decidesBySymbol_of_ok decided⟩
  · intro others verdicts more decided decidedToo symbol same
    refine Option.ext fun verdict => ?_
    rw [get?_of_aggregateBySymbol decided, get?_of_aggregateBySymbol decidedToo, same]

/-- Two signals of one symbol with a more confident one of another symbol between them. -/
def alternatingSignals : List Signal :=
  [buyingSignal 0.8, { sellingSignal 0.95 with symbol := "ETH/USDC" }, sellingSignal 0.9]

theorem alternatingSignals_decides :
    ∃ verdicts, aggregateBySymbol ∅ .standard .paper alternatingSignals = .ok verdicts ∧
      DecidesBySymbol ∅ .standard .paper alternatingSignals verdicts ∧
      verdicts.get? "BTC/USDC" = some (.accepted (sellingSignal 0.9)) := by
  obtain ⟨-, -, traded, -⟩ := aggregateBySymbol_decides ∅ .standard .paper alternatingSignals
  obtain ⟨verdicts, decided, decides⟩ := traded (List.cons_ne_nil _ _)
  have known : "BTC/USDC" ∈ verdicts.keys := (decides.keys _).mpr ⟨_, .head _, rfl⟩
  obtain ⟨verdict, found, alone⟩ := decides.values _ known
  obtain rfl : .accepted (sellingSignal 0.9) = verdict := Except.ok.inj alone
  exact ⟨verdicts, decided, decides, found⟩

end SignalDesk
