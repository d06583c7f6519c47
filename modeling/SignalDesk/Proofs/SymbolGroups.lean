import SignalDesk.Proofs.CycleSections
import SignalDesk.Proofs.MapContents
import SignalDesk.Proofs.Refusals

namespace SignalDesk

/-- Batches of different keys that were put one behind the other are told apart again by the key. -/
theorem filter_flatMap_of_nodup {α β κ : Type} [BEq κ] [LawfulBEq κ] {batches : List α} {items : α → List β}
    {key : α → κ} {keyOf : β → κ} (distinct : (batches.map key).Nodup)
    (marked : ∀ batch ∈ batches, ∀ item ∈ items batch, keyOf item = key batch) {batch : α}
    (member : batch ∈ batches) :
    (batches.flatMap items).filter (fun item => keyOf item == key batch) = items batch := by
  induction batches with
  | nil => cases member
  | cons first rest ih =>
    rw [List.map_cons, List.nodup_cons] at distinct
    rw [List.forall_mem_cons] at marked
    rw [List.flatMap_cons, List.filter_append]
    rcases List.mem_cons.mp member with rfl | later
    · have nothing : (rest.flatMap items).filter (fun item => keyOf item == key batch) = [] := by
        refine List.filter_eq_nil_iff.mpr fun item inside same => ?_
        obtain ⟨other, present, mine⟩ := List.mem_flatMap.mp inside
        have sameKey : key other = key batch := (marked.2 other present item mine).symm.trans (eq_of_beq same)
        exact distinct.1 (sameKey ▸ List.mem_map_of_mem present)
      rw [nothing, List.append_nil, List.filter_eq_self]
      exact fun item inside => beq_iff_eq.mpr (marked.1 item inside)
    · have nothing : (items first).filter (fun item => keyOf item == key batch) = [] := by
        refine List.filter_eq_nil_iff.mpr fun item inside same => ?_
        have sameKey : key batch = key first := (eq_of_beq same).symm.trans (marked.1 item inside)
        exact distinct.1 (sameKey ▸ List.mem_map_of_mem later)
      rw [nothing, List.nil_append]
      exact ih distinct.2 marked.2 later

/-- The signals of a symbol, in the order of the batch. -/
def ofSymbol (signals : List Signal) (symbol : String) : List Signal :=
  signals.filter fun s => s.symbol == symbol

theorem ofSymbol_ne_nil {signals : List Signal} {symbol : String} :
    ofSymbol signals symbol ≠ [] ↔ symbol ∈ signals.map Signal.symbol := by
  simp [ofSymbol]

/-- The verdict over the signals of a symbol, beside the symbol. -/
def symbolVerdict (ranks : Ranks) (policy : ConfidencePolicy) (mode : TradingMode) (signals : List Signal)
    (symbol : String) : Except Fault (String × Verdict) := do
  return (symbol, ← aggregate ranks policy mode (ofSymbol signals symbol))

section

variable {ranks : Ranks} {policy : ConfidencePolicy} {mode : TradingMode} {signals : List Signal}

theorem symbolVerdict_eq_ok {symbol : String} {entry : String × Verdict} :
    symbolVerdict ranks policy mode signals symbol = .ok entry ↔
      symbol = entry.1 ∧ aggregate ranks policy mode (ofSymbol signals entry.1) = .ok entry.2 := by
  simp only [symbolVerdict, bind_eq_ok]
  constructor
  · rintro ⟨verdict, reached, same⟩
    cases same
    exact ⟨rfl, reached⟩
  · rintro ⟨rfl, reached⟩
    exact ⟨entry.2, reached, rfl⟩

theorem aggregateBySymbol_eq (nonempty : signals ≠ []) :
    aggregateBySymbol ranks policy mode signals = (do
      return SortedMap.ofList (← (sortedNames (signals.map Signal.symbol)).mapM
        (symbolVerdict ranks policy mode signals))) := by
  rw [aggregateBySymbol, if_neg (by simpa using nonempty)]
  rfl

/-- A batch that is not empty has a verdict for every symbol in it and for no other: the one over the
signals of the symbol alone. -/
theorem aggregateBySymbol_of_ne_nil (nonempty : signals ≠ []) :
    ∃ verdicts, aggregateBySymbol ranks policy mode signals = .ok verdicts ∧
      ∀ symbol verdict, verdicts.get? symbol = some verdict ↔
        aggregate ranks policy mode (ofSymbol signals symbol) = .ok verdict := by
  have each : ∀ symbol ∈ sortedNames (signals.map Signal.symbol), ∃ entry,
      symbolVerdict ranks policy mode signals symbol = .ok entry := by
    intro symbol listed
    obtain ⟨verdict, reached⟩ := aggregate_ok_of_ne_nil (ofSymbol_ne_nil.mpr (mem_sortedNames.mp listed))
    exact ⟨(symbol, verdict), symbolVerdict_eq_ok.mpr ⟨rfl, reached⟩⟩
  obtain ⟨entries, run, results⟩ := mapM_forall₂ each
  have names : sortedNames (signals.map Signal.symbol) = entries.map Prod.fst := by
    rw [← List.forall₂_eq_eq_eq, List.forall₂_map_right_iff]
    exact results.imp fun _ _ reached => (symbolVerdict_eq_ok.mp reached).1
  have distinct : (entries.map Prod.fst).Nodup := names ▸ (pairwise_sortedNames _).imp ne_of_lt
  refine ⟨SortedMap.ofList entries, by rw [aggregateBySymbol_eq nonempty, run]; rfl, fun symbol verdict => ?_⟩
  rw [SortedMap.get?_ofList_of_nodup distinct, SortedMap.lookup_eq_some distinct, mem_results results]
  simp only [symbolVerdict_eq_ok]
  constructor
  · rintro ⟨_, _, _, reached⟩
    exact reached
  · intro reached
    have inBatch : ofSymbol signals symbol ≠ [] := by
      intro nothing
      rw [nothing] at reached
      cases reached
    exact ⟨symbol, mem_sortedNames.mpr (ofSymbol_ne_nil.mp inBatch), rfl, reached⟩

end

namespace Desk

variable {desk : Desk} {markets : List Snapshot}

theorem runCycle_signals_symbol (reach : desk.registry.CreatedReach) {report : MarketReport}
    (member : report ∈ (desk.runCycle markets).markets) : ∀ s ∈ report.signals, s.symbol = report.symbol := by
  obtain ⟨market, -, rfl⟩ := mem_runCycle_markets.mp member
  intro s inside
  rw [evaluateMarket_signals] at inside
  obtain ⟨e, enabled, answer⟩ := List.mem_filterMap.mp inside
  exact reach.signal_symbol (List.mem_of_mem_filter enabled) (Entry.signal?_eq_some.mp answer)

theorem runCycle_symbols_nodup (distinct : (markets.map Snapshot.symbol).Nodup) :
    ((desk.runCycle markets).markets.map MarketReport.symbol).Nodup := by
  have sorted := List.mergeSort_perm markets fun a b => a.place ≤ b.place
  rw [runCycle_markets_eq, List.map_map]
  exact (sorted.map Snapshot.symbol).nodup_iff.mpr distinct

/-- Of the signals of a whole cycle those of a symbol are the ones of its section, in the same order. -/
theorem ofSymbol_runCycle (reach : desk.registry.CreatedReach) (distinct : (markets.map Snapshot.symbol).Nodup)
    {report : MarketReport} (member : report ∈ (desk.runCycle markets).markets) :
    ofSymbol ((desk.runCycle markets).markets.flatMap MarketReport.signals) report.symbol = report.signals :=
  filter_flatMap_of_nodup (runCycle_symbols_nodup distinct) (fun _ => runCycle_signals_symbol reach) member

/-- The section of a market has a verdict exactly if the aggregator reaches it over the signals there. -/
theorem outcome_eq_aggregated {report : MarketReport} (member : report ∈ (desk.runCycle markets).markets)
    {verdict : Verdict} : report.outcome = .aggregated verdict ↔
      aggregate desk.registry.ranks desk.policy desk.mode report.signals = .ok verdict := by
  obtain ⟨market, -, rfl⟩ := mem_runCycle_markets.mp member
  rw [evaluateMarket_outcome]
  cases aggregate desk.registry.ranks desk.policy desk.mode (desk.evaluateMarket market).signals <;> simp

theorem outcome_eq_noSignals {report : MarketReport} (member : report ∈ (desk.runCycle markets).markets) :
    report.outcome = .noSignals ↔ report.signals = [] := by
  obtain ⟨market, -, rfl⟩ := mem_runCycle_markets.mp member
  exact evaluateMarket_noSignals

/-- To decide over all signals of a cycle by their symbols is to decide market by market, if no two markets
share a symbol. The verdicts are those of the sections, under the symbols of the markets that have a signal;
without any signal there is nothing to decide on either way. -/
theorem aggregateBySymbol_runCycle (reach : desk.registry.CreatedReach)
    (distinct : (markets.map Snapshot.symbol).Nodup) :
    let reports := (desk.runCycle markets).markets
    let signals := reports.flatMap MarketReport.signals
    let decision := aggregateBySymbol desk.registry.ranks desk.policy desk.mode signals
    (signals ≠ [] → ∃ verdicts, decision = .ok verdicts ∧
      (∀ symbol, symbol ∈ verdicts.keys ↔
        ∃ report ∈ reports, report.symbol = symbol ∧ report.outcome ≠ .noSignals) ∧
      ∀ report ∈ reports, ∀ verdict, report.outcome = .aggregated verdict →
        verdicts.get? report.symbol = some verdict) ∧
      (signals = [] → decision = .error .emptyInput ∧ ∀ report ∈ reports, report.outcome = .noSignals) := by
  intro reports signals decision
  constructor
  · intro nonempty
    obtain ⟨verdicts, decided, contents⟩ := aggregateBySymbol_of_ne_nil nonempty
    have own {report : MarketReport} (member : report ∈ reports) {verdict : Verdict} :
        verdicts.get? report.symbol = some verdict ↔ report.outcome = .aggregated verdict := by
      rw [contents, ofSymbol_runCycle reach distinct member, outcome_eq_aggregated member]
    refine ⟨verdicts, decided, fun symbol => ?_, fun report member verdict reached => (own member).mpr reached⟩
    rw [SortedMap.mem_keys, SortedMap.contains, Option.isSome_iff_exists]
    constructor
    · rintro ⟨verdict, found⟩
      have inBatch : ofSymbol signals symbol ≠ [] := by
        intro nothing
        rw [contents, nothing] at found
        cases found
      obtain ⟨s, listed, rfl⟩ := List.mem_map.mp (ofSymbol_ne_nil.mp inBatch)
      obtain ⟨report, member, inside⟩ := List.mem_flatMap.mp listed
      have same := runCycle_signals_symbol reach member s inside
      rw [same, own member] at found
      refine ⟨report, member, same.symm, fun silent => ?_⟩
      rw [found] at silent
      cases silent
    · rintro ⟨report, member, rfl, silent⟩
      cases outcome : report.outcome with
      | noSignals => exact absurd outcome silent
      | aggregated verdict => exact ⟨verdict, (own member).mpr outcome⟩
  · intro empty
    refine ⟨by simp only [decision, empty]; rfl, fun report member => (outcome_eq_noSignals member).mpr ?_⟩
    exact List.flatMap_eq_nil_iff.mp empty report member

end Desk

/-- A market for which no series is there. -/
def bareMarket : Snapshot := { wideSpread with symbol := "ETHUSDT", indicators := ∅ }

theorem mixedDesk_aggregateBySymbol :
    mixedDesk.registry.CreatedReach ∧ ([bareMarket, wideSpread].map Snapshot.symbol).Nodup ∧
      ∃ verdicts, aggregateBySymbol mixedDesk.registry.ranks mixedDesk.policy mixedDesk.mode
          ((mixedDesk.runCycle [bareMarket, wideSpread]).markets.flatMap MarketReport.signals) = .ok verdicts ∧
        "ETHUSDT" ∉ verdicts.keys ∧
        verdicts.get? "BTCUSDT" = some (.accepted (basisRule.answer "BTCUSDT" ⟨0, 0⟩ 2.0 4.0 (-4.0))) := by
  have distinct : ([bareMarket, wideSpread].map Snapshot.symbol).Nodup := by decide
  have reported : mixedDesk.evaluateMarket wideSpread ∈ (mixedDesk.runCycle [bareMarket, wideSpread]).markets :=
    mem_runCycle_markets.mpr ⟨wideSpread, .tail _ (.head _), rfl⟩
  have signal : basisRule.answer "BTCUSDT" ⟨0, 0⟩ 2.0 4.0 (-4.0) ∈ (mixedDesk.evaluateMarket wideSpread).signals :=
    .head _
  obtain ⟨traded, -⟩ := Desk.aggregateBySymbol_runCycle mixedDesk_reach distinct
  obtain ⟨verdicts, decided, keys, values⟩ :=
    traded (List.ne_nil_of_mem (List.mem_flatMap.mpr ⟨_, reported, signal⟩))
  refine ⟨mixedDesk_reach, distinct, verdicts, decided, ?_, values _ reported _ rfl⟩
  intro listed
  obtain ⟨report, member, named, silent⟩ := (keys "ETHUSDT").mp listed
  obtain ⟨market, given, rfl⟩ := mem_runCycle_markets.mp member
  simp only [List.mem_cons, List.not_mem_nil, or_false] at given
  rcases given with rfl | rfl
  · exact silent rfl
  · exact absurd named (by decide)

end SignalDesk
