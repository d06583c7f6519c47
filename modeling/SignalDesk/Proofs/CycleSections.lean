import SignalDesk.Proofs.AcceptedSignals
import SignalDesk.Proofs.CycleOrder

namespace SignalDesk

/-- What a strategy created from a kind answers: a signal of its own for the market, or the veto. -/
theorem Registry.CreatedReach.plain_or_veto {r : Registry} (reach : r.CreatedReach) {e : Entry}
    (member : e ∈ r.entries) {market : Snapshot} {s : Signal}
    (evaluated : e.strategy.evaluate market e.parameters = .ok s) :
    ∃ time, s.Plain e.name market.symbol time ∨ ∃ gate, volatilityVeto e.name market.symbol time gate = s := by
  obtain ⟨history, reached, created⟩ := reach.history
  obtain ⟨kind, ofKind⟩ := reached.created created member
  obtain ⟨rule, -, same⟩ := map_eq_ok.mp ofKind
  rw [← same] at evaluated
  have name : rule.strategy.name = e.name := congrArg Strategy.name same
  obtain ⟨time, -, answer⟩ := TradingRule.plain_or_veto evaluated
  exact ⟨time, name ▸ answer⟩

/-- A strategy created from a kind signs its signals with its own name. -/
theorem Registry.CreatedReach.signal_named {r : Registry} (reach : r.CreatedReach) {e : Entry}
    (member : e ∈ r.entries) {market : Snapshot} {s : Signal}
    (evaluated : e.strategy.evaluate market e.parameters = .ok s) : s.strategyName = e.name := by
  obtain ⟨time, plain | ⟨gate, rfl⟩⟩ := reach.plain_or_veto member evaluated
  · exact plain.name
  · rfl

/-- The signals are for the market that was evaluated. -/
theorem Registry.CreatedReach.signal_symbol {r : Registry} (reach : r.CreatedReach) {e : Entry}
    (member : e ∈ r.entries) {market : Snapshot} {s : Signal}
    (evaluated : e.strategy.evaluate market e.parameters = .ok s) : s.symbol = market.symbol := by
  obtain ⟨time, plain | ⟨gate, rfl⟩⟩ := reach.plain_or_veto member evaluated
  · exact plain.symbol
  · rfl

theorem Registry.CreatedReach.enabled_names_nodup {r : Registry} (reach : r.CreatedReach) :
    (r.enabled.map Entry.name).Nodup := by
  obtain ⟨history, reached, -⟩ := reach.history
  exact List.pairwise_map.mpr (reached.names_distinct.sublist List.filter_sublist)

/-- The signal that an entry has for a market, if it has one. -/
def Entry.signal? (market : Snapshot) (e : Entry) : Option Signal :=
  (e.strategy.evaluate market e.parameters).toOption

/-- The failure that an entry has in the place of a signal. -/
def Entry.failure? (market : Snapshot) (e : Entry) : Option StrategyFailure :=
  Evaluation.failure? ⟨e, e.strategy.evaluate market e.parameters⟩

theorem Entry.signal?_eq_some {market : Snapshot} {e : Entry} {s : Signal} :
    e.signal? market = some s ↔ e.strategy.evaluate market e.parameters = .ok s := by
  unfold signal?
  cases e.strategy.evaluate market e.parameters <;> simp [Except.toOption]

theorem Entry.failure?_eq_some {market : Snapshot} {e : Entry} {failure : StrategyFailure} :
    e.failure? market = some failure ↔ ∃ fault, e.strategy.evaluate market e.parameters = .error fault ∧
      ⟨e.name, fault.message, fault.isLocal⟩ = failure := by
  unfold failure? Evaluation.failure?
  cases e.strategy.evaluate market e.parameters <;> simp

/-- An entry has either a signal or a failure. -/
theorem Entry.isSome_failure? (market : Snapshot) (e : Entry) :
    (e.failure? market).isSome = !(e.signal? market).isSome := by
  unfold failure? signal? Evaluation.failure?
  cases e.strategy.evaluate market e.parameters <;> rfl

theorem Desk.evaluateMarket_signals (desk : Desk) (market : Snapshot) :
    (desk.evaluateMarket market).signals = desk.registry.enabled.filterMap (Entry.signal? market) :=
  List.filterMap_map

theorem Desk.evaluateMarket_failures (desk : Desk) (market : Snapshot) :
    (desk.evaluateMarket market).failures = desk.registry.enabled.filterMap (Entry.failure? market) :=
  List.filterMap_map

/-- What is picked from entries and bears their names has the names of those that it was picked from. -/
theorem map_filterMap_eq_map_filter {α : Type} {pick : Entry → Option α} {nameOf : α → String}
    {entries : List Entry} (named : ∀ e ∈ entries, ∀ x, pick e = some x → nameOf x = e.name) :
    (entries.filterMap pick).map nameOf = (entries.filter fun e => (pick e).isSome).map Entry.name := by
  induction entries with
  | nil => rfl
  | cons e rest ih =>
    have later := ih fun other member => named other (List.mem_cons_of_mem e member)
    cases picked : pick e with
    | none => simp [picked, later]
    | some x => simp [picked, later, named e List.mem_cons_self x picked]

/-- A section that accounts for what every strategy of the desk made of the market: who has a signal,
who has a failure and what was decided. -/
structure Desk.AccountsFor (desk : Desk) (market : Snapshot) (report : MarketReport) : Prop where
  symbol : report.symbol = market.symbol
  timeframe : report.timeframe = market.timeframe
  asOf : report.asOf = market.asOf
  signalsInOrder : (report.signals.map Signal.strategyName).Sublist (desk.registry.enabled.map Entry.name)
  failuresInOrder :
    (report.failures.map StrategyFailure.strategy).Sublist (desk.registry.enabled.map Entry.name)
  /-- There is one item for each enabled entry, and no other. -/
  complete : (report.signals.map Signal.strategyName ++
    report.failures.map StrategyFailure.strategy).Perm (desk.registry.enabled.map Entry.name)
  /-- No name has two items. -/
  once : (report.signals.map Signal.strategyName ++ report.failures.map StrategyFailure.strategy).Nodup
  answered : ∀ e ∈ desk.registry.enabled, ∀ s, e.strategy.evaluate market e.parameters = .ok s →
    s ∈ report.signals ∧ s.strategyName = e.name
  failed : ∀ e ∈ desk.registry.enabled, ∀ fault,
    e.strategy.evaluate market e.parameters = .error fault →
      ⟨e.name, fault.message, fault.isLocal⟩ ∈ report.failures
  disabledAbsent : ∀ e ∈ desk.registry.entries, e.parameters.enabled = false →
    e.name ∉ report.signals.map Signal.strategyName ∧ e.name ∉ report.failures.map StrategyFailure.strategy
  noSignals : report.outcome = .noSignals ↔ report.signals = []
  aggregated : report.signals ≠ [] → ∃ verdict,
    aggregate desk.registry.ranks desk.policy desk.mode report.signals = .ok verdict ∧
      report.outcome = .aggregated verdict

theorem Desk.evaluateMarket_outcome (desk : Desk) (market : Snapshot) :
    (desk.evaluateMarket market).outcome =
      match aggregate desk.registry.ranks desk.policy desk.mode (desk.evaluateMarket market).signals with
      | .ok verdict => .aggregated verdict
      | .error _ => .noSignals := rfl

theorem aggregate_ok_of_ne_nil {ranks : Ranks} {policy : ConfidencePolicy} {mode : TradingMode}
    {signals : List Signal} (nonempty : signals ≠ []) :
    ∃ verdict, aggregate ranks policy mode signals = .ok verdict := by
  rw [aggregate_of_ne_nil nonempty]
  split
  · exact ⟨_, rfl⟩
  · exact ⟨_, rfl⟩

theorem Desk.evaluateMarket_aggregated {desk : Desk} {market : Snapshot}
    (nonempty : (desk.evaluateMarket market).signals ≠ []) : ∃ verdict,
      aggregate desk.registry.ranks desk.policy desk.mode (desk.evaluateMarket market).signals = .ok verdict ∧
        (desk.evaluateMarket market).outcome = .aggregated verdict := by
  obtain ⟨verdict, decided⟩ := aggregate_ok_of_ne_nil nonempty
  exact ⟨verdict, decided, by rw [evaluateMarket_outcome, decided]⟩

theorem Desk.evaluateMarket_noSignals {desk : Desk} {market : Snapshot} :
    (desk.evaluateMarket market).outcome = .noSignals ↔ (desk.evaluateMarket market).signals = [] := by
  constructor
  · intro silent
    by_contra nonempty
    obtain ⟨verdict, -, decided⟩ := evaluateMarket_aggregated nonempty
    rw [decided] at silent
    cases silent
  · intro empty
    rw [evaluateMarket_outcome, empty]
    rfl

theorem Desk.evaluateMarket_accountsFor {desk : Desk} (reach : desk.registry.CreatedReach)
    (market : Snapshot) : desk.AccountsFor market (desk.evaluateMarket market) := by
  have distinct := reach.enabled_names_nodup
  have signalNames : (desk.evaluateMarket market).signals.map Signal.strategyName =
      (desk.registry.enabled.filter fun e => (e.signal? market).isSome).map Entry.name := by
    rw [evaluateMarket_signals]
    refine map_filterMap_eq_map_filter fun e member s found => ?_
    exact reach.signal_named (List.mem_of_mem_filter member) (Entry.signal?_eq_some.mp found)
  have failureNames : (desk.evaluateMarket market).failures.map StrategyFailure.strategy =
      (desk.registry.enabled.filter fun e => !(e.signal? market).isSome).map Entry.name := by
    rw [evaluateMarket_failures, map_filterMap_eq_map_filter]
    · simp only [Entry.isSome_failure?]
    · intro e member failure found
      obtain ⟨fault, -, rfl⟩ := Entry.failure?_eq_some.mp found
      rfl
  have complete : ((desk.evaluateMarket market).signals.map Signal.strategyName ++
      (desk.evaluateMarket market).failures.map StrategyFailure.strategy).Perm
        (desk.registry.enabled.map Entry.name) := by
    rw [signalNames, failureNames, ← List.map_append]
    exact (List.filter_append_perm _ _).map _
  have absent : ∀ e ∈ desk.registry.entries, e.parameters.enabled = false →
      e.name ∉ desk.registry.enabled.map Entry.name := by
    intro e member disabled present
    obtain ⟨other, enabled, same⟩ := List.mem_map.mp present
    obtain ⟨history, reached, -⟩ := reach.history
    obtain ⟨registered, active⟩ := List.mem_filter.mp enabled
    rw [reached.entry_of_name registered member same, disabled] at active
    cases active
  exact {
    symbol := rfl
    timeframe := rfl
    asOf := rfl
    signalsInOrder := by
      rw [signalNames]
      exact List.filter_sublist.map _
    failuresInOrder := by
      rw [failureNames]
      exact List.filter_sublist.map _
    complete
    once := complete.nodup_iff.mpr distinct
    answered := by
      intro e member s evaluated
      refine ⟨?_, reach.signal_named (List.mem_of_mem_filter member) evaluated⟩
      rw [evaluateMarket_signals]
      exact List.mem_filterMap.mpr ⟨e, member, Entry.signal?_eq_some.mpr evaluated⟩
    failed := by
      intro e member fault evaluated
      rw [evaluateMarket_failures]
      exact List.mem_filterMap.mpr ⟨e, member, Entry.failure?_eq_some.mpr ⟨fault, evaluated, rfl⟩⟩
    disabledAbsent := by
      intro e member disabled
      have nowhere := mt complete.mem_iff.mp (absent e member disabled)
      exact not_or.mp (mt List.mem_append.mpr nowhere)
    noSignals := evaluateMarket_noSignals
    aggregated := evaluateMarket_aggregated }

/-- The sections of a report, each accounting for its market, stand in the stable order of the markets,
and the strategies in the order of their registration. -/
theorem Desk.runCycle_accounts {desk : Desk} (reach : desk.registry.CreatedReach)
    (markets : List Snapshot) :
    (desk.runCycle markets).strategies = desk.registry.enabled.map Entry.name ∧
      (desk.registry.enabled.Pairwise fun a b => a.rank < b.rank) ∧
      ∃ ordered, StableSort Snapshot.place markets ordered ∧
        List.Forall₂ desk.AccountsFor ordered (desk.runCycle markets).markets := by
  obtain ⟨history, reached, -⟩ := reach.history
  refine ⟨rfl, reached.ranks_ascending.sublist List.filter_sublist, _,
    .mergeSort Snapshot.place markets, ?_⟩
  rw [runCycle_markets_eq, List.forall₂_map_right_iff]
  exact List.forall₂_same.mpr fun market _ => evaluateMarket_accountsFor reach market

/-- A rule that has nothing to say of a spread at its mean. -/
def quietRule : SpreadReversion := ⟨"quiet", "other_z"⟩

/-- A desk with a strategy whose series are never there, a quiet one, one that is turned off and one
that trades. -/
def mixedDesk : Desk where
  registry := Registry.empty.run
    [.register (Breakout.strategy ⟨"breakout", 20, 14⟩) ⟨"breakout", ∅, true⟩,
      .register quietRule.strategy ⟨"quiet", ∅, true⟩,
      .register (SpreadReversion.strategy ⟨"spare", "basis_z"⟩) ⟨"spare", ∅, true⟩,
      .register basisRule.strategy ⟨"spread_reversion", ∅, true⟩,
      .setEnabled "spare" false]
  policy := .standard
  mode := .real

theorem mixedDesk_reach : mixedDesk.registry.CreatedReach := by
  refine ⟨_, ?_, rfl⟩
  simp only [List.forall_mem_cons]
  exact ⟨⟨.breakout 20 14 none, rfl⟩, ⟨.spreadReversion "other_z" (some "quiet"), rfl⟩,
    ⟨.spreadReversion "basis_z" (some "spare"), rfl⟩, ⟨.spreadReversion "basis_z" none, rfl⟩, trivial,
    List.forall_mem_nil _⟩

/-- The market of the wide spread with another spread that is at its mean. -/
def twoSpreads : Snapshot :=
  { wideSpread with indicators := wideSpread.indicators.insert "other_z" [0.0] }

theorem mixedDesk_runCycle_accounts :
    mixedDesk.registry.CreatedReach ∧
      mixedDesk.registry.enabled.map Entry.name = ["breakout", "quiet", "spread_reversion"] ∧
      (mixedDesk.evaluateMarket twoSpreads).signals.map Signal.strategyName = ["quiet", "spread_reversion"] ∧
      ∃ ordered, StableSort Snapshot.place [twoSpreads, wideSpread] ordered ∧
        List.Forall₂ mixedDesk.AccountsFor ordered (mixedDesk.runCycle [twoSpreads, wideSpread]).markets :=
  ⟨mixedDesk_reach, rfl, rfl, (Desk.runCycle_accounts mixedDesk_reach [twoSpreads, wideSpread]).2.2⟩

/-- What else is in a cycle has no effect on the section of a market, and the order in which the markets
are given has none on the report unless two of them share symbol and timeframe. -/
theorem Desk.runCycle_independent (desk : Desk) (markets : List Snapshot) :
    (∃ ordered, StableSort Snapshot.place markets ordered ∧
      List.Forall₂ (fun market report => (desk.runCycle [market]).markets = [report]) ordered
        (desk.runCycle markets).markets) ∧
      ∀ others, markets.Perm others → (markets.map fun m => (m.symbol, m.timeframe)).Nodup →
        desk.runCycle markets = desk.runCycle others := by
  constructor
  · refine ⟨_, .mergeSort Snapshot.place markets, ?_⟩
    rw [runCycle_markets_eq, List.forall₂_map_right_iff]
    exact List.forall₂_same.mpr fun market _ => desk.runCycle_singleton market
  · intro others same distinct
    have places : (markets.map Snapshot.place).Nodup := by
      rw [List.Nodup, List.pairwise_map] at distinct ⊢
      exact distinct.imp fun apart => mt Snapshot.place_eq_iff.mp apart
    have order := StableSort.eq_of_perm (.mergeSort Snapshot.place markets)
      (.mergeSort Snapshot.place others) same places
    have sections : (desk.runCycle markets).markets = (desk.runCycle others).markets := by
      rw [runCycle_markets_eq, runCycle_markets_eq, order]
    calc desk.runCycle markets
        = ⟨desk.mode, desk.registry.enabled.map Entry.name, (desk.runCycle markets).markets⟩ := rfl
      _ = desk.runCycle others := by rw [sections]; rfl

/-- The market of the wide spread by the day. -/
def dailySpread : Snapshot := { wideSpread with timeframe := .day }

theorem mixedDesk_runCycle_independent :
    ([wideSpread, dailySpread].map fun m => (m.symbol, m.timeframe)).Nodup ∧
      mixedDesk.runCycle [wideSpread, dailySpread] = mixedDesk.runCycle [dailySpread, wideSpread] := by
  have distinct : ([wideSpread, dailySpread].map fun m => (m.symbol, m.timeframe)).Nodup := by
    simp [wideSpread, dailySpread]
  have swapped : [wideSpread, dailySpread].Perm [dailySpread, wideSpread] := .swap _ _ _
  exact ⟨distinct, (Desk.runCycle_independent mixedDesk _).2 _ swapped distinct⟩

end SignalDesk
