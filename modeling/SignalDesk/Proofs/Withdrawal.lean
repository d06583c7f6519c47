import SignalDesk.Proofs.BatchSelection
import SignalDesk.Proofs.CycleSections

namespace SignalDesk

namespace SortedMap

variable {α : Type}

/-- Whatever is left out of the entries under other keys, what stands under a key is the same. -/
theorem get?_foldl_insert_filter {keep : String × α → Bool} {key : String}
    (kept : ∀ value, keep (key, value) = true) {entries : List (String × α)} {map other : SortedMap α}
    (same : map.get? key = other.get? key) :
    ((entries.filter keep).foldl (fun map entry => map.insert entry.1 entry.2) map).get? key =
      (entries.foldl (fun map entry => map.insert entry.1 entry.2) other).get? key := by
  induction entries generalizing map other with
  | nil => exact same
  | cons entry rest ih =>
    obtain ⟨name, value⟩ := entry
    by_cases mine : key = name
    · subst mine
      rw [List.filter_cons_of_pos (kept value), List.foldl_cons, List.foldl_cons]
      exact ih (by simp)
    · have unchanged : (other.insert name value).get? key = other.get? key := by simp [mine]
      rw [List.filter_cons, List.foldl_cons]
      split
      · rw [List.foldl_cons]
        exact ih (by simp [mine, same])
      · exact ih (same.trans unchanged.symm)

theorem get?_ofList_filter {keep : String × α → Bool} {key : String}
    (kept : ∀ value, keep (key, value) = true) (entries : List (String × α)) :
    (ofList (entries.filter keep)).get? key = (ofList entries).get? key :=
  get?_foldl_insert_filter kept rfl

end SortedMap

namespace Registry

/-- The commands by which a strategy is taken out of the cycles. -/
def withdrawals (name : String) : List Command := [.setEnabled name false, .deregister name]

theorem Admits.of_withdrawal {r : Registry} {e : Entry} {command : Command} (member : e ∈ r.entries)
    (withdraws : command ∈ withdrawals e.name) : r.Admits command := by
  have present := contains_iff.mpr ⟨e, member, rfl⟩
  rcases List.mem_cons.mp withdraws with rfl | last
  · exact present
  · obtain rfl := List.mem_singleton.mp last
    exact present

theorem enabled_after_withdrawal (r : Registry) {name : String} {command : Command}
    (withdraws : command ∈ withdrawals name) :
    (r.after command).enabled = r.enabled.filter fun e => e.name ≠ name := by
  rcases List.mem_cons.mp withdraws with rfl | last
  · rw [after_setEnabled]
    simp only [enabled, modify]
    induction r.entries with
    | nil => rfl
    | cons e rest ih =>
      by_cases mine : e.name = name <;> by_cases active : e.parameters.enabled = true <;>
        simp_all [Parameters.setEnabled]
  · obtain rfl := List.mem_singleton.mp last
    rw [after_deregister]
    simp only [enabled, List.filter_filter, Bool.and_comm]

/-- The ranks of the other strategies stay as they are. -/
theorem ranks_after_withdrawal (r : Registry) {name other : String} {command : Command}
    (withdraws : command ∈ withdrawals name) (different : other ≠ name) :
    (r.after command).ranks.of other = r.ranks.of other := by
  rcases List.mem_cons.mp withdraws with rfl | last
  · have ranks : ((r.modify name fun e =>
        { e with parameters := e.parameters.setEnabled false }).entries.map fun e => (e.name, e.rank)) =
          r.entries.map fun e => (e.name, e.rank) := by
      simp only [modify, List.map_map]
      refine List.map_congr_left fun e _ => ?_
      by_cases mine : e.name = name
      · simp only [Function.comp_apply, if_pos mine]
        rfl
      · simp only [Function.comp_apply, if_neg mine]
    rw [after_setEnabled, Registry.ranks, ranks]
    rfl
  · obtain rfl := List.mem_singleton.mp last
    rw [after_deregister]
    have ranks : (r.entries.filter fun e => e.name ≠ name).map (fun e => (e.name, e.rank)) =
        (r.entries.map fun e => (e.name, e.rank)).filter fun entry => entry.1 ≠ name := by
      rw [List.filter_map]
      rfl
    rw [Ranks.of, Registry.ranks, ranks, SortedMap.get?_ofList_filter fun _ => decide_eq_true different]
    rfl

end Registry

/-- On the market the entry has no signal, or one that proposes no trade. -/
def Entry.Idle (market : Snapshot) (e : Entry) : Prop :=
  ∀ s, e.strategy.evaluate market e.parameters = .ok s → s.direction = .hold

/-- The desk once its registry has taken a command. -/
def Desk.after (desk : Desk) (command : Registry.Command) : Desk :=
  { desk with registry := desk.registry.after command }

section

variable {desk : Desk} {e : Entry} {command : Registry.Command} {market : Snapshot}

theorem Desk.after_signals (withdraws : command ∈ Registry.withdrawals e.name) (market : Snapshot) :
    ((desk.after command).evaluateMarket market).signals =
      (desk.registry.enabled.filter fun other => other.name ≠ e.name).filterMap (Entry.signal? market) := by
  rw [evaluateMarket_signals, ← Registry.enabled_after_withdrawal desk.registry withdraws]
  rfl

/-- An idle strategy adds nothing to the proposals, so none is missing without it. -/
theorem Desk.after_proposals (reach : desk.registry.CreatedReach) (member : e ∈ desk.registry.enabled)
    (withdraws : command ∈ Registry.withdrawals e.name) (idle : e.Idle market) :
    proposals ((desk.after command).evaluateMarket market).signals =
      proposals (desk.evaluateMarket market).signals := by
  obtain ⟨history, reached, -⟩ := reach.history
  rw [after_signals withdraws, evaluateMarket_signals, proposals, proposals, List.filterMap_filter,
    List.filter_filterMap, List.filter_filterMap]
  refine List.filterMap_congr fun other otherMember => ?_
  by_cases mine : other.name = e.name
  · obtain rfl := reached.entry_of_name (List.mem_of_mem_filter otherMember)
      (List.mem_of_mem_filter member) mine
    cases answer : other.signal? market with
    | none => simp
    | some s =>
      have hold := idle s (Entry.signal?_eq_some.mp answer)
      simp [Option.filter, hold, Direction.isActionable]
  · simp [mine]

/-- The strategies that still have a signal stand to each other as before. -/
theorem Desk.after_ranksAgree (reach : desk.registry.CreatedReach)
    (withdraws : command ∈ Registry.withdrawals e.name) (market : Snapshot) :
    RanksAgree (desk.after command).registry.ranks desk.registry.ranks
      (proposals ((desk.after command).evaluateMarket market).signals) := by
  intro s proposed
  have present := List.mem_of_mem_filter proposed
  rw [after_signals withdraws] at present
  obtain ⟨other, remains, answer⟩ := List.mem_filterMap.mp present
  obtain ⟨enabled, different⟩ := List.mem_filter.mp remains
  rw [reach.signal_named (List.mem_of_mem_filter enabled) (Entry.signal?_eq_some.mp answer)]
  exact Registry.ranks_after_withdrawal desk.registry withdraws (of_decide_eq_true different)

/-- The signal accepted for a market is the best of the proposals that the policy admits. -/
theorem Desk.evaluateMarket_accepted? (desk : Desk) (market : Snapshot) :
    (desk.evaluateMarket market).accepted? = firstBest desk.registry.ranks
      ((proposals (desk.evaluateMarket market).signals).filter (desk.policy.admits desk.mode)) := by
  by_cases empty : (desk.evaluateMarket market).signals = []
  · rw [MarketReport.accepted?, evaluateMarket_noSignals.mpr empty, empty]
    rfl
  · rw [MarketReport.accepted?, evaluateMarket_outcome, aggregate_eq_firstBest empty]
    cases firstBest desk.registry.ranks
      ((proposals (desk.evaluateMarket market).signals).filter (desk.policy.admits desk.mode)) <;> rfl

theorem Desk.after_accepted? (reach : desk.registry.CreatedReach) (member : e ∈ desk.registry.enabled)
    (withdraws : command ∈ Registry.withdrawals e.name) (idle : e.Idle market) :
    ((desk.after command).evaluateMarket market).accepted? =
      (desk.evaluateMarket market).accepted? := by
  have same := after_proposals reach member withdraws idle
  have agree := after_ranksAgree reach withdraws market
  rw [same] at agree
  rw [evaluateMarket_accepted?, evaluateMarket_accepted?, same]
  exact firstBest_congr fun s admitted => agree s (List.mem_of_mem_filter admitted)

theorem Desk.after_outcome (reach : desk.registry.CreatedReach) (member : e ∈ desk.registry.enabled)
    (withdraws : command ∈ Registry.withdrawals e.name) (idle : e.Idle market) {other : Entry} {s : Signal}
    (enabled : other ∈ desk.registry.enabled) (different : other.name ≠ e.name)
    (answer : other.strategy.evaluate market other.parameters = .ok s) :
    ((desk.after command).evaluateMarket market).outcome = (desk.evaluateMarket market).outcome := by
  have signal := Entry.signal?_eq_some.mpr answer
  have nonempty : (desk.evaluateMarket market).signals ≠ [] := by
    rw [evaluateMarket_signals]
    exact List.ne_nil_of_mem (List.mem_filterMap.mpr ⟨other, enabled, signal⟩)
  have stillNonempty : ((desk.after command).evaluateMarket market).signals ≠ [] := by
    rw [after_signals withdraws]
    exact List.ne_nil_of_mem (List.mem_filterMap.mpr
      ⟨other, List.mem_filter.mpr ⟨enabled, decide_eq_true different⟩, signal⟩)
  have same := after_proposals reach member withdraws idle
  have agree := after_ranksAgree reach withdraws market
  rw [same] at agree
  have verdict : aggregate (desk.after command).registry.ranks desk.policy desk.mode
      ((desk.after command).evaluateMarket market).signals =
        aggregate desk.registry.ranks desk.policy desk.mode (desk.evaluateMarket market).signals :=
    aggregate_congr stillNonempty nonempty same agree
  rw [evaluateMarket_outcome, evaluateMarket_outcome, ← verdict]
  rfl

/-- An idle strategy can be taken out: the command is accepted, the sections of later cycles stand in the
same order, and where the strategy is idle the same signal is accepted. Where another strategy has a
signal, the whole outcome stays. -/
theorem Desk.withdraw_idle (reach : desk.registry.CreatedReach) (member : e ∈ desk.registry.enabled)
    (withdraws : command ∈ Registry.withdrawals e.name) :
    ∃ (later : Desk) (event : Event), desk.registry.apply command = .ok (later.registry, event) ∧
      later.policy = desk.policy ∧ later.mode = desk.mode ∧
      later.registry.enabled = desk.registry.enabled.filter (fun other => other.name ≠ e.name) ∧
      (∀ markets, ∃ ordered, StableSort Snapshot.place markets ordered ∧
        (desk.runCycle markets).markets = ordered.map desk.evaluateMarket ∧
        (later.runCycle markets).markets = ordered.map later.evaluateMarket) ∧
      ∀ market, e.Idle market →
        (later.evaluateMarket market).accepted? = (desk.evaluateMarket market).accepted? ∧
          ((∃ other ∈ desk.registry.enabled, other ≠ e ∧
              ∃ s, other.strategy.evaluate market other.parameters = .ok s) →
            (later.evaluateMarket market).outcome = (desk.evaluateMarket market).outcome) := by
  obtain ⟨history, reached, -⟩ := reach.history
  have registered := List.mem_of_mem_filter member
  have accepted : desk.registry.apply command = .ok ((desk.after command).registry, command.event) :=
    Registry.apply_eq_ok.mpr ⟨.of_withdrawal registered withdraws, rfl⟩
  refine ⟨desk.after command, command.event, accepted, rfl, rfl,
    Registry.enabled_after_withdrawal desk.registry withdraws, fun markets => ?_, fun market idle => ?_⟩
  · exact ⟨_, .mergeSort Snapshot.place markets, desk.runCycle_markets_eq markets,
      (desk.after command).runCycle_markets_eq markets⟩
  · refine ⟨after_accepted? reach member withdraws idle, ?_⟩
    rintro ⟨other, enabled, apart, s, answer⟩
    have different : other.name ≠ e.name := fun sameName =>
      apart (reached.entry_of_name (List.mem_of_mem_filter enabled) registered sameName)
    exact after_outcome reach member withdraws idle enabled different answer

end

theorem mixedDesk_withdraw_quiet :
    mixedDesk.registry.CreatedReach ∧
      ∃ quiet ∈ mixedDesk.registry.enabled, quiet.Idle twoSpreads ∧
        ∃ (later : Desk) (event : Event),
          mixedDesk.registry.apply (.deregister "quiet") = .ok (later.registry, event) ∧
          (later.evaluateMarket twoSpreads).accepted? =
            some (basisRule.answer "BTCUSDT" ⟨0, 0⟩ 2.0 4.0 (-4.0)) ∧
          (later.evaluateMarket twoSpreads).outcome = (mixedDesk.evaluateMarket twoSpreads).outcome := by
  have member : ⟨quietRule.strategy, ⟨"quiet", ∅, true⟩, 1⟩ ∈ mixedDesk.registry.enabled :=
    .tail _ (.head _)
  have trader : ⟨basisRule.strategy, ⟨"spread_reversion", ∅, true⟩, 3⟩ ∈ mixedDesk.registry.enabled :=
    .tail _ (.tail _ (.head _))
  have answer : quietRule.strategy.evaluate twoSpreads ⟨"quiet", ∅, true⟩ =
      .ok (quietRule.answer "BTCUSDT" ⟨0, 0⟩ 2.0 4.0 0.0) := rfl
  have idle : Entry.Idle twoSpreads ⟨quietRule.strategy, ⟨"quiet", ∅, true⟩, 1⟩ := by
    intro s evaluated
    obtain rfl := Except.ok.inj (answer.symm.trans evaluated)
    rfl
  obtain ⟨later, event, applied, -, -, -, -, same⟩ := Desk.withdraw_idle mixedDesk_reach member
    (.tail _ (.head _) : Registry.Command.deregister "quiet" ∈ Registry.withdrawals "quiet")
  obtain ⟨accepted, outcome⟩ := same twoSpreads idle
  have apart : (⟨basisRule.strategy, ⟨"spread_reversion", ∅, true⟩, 3⟩ : Entry) ≠
      ⟨quietRule.strategy, ⟨"quiet", ∅, true⟩, 1⟩ := fun equal => absurd (congrArg Entry.rank equal) (by decide)
  exact ⟨mixedDesk_reach, _, member, idle, later, event, applied, accepted,
    outcome ⟨_, trader, apart, _, rfl⟩⟩

end SignalDesk
