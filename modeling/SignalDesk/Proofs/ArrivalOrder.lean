import Mathlib.Data.List.MinMax
import SignalDesk.Proofs.BatchSelection
import SignalDesk.Proofs.RegistryInvariant

namespace SignalDesk

/-- The standing of a signal apart from its place in a batch, the least being the best. -/
def Signal.standing (ranks : Ranks) (s : Signal) : ℤ ×ₗ ℕ :=
  toLex (-totalRank s.confidence, ranks.of s.strategyName)

theorem Signal.outranks_iff {ranks : Ranks} {later earlier : Signal} :
    later.outranks ranks earlier = true ↔ later.standing ranks < earlier.standing ranks := by
  simp only [outranks, standing, Prod.Lex.toLex_lt_toLex, Bool.or_eq_true, Bool.and_eq_true,
    decide_eq_true_eq, Int.neg_lt_neg_iff, neg_inj]
  exact or_congr_right (and_congr_left' eq_comm)

/-- The search for the best signal keeps the first one of the least standing. -/
theorem firstBest_eq_argmin (ranks : Ranks) (signals : List Signal) :
    firstBest ranks signals = signals.argmin (Signal.standing ranks) := by
  have step : keepPreferred (Signal.outranks ranks) =
      List.argAux fun later earlier => later.standing ranks < earlier.standing ranks := by
    funext best later
    cases best with
    | none => rfl
    | some earlier => simp only [keepPreferred, List.argAux, Signal.outranks_iff]
  rw [firstBest, step]
  rfl

/-- Where no two elements have the same key, the order of a list has no say in which one is least. -/
theorem argmin_perm {α β : Type} [LinearOrder β] {f : α → β} {l others : List α} (same : l.Perm others)
    (apart : ∀ a ∈ l, ∀ b ∈ l, f a = f b → a = b) : l.argmin f = others.argmin f := by
  cases least : l.argmin f with
  | none =>
    rw [List.argmin_eq_none] at least
    subst least
    rw [List.nil_perm.mp same]
    rfl
  | some a =>
    cases leastOther : others.argmin f with
    | none =>
      rw [List.argmin_eq_none] at leastOther
      subst leastOther
      rw [List.perm_nil.mp same] at least
      cases least
    | some b =>
      have aMember := List.argmin_mem least
      have bMember := same.mem_iff.mpr (List.argmin_mem leastOther)
      have below := List.le_of_mem_argmin bMember least
      have above := List.le_of_mem_argmin (same.mem_iff.mp aMember) leastOther
      rw [apart a aMember b bMember (le_antisymm below above)]

/-- Signals of strategies that all rank differently. -/
def RanksApart (ranks : Ranks) (signals : List Signal) : Prop :=
  ∀ s ∈ signals, ∀ t ∈ signals, ranks.of s.strategyName = ranks.of t.strategyName → s = t

theorem firstBest_perm {ranks : Ranks} {signals others : List Signal} (same : signals.Perm others)
    (apart : RanksApart ranks signals) : firstBest ranks signals = firstBest ranks others := by
  rw [firstBest_eq_argmin, firstBest_eq_argmin]
  refine argmin_perm same fun s sMember t tMember equal => apart s sMember t tMember ?_
  exact congrArg (fun key => (ofLex key).2) equal

theorem aggregate_perm {ranks : Ranks} {policy : ConfidencePolicy} {mode : TradingMode}
    {signals others : List Signal} (same : signals.Perm others) (apart : RanksApart ranks signals) :
    aggregate ranks policy mode signals = aggregate ranks policy mode others := by
  have alike : signals = [] ↔ others = [] :=
    ⟨fun empty => List.nil_perm.mp (empty ▸ same), fun empty => List.perm_nil.mp (empty ▸ same)⟩
  refine aggregate_eq_of_parts alike fun qualifies => ?_
  refine firstBest_perm ((same.filter _).filter _) fun s sMember t tMember => ?_
  exact apart s (List.mem_of_mem_filter (List.mem_of_mem_filter sMember)) t
    (List.mem_of_mem_filter (List.mem_of_mem_filter tMember))

/-- Strategies of different names that are all registered rank differently. -/
theorem Registry.Consistent.ranksApart {r : Registry} (consistent : r.Consistent) {signals : List Signal}
    (distinct : (signals.map Signal.strategyName).Nodup)
    (registered : ∀ s ∈ signals, r.contains s.strategyName = true) : RanksApart r.ranks signals := by
  intro s sMember t tMember equal
  obtain ⟨e, eMember, eName⟩ := contains_iff.mp (registered s sMember)
  obtain ⟨f, fMember, fName⟩ := contains_iff.mp (registered t tMember)
  rw [← eName, ← fName, consistent.rank_of eMember, consistent.rank_of fMember] at equal
  obtain rfl := consistent.entry_of_rank eMember fMember equal
  exact List.inj_on_of_nodup_map distinct sMember tMember (eName.symm.trans fName)

/-- What the aggregator of a registry decides over signals of different registered strategies does not depend
on the order in which they arrive. -/
theorem Registry.aggregate_arrival (commands : List Command) (policy : ConfidencePolicy) (mode : TradingMode)
    {signals others : List Signal} (distinct : (signals.map Signal.strategyName).Nodup)
    (registered : ∀ s ∈ signals, (empty.run commands).contains s.strategyName = true)
    (same : signals.Perm others) :
    aggregate (empty.run commands).ranks policy mode signals =
      aggregate (empty.run commands).ranks policy mode others :=
  aggregate_perm same ((run_consistent commands).ranksApart distinct registered)

/-- A strategy that leaves and comes back behind another one. -/
def returningBreakout : List Registry.Command :=
  [.register (Breakout.strategy ⟨"a", 20, 14⟩) ⟨"a", ∅, true⟩,
    .register (Breakout.strategy ⟨"b", 20, 14⟩) ⟨"b", ∅, true⟩, .deregister "a",
    .register (Breakout.strategy ⟨"a", 20, 14⟩) ⟨"a", ∅, true⟩]

/-- Two signals of the same confidence. -/
def tiedSignals : List Signal :=
  [.make "a" "BTCUSDT" .buy 0.96 ⟨0, 0⟩, .make "b" "BTCUSDT" .sell 0.96 ⟨0, 0⟩]

theorem tiedSignals_arrival :
    (tiedSignals.map Signal.strategyName).Nodup ∧
      (∀ s ∈ tiedSignals, (Registry.empty.run returningBreakout).contains s.strategyName = true) ∧
      tiedSignals.Perm tiedSignals.reverse ∧
      aggregate (Registry.empty.run returningBreakout).ranks .standard .real tiedSignals =
        .ok (.accepted (.make "b" "BTCUSDT" .sell 0.96 ⟨0, 0⟩)) ∧
      aggregate (Registry.empty.run returningBreakout).ranks .standard .real tiedSignals.reverse =
        .ok (.accepted (.make "b" "BTCUSDT" .sell 0.96 ⟨0, 0⟩)) := by
  have distinct : (tiedSignals.map Signal.strategyName).Nodup := by decide
  have registered : ∀ s ∈ tiedSignals, (Registry.empty.run returningBreakout).contains s.strategyName = true := by
    simp only [tiedSignals, List.forall_mem_cons]
    exact ⟨rfl, rfl, List.forall_mem_nil _⟩
  have reversed : tiedSignals.Perm tiedSignals.reverse := (List.reverse_perm _).symm
  have decided : aggregate (Registry.empty.run returningBreakout).ranks .standard .real tiedSignals =
      .ok (.accepted (.make "b" "BTCUSDT" .sell 0.96 ⟨0, 0⟩)) := rfl
  refine ⟨distinct, registered, reversed, decided, ?_⟩
  rw [← Registry.aggregate_arrival returningBreakout .standard .real distinct registered reversed]
  exact decided

end SignalDesk
