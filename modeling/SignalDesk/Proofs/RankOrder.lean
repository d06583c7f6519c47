import SignalDesk.Proofs.BatchSelection
import SignalDesk.Proofs.CycleSections
import SignalDesk.Proofs.RegistryInvariant

namespace SignalDesk

/-- Every strategy of a batch ranks before those whose signals stand behind its own. -/
def InRankOrder (ranks : Ranks) (signals : List Signal) : Prop :=
  signals.Pairwise fun s t => ranks.of s.strategyName < ranks.of t.strategyName

namespace InRankOrder

variable {ranks : Ranks} {signals : List Signal}

/-- The signals of a batch in rank order stand in it by their ranks. -/
theorem lt_iff (ordered : InRankOrder ranks signals) {i j : Nat} {s t : Signal} (atI : signals[i]? = some s)
    (atJ : signals[j]? = some t) : i < j ↔ ranks.of s.strategyName < ranks.of t.strategyName := by
  obtain ⟨iInside, rfl⟩ := List.getElem?_eq_some_iff.mp atI
  obtain ⟨jInside, rfl⟩ := List.getElem?_eq_some_iff.mp atJ
  have ascending := List.pairwise_iff_getElem.mp ordered
  refine ⟨ascending i j iInside jInside, fun less => ?_⟩
  rcases Nat.lt_trichotomy i j with before | rfl | behind
  · exact before
  · omega
  · have reversed := ascending j i jInside iInside behind
    omega

/-- No tie in the batch is decided otherwise than it would be by the places alone. -/
theorem firstBest_eq (ordered : InRankOrder ranks signals) : firstBest ranks signals = firstBest ∅ signals := by
  refine firstBest_eq_of_pairwise (ordered.imp fun {earlier later} less => ?_)
  have behind : ¬ranks.of later.strategyName < ranks.of earlier.strategyName := by omega
  have unranked : ¬Ranks.of ∅ later.strategyName < Ranks.of ∅ earlier.strategyName := Nat.lt_irrefl _
  simp only [Signal.outranks, behind, unranked]

theorem aggregate_eq (ordered : InRankOrder ranks signals) (policy : ConfidencePolicy) (mode : TradingMode) :
    aggregate ranks policy mode signals = aggregate ∅ policy mode signals :=
  aggregate_eq_of_parts Iff.rfl fun _ =>
    firstBest_eq (List.Pairwise.sublist (List.filter_sublist.trans List.filter_sublist) ordered)

end InRankOrder

/-- Strategies answer in the order of their registration, and those without a signal only leave gaps. -/
theorem Desk.evaluateMarket_inRankOrder {desk : Desk} (reach : desk.registry.CreatedReach) (market : Snapshot) :
    InRankOrder desk.registry.ranks (desk.evaluateMarket market).signals := by
  obtain ⟨history, reached, -⟩ := reach.history
  have consistent := reached.consistent
  have ranked {e : Entry} (member : e ∈ desk.registry.enabled) {s : Signal}
      (answer : e.signal? market = some s) : desk.registry.ranks.of s.strategyName = e.rank := by
    have registered := List.mem_of_mem_filter member
    rw [reach.signal_named registered (Entry.signal?_eq_some.mp answer), consistent.rank_of registered]
  have ascending : desk.registry.enabled.Pairwise fun a b => a.rank < b.rank :=
    consistent.ranksAscending.sublist List.filter_sublist
  rw [evaluateMarket_signals, InRankOrder, List.pairwise_filterMap]
  refine ascending.imp_of_mem fun aMember bMember less s first t second => ?_
  rw [ranked aMember first, ranked bMember second]
  exact less

/-- The ranks of a registry decide nothing that the places in the batch of a market do not decide already,
whatever was taken out of the registry and came back: along the batch the two orders are the same. -/
theorem Desk.evaluateMarket_rankless {desk : Desk} (reach : desk.registry.CreatedReach) (market : Snapshot) :
    aggregate desk.registry.ranks desk.policy desk.mode (desk.evaluateMarket market).signals =
        aggregate ∅ desk.policy desk.mode (desk.evaluateMarket market).signals ∧
      ∀ (i j : Nat) (s t : Signal), (desk.evaluateMarket market).signals[i]? = some s →
        (desk.evaluateMarket market).signals[j]? = some t →
          (i < j ↔ desk.registry.ranks.of s.strategyName < desk.registry.ranks.of t.strategyName) := by
  have ordered := evaluateMarket_inRankOrder reach market
  exact ⟨ordered.aggregate_eq desk.policy desk.mode, fun _ _ _ _ atI atJ => ordered.lt_iff atI atJ⟩

/-- A desk whose first strategy left and came back behind the second one, which trades the same spread. -/
def returningDesk : Desk where
  registry := Registry.empty.run
    [.register (SpreadReversion.strategy ⟨"a", "basis_z"⟩) ⟨"a", ∅, true⟩,
      .register (SpreadReversion.strategy ⟨"b", "basis_z"⟩) ⟨"b", ∅, true⟩, .deregister "a",
      .register (SpreadReversion.strategy ⟨"a", "basis_z"⟩) ⟨"a", ∅, true⟩]
  policy := .standard
  mode := .real

theorem returningDesk_reach : returningDesk.registry.CreatedReach := by
  refine ⟨_, ?_, rfl⟩
  simp only [List.forall_mem_cons]
  exact ⟨⟨.spreadReversion "basis_z" (some "a"), rfl⟩, ⟨.spreadReversion "basis_z" (some "b"), rfl⟩, trivial,
    ⟨.spreadReversion "basis_z" (some "a"), rfl⟩, List.forall_mem_nil _⟩

/-- The two signals are of one confidence, and the one of the strategy that stayed wins. -/
theorem returningDesk_rankless :
    returningDesk.registry.CreatedReach ∧
      (returningDesk.evaluateMarket wideSpread).signals.map (fun s => (s.strategyName, s.confidence)) =
        [("b", 1.0), ("a", 1.0)] ∧
      aggregate returningDesk.registry.ranks .standard .real (returningDesk.evaluateMarket wideSpread).signals =
        .ok (.accepted (SpreadReversion.answer ⟨"b", "basis_z"⟩ "BTCUSDT" ⟨0, 0⟩ 2.0 4.0 (-4.0))) ∧
      aggregate ∅ .standard .real (returningDesk.evaluateMarket wideSpread).signals =
        .ok (.accepted (SpreadReversion.answer ⟨"b", "basis_z"⟩ "BTCUSDT" ⟨0, 0⟩ 2.0 4.0 (-4.0))) := by
  have decided : aggregate returningDesk.registry.ranks .standard .real
      (returningDesk.evaluateMarket wideSpread).signals =
        .ok (.accepted (SpreadReversion.answer ⟨"b", "basis_z"⟩ "BTCUSDT" ⟨0, 0⟩ 2.0 4.0 (-4.0))) := rfl
  have same := (Desk.evaluateMarket_rankless returningDesk_reach wideSpread).1
  exact ⟨returningDesk_reach, rfl, decided, same.symm.trans decided⟩

end SignalDesk
