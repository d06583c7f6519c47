import SignalDesk.Proofs.Selection
import SignalDesk.Proofs.ThresholdBounds

namespace SignalDesk

/-- The order among equally confident candidates: first the strategies in the table by their ranks, then all others,
and the earlier place before the later one. -/
def Candidate.seniority (ranks : Ranks) (c : Candidate) : WithTop ℕ ×ₗ ℕ :=
  toLex (ranks.get? c.2.strategyName, c.1)

/-- How a candidate with the confidence of the winner loses although it is senior. -/
inductive Overlooked (ranks : Ranks) (winner loser : Candidate) : Prop
  /-- Zero stands above negative zero, which is the same number. -/
  | zeros : winner.2.confidence = 0.0 → loser.2.confidence = -0.0 → Overlooked ranks winner loser
  /-- The loser is in the table, but not before the rank that stands for the strategies outside of it. -/
  | unlisted (rank : ℕ) : ranks.get? winner.2.strategyName = none → ranks.get? loser.2.strategyName = some rank →
      unregisteredRank ≤ rank → (rank = unregisteredRank → winner.1 < loser.1) → Overlooked ranks winner loser

theorem Ranks.of_eq_of_listed {ranks : Ranks} {strategy : String} {rank : ℕ}
    (listed : ranks.get? strategy = some rank) :
    ranks.of strategy = rank := by
  rw [Ranks.of, listed, Option.getD_some]

theorem Ranks.of_eq_of_unlisted {ranks : Ranks} {strategy : String}
    (unlisted : ranks.get? strategy = none) :
    ranks.of strategy = unregisteredRank := by
  rw [Ranks.of, unlisted, Option.getD_none]

namespace Candidate

variable {ranks : Ranks} {winner loser : Candidate}

/-- Ranks and places put a senior candidate first, unless the table uses the rank of those outside of it. -/
theorem overlooked_of_rank
    (before : ranks.of winner.2.strategyName < ranks.of loser.2.strategyName ∨
      ranks.of winner.2.strategyName = ranks.of loser.2.strategyName ∧ winner.1 < loser.1)
    (senior : seniority ranks loser < seniority ranks winner) : Overlooked ranks winner loser := by
  rcases Prod.Lex.toLex_lt_toLex.mp senior with ranked | ⟨same, placed⟩
  · cases listed : ranks.get? loser.2.strategyName with
    | none =>
      rw [listed] at ranked
      exact absurd ranked not_top_lt
    | some rank =>
      rw [Ranks.of_eq_of_listed listed] at before
      cases unlisted : ranks.get? winner.2.strategyName with
      | none =>
        rw [Ranks.of_eq_of_unlisted unlisted] at before
        exact .unlisted rank unlisted listed (by omega) (by omega)
      | some other =>
        rw [Ranks.of_eq_of_listed unlisted] at before
        rw [listed, unlisted] at ranked
        have less : rank < other := WithTop.coe_lt_coe.mp ranked
        omega
  · have tied : ranks.of loser.2.strategyName = ranks.of winner.2.strategyName :=
      congrArg (Option.getD · unregisteredRank) same
    change loser.1 < winner.1 at placed
    omega

/-- Whoever stands behind the winner has no higher confidence, and is junior to it or overlooked. -/
theorem overlooked_of_standing (behind : standing ranks winner < standing ranks loser)
    (winnerDefined : winner.2.confidence.isNaN = false) :
    loser.2.confidence ≤ winner.2.confidence ∧
      (winner.2.confidence ≤ loser.2.confidence → seniority ranks loser < seniority ranks winner →
        Overlooked ranks winner loser) := by
  refine ⟨confidence_le behind.le winnerDefined, fun equal senior => ?_⟩
  rcases standing_lt_iff.mp behind with apart | ⟨-, before⟩
  · obtain ⟨plus, minus⟩ := zeros_of_totalRank_lt equal apart
    exact .zeros plus minus
  · exact overlooked_of_rank before senior

end Candidate

theorem Tradable.defined {policy : ConfidencePolicy} {mode : TradingMode} {s : Signal}
    (tradable : Tradable policy mode s) : s.confidence.isNaN = false :=
  (le_iff_linePlace.mp tradable.2).2.1

/-- No survivor has a higher confidence than the accepted signal, and of those with the same one it is the most senior,
but for a zero above a negative zero and for ranks in the table that leave no room behind them. -/
theorem aggregate_tie_broken {ranks : Ranks} {policy : ConfidencePolicy} {mode : TradingMode} {signals : List Signal}
    {s : Signal} (accepted : aggregate ranks policy mode signals = .ok (.accepted s)) :
    ∃ place, signals[place]? = some s ∧ Tradable policy mode s ∧
      ∀ other t, signals[other]? = some t → Tradable policy mode t →
        t.confidence ≤ s.confidence ∧
          (s.confidence ≤ t.confidence →
            Candidate.seniority ranks (other, t) < Candidate.seniority ranks (place, s) →
              Overlooked ranks (place, s) (other, t)) := by
  have nonempty : signals ≠ [] := by
    rintro rfl
    cases accepted
  rw [aggregate_of_ne_nil nonempty] at accepted
  split at accepted
  · rename_i found
    obtain rfl := Verdict.accepted.inj (Except.ok.inj accepted)
    obtain ⟨place, atPlace, tradable, first⟩ := bestCandidate_firstAmong (fun _ _ => mem_surviving) found
    refine ⟨place, atPlace, tradable, fun other t atOther survives => ?_⟩
    by_cases same : other = place
    · subst same
      obtain rfl : _ = t := Option.some.inj (atPlace.symm.trans atOther)
      have itself := le_iff_linePlace.mpr ⟨tradable.defined, tradable.defined, le_rfl⟩
      exact ⟨itself, fun _ senior => absurd senior (lt_irrefl _)⟩
    · have behind := first other t atOther survives same
      have decided := Candidate.overlooked_of_standing behind tradable.defined
      exact decided
  · cases accepted

def buyingSignal (confidence : Float) : Signal := ⟨"a", "BTC/USDC", .buy, confidence, ⟨0, 0⟩, ∅⟩

def sellingSignal (confidence : Float) : Signal := ⟨"b", "BTC/USDC", .sell, confidence, ⟨0, 0⟩, ∅⟩

/-- The second signal is accepted for the rank of its strategy. -/
theorem sellingSignal_tie_broken :
    aggregate (SortedMap.ofList [("a", 1), ("b", 0)]) .standard .paper [buyingSignal 0.9, sellingSignal 0.9] =
        .ok (.accepted (sellingSignal 0.9)) ∧
      ∃ place, [buyingSignal 0.9, sellingSignal 0.9][place]? = some (sellingSignal 0.9) ∧
        Tradable .standard .paper (sellingSignal 0.9) ∧
        ∀ other t, [buyingSignal 0.9, sellingSignal 0.9][other]? = some t → Tradable .standard .paper t →
          t.confidence ≤ (sellingSignal 0.9).confidence ∧
            ((sellingSignal 0.9).confidence ≤ t.confidence →
              Candidate.seniority (SortedMap.ofList [("a", 1), ("b", 0)]) (other, t) <
                Candidate.seniority (SortedMap.ofList [("a", 1), ("b", 0)]) (place, sellingSignal 0.9) →
              Overlooked (SortedMap.ofList [("a", 1), ("b", 0)]) (place, sellingSignal 0.9) (other, t)) := by
  have accepted : aggregate (SortedMap.ofList [("a", 1), ("b", 0)]) .standard .paper
      [buyingSignal 0.9, sellingSignal 0.9] = .ok (.accepted (sellingSignal 0.9)) := rfl
  exact ⟨accepted, aggregate_tie_broken accepted⟩

/-- A policy under which every proposal is tradable on paper. -/
def openPolicy : ConfidencePolicy := ⟨0.0, 0.95, ∅⟩

/-- A strategy with the last rank loses to one outside of the table, and a negative zero to a zero, for all their
seniority. -/
theorem senior_overlooked :
    (aggregate (SortedMap.ofList [("b", UInt64.size - 1)]) .standard .paper [buyingSignal 0.9, sellingSignal 0.9] =
        .ok (.accepted (buyingSignal 0.9)) ∧
      Tradable .standard .paper (sellingSignal 0.9) ∧
      Candidate.seniority (SortedMap.ofList [("b", UInt64.size - 1)]) (1, sellingSignal 0.9) <
        Candidate.seniority (SortedMap.ofList [("b", UInt64.size - 1)]) (0, buyingSignal 0.9)) ∧
    (aggregate (SortedMap.ofList [("a", 0), ("b", 1)]) openPolicy .paper [buyingSignal (-0.0), sellingSignal 0.0] =
        .ok (.accepted (sellingSignal 0.0)) ∧
      Tradable openPolicy .paper (buyingSignal (-0.0)) ∧
      (sellingSignal 0.0).confidence ≤ (buyingSignal (-0.0)).confidence ∧
      Candidate.seniority (SortedMap.ofList [("a", 0), ("b", 1)]) (0, buyingSignal (-0.0)) <
        Candidate.seniority (SortedMap.ofList [("a", 0), ("b", 1)]) (1, sellingSignal 0.0)) := by
  refine ⟨⟨rfl, ⟨nofun, by decide⟩, ?_⟩, rfl, ⟨nofun, by decide⟩, by decide, ?_⟩
  · exact Prod.Lex.toLex_lt_toLex.mpr (Or.inl (WithTop.coe_lt_top _))
  · exact Prod.Lex.toLex_lt_toLex.mpr (Or.inl (WithTop.coe_lt_coe.mpr Nat.zero_lt_one))

end SignalDesk
