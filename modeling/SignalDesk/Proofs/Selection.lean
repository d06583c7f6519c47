import SignalDesk.Aggregation
import SignalDesk.Proofs.DoubleOrder

namespace SignalDesk

/-- The standing of a candidate, the least one being the best: a higher confidence first, then a
smaller rank, then an earlier place. No two places of a batch have the same standing. -/
def Candidate.standing (ranks : Ranks) (c : Candidate) : ℤ ×ₗ ℕ ×ₗ ℕ :=
  toLex (-totalRank c.2.confidence, toLex (ranks.of c.2.strategyName, c.1))

theorem Candidate.standing_lt_iff {ranks : Ranks} {c d : Candidate} :
    standing ranks c < standing ranks d ↔
      totalRank d.2.confidence < totalRank c.2.confidence ∨
        totalRank d.2.confidence = totalRank c.2.confidence ∧
          (ranks.of c.2.strategyName < ranks.of d.2.strategyName ∨
            ranks.of c.2.strategyName = ranks.of d.2.strategyName ∧ c.1 < d.1) := by
  simp only [standing, Prod.Lex.toLex_lt_toLex, Int.neg_lt_neg_iff, neg_inj]
  exact or_congr_right (and_congr_left' eq_comm)

theorem Candidate.beats_iff {ranks : Ranks} {c d : Candidate} :
    Candidate.beats ranks c d = true ↔ Candidate.standing ranks c < Candidate.standing ranks d := by
  simp only [beats, standing_lt_iff, Bool.or_eq_true, Bool.and_eq_true, decide_eq_true_eq]

/-- Whoever is more confident stands in front. -/
theorem Candidate.standing_lt_of_lt {ranks : Ranks} {c d : Candidate} (more : d.2.confidence < c.2.confidence) :
    standing ranks c < standing ranks d :=
  standing_lt_iff.mpr (Or.inl (totalRank_lt_of_lt more))

/-- Whoever stands in front is at least as confident. -/
theorem Candidate.confidence_le {ranks : Ranks} {c d : Candidate} (before : standing ranks c ≤ standing ranks d)
    (cDefined : c.2.confidence.isNaN = false) : d.2.confidence ≤ c.2.confidence := by
  have order : totalRank d.2.confidence ≤ totalRank c.2.confidence := by
    rcases Prod.Lex.toLex_le_toLex.mp before with less | ⟨same, -⟩
    · exact (Int.neg_lt_neg_iff.mp less).le
    · exact (neg_inj.mp same).ge
  rcases totalRank_le_iff.mp order with undefined | ⟨le, -⟩
  · exact absurd undefined (Bool.eq_false_iff.mp cDefined)
  · exact le

/-- A candidate that nobody in the pool it comes from stands before. -/
def Leads (ranks : Ranks) (pool : List Candidate) (c : Candidate) : Prop :=
  c ∈ pool ∧ ∀ d ∈ pool, Candidate.standing ranks c ≤ Candidate.standing ranks d

/-- The candidate to keep when a challenger comes. -/
def keepBetter (ranks : Ranks) (best : Option Candidate) (challenger : Candidate) : Option Candidate :=
  match best with
  | none => some challenger
  | some incumbent =>
    if challenger.beats ranks incumbent then some challenger else some incumbent

theorem bestCandidate_eq_foldl (ranks : Ranks) (candidates : List Candidate) :
    bestCandidate ranks candidates = (candidates.foldl (keepBetter ranks) none).map Prod.snd := rfl

/-- What the best one so far is to the candidates seen so far. -/
def BestOf (ranks : Ranks) (seen : List Candidate) : Option Candidate → Prop
  | none => seen = []
  | some c => Leads ranks seen c

/-- One more candidate: whoever is kept stands before all that have been seen. -/
theorem BestOf.keepBetter {ranks : Ranks} {seen : List Candidate} {best : Option Candidate}
    (bestOf : BestOf ranks seen best) (challenger : Candidate) :
    BestOf ranks (seen ++ [challenger]) (keepBetter ranks best challenger) := by
  cases best with
  | none =>
    have empty : seen = [] := bestOf
    subst empty
    exact ⟨List.mem_singleton_self _, fun d member => (List.mem_singleton.mp member) ▸ le_refl _⟩
  | some incumbent =>
    obtain ⟨member, least⟩ : Leads ranks seen incumbent := bestOf
    simp only [SignalDesk.keepBetter]
    by_cases wins : Candidate.beats ranks challenger incumbent = true
    · have before := Candidate.beats_iff.mp wins
      rw [if_pos wins]
      refine ⟨List.mem_append_right _ (List.mem_singleton_self _), ?_⟩
      intro d inPool
      rcases List.mem_append.mp inPool with old | new
      · exact before.le.trans (least d old)
      · rw [List.mem_singleton.mp new]
    · have behind := not_lt.mp (mt Candidate.beats_iff.mpr wins)
      rw [if_neg wins]
      refine ⟨List.mem_append_left _ member, ?_⟩
      intro d inPool
      rcases List.mem_append.mp inPool with old | new
      · exact least d old
      · rwa [List.mem_singleton.mp new]

theorem BestOf.foldl {ranks : Ranks} {seen : List Candidate} {best : Option Candidate}
    (bestOf : BestOf ranks seen best) (candidates : List Candidate) :
    BestOf ranks (seen ++ candidates) (candidates.foldl (SignalDesk.keepBetter ranks) best) := by
  induction candidates generalizing seen best with
  | nil => simpa using bestOf
  | cons challenger rest ih =>
    have next := ih (bestOf.keepBetter challenger)
    rwa [List.append_assoc, List.singleton_append] at next

/-- Looking through a pool finds nobody only if there is nobody, and else the one that leads it. -/
theorem bestCandidate_spec (ranks : Ranks) (pool : List Candidate) :
    (bestCandidate ranks pool = none ∧ pool = []) ∨
      ∃ place s, bestCandidate ranks pool = some s ∧ Leads ranks pool (place, s) := by
  have whole : BestOf ranks ([] ++ pool) (pool.foldl (keepBetter ranks) none) :=
    BestOf.foldl (show BestOf ranks [] none from rfl) pool
  rw [List.nil_append] at whole
  rw [bestCandidate_eq_foldl]
  cases kept : pool.foldl (keepBetter ranks) none with
  | none =>
    rw [kept] at whole
    exact Or.inl ⟨rfl, whole⟩
  | some c =>
    rw [kept] at whole
    exact Or.inr ⟨c.1, c.2, rfl, whole⟩

theorem mem_actionable {signals : List Signal} {place : ℕ} {s : Signal} :
    (place, s) ∈ actionable signals ↔ signals[place]? = some s ∧ s.direction ≠ .hold := by
  simp only [actionable, List.mem_filter, List.mem_mapIdx, Prod.mk.injEq, Direction.isActionable,
    decide_eq_true_eq, and_congr_left_iff, List.getElem?_eq_some_iff]
  intro _
  constructor
  · rintro ⟨i, inside, rfl, rfl⟩
    exact ⟨inside, rfl⟩
  · rintro ⟨inside, rfl⟩
    exact ⟨place, inside, rfl, rfl⟩

theorem actionable_eq_nil {signals : List Signal} :
    actionable signals = [] ↔ ∀ s ∈ signals, s.direction = .hold := by
  constructor
  · intro nobody s member
    obtain ⟨place, atPlace⟩ := List.getElem?_of_mem member
    by_contra proposes
    have present := mem_actionable.mpr ⟨atPlace, proposes⟩
    simp [nobody] at present
  · intro allHold
    refine List.eq_nil_iff_forall_not_mem.mpr ?_
    rintro ⟨place, s⟩ present
    obtain ⟨atPlace, proposes⟩ := mem_actionable.mp present
    exact proposes (allHold s (List.mem_of_getElem? atPlace))

/-- A signal that proposes a trade and is confident enough for the policy. -/
def Tradable (policy : ConfidencePolicy) (mode : TradingMode) (s : Signal) : Prop :=
  s.direction ≠ .hold ∧ policy.minimumFor s.strategyName mode ≤ s.confidence

theorem mem_surviving {policy : ConfidencePolicy} {mode : TradingMode} {signals : List Signal}
    {place : ℕ} {s : Signal} :
    (place, s) ∈ (actionable signals).filter (fun c => policy.admits mode c.2) ↔
      signals[place]? = some s ∧ Tradable policy mode s := by
  simp only [List.mem_filter, mem_actionable, ConfidencePolicy.admits, Tradable, ge_iff_le,
    decide_eq_true_eq, and_assoc]

/-- The signal at a place of a batch qualifies and stands strictly before all others that do. -/
def FirstAmong (ranks : Ranks) (signals : List Signal) (qualifies : Signal → Prop) (place : ℕ)
    (s : Signal) : Prop :=
  signals[place]? = some s ∧ qualifies s ∧
    ∀ other t, signals[other]? = some t → qualifies t → other ≠ place →
      Candidate.standing ranks (place, s) < Candidate.standing ranks (other, t)

theorem Candidate.standing_ne {ranks : Ranks} {c d : Candidate} (apart : c.1 ≠ d.1) :
    Candidate.standing ranks c ≠ Candidate.standing ranks d := by
  intro same
  exact apart (congrArg (fun key => (ofLex (ofLex key).2).2) same)

theorem Leads.firstAmong {ranks : Ranks} {signals : List Signal} {pool : List Candidate}
    {qualifies : Signal → Prop} {place : ℕ} {s : Signal}
    (members : ∀ i t, (i, t) ∈ pool ↔ signals[i]? = some t ∧ qualifies t)
    (leads : Leads ranks pool (place, s)) : FirstAmong ranks signals qualifies place s := by
  obtain ⟨member, least⟩ := leads
  obtain ⟨found, holds⟩ := (members place s).mp member
  refine ⟨found, holds, ?_⟩
  intro other t foundOther holdsOther apart
  have behind := least (other, t) ((members other t).mpr ⟨foundOther, holdsOther⟩)
  exact lt_of_le_of_ne behind (Candidate.standing_ne (Ne.symm apart))

theorem bestCandidate_none {ranks : Ranks} {pool : List Candidate} :
    bestCandidate ranks pool = none ↔ pool = [] := by
  rcases bestCandidate_spec ranks pool with ⟨nobody, empty⟩ | ⟨place, s, found, member, -⟩
  · exact iff_of_true nobody empty
  · simp [found, List.ne_nil_of_mem member]

/-- The best of a pool is the first among the signals that the pool was made of. -/
theorem bestCandidate_firstAmong {ranks : Ranks} {signals : List Signal} {pool : List Candidate}
    {qualifies : Signal → Prop} {best : Signal}
    (members : ∀ i t, (i, t) ∈ pool ↔ signals[i]? = some t ∧ qualifies t)
    (found : bestCandidate ranks pool = some best) :
    ∃ place, FirstAmong ranks signals qualifies place best := by
  rcases bestCandidate_spec ranks pool with ⟨nobody, -⟩ | ⟨place, s, kept, leads⟩
  · simp [nobody] at found
  · obtain rfl : s = best := Option.some.inj (kept.symm.trans found)
    exact ⟨place, leads.firstAmong members⟩

/-- What the aggregator answers, by the two pools. -/
theorem aggregate_of_ne_nil {ranks : Ranks} {policy : ConfidencePolicy} {mode : TradingMode}
    {signals : List Signal} (nonempty : signals ≠ []) :
    aggregate ranks policy mode signals =
      match bestCandidate ranks ((actionable signals).filter fun c => policy.admits mode c.2) with
      | some signal => .ok (.accepted signal)
      | none => .ok (.rejected .belowConfidenceThreshold
          (bestCandidate ranks ((actionable signals).filter fun c => !policy.admits mode c.2))) := by
  have notEmpty : signals.isEmpty = false := by simpa using nonempty
  simp only [aggregate, notEmpty, Bool.false_eq_true, if_false, List.partition_eq_filter_filter]
  rfl

/-- An accepted signal was in the batch, proposes a trade and is confident enough. -/
theorem aggregate_accepted {ranks : Ranks} {policy : ConfidencePolicy} {mode : TradingMode}
    {signals : List Signal} {s : Signal}
    (accepted : aggregate ranks policy mode signals = .ok (.accepted s)) :
    s ∈ signals ∧ Tradable policy mode s := by
  have nonempty : signals ≠ [] := by
    rintro rfl
    cases accepted
  rw [aggregate_of_ne_nil nonempty] at accepted
  split at accepted
  · next found =>
    obtain rfl := Verdict.accepted.inj (Except.ok.inj accepted)
    obtain ⟨place, atPlace, tradable, -⟩ := bestCandidate_firstAmong (fun _ _ => mem_surviving) found
    exact ⟨List.mem_of_getElem? atPlace, tradable⟩
  · cases accepted

/-- The aggregator refuses only the empty batch. If anything in the batch can be traded, it accepts
the first such signal by confidence, rank and place, and else it rejects and names the first of all
signals that propose a trade, or nobody when every signal is a hold. -/
theorem aggregate_decides (ranks : Ranks) (policy : ConfidencePolicy) (mode : TradingMode)
    (signals : List Signal) :
    (signals = [] → aggregate ranks policy mode signals = .error .emptyInput) ∧
      ((∃ s ∈ signals, Tradable policy mode s) →
        ∃ place s, FirstAmong ranks signals (Tradable policy mode) place s ∧
          aggregate ranks policy mode signals = .ok (.accepted s)) ∧
      (signals ≠ [] → (∀ s ∈ signals, ¬Tradable policy mode s) →
        ∃ best, aggregate ranks policy mode signals = .ok (.rejected .belowConfidenceThreshold best) ∧
          (best = none ↔ ∀ s ∈ signals, s.direction = .hold) ∧
          ∀ s, best = some s →
            ∃ place, FirstAmong ranks signals (fun t => t.direction ≠ .hold) place s) := by
  refine ⟨fun empty => by rw [empty]; rfl, ?_, ?_⟩
  · rintro ⟨t, member, tradable⟩
    rw [aggregate_of_ne_nil (List.ne_nil_of_mem member)]
    obtain ⟨i, atPlace⟩ := List.getElem?_of_mem member
    have survives := mem_surviving.mpr ⟨atPlace, tradable⟩
    cases found : bestCandidate ranks ((actionable signals).filter fun c => policy.admits mode c.2) with
    | none => simp [bestCandidate_none.mp found] at survives
    | some s =>
      obtain ⟨place, first⟩ := bestCandidate_firstAmong (fun _ _ => mem_surviving) found
      exact ⟨place, s, first, rfl⟩
  · intro nonempty nothing
    have noSurvivor : ∀ c ∈ actionable signals, policy.admits mode c.2 = false := by
      intro c member
      refine Bool.eq_false_of_not_eq_true fun admitted => ?_
      have survives : (c.1, c.2) ∈ (actionable signals).filter (fun c => policy.admits mode c.2) :=
        List.mem_filter.mpr ⟨member, admitted⟩
      obtain ⟨atPlace, tradable⟩ := mem_surviving.mp survives
      exact nothing c.2 (List.mem_of_getElem? atPlace) tradable
    have surviving : (actionable signals).filter (fun c => policy.admits mode c.2) = [] :=
      List.filter_eq_nil_iff.mpr fun c member => by simp [noSurvivor c member]
    have discarded : (actionable signals).filter (fun c => !policy.admits mode c.2) = actionable signals :=
      List.filter_eq_self.mpr fun c member => by simp [noSurvivor c member]
    rw [aggregate_of_ne_nil nonempty, surviving, discarded]
    refine ⟨bestCandidate ranks (actionable signals), rfl, ?_, ?_⟩
    · rw [bestCandidate_none, actionable_eq_nil]
    · intro s found
      exact bestCandidate_firstAmong (fun _ _ => mem_actionable) found

end SignalDesk
