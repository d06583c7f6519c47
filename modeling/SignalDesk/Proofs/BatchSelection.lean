import Mathlib.Data.List.Basic
import SignalDesk.Proofs.Selection

namespace SignalDesk

/-- A signal stands before one that was met earlier: it is more confident, or as confident and of a
smaller rank. -/
def Signal.outranks (ranks : Ranks) (later earlier : Signal) : Bool :=
  decide (totalRank earlier.confidence < totalRank later.confidence) ||
    decide (totalRank earlier.confidence = totalRank later.confidence) &&
      decide (ranks.of later.strategyName < ranks.of earlier.strategyName)

/-- What to keep of the best so far and a later one. -/
def keepPreferred {α : Type} (prefer : α → α → Bool) (best : Option α) (later : α) : Option α :=
  match best with
  | none => some later
  | some earlier => if prefer later earlier then some later else some earlier

section

variable {α β : Type} {prefer : α → α → Bool} {others : β → β → Bool} {f : α → β}

theorem keepPreferred_sublist (best : Option α) (later : α) :
    (keepPreferred prefer best later).toList.Sublist (best.toList ++ [later]) := by
  cases best with
  | none => exact .refl _
  | some earlier =>
    simp only [keepPreferred]
    split
    · exact List.sublist_append_right _ _
    · exact List.sublist_append_left _ _

theorem map_keepPreferred {best : Option α} {later : α}
    (agree : ∀ earlier ∈ best, prefer later earlier = others (f later) (f earlier)) :
    (keepPreferred prefer best later).map f = keepPreferred others (best.map f) (f later) := by
  cases best with
  | none => rfl
  | some earlier =>
    simp only [keepPreferred, Option.map_some, agree earlier rfl]
    split <;> rfl

/-- A search asks for preferences only of a later one to an earlier one. -/
theorem foldl_keepPreferred {best : Option α} {pool : List α}
    (agree : (best.toList ++ pool).Pairwise fun earlier later =>
      prefer later earlier = others (f later) (f earlier)) :
    (pool.foldl (keepPreferred prefer) best).map f =
      (pool.map f).foldl (keepPreferred others) (best.map f) := by
  induction pool generalizing best with
  | nil => rfl
  | cons later rest ih =>
    have step : (keepPreferred prefer best later).map f = keepPreferred others (best.map f) (f later) := by
      obtain ⟨-, -, across⟩ := List.pairwise_append.mp agree
      exact map_keepPreferred fun earlier kept =>
        across earlier (Option.mem_toList.mpr kept) later List.mem_cons_self
    rw [List.foldl_cons, List.map_cons, List.foldl_cons, ← step]
    rw [List.append_cons] at agree
    exact ih (agree.sublist ((keepPreferred_sublist best later).append_right rest))

end

/-- The first of the best signals of a list. -/
def firstBest (ranks : Ranks) (signals : List Signal) : Option Signal :=
  signals.foldl (keepPreferred (Signal.outranks ranks)) none

theorem keepBetter_eq_keepPreferred (ranks : Ranks) :
    keepBetter ranks = keepPreferred (Candidate.beats ranks) := by
  funext best challenger
  cases best <;> rfl

/-- A candidate behind the incumbent cannot win by its place. -/
theorem Candidate.beats_of_later {ranks : Ranks} {incumbent challenger : Candidate}
    (later : incumbent.1 < challenger.1) :
    challenger.beats ranks incumbent = challenger.2.outranks ranks incumbent.2 := by
  simp only [beats, Signal.outranks, show ¬challenger.1 < incumbent.1 by omega, decide_false,
    Bool.and_false, Bool.or_false]

/-- Of candidates in the order of their places the places are of no further use. -/
theorem bestCandidate_eq_firstBest {ranks : Ranks} {pool : List Candidate}
    (ascending : pool.Pairwise fun c d => c.1 < d.1) :
    bestCandidate ranks pool = firstBest ranks (pool.map Prod.snd) := by
  rw [bestCandidate_eq_foldl, keepBetter_eq_keepPreferred]
  exact foldl_keepPreferred (ascending.imp Candidate.beats_of_later)

theorem actionable_ascending (signals : List Signal) :
    (actionable signals).Pairwise fun c d => c.1 < d.1 := by
  refine List.Pairwise.filter _ (List.pairwise_iff_getElem.mpr ?_)
  intro i j iInside jInside before
  simpa using before

/-- The signals of a batch that propose a trade. -/
def proposals (signals : List Signal) : List Signal := signals.filter fun s => s.direction.isActionable

theorem map_snd_actionable (signals : List Signal) : (actionable signals).map Prod.snd = proposals signals := by
  have batch : (signals.mapIdx fun position signal => (position, signal)).map Prod.snd = signals :=
    List.ext_getElem (by simp) (by simp)
  conv_rhs => rw [proposals, ← batch, List.filter_map]
  rfl

theorem bestCandidate_actionable (ranks : Ranks) (qualifies : Signal → Bool) (signals : List Signal) :
    bestCandidate ranks ((actionable signals).filter fun c => qualifies c.2) =
      firstBest ranks ((proposals signals).filter qualifies) := by
  rw [bestCandidate_eq_firstBest ((actionable_ascending signals).filter _), ← map_snd_actionable,
    List.filter_map]
  rfl

/-- Beyond the presence of any signal at all, the aggregator looks only at those that propose a trade. -/
theorem aggregate_eq_firstBest {ranks : Ranks} {policy : ConfidencePolicy} {mode : TradingMode}
    {signals : List Signal} (nonempty : signals ≠ []) :
    aggregate ranks policy mode signals =
      match firstBest ranks ((proposals signals).filter (policy.admits mode)) with
      | some signal => .ok (.accepted signal)
      | none => .ok (.rejected .belowConfidenceThreshold
          (firstBest ranks ((proposals signals).filter fun s => !policy.admits mode s))) := by
  rw [← bestCandidate_actionable ranks (policy.admits mode),
    ← bestCandidate_actionable ranks fun s => !policy.admits mode s]
  exact aggregate_of_ne_nil nonempty

/-- The ranks of two tables agree on the strategies of the signals. -/
def RanksAgree (ranks others : Ranks) (signals : List Signal) : Prop :=
  ∀ s ∈ signals, ranks.of s.strategyName = others.of s.strategyName

theorem firstBest_eq_of_pairwise {ranks others : Ranks} {signals : List Signal}
    (alike : signals.Pairwise fun earlier later =>
      later.outranks ranks earlier = later.outranks others earlier) :
    firstBest ranks signals = firstBest others signals :=
  calc firstBest ranks signals
      = (firstBest ranks signals).map id := Option.map_id_apply.symm
    _ = (signals.map id).foldl (keepPreferred (Signal.outranks others)) none :=
        foldl_keepPreferred alike
    _ = firstBest others signals := by rw [List.map_id]; rfl

theorem firstBest_congr {ranks others : Ranks} {signals : List Signal}
    (agree : RanksAgree ranks others signals) : firstBest ranks signals = firstBest others signals := by
  refine firstBest_eq_of_pairwise (List.pairwise_of_forall_mem_list fun earlier before later behind => ?_)
  unfold Signal.outranks
  rw [agree earlier before, agree later behind]

/-- Two aggregators agree on two batches if every part of the proposals has the same best signal. -/
theorem aggregate_eq_of_parts {ranks others : Ranks} {policy : ConfidencePolicy} {mode : TradingMode}
    {signals batch : List Signal} (alike : signals = [] ↔ batch = [])
    (part : ∀ qualifies : Signal → Bool, firstBest ranks ((proposals signals).filter qualifies) =
      firstBest others ((proposals batch).filter qualifies)) :
    aggregate ranks policy mode signals = aggregate others policy mode batch := by
  by_cases empty : signals = []
  · rw [empty, alike.mp empty]
    rfl
  · rw [aggregate_eq_firstBest empty, aggregate_eq_firstBest (mt alike.mpr empty), part, part]

theorem aggregate_congr {ranks others : Ranks} {policy : ConfidencePolicy} {mode : TradingMode}
    {signals batch : List Signal} (nonempty : signals ≠ []) (batchNonempty : batch ≠ [])
    (same : proposals signals = proposals batch) (agree : RanksAgree ranks others (proposals batch)) :
    aggregate ranks policy mode signals = aggregate others policy mode batch := by
  refine aggregate_eq_of_parts (iff_of_false nonempty batchNonempty) fun qualifies => ?_
  rw [same]
  exact firstBest_congr fun s member => agree s (List.mem_of_mem_filter member)

end SignalDesk
