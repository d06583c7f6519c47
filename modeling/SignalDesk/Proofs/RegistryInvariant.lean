import SignalDesk.Proofs.MapContents
import SignalDesk.Proofs.RegistryReach
import SignalDesk.Proofs.Selection

namespace SignalDesk

namespace Registry

theorem checkParameters_eq_ok {name : String} {p : Parameters} :
    checkParameters name p = .ok () ↔ p.strategyId = name ∧ p.validate = .ok () := by
  unfold checkParameters
  by_cases mine : p.strategyId = name <;> simp [mine]

/-- Whether parameters serve a strategy does not depend on the switch. -/
theorem checkParameters_setEnabled (name : String) (p : Parameters) (enabled : Bool) :
    checkParameters name (p.setEnabled enabled) = checkParameters name p := rfl

/-- An accepted command leaves every entry with parameters that serve its strategy. -/
theorem Admits.effect_serves {r : Registry} {command : Command} (admits : r.Admits command) {old e : Entry}
    (served : checkParameters old.name old.parameters = .ok ()) (kept : command.effect old = some e) :
    checkParameters e.name e.parameters = .ok () := by
  cases command with
  | register strategy p =>
    cases kept
    exact served
  | update name p =>
    cases kept
    split
    · rename_i mine
      exact mine ▸ admits.1
    · exact served
  | setEnabled name enabled =>
    cases kept
    split
    · rw [checkParameters_setEnabled]
      exact served
    · exact served
  | deregister name =>
    simp only [Command.effect, Option.ite_none_left_eq_some, Option.some.injEq] at kept
    exact kept.2 ▸ served

theorem Reach.serves {history : List Command} {r : Registry} (reach : Reach history r) {e : Entry}
    (member : e ∈ r.entries) : checkParameters e.name e.parameters = .ok () := by
  induction reach generalizing e with
  | start => cases member
  | @next history r command previous admits ih =>
    rcases mem_after.mp member with ⟨old, oldMember, kept⟩ | added
    · exact admits.effect_serves (ih oldMember) kept
    · cases command with
      | register strategy p =>
        obtain rfl := List.mem_singleton.mp added
        exact admits.1
      | _ => cases added

/-- What holds of a registry whatever it has been through. -/
structure Consistent (r : Registry) : Prop where
  namesDistinct : r.entries.Pairwise fun a b => a.name ≠ b.name
  ranksAscending : r.entries.Pairwise fun a b => a.rank < b.rank
  ranksBelow : ∀ e ∈ r.entries, e.rank < r.nextRank
  ownParameters : ∀ e ∈ r.entries, e.parameters.strategyId = e.name
  validParameters : ∀ e ∈ r.entries, e.parameters.validate = .ok ()

theorem Reach.consistent {history : List Command} {r : Registry} (reach : Reach history r) : r.Consistent where
  namesDistinct := reach.names_distinct
  ranksAscending := reach.ranks_ascending
  ranksBelow _ member := reach.rank_lt member
  ownParameters _ member := (checkParameters_eq_ok.mp (reach.serves member)).1
  validParameters _ member := (checkParameters_eq_ok.mp (reach.serves member)).2

theorem run_consistent (commands : List Command) : (empty.run commands).Consistent :=
  (reach_run commands).consistent

namespace Consistent

variable {r : Registry}

/-- The table of ranks holds the rank of every entry under its name, and nothing else. -/
theorem ranks_get? (consistent : r.Consistent) {name : String} {rank : Nat} :
    r.ranks.get? name = some rank ↔ ∃ e ∈ r.entries, e.name = name ∧ e.rank = rank := by
  have distinct : ((r.entries.map fun e => (e.name, e.rank)).map Prod.fst).Nodup := by
    rw [List.map_map]
    exact List.pairwise_map.mpr consistent.namesDistinct
  rw [ranks, SortedMap.get?_ofList_of_nodup distinct, SortedMap.lookup_eq_some distinct, List.mem_map]
  simp only [Prod.mk.injEq]

theorem rank_of (consistent : r.Consistent) {e : Entry} (member : e ∈ r.entries) :
    r.ranks.of e.name = e.rank := by
  have found : r.ranks.get? e.name = some e.rank := consistent.ranks_get?.mpr ⟨e, member, rfl, rfl⟩
  rw [Ranks.of, found, Option.getD_some]

theorem entry_of_rank (consistent : r.Consistent) {a b : Entry} (aMember : a ∈ r.entries)
    (bMember : b ∈ r.entries) (same : a.rank = b.rank) : a = b := by
  have distinct : (r.entries.map Entry.rank).Nodup :=
    List.pairwise_map.mpr (consistent.ranksAscending.imp Nat.ne_of_lt)
  exact List.inj_on_of_nodup_map distinct aMember bMember same

end Consistent

/-- Of two signals of one confidence the winner's is preferred, wherever in a batch the two stand. -/
def WinsTies (r : Registry) (winner loser : Entry) : Prop :=
  ∀ (s t : Signal) (i j : Nat), s.strategyName = winner.name → t.strategyName = loser.name →
    totalRank s.confidence = totalRank t.confidence →
    Candidate.beats r.ranks (i, s) (j, t) = true ∧ Candidate.beats r.ranks (j, t) (i, s) = false

/-- The smaller rank wins a tie. -/
theorem Consistent.winsTies {r : Registry} (consistent : r.Consistent) {winner loser : Entry}
    (winnerMember : winner ∈ r.entries) (loserMember : loser ∈ r.entries) (less : winner.rank < loser.rank) :
    r.WinsTies winner loser := by
  intro s t i j ofWinner ofLoser tie
  have before : Candidate.standing r.ranks (i, s) < Candidate.standing r.ranks (j, t) := by
    refine Candidate.standing_lt_iff.mpr (Or.inr ⟨tie.symm, Or.inl ?_⟩)
    rwa [ofWinner, ofLoser, consistent.rank_of winnerMember, consistent.rank_of loserMember]
  refine ⟨Candidate.beats_iff.mpr before, Bool.eq_false_of_not_eq_true fun reversed => ?_⟩
  exact lt_asymm before (Candidate.beats_iff.mp reversed)

theorem run_cons_of_ok {r next : Registry} {command : Command} {event : Event}
    (step : r.apply command = .ok (next, event)) (rest : List Command) :
    r.run (command :: rest) = next.run rest := by
  simp only [run, List.foldl_cons, step]

theorem run_cons_of_error {r : Registry} {command : Command} {fault : Fault}
    (step : r.apply command = .error fault) (rest : List Command) : r.run (command :: rest) = r.run rest := by
  simp only [run, List.foldl_cons, step]

theorem run_append (r : Registry) (commands more : List Command) :
    r.run (commands ++ more) = (r.run commands).run more :=
  List.foldl_append

theorem nextRank_le_run (r : Registry) (commands : List Command) : r.nextRank ≤ (r.run commands).nextRank := by
  induction commands generalizing r with
  | nil => exact Nat.le_refl _
  | cons command rest ih =>
    cases step : r.apply command with
    | ok result =>
      obtain ⟨-, rfl⟩ := apply_eq_ok.mp step
      have grows : r.nextRank ≤ (r.after command).nextRank := Nat.le_add_right _ _
      rw [run_cons_of_ok step]
      exact grows.trans (ih _)
    | error fault =>
      rw [run_cons_of_error step]
      exact ih r

end Registry

/-- The entry stood in an earlier registry, with the same strategy and the same rank. -/
def Entry.StaysFrom (earlier : Registry) (e : Entry) : Prop :=
  ∃ old ∈ earlier.entries, old.strategy = e.strategy ∧ old.rank = e.rank

namespace Registry

/-- An entry behind an accepted command stays from before, or it is the one just registered. -/
theorem staysFrom_of_mem_after {r : Registry} {command : Command} {e : Entry}
    (member : e ∈ (r.after command).entries) :
    e.StaysFrom r ∨ e.rank = r.nextRank ∧ ∃ p, command = .register e.strategy p := by
  rcases mem_after.mp member with ⟨old, oldMember, kept⟩ | added
  · obtain ⟨strategy, rank⟩ := Command.effect_keeps kept
    exact Or.inl ⟨old, oldMember, strategy.symm, rank.symm⟩
  · cases command with
    | register strategy p =>
      obtain rfl := List.mem_singleton.mp added
      exact Or.inr ⟨rfl, p, rfl⟩
    | _ => cases added

/-- What a run adds ranks behind everything that was given before it. -/
theorem staysFrom_of_mem_run {r : Registry} {commands : List Command} {e : Entry}
    (member : e ∈ (r.run commands).entries) : e.StaysFrom r ∨ r.nextRank ≤ e.rank := by
  induction commands generalizing r with
  | nil => exact Or.inl ⟨e, member, rfl, rfl⟩
  | cons command rest ih =>
    cases step : r.apply command with
    | error fault =>
      rw [run_cons_of_error step] at member
      exact ih member
    | ok result =>
      obtain ⟨-, rfl⟩ := apply_eq_ok.mp step
      rw [run_cons_of_ok step] at member
      have grows : r.nextRank ≤ (r.after command).nextRank := Nat.le_add_right _ _
      rcases ih member with ⟨old, oldMember, strategy, rank⟩ | new
      · rcases staysFrom_of_mem_after oldMember with ⟨first, firstMember, sameStrategy, sameRank⟩ | ⟨given, -⟩
        · exact Or.inl ⟨first, firstMember, sameStrategy.trans strategy, sameRank.trans rank⟩
        · right
          omega
      · right
        omega

/-- The ranks that a run gives, read off the registry behind each accepted registration. -/
def ranksGiven (r : Registry) : List Command → List Nat
  | [] => []
  | command :: rest =>
    match r.apply command with
    | .ok (next, _) =>
      (match command with
        | .register strategy _ => ((next.get? strategy.name).map Entry.rank).toList
        | _ => []) ++ next.ranksGiven rest
    | .error _ => r.ranksGiven rest

theorem get?_after_register {r : Registry} {strategy : Strategy} {p : Parameters}
    (free : r.contains strategy.name = false) :
    (r.after (.register strategy p)).get? strategy.name = some ⟨strategy, p, r.nextRank⟩ := by
  have nobody : r.entries.find? (fun e => e.name == strategy.name) = none := by
    simpa [contains, get?] using free
  rw [after_register, get?, List.find?_append, nobody, Option.none_or]
  exact List.find?_cons_of_pos (beq_self_eq_true _)

/-- A run gives the numbers from the next rank on, one after the other. -/
theorem ranksGiven_eq (r : Registry) (commands : List Command) :
    r.ranksGiven commands = List.range' r.nextRank ((r.run commands).nextRank - r.nextRank) := by
  induction commands generalizing r with
  | nil => simp [ranksGiven, run]
  | cons command rest ih =>
    cases step : r.apply command with
    | error fault => simp only [ranksGiven, step, ih, run_cons_of_error step]
    | ok result =>
      obtain ⟨admits, rfl⟩ := apply_eq_ok.mp step
      have later := nextRank_le_run (r.after command) rest
      simp only [ranksGiven, step, ih, run_cons_of_ok step]
      cases command with
      | register strategy p =>
        simp only [get?_after_register admits.2, Option.map_some, Option.toList_some, List.singleton_append]
        have next : (r.after (.register strategy p)).nextRank = r.nextRank + 1 := rfl
        rw [next] at later ⊢
        rw [← List.range'_succ]
        congr 1
        omega
      | _ => rfl

/-- Whoever bears the name of a strategy after its registration ranks behind all that was there before. -/
theorem Admits.nextRank_le_of_name {r : Registry} {strategy : Strategy} {p : Parameters} {more : List Command}
    (admits : r.Admits (.register strategy p)) {e : Entry}
    (member : e ∈ ((r.after (.register strategy p)).run more).entries) (named : e.name = strategy.name) :
    r.nextRank ≤ e.rank := by
  rcases staysFrom_of_mem_run member with ⟨old, oldMember, sameStrategy, sameRank⟩ | new
  · rcases staysFrom_of_mem_after oldMember with ⟨first, firstMember, same, -⟩ | ⟨given, -⟩
    · have taken : r.contains strategy.name = true := by
        refine contains_iff.mpr ⟨first, firstMember, ?_⟩
        rw [← named, Entry.name, Entry.name, same, sameStrategy]
      rw [admits.2] at taken
      cases taken
    · omega
  · exact (Nat.le_add_right _ _).trans new

/-- Names do not repeat, ranks ascend below the next one, parameters serve their strategies, and the table of
ranks is true to the entries. Ranks are given in sequence and never again, so that of two entries of one
rank, at whatever times, both are of the same strategy; and whoever registers after others have stayed
loses every tie to them for good. -/
theorem run_ranks (commands more : List Command) :
    let r := empty.run commands
    let later := empty.run (commands ++ more)
    r.Consistent ∧
      (∀ name rank, r.ranks.get? name = some rank ↔ ∃ e ∈ r.entries, e.name = name ∧ e.rank = rank) ∧
      r.nextRank ≤ later.nextRank ∧
      empty.ranksGiven commands = List.range r.nextRank ∧
      (∀ e ∈ r.entries, ∀ other ∈ later.entries, e.rank = other.rank → e.strategy = other.strategy) ∧
      ∀ strategy p next event, r.apply (.register strategy p) = .ok (next, event) →
        ∀ e ∈ (next.run more).entries, e.name = strategy.name →
          ∀ other ∈ (next.run more).entries, other.StaysFrom r → (next.run more).WinsTies other e := by
  intro r later
  have laterRun : later = r.run more := run_append empty commands more
  have consistent : r.Consistent := run_consistent commands
  refine ⟨consistent, fun _ _ => consistent.ranks_get?, ?_, ?_, ?_, ?_⟩
  · rw [laterRun]
    exact nextRank_le_run r more
  · rw [ranksGiven_eq, List.range_eq_range']
    rfl
  · intro e member other otherMember same
    rw [laterRun] at otherMember
    have below := consistent.ranksBelow e member
    rcases staysFrom_of_mem_run otherMember with ⟨old, oldMember, strategy, rank⟩ | new
    · obtain rfl := consistent.entry_of_rank member oldMember (same.trans rank.symm)
      exact strategy
    · omega
  · intro strategy p next event registered e member named other otherMember stays
    obtain ⟨admits, same⟩ := apply_eq_ok.mp registered
    obtain rfl : next = r.after (.register strategy p) := congrArg Prod.fst same
    have whole : (r.after (.register strategy p)).run more =
        empty.run (commands ++ .register strategy p :: more) := by
      rw [run_append, ← run_cons_of_ok registered]
    have late := admits.nextRank_le_of_name member named
    obtain ⟨old, oldMember, -, rank⟩ := stays
    have early := consistent.ranksBelow old oldMember
    rw [whole] at member otherMember ⊢
    exact (run_consistent _).winsTies otherMember member (by omega)

end Registry

end SignalDesk
