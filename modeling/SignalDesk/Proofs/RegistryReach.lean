import Mathlib.Data.List.Nodup
import SignalDesk.Registry

namespace SignalDesk

namespace Registry

theorem find_eq_ok {r : Registry} {name : String} {e : Entry} :
    r.find name = .ok e ↔ r.get? name = some e := by
  unfold find
  cases r.get? name <;> simp

theorem contains_iff {r : Registry} {name : String} :
    r.contains name = true ↔ ∃ e ∈ r.entries, e.name = name := by
  simp [contains, get?, List.find?_isSome]

/-- A change by name that finds its entry cannot fail any more. -/
theorem find_then_eq_ok {α : Type} {r : Registry} {name : String} {x y : α} :
    (r.find name >>= fun _ => pure x) = .ok y ↔ r.contains name = true ∧ y = x := by
  simp only [contains, Option.isSome_iff_exists, ← find_eq_ok, bind_eq_ok]
  constructor
  · rintro ⟨e, found, run⟩
    cases run
    exact ⟨⟨e, found⟩, rfl⟩
  · rintro ⟨⟨e, found⟩, rfl⟩
    exact ⟨e, found, rfl⟩

/-- What an accepted command makes of an entry that is already there. -/
def Command.effect (e : Entry) : Command → Option Entry
  | .register .. => some e
  | .update name p => some (if e.name = name then { e with parameters := p } else e)
  | .setEnabled name enabled =>
    some (if e.name = name then { e with parameters := e.parameters.setEnabled enabled } else e)
  | .deregister name => if e.name = name then none else some e

/-- The entry that an accepted command puts behind the others. -/
def Command.addition (rank : Nat) : Command → List Entry
  | .register strategy p => [⟨strategy, p, rank⟩]
  | _ => []

/-- What is checked before a command is accepted. -/
def Admits (r : Registry) : Command → Prop
  | .register strategy p => checkParameters strategy.name p = .ok () ∧ r.contains strategy.name = false
  | .update name p => checkParameters name p = .ok () ∧ r.contains name = true
  | .setEnabled name _ | .deregister name => r.contains name = true

/-- What is told of an accepted command. -/
def Command.event : Command → Event
  | .register strategy p => .registered strategy.name p.shortFingerprint
  | .update name p => .parametersUpdated name p.shortFingerprint
  | .setEnabled name enabled => .toggled name enabled
  | .deregister name => .deregistered name

/-- The registry behind an accepted command. -/
def after (r : Registry) (command : Command) : Registry where
  entries := r.entries.filterMap command.effect ++ command.addition r.nextRank
  nextRank := r.nextRank + (command.addition r.nextRank).length

theorem after_register (r : Registry) (strategy : Strategy) (p : Parameters) :
    r.after (.register strategy p) = ⟨r.entries ++ [⟨strategy, p, r.nextRank⟩], r.nextRank + 1⟩ := by
  simp [after, Command.effect, Command.addition]

theorem after_update (r : Registry) (name : String) (p : Parameters) :
    r.after (.update name p) = r.modify name fun e => { e with parameters := p } := by
  simp [after, modify, Command.effect, Command.addition, List.filterMap_eq_map']

theorem after_setEnabled (r : Registry) (name : String) (enabled : Bool) :
    r.after (.setEnabled name enabled) =
      r.modify name fun e => { e with parameters := e.parameters.setEnabled enabled } := by
  simp [after, modify, Command.effect, Command.addition, List.filterMap_eq_map']

theorem after_deregister (r : Registry) (name : String) :
    r.after (.deregister name) = { r with entries := r.entries.filter fun e => e.name ≠ name } := by
  have kept : r.entries.filterMap (Command.deregister name).effect =
      r.entries.filter fun e => e.name ≠ name := by
    rw [← List.filterMap_eq_filter]
    congr 1
    funext e
    by_cases same : e.name = name <;> simp [Command.effect, Option.guard, same]
  simp only [after, Command.addition, kept, List.append_nil, List.length_nil, Nat.add_zero]

/-- A command is accepted exactly if its checks pass, and then it has its effect on every entry.
All that is proved about registries rests on this one inversion. -/
theorem apply_eq_ok {r : Registry} {command : Command} {result : Registry × Event} :
    r.apply command = .ok result ↔ r.Admits command ∧ result = (r.after command, command.event) := by
  cases command with
  | register strategy p =>
    rw [after_register]
    simp only [apply, bind_eq_ok, Admits]
    constructor
    · rintro ⟨⟨⟩, checked, run⟩
      split at run
      · cases run
      · rename_i free
        cases run
        exact ⟨⟨checked, by simpa using free⟩, rfl⟩
    · rintro ⟨⟨checked, free⟩, rfl⟩
      exact ⟨(), checked, by simp [free, Command.event]⟩
  | update name p =>
    rw [after_update]
    constructor
    · intro run
      obtain ⟨⟨⟩, checked, rest⟩ := bind_eq_ok.mp run
      obtain ⟨there, same⟩ := find_then_eq_ok.mp rest
      exact ⟨⟨checked, there⟩, same⟩
    · rintro ⟨⟨checked, there⟩, same⟩
      exact bind_eq_ok.mpr ⟨(), checked, find_then_eq_ok.mpr ⟨there, same⟩⟩
  | setEnabled name enabled =>
    rw [after_setEnabled]
    exact find_then_eq_ok
  | deregister name =>
    rw [after_deregister]
    exact find_then_eq_ok

theorem mem_after {r : Registry} {command : Command} {e : Entry} :
    e ∈ (r.after command).entries ↔
      (∃ old ∈ r.entries, command.effect old = some e) ∨ e ∈ command.addition r.nextRank := by
  simp only [after, List.mem_append, List.mem_filterMap]

/-- Whatever is done to an entry, it stays with its strategy and its rank. -/
theorem Command.effect_keeps {command : Command} {old e : Entry} (kept : command.effect old = some e) :
    e.strategy = old.strategy ∧ e.rank = old.rank := by
  cases command with
  | register strategy p =>
    cases kept
    exact ⟨rfl, rfl⟩
  | update name p =>
    cases kept
    by_cases same : old.name = name <;> simp [same]
  | setEnabled name enabled =>
    cases kept
    by_cases same : old.name = name <;> simp [same]
  | deregister name =>
    by_cases same : old.name = name
    · simp [effect, same] at kept
    · simp only [effect, if_neg same, Option.some.injEq] at kept
      simp [kept]

/-- The registries that a history of accepted commands leads to from the empty one. -/
inductive Reach : List Command → Registry → Prop
  | start : Reach [] empty
  | next {history r command} : Reach history r → r.Admits command →
      Reach (history ++ [command]) (r.after command)

/-- The commands of a run that are accepted. -/
def accepted (r : Registry) : List Command → List Command
  | [] => []
  | command :: rest =>
    match r.apply command with
    | .ok (next, _) => command :: next.accepted rest
    | .error _ => r.accepted rest

theorem accepted_sublist (r : Registry) (commands : List Command) :
    (r.accepted commands).Sublist commands := by
  induction commands generalizing r with
  | nil => exact .slnil
  | cons command rest ih =>
    unfold accepted
    split
    · exact (ih _).cons_cons _
    · exact (ih r).cons _

/-- Refused commands leave no trace: a run is its accepted commands run alone, each of which is
accepted again. -/
theorem run_accepted (r : Registry) (commands : List Command) :
    r.run (r.accepted commands) = r.run commands := by
  induction commands generalizing r with
  | nil => rfl
  | cons command rest ih =>
    cases step : r.apply command with
    | ok result =>
      have later := ih result.1
      simp only [run, accepted, step, List.foldl_cons] at later ⊢
      exact later
    | error fault =>
      have later := ih r
      simp only [run, accepted, step, List.foldl_cons] at later ⊢
      exact later

theorem Reach.run {history : List Command} {r : Registry} (reach : Reach history r)
    (commands : List Command) : Reach (history ++ r.accepted commands) (r.run commands) := by
  induction commands generalizing history r with
  | nil => simpa [accepted, Registry.run] using reach
  | cons command rest ih =>
    cases step : r.apply command with
    | ok result =>
      obtain ⟨admits, same⟩ := apply_eq_ok.mp step
      cases same
      have later := ih (reach.next admits)
      simp only [Registry.run, accepted, step, List.foldl_cons, List.append_assoc,
        List.singleton_append] at later ⊢
      exact later
    | error fault =>
      have later := ih reach
      simp only [Registry.run, accepted, step, List.foldl_cons] at later ⊢
      exact later

/-- Every run from the empty registry follows its own accepted commands. -/
theorem reach_run (commands : List Command) :
    Reach (empty.accepted commands) (empty.run commands) :=
  Reach.start.run commands

theorem Reach.names_distinct {history : List Command} {r : Registry} (reach : Reach history r) :
    r.entries.Pairwise fun a b => a.name ≠ b.name := by
  induction reach with
  | start => exact .nil
  | @next history r command previous admits ih =>
    simp only [after, List.pairwise_append, List.pairwise_filterMap]
    refine ⟨?_, ?_, ?_⟩
    · refine ih.imp ?_
      intro a b different a' keptA b' keptB
      simpa only [Entry.name, (Command.effect_keeps keptA).1, (Command.effect_keeps keptB).1] using different
    · cases command <;> simp [Command.addition]
    · intro old member e added
      cases command with
      | register strategy p =>
        simp only [Command.addition, List.mem_singleton] at added
        simp only [Command.effect, List.filterMap_some] at member
        subst added
        intro same
        have taken : r.contains strategy.name = true := contains_iff.mpr ⟨old, member, same⟩
        rw [admits.2] at taken
        cases taken
      | _ => cases added

theorem Reach.entry_of_name {history : List Command} {r : Registry} (reach : Reach history r) {a b : Entry}
    (aMember : a ∈ r.entries) (bMember : b ∈ r.entries) (same : a.name = b.name) : a = b :=
  List.inj_on_of_nodup_map (List.pairwise_map.mpr reach.names_distinct) aMember bMember same

theorem Reach.rank_lt {history : List Command} {r : Registry} (reach : Reach history r) {e : Entry}
    (member : e ∈ r.entries) : e.rank < r.nextRank := by
  induction reach generalizing e with
  | start => cases member
  | @next history r command previous admits ih =>
    rcases mem_after.mp member with ⟨old, oldMember, kept⟩ | added
    · have below := ih oldMember
      rw [← (Command.effect_keeps kept).2] at below
      simp only [after]
      omega
    · cases command with
      | register strategy p =>
        obtain rfl := List.mem_singleton.mp added
        exact Nat.lt_succ_self _
      | _ => cases added

/-- Entries stand in the order of their registration. -/
theorem Reach.ranks_ascending {history : List Command} {r : Registry} (reach : Reach history r) :
    r.entries.Pairwise fun a b => a.rank < b.rank := by
  induction reach with
  | start => exact .nil
  | @next history r command previous admits ih =>
    simp only [after, List.pairwise_append, List.pairwise_filterMap]
    refine ⟨?_, ?_, ?_⟩
    · refine ih.imp ?_
      intro a b earlier a' keptA b' keptB
      rwa [(Command.effect_keeps keptA).2, (Command.effect_keeps keptB).2]
    · cases command <;> simp [Command.addition]
    · intro e member new added
      obtain ⟨old, oldMember, kept⟩ := List.mem_filterMap.mp member
      have below := previous.rank_lt oldMember
      cases command with
      | register strategy p =>
        obtain rfl := List.mem_singleton.mp added
        rwa [(Command.effect_keeps kept).2]
      | _ => cases added

/-- A command whose strategy, if it has one, was created from a kind. -/
def Command.Created : Command → Prop
  | .register strategy _ => ∃ kind : StrategyKind, kind.create = .ok strategy
  | _ => True

theorem Reach.created {history : List Command} {r : Registry} (reach : Reach history r)
    (created : ∀ command ∈ history, command.Created) {e : Entry} (member : e ∈ r.entries) :
    ∃ kind : StrategyKind, kind.create = .ok e.strategy := by
  induction reach generalizing e with
  | start => cases member
  | @next history r command previous admits ih =>
    have earlier : ∀ old ∈ history, old.Created :=
      fun old inHistory => created old (List.mem_append_left _ inHistory)
    rcases mem_after.mp member with ⟨old, oldMember, kept⟩ | added
    · rw [(Command.effect_keeps kept).1]
      exact ih earlier oldMember
    · have last := created command (by simp)
      cases command with
      | register strategy p =>
        simp only [Command.addition, List.mem_singleton] at added
        subst added
        exact last
      | _ => cases added

/-- A registry that commands lead to, refused ones among them, with strategies created from kinds. -/
def CreatedReach (r : Registry) : Prop :=
  ∃ commands : List Command, (∀ command ∈ commands, command.Created) ∧ empty.run commands = r

theorem CreatedReach.history {r : Registry} (reach : r.CreatedReach) :
    ∃ history, Reach history r ∧ ∀ command ∈ history, command.Created := by
  obtain ⟨commands, created, rfl⟩ := reach
  refine ⟨empty.accepted commands, reach_run commands, ?_⟩
  exact fun command inHistory => created command ((accepted_sublist _ _).subset inHistory)

end Registry

end SignalDesk
