import Mathlib.Data.List.Basic
import SignalDesk.Proofs.RegistryReach

namespace SignalDesk.Registry

/-- The parameters that a command gives to a strategy of a name that is already there. -/
def Command.given? (name : String) : Command → Option Parameters
  | .update other p => if name = other then some p else none
  | _ => none

/-- The flag that a command sets for a strategy of a name that is already there. -/
def Command.flag? (name : String) : Command → Option Bool
  | .update other p => if name = other then some p.enabled else none
  | .setEnabled other enabled => if name = other then some enabled else none
  | _ => none

/-- The command begins or ends the stay of a name. -/
def Command.settles (name : String) : Command → Bool
  | .register strategy _ => name = strategy.name
  | .deregister other => name = other
  | _ => false

def Command.isRegistration : Command → Bool
  | .register .. => true
  | _ => false

/-- The parameters of a name after later commands: the ones given last, with the flag set last. -/
def currentParameters (name : String) (initial : Parameters) (later : List Command) : Parameters :=
  { (later.filterMap (Command.given? name)).getLastD initial with
    enabled := (later.filterMap (Command.flag? name)).getLastD initial.enabled }

/-- The entry that a place of the history accounts for, if there is a registration at that place that
is the last one of its name and no removal of the name stands behind it. -/
def entryFrom (history : List Command) (place : Nat) : Option Entry :=
  match history[place]? with
  | some (.register strategy p) =>
    let later := history.drop (place + 1)
    if later.any (Command.settles strategy.name) then none
    else some
      { strategy
        parameters := currentParameters strategy.name p later
        rank := (history.take place).countP Command.isRegistration }
  | _ => none

/-- All entries that a history accounts for, in the order of their registrations. -/
def replay (history : List Command) : List Entry :=
  (List.range history.length).filterMap (entryFrom history)

theorem currentParameters_nil (name : String) (initial : Parameters) :
    currentParameters name initial [] = initial := rfl

theorem currentParameters_concat (name : String) (initial : Parameters) (later : List Command)
    (command : Command) :
    currentParameters name initial (later ++ [command]) =
      match command with
      | .update other p => if name = other then p else currentParameters name initial later
      | .setEnabled other enabled =>
        if name = other then (currentParameters name initial later).setEnabled enabled
        else currentParameters name initial later
      | _ => currentParameters name initial later := by
  cases command with
  | update other p =>
    by_cases same : name = other <;>
      simp [currentParameters, Command.given?, Command.flag?, same]
  | setEnabled other enabled =>
    by_cases same : name = other <;>
      simp [currentParameters, Parameters.setEnabled, Command.given?, Command.flag?, same]
  | register strategy p => simp [currentParameters, Command.given?, Command.flag?]
  | deregister other => simp [currentParameters, Command.given?, Command.flag?]

/-- One more command changes the entries of earlier places as it changes entries of a registry,
except that a registration ends an earlier stay of its name. -/
theorem entryFrom_concat {history : List Command} {place : Nat} (earlier : place < history.length)
    (command : Command) :
    entryFrom (history ++ [command]) place =
      (entryFrom history place).bind fun e =>
        if command.settles e.name then none else command.effect e := by
  have later : (history ++ [command]).drop (place + 1) = history.drop (place + 1) ++ [command] :=
    List.drop_append_of_le_length earlier
  have before : (history ++ [command]).take place = history.take place :=
    List.take_append_of_le_length (Nat.le_of_lt earlier)
  unfold entryFrom
  rw [List.getElem?_append_left earlier, later, before]
  split
  · rename_i strategy p atPlace
    simp only [List.any_append, List.any_cons, List.any_nil, Bool.or_false]
    by_cases ended : (history.drop (place + 1)).any (Command.settles strategy.name) = true
    · simp [ended]
    · simp only [ended, Bool.false_eq_true, if_false, Bool.false_or, Option.bind_some,
        currentParameters_concat, Entry.name]
      cases command with
      | register other q =>
        by_cases same : strategy.name = other.name <;> simp [Command.settles, Command.effect, same]
      | update other q =>
        by_cases same : strategy.name = other <;> simp [Command.settles, Command.effect, Entry.name, same]
      | setEnabled other enabled =>
        by_cases same : strategy.name = other <;> simp [Command.settles, Command.effect, Entry.name, same]
      | deregister other =>
        by_cases same : strategy.name = other <;> simp [Command.settles, Command.effect, Entry.name, same]
  · rfl

theorem entryFrom_last (history : List Command) (command : Command) :
    (entryFrom (history ++ [command]) history.length).toList =
      command.addition (history.countP Command.isRegistration) := by
  cases command <;> simp [entryFrom, Command.addition, currentParameters_nil]

theorem replay_concat (history : List Command) (command : Command) :
    replay (history ++ [command]) =
      ((replay history).filterMap fun e => if command.settles e.name then none else command.effect e) ++
        command.addition (history.countP Command.isRegistration) := by
  have earlier : (List.range history.length).filterMap (entryFrom (history ++ [command])) =
      (List.range history.length).filterMap fun place => (entryFrom history place).bind fun e =>
        if command.settles e.name then none else command.effect e := by
    apply List.filterMap_congr
    intro place inRange
    exact entryFrom_concat (List.mem_range.mp inRange) command
  unfold replay
  rw [List.length_append, List.length_singleton, List.range_succ, List.filterMap_append, earlier,
    List.filterMap_filterMap, ← entryFrom_last]
  rfl

/-- An accepted command ends a stay only by removing the entry: a name that is registered is free. -/
theorem Admits.effect_of_settles {r : Registry} {command : Command} (admits : r.Admits command)
    {e : Entry} (member : e ∈ r.entries) (settles : command.settles e.name = true) :
    command.effect e = none := by
  cases command with
  | register strategy p =>
    have taken := contains_iff.mpr ⟨e, member, of_decide_eq_true settles⟩
    rw [admits.2] at taken
    cases taken
  | deregister name => exact if_pos (of_decide_eq_true settles)
  | _ => cases settles

/-- A registry is at any time what its history accounts for, and the next rank counts the
registrations. The induction is on the history, with the effect of the last command on both sides. -/
theorem Reach.replay {history : List Command} {r : Registry} (reach : Reach history r) :
    r.entries = replay history ∧ r.nextRank = history.countP Command.isRegistration := by
  induction reach with
  | start => exact ⟨rfl, rfl⟩
  | @next history r command previous admits ih =>
    obtain ⟨entries, rank⟩ := ih
    have ended : (r.entries.filterMap fun e => if command.settles e.name then none else command.effect e) =
        r.entries.filterMap command.effect := by
      apply List.filterMap_congr
      intro e member
      by_cases settles : command.settles e.name = true
      · rw [if_pos settles, admits.effect_of_settles member settles]
      · rw [if_neg settles]
    constructor
    · rw [replay_concat, ← entries, ended, ← rank]
      rfl
    · rw [List.countP_append, ← rank]
      cases command <;> rfl

/-- The registry behind any commands is the replay of the accepted ones alone. -/
theorem run_eq_replay (commands : List Command) :
    let history := empty.accepted commands
    history.Sublist commands ∧ empty.run history = empty.run commands ∧
      (empty.run commands).entries = replay history ∧
      (empty.run commands).nextRank = history.countP Command.isRegistration :=
  ⟨accepted_sublist empty commands, run_accepted empty commands, (reach_run commands).replay⟩

end SignalDesk.Registry
