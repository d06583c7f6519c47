import SignalDesk.Proofs.FingerprintLog
import SignalDesk.Proofs.Refusals
import SignalDesk.Proofs.RegistryInvariant
import SignalDesk.Proofs.Replay

namespace SignalDesk

/-- Why parameters do not serve the strategy of a name: they are another's, or they are not valid. -/
inductive Parameters.Misfit (name : String) (p : Parameters) : ParameterFault → Prop
  | otherStrategy : p.strategyId ≠ name → p.Misfit name (.otherStrategy p.strategyId name)
  | invalid {reason} : p.strategyId = name → p.validate = .error (.invalidParameter reason) →
      p.Misfit name reason

theorem bind_eq_error {ε α β : Type} {x : Except ε α} {f : α → Except ε β} {fault : ε} :
    (x >>= f) = .error fault ↔ x = .error fault ∨ ∃ a, x = .ok a ∧ f a = .error fault := by
  cases x with
  | error other =>
    constructor
    · intro run
      cases run
      exact Or.inl rfl
    · rintro (same | ⟨_, ⟨⟩, _⟩)
      cases same
      rfl
  | ok a =>
    constructor
    · exact fun run => Or.inr ⟨a, rfl, run⟩
    · rintro (⟨⟨⟩⟩ | ⟨_, same, run⟩)
      cases same
      exact run

namespace Registry

/-- A setting is all that validation complains of. -/
theorem checkParameters_eq_error {name : String} {p : Parameters} {fault : Fault} :
    checkParameters name p = .error fault ↔ ∃ reason, p.Misfit name reason ∧ .invalidParameter reason = fault := by
  unfold checkParameters
  constructor
  · intro refused
    split at refused
    · rename_i foreign
      cases refused
      exact ⟨_, .otherStrategy foreign, rfl⟩
    · rename_i own
      have ofSetting := p.validate_faults fault refused
      cases fault with
      | invalidParameter reason => exact ⟨reason, .invalid (not_not.mp own) refused, rfl⟩
      | _ => exact ofSetting.elim
  · rintro ⟨reason, misfit, rfl⟩
    cases misfit with
    | otherStrategy foreign => rw [if_pos foreign]
    | invalid own refused => rw [if_neg (not_not.mpr own), refused]

/-- The name that a command is about. -/
def Command.subject : Command → String
  | .register strategy _ => strategy.name
  | .update name _ | .setEnabled name _ | .deregister name => name

/-- The parameters that a command hands over. -/
def Command.parameters? : Command → Option Parameters
  | .register _ p | .update _ p => some p
  | _ => none

/-- What a command is refused for: a registration for a name that is taken, any other one for a name that is
not there; and both of the commands that hand over parameters first for these. -/
inductive Refuses (r : Registry) (command : Command) : Fault → Prop
  | misfit {p reason} : command.parameters? = some p → p.Misfit command.subject reason →
      r.Refuses command (.invalidParameter reason)
  | taken : command.isRegistration = true →
      (∀ p ∈ command.parameters?, p.strategyId = command.subject ∧ p.validate = .ok ()) →
      (∃ e ∈ r.entries, e.name = command.subject) → r.Refuses command (.duplicateStrategy command.subject)
  | unknown : command.isRegistration = false →
      (∀ p ∈ command.parameters?, p.strategyId = command.subject ∧ p.validate = .ok ()) →
      (¬∃ e ∈ r.entries, e.name = command.subject) → r.Refuses command (.strategyNotFound command.subject)

/-- The check of the parameters that a command hands over, if it does. -/
def Command.check (command : Command) : Except Fault Unit :=
  match command.parameters? with
  | some p => checkParameters command.subject p
  | none => .ok ()

/-- The fault of a command whose name does not suit it. -/
def Command.nameFault (command : Command) : Fault :=
  if command.isRegistration then .duplicateStrategy command.subject else .strategyNotFound command.subject

theorem find_then (r : Registry) (name : String) {α : Type} (answer : Except Fault α) :
    (r.find name >>= fun _ => answer) =
      if r.contains name = false then .error (.strategyNotFound name) else answer := by
  unfold find contains
  cases r.get? name <;> rfl

/-- Every command is its check, then a look at the name, then its effect. -/
theorem apply_eq (r : Registry) (command : Command) :
    r.apply command = (do
      command.check
      if r.contains command.subject = command.isRegistration then .error command.nameFault
      else .ok (r.after command, command.event)) := by
  cases command with
  | register strategy p =>
    rw [after_register]
    rfl
  | update name p =>
    rw [after_update]
    simp only [apply, find_then]
    rfl
  | setEnabled name enabled =>
    rw [after_setEnabled]
    exact r.find_then name _
  | deregister name =>
    rw [after_deregister]
    exact r.find_then name _

theorem Command.check_eq_ok {command : Command} :
    command.check = .ok () ↔
      ∀ p ∈ command.parameters?, p.strategyId = command.subject ∧ p.validate = .ok () := by
  unfold check
  cases command.parameters? with
  | none => simp
  | some p => simp [checkParameters_eq_ok]

theorem Command.check_eq_error {command : Command} {fault : Fault} :
    command.check = .error fault ↔ ∃ p, command.parameters? = some p ∧
      ∃ reason, p.Misfit command.subject reason ∧ .invalidParameter reason = fault := by
  unfold check
  cases command.parameters? with
  | none => simp
  | some p => simp [checkParameters_eq_error]

/-- A command is refused exactly for the first thing that is wrong with it. -/
theorem apply_eq_error {r : Registry} {command : Command} {fault : Fault} :
    r.apply command = .error fault ↔ r.Refuses command fault := by
  simp only [apply_eq, bind_eq_error, ite_eq_iff, Except.error.injEq, reduceCtorEq, and_false, or_false]
  constructor
  · rintro (refused | ⟨⟨⟩, checked, name, rfl⟩)
    · obtain ⟨p, given, reason, misfit, rfl⟩ := Command.check_eq_error.mp refused
      exact .misfit given misfit
    · have serving := Command.check_eq_ok.mp checked
      unfold Command.nameFault
      split
      · rename_i registration
        exact .taken registration serving (contains_iff.mp (name.trans registration))
      · rename_i notRegistration
        have other := Bool.eq_false_of_not_eq_true notRegistration
        refine .unknown other serving fun present => ?_
        have known := contains_iff.mpr present
        rw [name, other] at known
        cases known
  · intro refuses
    cases refuses with
    | misfit given misfit => exact Or.inl (Command.check_eq_error.mpr ⟨_, given, _, misfit, rfl⟩)
    | taken registration serving present =>
      have name := (contains_iff.mpr present).trans registration.symm
      exact Or.inr ⟨(), Command.check_eq_ok.mpr serving, name, if_pos registration⟩
    | unknown other serving absent =>
      have unknown : r.contains command.subject = false :=
        Bool.eq_false_of_not_eq_true fun known => absent (contains_iff.mp known)
      refine Or.inr ⟨(), Command.check_eq_ok.mpr serving, unknown.trans other.symm, if_neg ?_⟩
      rw [other]
      exact Bool.false_ne_true

theorem log_append (r : Registry) (commands more : List Command) :
    r.log (commands ++ more) = r.log commands ++ (r.run commands).log more := by
  induction commands generalizing r with
  | nil => rfl
  | cons command rest ih =>
    cases step : r.apply command with
    | ok result => simp only [List.cons_append, log, step, ih, run_cons_of_ok step]
    | error fault => simp only [List.cons_append, log, step, ih, run_cons_of_error step]

/-- A refused command leaves the registry as it was, and nothing is told of it. -/
theorem run_concat_of_error {commands : List Command} {command : Command} {fault : Fault}
    (refused : (empty.run commands).apply command = .error fault) :
    empty.run (commands ++ [command]) = empty.run commands ∧
      empty.log (commands ++ [command]) = empty.log commands := by
  constructor
  · rw [run_append, run_cons_of_error refused]
    rfl
  · simp only [log_append, log, refused, List.append_nil]

theorem run_concat_of_ok {commands : List Command} {command : Command} {next : Registry} {event : Event}
    (accepted : (empty.run commands).apply command = .ok (next, event)) :
    empty.run (commands ++ [command]) = next ∧
      empty.log (commands ++ [command]) = empty.log commands ++ [event] := by
  constructor
  · rw [run_append, run_cons_of_ok accepted]
    rfl
  · simp only [log_append, log, accepted]

/-- What a command makes of the parameters of its strategy, if these are all that it changes. -/
def Command.revision? : Command → Option (Parameters → Parameters)
  | .update _ p => some fun _ => p
  | .setEnabled _ enabled => some fun p => p.setEnabled enabled
  | _ => none

/-- The registries differ in the parameters of one entry, that of the name, and in nothing else. -/
def Revised (name : String) (change : Parameters → Parameters) (old new : Registry) : Prop :=
  ∃ before e behind, old.entries = before ++ e :: behind ∧ e.name = name ∧
    new.entries = before ++ { e with parameters := change e.parameters } :: behind ∧
    new.nextRank = old.nextRank ∧ new.ranks = old.ranks

theorem after_of_revision {r : Registry} {command : Command} {change : Parameters → Parameters}
    (revises : command.revision? = some change) :
    r.after command = r.modify command.subject fun e => { e with parameters := change e.parameters } := by
  cases command with
  | update name p =>
    cases revises
    exact r.after_update name p
  | setEnabled name enabled =>
    cases revises
    exact r.after_setEnabled name enabled
  | _ => cases revises

/-- No other entry has the name, so a change by name touches one entry. -/
theorem Consistent.revised {r : Registry} (consistent : r.Consistent) {name : String}
    (present : r.contains name = true) (change : Parameters → Parameters) :
    Revised name change r (r.modify name fun e => { e with parameters := change e.parameters }) := by
  obtain ⟨e, member, named⟩ := contains_iff.mp present
  obtain ⟨before, behind, split⟩ := List.append_of_mem member
  have distinct := consistent.namesDistinct
  rw [split, List.pairwise_append, List.pairwise_cons] at distinct
  obtain ⟨-, ⟨behindOthers, -⟩, beforeOthers⟩ := distinct
  have unchanged {part : List Entry} (others : ∀ other ∈ part, other.name ≠ name) :
      (part.map fun e => if e.name = name then { e with parameters := change e.parameters } else e) = part :=
    (List.map_congr_left fun other inPart => if_neg (others other inPart)).trans (List.map_id _)
  have inFront := unchanged fun other inPart => named ▸ beforeOthers other inPart e List.mem_cons_self
  have atBack := unchanged fun other inPart => named ▸ (behindOthers other inPart).symm
  have entries : (r.modify name fun e => { e with parameters := change e.parameters }).entries =
      before ++ { e with parameters := change e.parameters } :: behind := by
    simp only [modify, split, List.map_append, List.map_cons, inFront, atBack, if_pos named]
  refine ⟨before, e, behind, split, named, entries, rfl, ?_⟩
  rw [ranks, ranks, entries, split]
  simp only [List.map_append, List.map_cons]
  rfl

/-- A command that goes wrong goes wrong for a reason given in advance and has no effect, on the registry as
on the log. One that revises parameters changes those of its own strategy and leaves everything else as it
was. -/
theorem apply_outcomes (commands : List Command) (command : Command) :
    let r := empty.run commands
    (∀ fault, r.apply command = .error fault ↔ r.Refuses command fault) ∧
      (∀ fault, r.apply command = .error fault →
        empty.run (commands ++ [command]) = r ∧ empty.log (commands ++ [command]) = empty.log commands) ∧
      ∀ next event, r.apply command = .ok (next, event) →
        empty.run (commands ++ [command]) = next ∧
          empty.log (commands ++ [command]) = empty.log commands ++ [event] ∧
          ∀ change, command.revision? = some change → Revised command.subject change r next := by
  intro r
  refine ⟨fun _ => apply_eq_error, fun fault refused => run_concat_of_error refused, ?_⟩
  intro next event accepted
  obtain ⟨run, log⟩ := run_concat_of_ok accepted
  refine ⟨run, log, fun change revises => ?_⟩
  obtain ⟨admits, same⟩ := apply_eq_ok.mp accepted
  obtain rfl : next = r.after command := congrArg Prod.fst same
  rw [after_of_revision revises]
  have present : r.contains command.subject = true := by
    cases command with
    | update name p => exact admits.2
    | setEnabled name enabled => exact admits
    | _ => cases revises
  exact (run_consistent commands).revised present change

end Registry

end SignalDesk
