import SignalDesk.Proofs.RegistryReach

namespace SignalDesk

def Event.fingerprintOf? (name : String) : Event → Option String
  | registered strategy fingerprint | parametersUpdated strategy fingerprint =>
    if strategy = name then some fingerprint else none
  | _ => none

def lastFingerprint? (name : String) (log : List Event) : Option String :=
  (log.filterMap (Event.fingerprintOf? name)).getLast?

namespace Registry

/-- What is told of a run, in the order of its commands. -/
def log (r : Registry) : List Command → List Event
  | [] => []
  | command :: rest =>
    match r.apply command with
    | .ok (next, event) => event :: next.log rest
    | .error _ => r.log rest

theorem log_eq_accepted (r : Registry) (commands : List Command) :
    r.log commands = (r.accepted commands).map Command.event := by
  induction commands generalizing r with
  | nil => rfl
  | cons command rest ih =>
    cases step : r.apply command with
    | ok result =>
      obtain ⟨-, same⟩ := apply_eq_ok.mp step
      cases same
      simp only [log, accepted, step, List.map_cons, ih]
    | error fault => simp only [log, accepted, step, ih]

/-- The whole parameter set that a command gives to a strategy. -/
def Command.gives? (name : String) : Command → Option Parameters
  | .register strategy p => if strategy.name = name then some p else none
  | .update other p => if other = name then some p else none
  | _ => none

def lastGiven? (name : String) (history : List Command) : Option Parameters :=
  (history.filterMap (Command.gives? name)).getLast?

theorem Command.event_fingerprintOf? (name : String) (command : Command) :
    command.event.fingerprintOf? name = (command.gives? name).map Parameters.shortFingerprint := by
  cases command with
  | register strategy p =>
    by_cases same : strategy.name = name <;> simp [event, gives?, Event.fingerprintOf?, same]
  | update other p =>
    by_cases same : other = name <;> simp [event, gives?, Event.fingerprintOf?, same]
  | setEnabled other enabled => rfl
  | deregister other => rfl

theorem lastFingerprint?_log (r : Registry) (name : String) (commands : List Command) :
    lastFingerprint? name (r.log commands) =
      (lastGiven? name (r.accepted commands)).map Parameters.shortFingerprint := by
  have told : (r.log commands).filterMap (Event.fingerprintOf? name) =
      ((r.accepted commands).filterMap (Command.gives? name)).map Parameters.shortFingerprint := by
    rw [log_eq_accepted, List.filterMap_map, List.map_filterMap]
    exact List.filterMap_congr fun command _ => command.event_fingerprintOf? name
  rw [lastFingerprint?, told, List.getLast?_map, lastGiven?]

theorem lastGiven?_concat (name : String) (history : List Command) (command : Command) :
    lastGiven? name (history ++ [command]) = (command.gives? name).or (lastGiven? name history) := by
  rw [lastGiven?, List.filterMap_append, List.filterMap_cons, List.filterMap_nil, List.getLast?_append]
  cases command.gives? name <;> rfl

/-- What a command makes of an entry that it does not remove: the parameters that it gives, or those
that were there, apart from the switch. -/
theorem Admits.effect_parameters {r : Registry} {command : Command} (admits : r.Admits command)
    {old e : Entry} (member : old ∈ r.entries) (kept : command.effect old = some e) :
    ∃ given, (command.gives? e.name).or (some old.parameters) = some given ∧
      e.parameters = given.setEnabled e.parameters.enabled := by
  cases command with
  | register strategy p =>
    cases kept
    have different : strategy.name ≠ old.name := by
      intro same
      have taken := contains_iff.mpr ⟨old, member, same.symm⟩
      rw [admits.2] at taken
      cases taken
    exact ⟨old.parameters, by simp [Command.gives?, different], rfl⟩
  | update name p =>
    cases kept
    by_cases same : old.name = name
    · simp only [if_pos same]
      exact ⟨p, by simp [Command.gives?, Entry.name, ← same], rfl⟩
    · simp only [if_neg same]
      exact ⟨old.parameters, by simp [Command.gives?, Ne.symm same], rfl⟩
  | setEnabled name enabled =>
    cases kept
    by_cases same : old.name = name
    · exact ⟨old.parameters, rfl, by simp [same, Parameters.setEnabled]⟩
    · exact ⟨old.parameters, rfl, by simp [same, Parameters.setEnabled]⟩
  | deregister name =>
    by_cases same : old.name = name
    · simp [Command.effect, same] at kept
    · simp only [Command.effect, if_neg same, Option.some.injEq] at kept
      cases kept
      exact ⟨old.parameters, rfl, rfl⟩

theorem Reach.lastGiven {history : List Command} {r : Registry} (reach : Reach history r) {e : Entry}
    (member : e ∈ r.entries) :
    ∃ given, lastGiven? e.name history = some given ∧
      e.parameters = given.setEnabled e.parameters.enabled := by
  -- the invariant speaks up to `setEnabled`, as the switch is what a command can change without giving parameters
  induction reach generalizing e with
  | start => cases member
  | @next history r command previous admits ih =>
    rw [lastGiven?_concat]
    rcases mem_after.mp member with ⟨old, oldMember, kept⟩ | added
    · have sameName : e.name = old.name := congrArg Strategy.name (Command.effect_keeps kept).1
      obtain ⟨before, lastBefore, oldParameters⟩ := ih oldMember
      obtain ⟨given, source, parameters⟩ := admits.effect_parameters oldMember kept
      rw [sameName] at source ⊢
      cases gives : command.gives? old.name with
      | some p =>
        rw [gives] at source
        cases source
        exact ⟨given, rfl, parameters⟩
      | none =>
        rw [gives] at source
        cases source
        refine ⟨before, lastBefore, ?_⟩
        rw [parameters, oldParameters]
        rfl
    · cases command with
      | register strategy p =>
        simp only [Command.addition, List.mem_singleton] at added
        subst added
        exact ⟨p, by simp [Command.gives?, Entry.name], rfl⟩
      | _ => cases added

theorem encoded_setEnabled_iff {p : Parameters} {enabled : Bool} :
    (p.setEnabled enabled).encoded = p.encoded ↔ p.enabled = enabled := by
  simp only [Parameters.encoded, Parameters.setEnabled, List.append_assoc, List.cons_append,
    List.append_cancel_left_eq, List.cons.injEq, and_true]
  cases p.enabled <;> cases enabled <;> simp

/-- The last fingerprint that was told of a strategy is that of the parameters it was last given. Its
current parameters differ from these at most in the switch, which is one of the hashed bytes: where it
stands as it was given, the fingerprint is that of the current parameters. -/
theorem logged_fingerprint (commands : List Command) :
    ∀ e ∈ (empty.run commands).entries, ∃ given,
      lastGiven? e.name (empty.accepted commands) = some given ∧
        lastFingerprint? e.name (empty.log commands) = some given.shortFingerprint ∧
        e.parameters = given.setEnabled e.parameters.enabled ∧
        (given.encoded = e.parameters.encoded ↔ given.enabled = e.parameters.enabled) ∧
        (given.enabled = e.parameters.enabled →
          lastFingerprint? e.name (empty.log commands) = some e.parameters.shortFingerprint) := by
  intro e member
  obtain ⟨given, last, parameters⟩ := (reach_run commands).lastGiven member
  have told : lastFingerprint? e.name (empty.log commands) = some given.shortFingerprint := by
    rw [lastFingerprint?_log, last]
    rfl
  refine ⟨given, last, told, parameters, ?_, fun same => ?_⟩
  · rw [parameters, eq_comm]
    exact encoded_setEnabled_iff
  · have whole : given = e.parameters := by rw [parameters, ← same]; rfl
    rw [told, whole]

/-- A strategy that is updated after a removal and a refused command, and a switch that comes back. -/
def revisedBreakout : List Command :=
  [.register (Breakout.strategy ⟨"b", 20, 14⟩) ⟨"b", ∅, true⟩, .deregister "b",
    .register (Breakout.strategy ⟨"b", 20, 14⟩) ⟨"b", ∅, false⟩, .update "c" ⟨"c", ∅, true⟩,
    .update "b" ⟨"b", SortedMap.ofList [("x", .text "y")], true⟩, .setEnabled "b" false,
    .setEnabled "b" true]

theorem revisedBreakout_fingerprint :
    ∃ e ∈ (empty.run revisedBreakout).entries, e.parameters.enabled = true ∧
      lastFingerprint? e.name (empty.log revisedBreakout) = some e.parameters.shortFingerprint := by
  have member : (⟨Breakout.strategy ⟨"b", 20, 14⟩, ⟨"b", SortedMap.ofList [("x", .text "y")], true⟩, 1⟩ : Entry) ∈
      (empty.run revisedBreakout).entries := .head _
  obtain ⟨given, last, -, -, -, told⟩ := logged_fingerprint revisedBreakout _ member
  have given' : lastGiven? "b" (empty.accepted revisedBreakout) =
      some ⟨"b", SortedMap.ofList [("x", .text "y")], true⟩ := rfl
  refine ⟨_, member, rfl, told ?_⟩
  rw [Option.some.inj (last.symm.trans given')]

/-- A strategy that is registered without being enabled, and enabled later. -/
def wakenedBreakout : List Command :=
  [.register (Breakout.strategy ⟨"b", 20, 14⟩) ⟨"b", ∅, false⟩, .setEnabled "b" true]

/-- Nothing that is told bears the fingerprint of a strategy that was enabled by its switch alone. -/
theorem wakenedBreakout_untold :
    ∃ e ∈ (empty.run wakenedBreakout).enabled,
      lastFingerprint? e.name (empty.log wakenedBreakout) ≠ some e.parameters.shortFingerprint := by
  have member : (⟨Breakout.strategy ⟨"b", 20, 14⟩, ⟨"b", ∅, true⟩, 0⟩ : Entry) ∈
      (empty.run wakenedBreakout).enabled := .head _
  refine ⟨_, member, ?_⟩
  have told : lastFingerprint? "b" (empty.log wakenedBreakout) =
      some (Parameters.mk "b" ∅ false).shortFingerprint := rfl
  have different : (Parameters.mk "b" ∅ false).shortFingerprint ≠ (Parameters.mk "b" ∅ true).shortFingerprint := by
    decide +kernel
  intro same
  exact different (Option.some.inj (told.symm.trans same))

end Registry

end SignalDesk
