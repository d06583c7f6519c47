import SignalDesk.Proofs.CommandOutcomes
import SignalDesk.Proofs.CycleSections

namespace SignalDesk

namespace Registry

/-- What a command is answered: what is told of it, or the fault that it is refused with. -/
def answer (r : Registry) (command : Command) : Except Fault Event := (r.apply command).map Prod.snd

/-- The command is a registration, and the registry accepts it. -/
def Enlists (r : Registry) (command : Command) : Prop :=
  command.isRegistration = true ∧ ∃ event, r.answer command = .ok event

namespace Command

variable {c d command : Command}

theorem effect_of_other {e : Entry} (other : e.name ≠ command.subject) : command.effect e = some e := by
  cases command with
  | register strategy p => rfl
  | update name p => exact congrArg some (if_neg other)
  | setEnabled name enabled => exact congrArg some (if_neg other)
  | deregister name => exact if_neg other

theorem effect_name {old e : Entry} (kept : command.effect old = some e) : e.name = old.name :=
  congrArg Strategy.name (effect_keeps kept).1

/-- An entry whose name is not that of the second command goes through the first one alone. -/
theorem effect_bind_of_other {e : Entry} (other : e.name ≠ d.subject) :
    (c.effect e).bind d.effect = c.effect e := by
  cases kept : c.effect e with
  | none => rfl
  | some changed => exact effect_of_other (effect_name kept ▸ other)

/-- No entry has both names, so at most one of two commands touches it. -/
theorem effect_comm (apart : c.subject ≠ d.subject) (e : Entry) :
    (c.effect e).bind d.effect = (d.effect e).bind c.effect := by
  by_cases first : e.name = c.subject
  · have notSecond : e.name ≠ d.subject := first ▸ apart
    rw [effect_bind_of_other notSecond, effect_of_other notSecond, Option.bind_some]
  · rw [effect_bind_of_other first, effect_of_other first, Option.bind_some]

theorem addition_name {rank : Nat} {e : Entry} (added : e ∈ command.addition rank) : e.name = command.subject := by
  cases command with
  | register strategy p =>
    obtain rfl := List.mem_singleton.mp added
    rfl
  | _ => cases added

theorem addition_of_not_registration (other : command.isRegistration = false) (rank : Nat) :
    command.addition rank = [] := by
  cases command with
  | register strategy p => cases other
  | _ => rfl

/-- What one command puts behind the others, the next one lets pass. -/
theorem filterMap_addition (apart : c.subject ≠ d.subject) (rank : Nat) :
    (c.addition rank).filterMap d.effect = c.addition rank := by
  have passes : ∀ e ∈ c.addition rank, d.effect e = some e :=
    fun e added => effect_of_other (addition_name added ▸ apart)
  rw [List.filterMap_congr passes, List.filterMap_some]

end Command

variable {r s : Registry} {c d : Command}

theorem contains_after {command : Command} {name : String} (other : command.subject ≠ name) :
    (r.after command).contains name = r.contains name := by
  rw [Bool.eq_iff_iff, contains_iff, contains_iff]
  constructor
  · rintro ⟨e, member, rfl⟩
    rcases mem_after.mp member with ⟨old, oldMember, kept⟩ | added
    · exact ⟨old, oldMember, (Command.effect_name kept).symm⟩
    · exact absurd (Command.addition_name added).symm other
  · rintro ⟨e, member, rfl⟩
    exact ⟨e, mem_after.mpr (Or.inl ⟨e, member, Command.effect_of_other other.symm⟩), rfl⟩

/-- A command is answered by its own check and by whether its name is there. -/
theorem answer_congr (same : r.contains c.subject = s.contains c.subject) : r.answer c = s.answer c := by
  rw [answer, answer, apply_eq, apply_eq, same]
  cases c.check with
  | error fault => rfl
  | ok passed =>
    by_cases unsuited : s.contains c.subject = c.isRegistration
    · simp only [unsuited, if_true]
    · simp only [unsuited, if_false]
      rfl

theorem admits_iff_answer : r.Admits c ↔ ∃ event, r.answer c = .ok event := by
  constructor
  · intro admits
    exact ⟨c.event, map_eq_ok.mpr ⟨_, apply_eq_ok.mpr ⟨admits, rfl⟩, rfl⟩⟩
  · rintro ⟨event, answered⟩
    obtain ⟨result, accepted, -⟩ := map_eq_ok.mp answered
    exact (apply_eq_ok.mp accepted).1

theorem run_of_admits (admits : r.Admits c) (rest : List Command) : r.run (c :: rest) = (r.after c).run rest :=
  run_cons_of_ok (apply_eq_ok.mpr ⟨admits, rfl⟩) rest

theorem run_of_not_admits (refused : ¬r.Admits c) (rest : List Command) : r.run (c :: rest) = r.run rest := by
  cases step : r.apply c with
  | ok result => exact absurd (apply_eq_ok.mp step).1 refused
  | error fault => exact run_cons_of_error step rest

/-- One command has no say in the answer to another one. -/
theorem answer_run_of_apart (apart : c.subject ≠ d.subject) : (r.run [c]).answer d = r.answer d := by
  refine answer_congr ?_
  by_cases admits : r.Admits c
  · rw [run_of_admits admits]
    exact contains_after apart
  · rw [run_of_not_admits admits]
    rfl

theorem admits_after_iff (apart : c.subject ≠ d.subject) : (r.after c).Admits d ↔ r.Admits d := by
  rw [admits_iff_answer, admits_iff_answer, answer_congr (contains_after apart)]

/-- Behind two commands stand the entries that pass both, then what the commands add in turn. -/
theorem entries_after_after (apart : c.subject ≠ d.subject) :
    ((r.after c).after d).entries = r.entries.filterMap (fun e => (c.effect e).bind d.effect) ++
      (c.addition r.nextRank ++ d.addition (r.nextRank + (c.addition r.nextRank).length)) := by
  simp only [after, List.filterMap_append, List.filterMap_filterMap, Command.filterMap_addition apart,
    List.append_assoc]

/-- The order of two commands is seen only in the ranks and places that they give, so not if one gives none. -/
theorem after_comm (apart : c.subject ≠ d.subject) (quiet : c.isRegistration = false) :
    (r.after c).after d = (r.after d).after c := by
  have adds := Command.addition_of_not_registration quiet
  have entries : ((r.after c).after d).entries = ((r.after d).after c).entries := by
    simp only [entries_after_after apart, entries_after_after apart.symm, adds, Command.effect_comm apart,
      List.length_nil, Nat.add_zero, List.nil_append, List.append_nil]
  have ranks : ((r.after c).after d).nextRank = ((r.after d).after c).nextRank := by
    simp only [after, adds, List.length_nil, Nat.add_zero]
  calc (r.after c).after d
      = ⟨((r.after c).after d).entries, ((r.after c).after d).nextRank⟩ := rfl
    _ = (r.after d).after c := by rw [entries, ranks]

/-- Of two registrations the one that comes second is the last entry. -/
theorem after_ne (apart : c.subject ≠ d.subject) (first : c.isRegistration = true)
    (second : d.isRegistration = true) : (r.after c).after d ≠ (r.after d).after c := by
  have last {command : Command} (registers : command.isRegistration = true) (s : Registry) :
      ∃ e, (s.after command).entries.getLast? = some e ∧ e.name = command.subject := by
    cases command with
    | register strategy p => exact ⟨_, List.getLast?_concat, rfl⟩
    | _ => cases registers
  intro same
  obtain ⟨e, atEnd, named⟩ := last second (r.after c)
  obtain ⟨other, atEndToo, namedToo⟩ := last first (r.after d)
  rw [same, atEndToo] at atEnd
  cases atEnd
  exact apart (namedToo.symm.trans named)

theorem run_pair (apart : c.subject ≠ d.subject) (first : r.Admits c) (second : r.Admits d) :
    r.run [c, d] = (r.after c).after d := by
  rw [run_of_admits first, run_of_admits ((admits_after_iff apart).mpr second)]
  rfl

/-- A refused command is refused behind the other one as well. -/
theorem run_pair_of_not_admits (apart : c.subject ≠ d.subject) (refused : ¬r.Admits c) :
    r.run [c, d] = r.run [d, c] := by
  rw [run_of_not_admits refused]
  by_cases second : r.Admits d
  · rw [run_of_admits second, run_of_admits second,
      run_of_not_admits (mt (admits_after_iff apart.symm).mp refused)]
  · rw [run_of_not_admits second, run_of_not_admits second, run_of_not_admits refused]

/-- Commands for different strategies can be exchanged. Each is answered as if the other had not been given,
and the registry behind both is the same whichever comes first, except that two accepted registrations take
ranks and places in the order in which they come. -/
theorem run_exchange (apart : c.subject ≠ d.subject) :
    (r.run [d]).answer c = r.answer c ∧ (r.run [c]).answer d = r.answer d ∧
      (r.run [c, d] = r.run [d, c] ↔ ¬(r.Enlists c ∧ r.Enlists d)) := by
  refine ⟨answer_run_of_apart apart.symm, answer_run_of_apart apart, ?_⟩
  simp only [Enlists, ← admits_iff_answer]
  by_cases first : r.Admits c
  · by_cases second : r.Admits d
    · rw [run_pair apart first second, run_pair apart.symm second first]
      cases registers : c.isRegistration with
      | false => exact iff_of_true (after_comm apart registers) (by simp)
      | true =>
        cases registersToo : d.isRegistration with
        | false => exact iff_of_true (after_comm apart.symm registersToo).symm (by simp)
        | true => exact iff_of_false (after_ne apart registers registersToo) (by simp [first, second])
    · exact iff_of_true (run_pair_of_not_admits apart.symm second).symm fun both => second both.2.2
  · exact iff_of_true (run_pair_of_not_admits apart first) fun both => first both.1.2

/-- A registration and a removal are both accepted, and the newcomer has its rank and its place either way. -/
theorem mixedDesk_exchange :
    let late := Command.register (SpreadReversion.strategy ⟨"late", "basis_z"⟩) ⟨"late", ∅, true⟩
    let gone := Command.deregister "quiet"
    late.subject ≠ gone.subject ∧ mixedDesk.registry.Enlists late ∧
      (mixedDesk.registry.run [late]).answer gone = .ok (.deregistered "quiet") ∧
      mixedDesk.registry.run [late, gone] = mixedDesk.registry.run [gone, late] ∧
      (mixedDesk.registry.run [late, gone]).ranks.get? "late" = some 4 := by
  intro late gone
  have apart : late.subject ≠ gone.subject := by decide
  obtain ⟨-, removed, same⟩ := run_exchange (r := mixedDesk.registry) apart
  have onlyOne : ¬(mixedDesk.registry.Enlists late ∧ mixedDesk.registry.Enlists gone) := by
    rintro ⟨-, registers, -⟩
    cases registers
  exact ⟨apart, ⟨rfl, _, rfl⟩, removed.trans rfl, same.mpr onlyOne, rfl⟩

end Registry

end SignalDesk
