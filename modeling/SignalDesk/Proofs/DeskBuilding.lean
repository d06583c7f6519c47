import SignalDesk.DeskConfig
import SignalDesk.Proofs.Evaluation
import SignalDesk.Proofs.Refusals
import SignalDesk.Proofs.RegistryReach
import SignalDesk.Proofs.Thresholds

namespace SignalDesk

/-- The fault of a refused answer. -/
def faultOf {α : Type} : Except Fault α → Option Fault
  | .ok _ => none
  | .error fault => some fault

section FaultOf

variable {α : Type} {answer : Except Fault α}

theorem faultOf_eq_some {fault : Fault} : faultOf answer = some fault ↔ answer = .error fault := by
  cases answer <;> simp [faultOf]

theorem faultOf_eq_none : faultOf answer = none ↔ ∃ value, answer = .ok value := by
  cases answer <;> simp [faultOf]

theorem faultOf_then {β : Type} (answer : Except Fault α) (next : Except Fault β) :
    faultOf (answer >>= fun _ => next) = (faultOf answer).or (faultOf next) := by
  cases answer <;> rfl

end FaultOf

namespace Thresholds

/-- The bounds of the thresholds of a desk. -/
structure Operable (t : Thresholds) : Prop where
  unit : ∀ mode, 0.0 ≤ t.minimum mode ∧ t.minimum mode ≤ 1.0
  overrides : ∀ entry ∈ t.overrides.entries, ∀ mode, ∀ value ∈ entry.2.minimum mode, 0.0 ≤ value ∧ value ≤ 1.0
  paper : 0.50 ≤ t.paperMinimum ∧ t.paperMinimum ≤ 0.95
  real : 0.85 ≤ t.realMinimum

/-- What each check of the thresholds has against them, in the order of the checks. -/
def objections (t : Thresholds) : List (Option Fault) :=
  (t.fields.map fun field =>
    if isUnit field.2 then none else some (.invalidThreshold (.outsideUnit field.1 field.2))) ++
  [if 0.50 ≤ t.paperMinimum ∧ t.paperMinimum ≤ 0.95 then none
    else some (.invalidThreshold (.paperOutsideRange t.paperMinimum)),
   if t.realMinimum < 0.85 then some (.invalidThreshold (.realBelowFloor t.realMinimum)) else none]

theorem faultOf_validate (t : Thresholds) :
    faultOf t.validate = (t.fields.map fun field =>
      if isUnit field.2 then none
      else some (Fault.invalidThreshold (.outsideUnit field.1 field.2))).findSome? id := by
  unfold validate
  induction t.fields with
  | nil => rfl
  | cons field rest ih =>
    cases inUnit : isUnit field.2 with
    | true => simpa [List.find?_cons, inUnit] using ih
    | false => simp [inUnit, faultOf]

theorem faultOf_validateOperatingBounds (t : Thresholds) :
    faultOf t.validateOperatingBounds = t.objections.findSome? id := by
  have range : (paperMinimumRange.1 <= t.paperMinimum && t.paperMinimum <= paperMinimumRange.2) = true ↔
      0.50 ≤ t.paperMinimum ∧ t.paperMinimum ≤ 0.95 := by
    simp only [Bool.and_eq_true, decide_eq_true_eq]
    rfl
  rw [objections, List.findSome?_append, ← faultOf_validate, validateOperatingBounds, faultOf_then]
  congr 1
  simp only [range, checkRealFloor, realMinimumFloor]
  by_cases paper : 0.50 ≤ t.paperMinimum ∧ t.paperMinimum ≤ 0.95
  · by_cases real : t.realMinimum < 0.85 <;> simp [paper, real, faultOf]
  · simp [paper, faultOf]

theorem objections_sort (t : Thresholds) :
    ∀ objection ∈ t.objections, ∀ fault ∈ objection, ∃ threshold, fault = .invalidThreshold threshold := by
  simp only [objections, List.forall_mem_append, List.forall_mem_map, List.forall_mem_cons]
  refine ⟨fun field _ fault said => ?_, fun fault said => ?_, fun fault said => ?_, List.forall_mem_nil _⟩
  · exact ⟨_, (Option.some.inj (Option.ite_none_left_eq_some.mp said).2).symm⟩
  · exact ⟨_, (Option.some.inj (Option.ite_none_left_eq_some.mp said).2).symm⟩
  · exact ⟨_, (Option.some.inj (Option.ite_none_right_eq_some.mp said).2).symm⟩

theorem forall_mem_fields (t : Thresholds) (p : Float → Prop) :
    (∀ field ∈ t.fields, p field.2) ↔ (∀ mode, p (t.minimum mode)) ∧
      ∀ entry ∈ t.overrides.entries, ∀ mode, ∀ value ∈ entry.2.minimum mode, p value := by
  have modes {q : TradingMode → Prop} : (∀ mode, q mode) ↔ q .paper ∧ q .real :=
    ⟨fun all => ⟨all _, all _⟩, fun both mode => by cases mode; exacts [both.1, both.2]⟩
  have overriding {field : String} {value : Option Float} :
      (∀ x ∈ (value.map fun value => (field, value)).toList, p x.2) ↔ ∀ x ∈ value, p x := by
    cases value <;> simp
  simp only [fields, List.forall_mem_cons, List.forall_mem_flatMap, List.forall_mem_append, modes, minimum,
    ThresholdOverride.minimum, and_assoc, overriding]

/-- Nothing is said against thresholds exactly if they are within the bounds. -/
theorem objections_eq_none {t : Thresholds} : t.objections.findSome? id = none ↔ t.Operable := by
  have passed : t.objections.findSome? id = none ↔ (∀ field ∈ t.fields, 0.0 ≤ field.2 ∧ field.2 ≤ 1.0) ∧
      (0.50 ≤ t.paperMinimum ∧ t.paperMinimum ≤ 0.95) ∧ ¬t.realMinimum < 0.85 := by
    simp only [List.findSome?_eq_none_iff, objections, List.forall_mem_append, List.forall_mem_map,
      List.forall_mem_cons, List.not_mem_nil, false_implies, implies_true, and_true, id_eq, ite_eq_left_iff,
      ite_eq_right_iff, reduceCtorEq, imp_false, Decidable.not_not, isUnit_iff]
  rw [passed, forall_mem_fields t fun value => 0.0 ≤ value ∧ value ≤ 1.0]
  constructor
  · rintro ⟨⟨unit, overrides⟩, paper, aboveFloor⟩
    have defined : t.realMinimum.isNaN = false := isUnit_defined (isUnit_iff.mpr (unit .real))
    exact ⟨unit, overrides, paper, double_le_of_not_lt defined (by decide) aboveFloor⟩
  · rintro ⟨unit, overrides, paper, real⟩
    exact ⟨⟨unit, overrides⟩, paper, double_not_lt_of_le real⟩

end Thresholds

/-- What each check of an entry has against it, behind entries of the given names. -/
def StrategyEntry.objections (earlier : List String) (e : StrategyEntry) : List (Option BuildFault) :=
  [(faultOf e.kind.create).map fun fault => ⟨.creation e.kind.name, fault⟩,
   (faultOf e.attached.validate).map fun fault => ⟨.registration e.kind.name, fault⟩,
   if e.kind.name ∈ earlier then some ⟨.registration e.kind.name, .duplicateStrategy e.kind.name⟩ else none]

/-- A fault of the configuration itself: not one of the policy that its thresholds make, nor that
parameters serve another strategy than the one they are attached to. -/
structure BuildFault.Reachable (b : BuildFault) : Prop where
  notPolicy : b.step ≠ .policy
  notMismatch : ∀ id strategy, b.fault ≠ .invalidParameter (.otherStrategy id strategy)

theorem Fault.OfSetting.not_otherStrategy {fault : Fault} (setting : fault.OfSetting) (id strategy : String) :
    fault ≠ .invalidParameter (.otherStrategy id strategy) := by
  rintro rfl
  exact setting

theorem StrategyEntry.objections_reachable (earlier : List String) (e : StrategyEntry) :
    ∀ objection ∈ e.objections earlier, ∀ b ∈ objection, b.Reachable := by
  simp only [objections, List.forall_mem_cons]
  refine ⟨?_, ?_, ?_, List.forall_mem_nil _⟩
  · intro b said
    obtain ⟨fault, refused, rfl⟩ := Option.map_eq_some_iff.mp said
    exact ⟨nofun, (e.kind.create_faults fault (faultOf_eq_some.mp refused)).not_otherStrategy⟩
  · intro b said
    obtain ⟨fault, refused, rfl⟩ := Option.map_eq_some_iff.mp said
    exact ⟨nofun, (e.attached.validate_faults fault (faultOf_eq_some.mp refused)).not_otherStrategy⟩
  · intro b said
    obtain ⟨-, same⟩ := Option.ite_none_right_eq_some.mp said
    cases same
    exact ⟨nofun, nofun⟩

/-- What each check of entries has against them, one entry after the other. -/
def entryObjections (earlier : List String) : List StrategyEntry → List (Option BuildFault)
  | [] => []
  | e :: rest => e.objections earlier ++ entryObjections (earlier ++ [e.kind.name]) rest

/-- An entry at its desk: the strategy of the kind under the kind's name, with the parameters and the place
that were configured. -/
structure StrategyEntry.Registered (configured : StrategyEntry × Nat) (e : Entry) : Prop where
  created : configured.1.kind.create = .ok e.strategy
  name : e.name = configured.1.kind.name
  parameters : e.parameters = configured.1.attached
  rank : e.rank = configured.2

/-- Parameters that bear the name of the strategy are only checked on their own. -/
theorem Registry.apply_register {r : Registry} {strategy : Strategy} {p : Parameters}
    (own : p.strategyId = strategy.name) :
    r.apply (.register strategy p) = p.validate >>= fun _ =>
      if r.contains strategy.name then .error (.duplicateStrategy strategy.name)
      else .ok (⟨r.entries ++ [⟨strategy, p, r.nextRank⟩], r.nextRank + 1⟩,
        .registered strategy.name p.shortFingerprint) := by
  rw [apply, checkParameters, if_neg (not_not.mpr own)]

namespace DeskConfig

theorem addEntry_created {r : Registry} {e : StrategyEntry} {strategy : Strategy}
    (created : e.kind.create = .ok strategy) :
    addEntry r e = atStep (.registration e.kind.name) (r.apply (.register strategy e.attached)) := by
  rw [addEntry, created]
  rfl

/-- An entry is added if no check has anything against it, and else refused by the first that has. -/
theorem addEntry_cases (r : Registry) (e : StrategyEntry) :
    (∃ b, (e.objections (r.entries.map Entry.name)).findSome? id = some b ∧ addEntry r e = .error b) ∨
      (e.objections (r.entries.map Entry.name)).findSome? id = none ∧
        ∃ added event, StrategyEntry.Registered (e, r.nextRank) added ∧
          addEntry r e = .ok (⟨r.entries ++ [added], r.nextRank + 1⟩, event) := by
  have taken : r.contains e.kind.name = true ↔ e.kind.name ∈ r.entries.map Entry.name := by
    rw [Registry.contains_iff, List.mem_map]
  cases created : e.kind.create with
  | error fault =>
    refine Or.inl ⟨⟨.creation e.kind.name, fault⟩, ?_, ?_⟩
    · simp [StrategyEntry.objections, created, faultOf]
    · rw [addEntry, created]
      rfl
  | ok strategy =>
    have name := StrategyKind.create_name created
    have own : e.attached.strategyId = strategy.name := name.symm
    rw [addEntry_created created, Registry.apply_register own, name]
    cases valid : e.attached.validate with
    | error fault =>
      refine Or.inl ⟨⟨.registration e.kind.name, fault⟩, ?_, rfl⟩
      simp [StrategyEntry.objections, created, valid, faultOf]
    | ok _ =>
      by_cases known : e.kind.name ∈ r.entries.map Entry.name
      · refine Or.inl ⟨⟨.registration e.kind.name, .duplicateStrategy e.kind.name⟩, ?_, ?_⟩
        · simp [StrategyEntry.objections, created, valid, faultOf, known]
        · change atStep _ (ite _ _ _) = _
          rw [if_pos (taken.mpr known)]
          rfl
      · refine Or.inr ⟨?_, ⟨strategy, e.attached, r.nextRank⟩,
          .registered e.kind.name e.attached.shortFingerprint, ⟨created, name, rfl, rfl⟩, ?_⟩
        · simp [StrategyEntry.objections, created, valid, faultOf, known]
        · change atStep _ (ite _ _ _) = _
          rw [if_neg (mt taken.mp known)]
          rfl

theorem addEntries_cases (r : Registry) (es : List StrategyEntry) :
    (∃ b, (entryObjections (r.entries.map Entry.name) es).findSome? id = some b ∧
        (addEntries r es).result = .error b) ∨
      (entryObjections (r.entries.map Entry.name) es).findSome? id = none ∧
        ∃ added, List.Forall₂ StrategyEntry.Registered (es.zipIdx r.nextRank) added ∧
          (addEntries r es).result = .ok ⟨r.entries ++ added, r.nextRank + es.length⟩ := by
  induction es generalizing r with
  | nil => exact Or.inr ⟨rfl, [], .nil, by simp [addEntries]⟩
  | cons e rest ih =>
    rcases addEntry_cases r e with ⟨b, objection, refused⟩ | ⟨passed, entry, event, registered, accepted⟩
    · refine Or.inl ⟨b, ?_, by simp only [addEntries, refused]⟩
      rw [entryObjections, List.findSome?_append, objection]
      rfl
    · have names : (r.entries ++ [entry]).map Entry.name = r.entries.map Entry.name ++ [e.kind.name] := by
        rw [List.map_append, List.map_singleton, registered.name]
      have onwards := ih ⟨r.entries ++ [entry], r.nextRank + 1⟩
      rw [names] at onwards
      simp only [entryObjections, List.findSome?_append, passed, Option.none_or, addEntries, accepted]
      rcases onwards with refused | ⟨later, added, rest, result⟩
      · exact Or.inl refused
      · refine Or.inr ⟨later, entry :: added, .cons registered rest, ?_⟩
        rw [result]
        simp [Nat.add_assoc, Nat.add_comm 1]

/-- Nothing is said against entries exactly if each is sound on its own and no name stands twice. -/
theorem entryObjections_eq_none {earlier : List String} {es : List StrategyEntry} :
    (entryObjections earlier es).findSome? id = none ↔
      (∀ e ∈ es, ∃ strategy, e.kind.create = .ok strategy) ∧ (∀ e ∈ es, e.attached.validate = .ok ()) ∧
        (es.map fun e => e.kind.name).Nodup ∧ ∀ e ∈ es, e.kind.name ∉ earlier := by
  induction es generalizing earlier with
  | nil => simp [entryObjections]
  | cons e rest ih =>
    have single : (e.objections earlier).findSome? id = none ↔
        (∃ strategy, e.kind.create = .ok strategy) ∧ e.attached.validate = .ok () ∧ e.kind.name ∉ earlier := by
      simp only [StrategyEntry.objections, List.findSome?_eq_none_iff, List.forall_mem_cons, List.not_mem_nil,
        false_implies, implies_true, and_true, id_eq, Option.map_eq_none_iff, faultOf_eq_none, ite_eq_right_iff,
        reduceCtorEq, imp_false]
      exact and_congr_right' (and_congr_left' ⟨fun ⟨⟨⟩, valid⟩ => valid, fun valid => ⟨(), valid⟩⟩)
    have fresh : (∀ other ∈ rest, other.kind.name ∉ earlier ++ [e.kind.name]) ↔
        (∀ other ∈ rest, other.kind.name ∉ earlier) ∧ e.kind.name ∉ rest.map fun e => e.kind.name := by
      simp only [List.mem_append, List.mem_singleton, not_or, List.mem_map, not_exists, not_and, forall_and]
    rw [entryObjections, List.findSome?_append, Option.or_eq_none_iff, single, ih, fresh]
    simp only [List.forall_mem_cons, List.map_cons, List.nodup_cons]
    constructor
    · rintro ⟨⟨accepted, valid, free⟩, allAccepted, allValid, distinct, allFree, unique⟩
      exact ⟨⟨accepted, allAccepted⟩, ⟨valid, allValid⟩, ⟨unique, distinct⟩, free, allFree⟩
    · rintro ⟨⟨accepted, allAccepted⟩, ⟨valid, allValid⟩, ⟨unique, distinct⟩, free, allFree⟩
      exact ⟨⟨accepted, valid, free⟩, allAccepted, allValid, distinct, allFree, unique⟩

/-- What each check has against a configuration, in the order of the checks: the thresholds first, then for
each strategy its numbers, its parameters and its name. -/
def objections (c : DeskConfig) : List (Option BuildFault) :=
  (c.thresholds.objections.map fun objection => objection.map fun fault => ⟨.bounds, fault⟩) ++
    entryObjections [] c.strategies

/-- A configuration that describes a desk. -/
structure Buildable (c : DeskConfig) : Prop where
  thresholds : c.thresholds.Operable
  accepted : ∀ e ∈ c.strategies, ∃ strategy, e.kind.create = .ok strategy
  distinct : (c.strategies.map fun e => e.kind.name).Nodup
  valid : ∀ e ∈ c.strategies, e.attached.validate = .ok ()

/-- The desk that a configuration describes. -/
structure Describes (c : DeskConfig) (desk : Desk) : Prop where
  mode : desk.mode = c.mode
  thresholds : desk.policy.thresholds = c.thresholds
  entries : List.Forall₂ StrategyEntry.Registered c.strategies.zipIdx desk.registry.entries

/-- The first objection to a configuration is the first to its thresholds, or else the first to its entries. -/
theorem findSome?_objections (c : DeskConfig) : c.objections.findSome? id =
    ((c.thresholds.objections.findSome? id).map fun fault => ⟨.bounds, fault⟩).or
      ((entryObjections [] c.strategies).findSome? id) := by
  rw [objections, List.findSome?_append, List.findSome?_map, List.map_findSome?]
  rfl

theorem objections_eq_none {c : DeskConfig} : c.objections.findSome? id = none ↔ c.Buildable := by
  rw [findSome?_objections, Option.or_eq_none_iff, Option.map_eq_none_iff, Thresholds.objections_eq_none,
    entryObjections_eq_none]
  constructor
  · rintro ⟨thresholds, accepted, valid, distinct, -⟩
    exact ⟨thresholds, accepted, distinct, valid⟩
  · rintro ⟨thresholds, accepted, distinct, valid⟩
    exact ⟨thresholds, accepted, valid, distinct, fun _ _ => List.not_mem_nil⟩

/-- Thresholds within the bounds of a desk are accepted as a policy. -/
theorem checkedPolicy_cases (c : DeskConfig) :
    (∃ fault, c.thresholds.objections.findSome? id = some fault ∧ c.checkedPolicy = .error ⟨.bounds, fault⟩) ∨
      c.thresholds.objections.findSome? id = none ∧ c.checkedPolicy = .ok ⟨c.thresholds⟩ := by
  rw [← Thresholds.faultOf_validateOperatingBounds]
  cases checked : c.thresholds.validateOperatingBounds with
  | error fault =>
    refine Or.inl ⟨fault, rfl, ?_⟩
    rw [checkedPolicy, checked]
    rfl
  | ok _ =>
    obtain ⟨⟨⟩, valid, rest⟩ := bind_eq_ok.mp checked
    have aboveFloor : c.thresholds.checkRealFloor = .ok () := by
      split at rest
      · exact rest
      · cases rest
    refine Or.inr ⟨rfl, ?_⟩
    rw [checkedPolicy, checked, ConfidencePolicy.ofThresholds?_eq_ok.mpr ⟨valid, aboveFloor, rfl⟩]
    rfl

/-- Building ends with the first objection to the configuration, or else with the desk that it describes. -/
theorem build_cases (c : DeskConfig) :
    (∃ b, c.objections.findSome? id = some b ∧ c.build = .error b) ∨
      c.objections.findSome? id = none ∧ ∃ desk, c.build = .ok desk ∧ c.Describes desk := by
  rw [findSome?_objections]
  unfold build construct
  rcases c.checkedPolicy_cases with ⟨fault, objection, refused⟩ | ⟨passed, policy⟩
  · refine Or.inl ⟨⟨.bounds, fault⟩, by rw [objection]; rfl, by rw [refused]⟩
  · rw [passed, policy]
    rcases addEntries_cases .empty c.strategies with ⟨b, objection, refused⟩ | ⟨added, entries, registered, result⟩
    · refine Or.inl ⟨b, objection, ?_⟩
      simp only [refused]
    · refine Or.inr ⟨added, ?_⟩
      simp only [result]
      exact ⟨_, rfl, rfl, rfl, registered⟩

/-- Neither the policy nor the name of parameters that are attached to a strategy is ever at fault. -/
theorem objections_reachable (c : DeskConfig) :
    ∀ objection ∈ c.objections, ∀ b ∈ objection, b.Reachable := by
  have entries (earlier : List String) (es : List StrategyEntry) :
      ∀ objection ∈ entryObjections earlier es, ∀ b ∈ objection, b.Reachable := by
    induction es generalizing earlier with
    | nil => exact List.forall_mem_nil _
    | cons e rest ih => exact List.forall_mem_append.mpr ⟨e.objections_reachable earlier, ih _⟩
  refine List.forall_mem_append.mpr ⟨?_, entries [] c.strategies⟩
  rw [List.forall_mem_map]
  intro objection listed b mapped
  obtain ⟨fault, said, rfl⟩ := Option.map_eq_some_iff.mp mapped
  obtain ⟨threshold, rfl⟩ := c.thresholds.objections_sort objection listed fault said
  exact ⟨nofun, nofun⟩

/-- A desk is built exactly from a configuration that describes one, and it is the desk that is described.
Building fails with the objection of the first check that has one. -/
theorem build_characterized (c : DeskConfig) :
    ((∃ desk, c.build = .ok desk) ↔ c.Buildable) ∧
      (∀ desk, c.build = .ok desk → c.Describes desk) ∧
      (∀ b, c.build = .error b ↔
        ∃ passed rest, c.objections = passed ++ some b :: rest ∧ ∀ check ∈ passed, check = none) ∧
      ∀ b, c.build = .error b → b.Reachable := by
  have first (b : BuildFault) : c.objections.findSome? id = some b ↔
      ∃ passed rest, c.objections = passed ++ some b :: rest ∧ ∀ check ∈ passed, check = none := by
    simp [List.findSome?_eq_some_iff]
  have failing (b : BuildFault) : c.build = .error b ↔ c.objections.findSome? id = some b := by
    rcases c.build_cases with ⟨known, objection, refused⟩ | ⟨passed, desk, built, -⟩
    · rw [refused, objection, Except.error.injEq, Option.some.injEq]
    · rw [passed, built]
      exact ⟨nofun, nofun⟩
  refine ⟨?_, ?_, fun b => (failing b).trans (first b), ?_⟩
  · rw [← objections_eq_none]
    rcases c.build_cases with ⟨b, objection, refused⟩ | ⟨passed, desk, built, -⟩
    · rw [refused, objection]
      exact ⟨nofun, nofun⟩
    · exact ⟨fun _ => passed, fun _ => ⟨desk, built⟩⟩
  · intro desk built
    rcases c.build_cases with ⟨b, -, refused⟩ | ⟨-, other, same, described⟩
    · rw [built] at refused
      cases refused
    · rw [built] at same
      cases same
      exact described
  · intro b refused
    obtain ⟨passed, rest, split, -⟩ := (first b).mp ((failing b).mp refused)
    exact c.objections_reachable (some b) (split ▸ List.mem_append_right _ List.mem_cons_self) b rfl

end DeskConfig

end SignalDesk
