import Mathlib.Data.List.Forall2
import SignalDesk.StrategyKind

namespace SignalDesk

section Traversal

variable {α β ε : Type} {f : α → Except ε β}

/-- A traversal that nothing stops gives the results of the elements in their order. -/
theorem mapM_forall₂ {xs : List α} (each : ∀ x ∈ xs, ∃ y, f x = .ok y) :
    ∃ ys, xs.mapM f = .ok ys ∧ List.Forall₂ (fun x y => f x = .ok y) xs ys := by
  induction xs with
  | nil => exact ⟨[], rfl, .nil⟩
  | cons x xs ih =>
    rw [List.forall_mem_cons] at each
    obtain ⟨⟨y, first⟩, rest⟩ := each
    obtain ⟨ys, run, results⟩ := ih rest
    exact ⟨y :: ys, by rw [List.mapM_cons, first, run]; rfl, .cons first results⟩

theorem mem_results {xs : List α} {ys : List β} (results : List.Forall₂ (fun x y => f x = .ok y) xs ys)
    {y : β} : y ∈ ys ↔ ∃ x ∈ xs, f x = .ok y := by
  induction results with
  | nil => simp
  | cons first _ ih => simp only [List.mem_cons, ih, exists_eq_or_imp, first, Except.ok.injEq, eq_comm (a := y)]

/-- It gives the result of every element and nothing else. -/
theorem mapM_mem {xs : List α} (each : ∀ x ∈ xs, ∃ y, f x = .ok y) :
    ∃ ys, xs.mapM f = .ok ys ∧ ∀ y, y ∈ ys ↔ ∃ x ∈ xs, f x = .ok y := by
  obtain ⟨ys, run, results⟩ := mapM_forall₂ each
  exact ⟨ys, run, fun _ => mem_results results⟩

/-- A traversal stops at the first element that it cannot take. -/
theorem mapM_stops {before after : List α} {x : α} {fault : ε} (earlier : ∀ x ∈ before, ∃ y, f x = .ok y)
    (stops : f x = .error fault) : (before ++ x :: after).mapM f = .error fault := by
  obtain ⟨ys, run, -⟩ := mapM_mem earlier
  rw [List.mapM_append, run, List.mapM_cons, stops]
  rfl

end Traversal

/-- An answer that, if it is refused, is refused with a fault of one sort. -/
def FaultsIn {α : Type} (sort : Fault → Prop) (answer : Except Fault α) : Prop :=
  ∀ fault, answer = .error fault → sort fault

namespace FaultsIn

variable {α β : Type} {sort other : Fault → Prop}

theorem ok (value : α) : FaultsIn sort (.ok value) := nofun

theorem error {fault : Fault} (fits : sort fault) : FaultsIn sort (.error fault : Except Fault α) :=
  fun _ same => Except.error.inj same ▸ fits

theorem mono {answer : Except Fault α} (faults : FaultsIn sort answer) (wider : ∀ fault, sort fault → other fault) :
    FaultsIn other answer :=
  fun fault refused => wider fault (faults fault refused)

theorem bind {answer : Except Fault α} {next : α → Except Fault β} (first : FaultsIn sort answer)
    (later : ∀ value, FaultsIn sort (next value)) : FaultsIn sort (answer >>= next) := by
  cases answer with
  | error fault => exact .error (first fault rfl)
  | ok value => exact later value

theorem map {answer : Except Fault α} (faults : FaultsIn sort answer) (f : α → β) :
    FaultsIn sort (answer.map f) := by
  cases answer with
  | error fault => exact .error (faults fault rfl)
  | ok value => exact .ok (f value)

theorem ite {c : Prop} [Decidable c] {yes no : Except Fault α} (ifSo : FaultsIn sort yes)
    (ifNot : FaultsIn sort no) : FaultsIn sort (if c then yes else no) := by
  split
  · exact ifSo
  · exact ifNot

end FaultsIn

/-- A setting that makes no sense, whichever strategy it is meant for. -/
def Fault.OfSetting : Fault → Prop
  | invalidParameter (.otherStrategy _ _) => False
  | invalidParameter _ => True
  | _ => False

namespace Parameters

variable (p : Parameters) (name : String) (default : Float)

theorem number_faults : FaultsIn Fault.OfSetting (p.number name) := by
  unfold number
  split
  · exact .ok _
  · exact .ok _
  · exact .error trivial

theorem numberOr_faults : FaultsIn Fault.OfSetting (p.numberOr name default) :=
  .bind (p.number_faults name) fun _ => .ok _

theorem positive_faults : FaultsIn Fault.OfSetting (p.positive name default) :=
  .bind (p.numberOr_faults name default) fun _ => .ite (.error trivial) (.ok _)

theorem volatilityBand_faults : FaultsIn Fault.OfSetting p.volatilityBand :=
  .bind (p.numberOr_faults _ _) fun _ => .bind (p.numberOr_faults _ _) fun _ => .ite (.ok _) (.error trivial)

theorem volatilityLookback_faults : FaultsIn Fault.OfSetting p.volatilityLookback := by
  refine .bind (p.number_faults _) fun count => ?_
  cases count with
  | none => exact .ok _
  | some n => exact .ite (.ok _) (.error trivial)

theorem validate_faults : FaultsIn Fault.OfSetting p.validate := by
  refine .ite (.error trivial) ?_
  split
  · exact .error trivial
  · exact .bind p.volatilityLookback_faults fun _ => .bind p.volatilityBand_faults fun _ => .ok _

end Parameters

theorem MeanReversion.bounds_faults (s : MeanReversion) (p : Parameters) :
    FaultsIn Fault.OfSetting (s.bounds p) :=
  .bind (p.numberOr_faults _ _) fun _ => .bind (p.numberOr_faults _ _) fun _ => .ite (.ok _) (.error trivial)

/-- A kind is refused for its own numbers. -/
theorem StrategyKind.create_faults (kind : StrategyKind) : FaultsIn Fault.OfSetting kind.create := by
  refine .map ?_ _
  cases kind with
  | trendFollowing => exact .map (.ite (.error trivial) (.ite (.error trivial) (.ok _))) _
  | meanReversion => exact .map (.ite (.error trivial) (.ite (.ok _) (.error trivial))) _
  | breakout => exact .map (.ite (.error trivial) (.ok _)) _
  | spreadReversion => exact .map (.ite (.error trivial) (.ok _)) _

end SignalDesk
