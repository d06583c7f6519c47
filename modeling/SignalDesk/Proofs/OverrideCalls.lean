import SignalDesk.Proofs.DeskBuilding
import SignalDesk.Proofs.MapContents

namespace SignalDesk

/-- A call for a strategy to have a minimum confidence of its own in a mode. -/
structure OverrideCall where
  strategy : String
  mode : TradingMode
  value : Float

/-- The value of the last call for exactly the strategy and the mode. -/
def OverrideCall.last? (calls : List OverrideCall) (strategy : String) (mode : TradingMode) : Option Float :=
  ((calls.filter fun call => call.strategy = strategy ∧ call.mode = mode).getLast?).map OverrideCall.value

namespace Thresholds

/-- The minimum confidence of its own that a strategy has in a mode. -/
def override? (t : Thresholds) (strategy : String) (mode : TradingMode) : Option Float :=
  (t.overrides.get? strategy).bind fun o => o.minimum mode

/-- Takes calls one after the other. -/
def withOverrides (t : Thresholds) (calls : List OverrideCall) : Thresholds :=
  calls.foldl (fun t call => t.withOverride call.strategy call.mode call.value) t

theorem withOverrides_concat (t : Thresholds) (calls : List OverrideCall) (call : OverrideCall) :
    t.withOverrides (calls ++ [call]) =
      (t.withOverrides calls).withOverride call.strategy call.mode call.value :=
  List.foldl_concat _ _ _ _

/-- A call changes the half of a record that is of its mode; the other half and all other records stay. -/
theorem override?_withOverride (t : Thresholds) (strategy name : String) (called mode : TradingMode)
    (value : Float) :
    (t.withOverride strategy called value).override? name mode =
      if strategy = name ∧ called = mode then some value else t.override? name mode := by
  simp only [override?, withOverride, SortedMap.get?_insert]
  by_cases mine : name = strategy
  · subst mine
    cases t.overrides.get? name <;> cases called <;> cases mode <;> simp [ThresholdOverride.minimum]
  · rw [if_neg mine, if_neg fun both => mine both.1.symm]

theorem minimum_withOverride (t : Thresholds) (strategy : String) (called mode : TradingMode) (value : Float) :
    (t.withOverride strategy called value).minimum mode = t.minimum mode := by
  cases mode <;> rfl

theorem minimum_withOverrides (t : Thresholds) (calls : List OverrideCall) (mode : TradingMode) :
    (t.withOverrides calls).minimum mode = t.minimum mode := by
  induction calls using List.reverseRecOn with
  | nil => rfl
  | append_singleton earlier call ih => rw [withOverrides_concat, minimum_withOverride, ih]

/-- Behind any calls a strategy has in a mode what was last called for, or else what it had before. The
induction is on the calls from the last one on, which alone can outdo the earlier ones. -/
theorem override?_withOverrides (t : Thresholds) (calls : List OverrideCall) (name : String)
    (mode : TradingMode) :
    (t.withOverrides calls).override? name mode =
      (OverrideCall.last? calls name mode).or (t.override? name mode) := by
  induction calls using List.reverseRecOn with
  | nil => rfl
  | append_singleton earlier call ih =>
    rw [withOverrides_concat, override?_withOverride, ih, OverrideCall.last?, OverrideCall.last?,
      List.filter_append]
    by_cases mine : call.strategy = name ∧ call.mode = mode
    · simp [mine]
    · simp [mine]

/-- Every threshold lies in the unit interval, in general and for single strategies. -/
structure InUnit (t : Thresholds) : Prop where
  general : ∀ mode, 0.0 ≤ t.minimum mode ∧ t.minimum mode ≤ 1.0
  overriding : ∀ strategy mode, ∀ value ∈ t.override? strategy mode, 0.0 ≤ value ∧ value ≤ 1.0

theorem validate_eq_ok_iff {t : Thresholds} : t.validate = .ok () ↔ t.InUnit := by
  simp only [validate_eq_ok, isUnit_iff]
  rw [forall_mem_fields t fun value => 0.0 ≤ value ∧ value ≤ 1.0]
  constructor
  · rintro ⟨general, overriding⟩
    refine ⟨general, fun strategy mode value asked => ?_⟩
    obtain ⟨o, found, given⟩ := Option.bind_eq_some_iff.mp asked
    exact overriding (strategy, o) (SortedMap.get?_eq_some.mp found) mode value given
  · rintro ⟨general, overriding⟩
    refine ⟨general, ?_⟩
    rintro ⟨strategy, o⟩ member mode value given
    exact overriding strategy mode value (Option.bind_eq_some_iff.mpr ⟨o, SortedMap.get?_eq_some.mpr member, given⟩)

end Thresholds

namespace ConfidencePolicy

theorem minimumFor_eq (policy : ConfidencePolicy) (strategy : String) (mode : TradingMode) :
    policy.minimumFor strategy mode =
      (policy.thresholds.override? strategy mode).getD (policy.thresholds.minimum mode) := rfl

theorem ofThresholds?_accepts {t : Thresholds} :
    (∃ policy, ofThresholds? t = .ok policy) ↔ t.InUnit ∧ 0.85 ≤ t.realMinimum := by
  simp only [ofThresholds?_eq_ok, exists_and_left, exists_eq', and_true, Thresholds.validate_eq_ok_iff]
  refine and_congr_right fun unit => ?_
  exact Thresholds.checkRealFloor_iff_le (isUnit_iff.mpr (unit.general .real))

/-- What an accepted policy asks for lies in the unit interval. -/
theorem minimumFor_inUnit {policy : ConfidencePolicy} (unit : policy.thresholds.InUnit) (strategy : String)
    (mode : TradingMode) :
    0.0 ≤ policy.minimumFor strategy mode ∧ policy.minimumFor strategy mode ≤ 1.0 := by
  rw [minimumFor_eq]
  cases asked : policy.thresholds.override? strategy mode with
  | none => exact unit.general mode
  | some value => exact unit.overriding strategy mode value asked

end ConfidencePolicy

/-- A desk that may be run under thresholds has a policy of them. -/
theorem Thresholds.accepts_of_validateOperatingBounds {t : Thresholds}
    (operable : t.validateOperatingBounds = .ok ()) : ∃ policy, ConfidencePolicy.ofThresholds? t = .ok policy := by
  obtain ⟨⟨⟩, valid, rest⟩ := bind_eq_ok.mp operable
  split at rest
  · exact ⟨_, ConfidencePolicy.ofThresholds?_eq_ok.mpr ⟨valid, rest, rfl⟩⟩
  · cases rest

/-- Thresholds with any calls on top of them are accepted exactly if all lie in the unit interval and the general
one for real money is not below the floor, which the bounds for running a desk imply. The policy then asks of a
strategy in a mode for the last value called for, else for the one that was there before, else for the general
one. -/
theorem Thresholds.withOverrides_decides (start : Thresholds) (calls : List OverrideCall) :
    let t := start.withOverrides calls
    (∀ policy, ConfidencePolicy.ofThresholds? t = .ok policy → ∀ strategy mode,
      policy.minimumFor strategy mode =
          ((OverrideCall.last? calls strategy mode).or (start.override? strategy mode)).getD (start.minimum mode) ∧
        0.0 ≤ policy.minimumFor strategy mode ∧ policy.minimumFor strategy mode ≤ 1.0) ∧
      ((∃ policy, ConfidencePolicy.ofThresholds? t = .ok policy) ↔ t.InUnit ∧ 0.85 ≤ t.realMinimum) ∧
      (t.validateOperatingBounds = .ok () → t.InUnit ∧ 0.85 ≤ t.realMinimum) := by
  intro t
  refine ⟨fun policy accepted strategy mode => ?_, ConfidencePolicy.ofThresholds?_accepts, fun operable => ?_⟩
  · obtain ⟨valid, -, rfl⟩ := ConfidencePolicy.ofThresholds?_eq_ok.mp accepted
    refine ⟨?_, ConfidencePolicy.minimumFor_inUnit (validate_eq_ok_iff.mp valid) strategy mode⟩
    rw [ConfidencePolicy.minimumFor_eq, override?_withOverrides, minimum_withOverrides]
  · exact ConfidencePolicy.ofThresholds?_accepts.mp (accepts_of_validateOperatingBounds operable)

/-- Thresholds with an exception for real money. -/
def cautiousThresholds : Thresholds := Thresholds.standard.withOverride "breakout" .real 0.9

/-- A call that is outdone by a later one, with a call for another strategy in between. -/
def overlappingCalls : List OverrideCall :=
  [⟨"breakout", .paper, 0.6⟩, ⟨"scalper", .real, 0.7⟩, ⟨"breakout", .paper, 0.8⟩]

theorem overlappingCalls_decides :
    ∃ policy, ConfidencePolicy.ofThresholds? (cautiousThresholds.withOverrides overlappingCalls) = .ok policy ∧
      policy.minimumFor "breakout" .paper = 0.8 ∧ policy.minimumFor "breakout" .real = 0.9 ∧
      policy.minimumFor "scalper" .real = 0.7 ∧ policy.minimumFor "scalper" .paper = 0.75 := by
  obtain ⟨asks, accepts, operable⟩ := Thresholds.withOverrides_decides cautiousThresholds overlappingCalls
  obtain ⟨policy, accepted⟩ := accepts.mpr (operable rfl)
  exact ⟨policy, accepted, (asks policy accepted _ _).1, (asks policy accepted _ _).1,
    (asks policy accepted _ _).1, (asks policy accepted _ _).1⟩

end SignalDesk
