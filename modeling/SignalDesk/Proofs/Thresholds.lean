import Mathlib.Logic.Basic
import SignalDesk.Policy
import SignalDesk.Proofs.RoundedDouble

namespace SignalDesk

theorem isUnit_iff {x : Float} : isUnit x = true ↔ 0.0 ≤ x ∧ x ≤ 1.0 := by
  simp only [isUnit, Bool.and_eq_true, decide_eq_true_eq]

theorem isUnit_defined {x : Float} (unit : isUnit x = true) : x.isNaN = false :=
  (le_iff_linePlace.mp (isUnit_iff.mp unit).2).1

theorem isUnit_isFinite {x : Float} (unit : isUnit x = true) : x.isFinite = true :=
  isFinite_of_le (by decide) (isUnit_iff.mp unit).1 (isUnit_iff.mp unit).2

theorem clampUnit_isUnit (x : Float) : isUnit (clampUnit x) = true := by
  unfold clampUnit
  split_ifs with undefined below above
  · decide
  · decide
  · decide
  · have defined : x.isNaN = false := by simpa using undefined
    exact isUnit_iff.mpr ⟨double_le_of_not_lt defined (by decide) below,
      double_le_of_not_lt (by decide) defined above⟩

namespace Thresholds

theorem validate_eq_ok {t : Thresholds} :
    t.validate = .ok () ↔ ∀ field ∈ t.fields, isUnit field.2 = true := by
  have nobody : t.fields.find? (fun field => !isUnit field.2) = none ↔
      ∀ field ∈ t.fields, isUnit field.2 = true := by
    simp [List.find?_eq_none]
  rw [← nobody]
  unfold validate
  cases t.fields.find? fun field => !isUnit field.2 <;> simp

theorem checkRealFloor_eq_ok {t : Thresholds} :
    t.checkRealFloor = .ok () ↔ ¬t.realMinimum < realMinimumFloor := by
  simp only [checkRealFloor, ite_eq_iff, reduceCtorEq, and_false, false_or, and_true]

theorem checkRealFloor_iff_le {t : Thresholds} (unit : isUnit t.realMinimum = true) :
    t.checkRealFloor = .ok () ↔ realMinimumFloor ≤ t.realMinimum := by
  rw [checkRealFloor_eq_ok]
  exact ⟨double_le_of_not_lt (isUnit_defined unit) (by decide), double_not_lt_of_le⟩

end Thresholds

namespace ConfidencePolicy

theorem ofThresholds?_eq_ok {t : Thresholds} {policy : ConfidencePolicy} :
    ofThresholds? t = .ok policy ↔ t.validate = .ok () ∧ t.checkRealFloor = .ok () ∧ ⟨t⟩ = policy := by
  simp only [ofThresholds?, bind_eq_ok]
  constructor
  · rintro ⟨⟨⟩, valid, ⟨⟩, aboveFloor, same⟩
    exact ⟨valid, aboveFloor, Except.ok.inj same⟩
  · rintro ⟨valid, aboveFloor, same⟩
    exact ⟨(), valid, (), aboveFloor, congrArg Except.ok same⟩

/-- A policy that the desk may run under: the standard one, or one made of accepted thresholds. -/
def Sanctioned (policy : ConfidencePolicy) : Prop :=
  policy = .standard ∨ ∃ t, ofThresholds? t = .ok policy

/-- For real money no sanctioned policy asks for less than the floor in general. -/
theorem Sanctioned.floor_le {policy : ConfidencePolicy} (sanctioned : policy.Sanctioned) :
    realMinimumFloor ≤ policy.thresholds.realMinimum := by
  rcases sanctioned with rfl | ⟨t, accepted⟩
  · decide
  · obtain ⟨valid, aboveFloor, rfl⟩ := ofThresholds?_eq_ok.mp accepted
    have unit : isUnit t.realMinimum = true :=
      Thresholds.validate_eq_ok.mp valid ("real_trading_min", t.realMinimum) (by simp [Thresholds.fields])
    exact (Thresholds.checkRealFloor_iff_le unit).mp aboveFloor

end ConfidencePolicy

end SignalDesk
