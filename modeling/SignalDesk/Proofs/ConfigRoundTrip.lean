import SignalDesk.Proofs.ConfigDocuments
import SignalDesk.Proofs.TomlTables

namespace SignalDesk

open Document Toml

def StrategyKind.periods : StrategyKind → List UInt64
  | trendFollowing fast slow _ atr _ => [fast, slow, atr]
  | meanReversion period _ rsi atr _ => [period, rsi, atr]
  | breakout period atr _ => [period, atr]
  | spreadReversion .. => []

/-- Every period has a notation in TOML, whose whole numbers are signed. -/
def DeskConfig.hasSignedPeriods (c : DeskConfig) : Bool :=
  c.kinds.all fun kind => kind.periods.all fun period => period.toNat < 2 ^ 63

namespace Toml

/-- A record is a table of the fields that have a value. -/
theorem isTable_record {n : Nat} {fields : List (String × Option Document)}
    (distinct : (fields.map Prod.fst).Nodup)
    (fits : ∀ field ∈ fields, ∀ value ∈ field.2, Fits n value) : IsTable n (Document.record fields) := by
  refine ⟨_, rfl, distinct.sublist (names_given fields), fun given member => ?_⟩
  obtain ⟨field, listed, made⟩ := List.mem_filterMap.mp member
  obtain ⟨value, has, rfl⟩ := Option.map_eq_some_iff.mp made
  exact fits field listed value has

theorem isTable_ofSortedMap {n : Nat} {α : Type} {encode : α → Document} {map : SortedMap α}
    (fits : ∀ value ∈ map.values, Fits n (encode value)) : IsTable n (ofSortedMap encode map) := by
  refine ⟨_, rfl, (map.mapValues encode).keys_nodup, fun field member => ?_⟩
  obtain ⟨entry, listed, rfl⟩ := List.mem_map.mp member
  exact fits entry.2 (List.mem_map_of_mem listed)

end Toml

section

variable (n : Nat)

theorem Toml.fits_text (s : String) : Fits n (.text s) := IsSimple.fits trivial

theorem Toml.fits_name (name : Option String) : ∀ value ∈ name.map Document.text, Fits n value := by
  intro value has
  obtain ⟨s, -, rfl⟩ := Option.map_eq_some_iff.mp has
  exact fits_text n s

theorem Toml.fits_number {number : Option Float} (finite : number.all Float.isFinite = true) :
    ∀ value ∈ number.map Document.float, Fits n value := by
  intro value has
  obtain ⟨x, rfl, rfl⟩ := Option.map_eq_some_iff.mp has
  exact IsSimple.fits finite

theorem StrategyKind.fits_wordDocument {period : UInt64} (signed : period.toNat < 2 ^ 63) :
    Fits n (wordDocument period) := by
  have least : Int64.minValue.toInt = -2 ^ 63 := by decide
  have greatest : Int64.maxValue.toInt = 2 ^ 63 - 1 := by decide
  have simple : IsSimple (.int period.toNat) := ⟨by omega, by omega⟩
  exact simple.fits

theorem Setting.fits_toDocument {s : Setting} (finite : s.isFinite = true) : Fits n s.toDocument := by
  cases s with
  | number value => exact IsSimple.fits finite
  | text value => exact fits_text n value

theorem StrategyKind.isTable_toDocument {kind : StrategyKind} (finite : kind.isFinite = true)
    (signed : ∀ period ∈ kind.periods, period.toNat < 2 ^ 63) : IsTable n kind.toDocument := by
  have word (s : String) := fits_text n s
  have name := fits_name n kind.customName
  have number : ∀ period ∈ kind.periods, Fits n (wordDocument period) :=
    fun period listed => fits_wordDocument n (signed period listed)
  cases kind with
  | trendFollowing fast slow average atr name =>
    simp only [StrategyKind.periods, List.forall_mem_cons] at number
    exact isTable_record (by simp) (by simp_all [customName, MovingAverage.toDocument])
  | meanReversion period multiplier rsi atr name =>
    have factor : Fits n (.float multiplier) := IsSimple.fits finite
    simp only [StrategyKind.periods, List.forall_mem_cons] at number
    exact isTable_record (by simp) (by simp_all [customName])
  | breakout period atr name =>
    simp only [StrategyKind.periods, List.forall_mem_cons] at number
    exact isTable_record (by simp) (by simp_all [customName])
  | spreadReversion zscoreKey name =>
    exact isTable_record (by simp) (by simp_all [customName])

theorem StrategyEntry.isTable_toDocument {e : StrategyEntry} (finite : e.isFinite = true)
    (signed : ∀ period ∈ e.kind.periods, period.toNat < 2 ^ 63) : IsTable (n + 1) e.toDocument := by
  obtain ⟨kindFinite, settingsFinite⟩ := Bool.and_eq_true_iff.mp finite
  have kind : Fits (n + 1) e.kind.toDocument := (StrategyKind.isTable_toDocument n kindFinite signed).fits
  have enabled : Fits (n + 1) (.bool e.enabled) := IsSimple.fits trivial
  have settings : Fits (n + 1) (.ofSortedMap Setting.toDocument e.parameters) :=
    (isTable_ofSortedMap fun s listed => s.fits_toDocument n (List.all_eq_true.mp settingsFinite s listed)).fits
  exact isTable_record (by simp) (by simp_all)

theorem ThresholdOverride.isTable_toDocument {o : ThresholdOverride} (finite : o.isFinite = true) :
    IsTable n o.toDocument := by
  obtain ⟨paper, real⟩ := Bool.and_eq_true_iff.mp finite
  have paper := fits_number n paper
  have real := fits_number n real
  exact isTable_record (by simp) (by simp_all)

theorem Thresholds.isTable_toDocument {t : Thresholds} (finite : t.isFinite = true) :
    IsTable (n + 2) t.toDocument := by
  obtain ⟨minima, overridesFinite⟩ := Bool.and_eq_true_iff.mp finite
  obtain ⟨paper, real⟩ := Bool.and_eq_true_iff.mp minima
  have paper : Fits (n + 2) (.float t.paperMinimum) := IsSimple.fits paper
  have real : Fits (n + 2) (.float t.realMinimum) := IsSimple.fits real
  have overrides : Fits (n + 2) (.ofSortedMap ThresholdOverride.toDocument t.overrides) :=
    (isTable_ofSortedMap fun o listed =>
      (ThresholdOverride.isTable_toDocument n (List.all_eq_true.mp overridesFinite o listed)).fits).fits
  exact isTable_record (by simp) (by simp_all)

end

/-- A configuration is written as tables in at most three levels below it. -/
theorem DeskConfig.isTable_toDocument {c : DeskConfig} (finite : c.isFinite = true)
    (signed : c.hasSignedPeriods = true) : IsTable 3 c.toDocument := by
  obtain ⟨thresholdsFinite, entriesFinite⟩ := Bool.and_eq_true_iff.mp finite
  have signed : ∀ e ∈ c.strategies, ∀ period ∈ e.kind.periods, period.toNat < 2 ^ 63 := by
    simpa [hasSignedPeriods, kinds] using signed
  have mode : Fits 3 c.mode.toDocument := fits_text 3 c.mode.label
  have thresholds : Fits 3 c.thresholds.toDocument := (Thresholds.isTable_toDocument 0 thresholdsFinite).fits
  have strategies : Fits 3 (.list (c.strategies.map StrategyEntry.toDocument)) := by
    refine fits_list fun document made => ?_
    obtain ⟨e, listed, rfl⟩ := List.mem_map.mp made
    exact e.isTable_toDocument 1 (List.all_eq_true.mp entriesFinite e listed) (signed e listed)
  exact ⟨_, rfl, by simp, by simp_all⟩

/-- A configuration whose periods TOML can write is read from its text as it was. -/
theorem DeskConfig.ofToml_toToml {c : DeskConfig} (finite : c.isFinite = true)
    (signed : c.hasSignedPeriods = true) : ∃ text, c.toToml = some text ∧ ofToml text = .ok c := by
  obtain ⟨fields, same, T⟩ := isTable_toDocument finite signed
  obtain ⟨text, written, read⟩ := T.read_print (by decide)
  refine ⟨text, by rw [toToml, same, written], ?_⟩
  rw [ofToml, read, ← same, Option.map_some, treeForm_settled.config_read .toml finite]

/-- Configurations and their parts are what they were after a way through a store that keeps trees, as JSON
does. A whole configuration comes back from its text in TOML as well. -/
theorem configurations_read_back {form : Document → Document} (kept : TreeForm form) :
    (∀ c : DeskConfig, c.isFinite = true → DeskConfig.ofDocument .json (form c.toDocument) = .ok c ∧
      (c.hasSignedPeriods = true → ∃ text, c.toToml = some text ∧ DeskConfig.ofToml text = .ok c)) ∧
    (∀ kind : StrategyKind, kind.isFinite = true →
      StrategyKind.ofDocument .json (form kind.toDocument) = .ok kind) ∧
    (∀ p : Parameters, p.isFinite = true → Parameters.ofDocument (form p.toDocument) = .ok p) ∧
    (∀ t : Thresholds, t.isFinite = true → Thresholds.ofDocument .json (form t.toDocument) = .ok t) :=
  ⟨fun _ finite => ⟨kept.config_read .json finite, DeskConfig.ofToml_toToml finite⟩,
    fun _ finite => kept.kind_read .json finite, fun _ finite => kept.parameters_read finite,
    fun _ finite => kept.thresholds_read .json finite⟩

/-- A desk with a strategy of each kind, whole numbers and an override of nothing among its settings. -/
def variedConfig : DeskConfig where
  mode := .real
  thresholds := ⟨0.75, 1.0, .ofList [("calm", ⟨none, none⟩), ("breakout", ⟨some 0.8, none⟩)]⟩
  strategies := [
    ⟨.trendFollowing 10 30 .exponential 14 (some "calm"), true,
      .ofList [("limit", .number 3.0), ("note", .text "")]⟩,
    ⟨.meanReversion 20 2.5 14 14 none, false, ∅⟩,
    ⟨.breakout 20 14 none, true, ∅⟩,
    ⟨.spreadReversion "zscore" (some ""), true, .ofList [("a \"quoted\" name", .number 0.1)]⟩]

theorem variedConfig_read_back :
    variedConfig.isFinite = true ∧ variedConfig.hasSignedPeriods = true ∧
      DeskConfig.ofDocument .json variedConfig.toDocument.canonical = .ok variedConfig ∧
      ∃ text, variedConfig.toToml = some text ∧ DeskConfig.ofToml text = .ok variedConfig := by
  have finite : variedConfig.isFinite = true := by decide +kernel
  have signed : variedConfig.hasSignedPeriods = true := by decide +kernel
  obtain ⟨stored, written⟩ := (configurations_read_back treeForm_canonical).1 variedConfig finite
  exact ⟨finite, signed, stored, written signed⟩

end SignalDesk
