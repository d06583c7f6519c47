import SignalDesk.DeskFile
import SignalDesk.Proofs.TreeForm

namespace SignalDesk

open Document Decoder StrategyKind

/-- A text can always be stored, a number only if it is finite. -/
def Setting.isFinite : Setting → Bool
  | number value => value.isFinite
  | text _ => true

def Parameters.isFinite (p : Parameters) : Bool := p.values.values.all Setting.isFinite

/-- The width of the bands is the only number of a kind that is no word. -/
def StrategyKind.isFinite : StrategyKind → Bool
  | meanReversion _ multiplier _ _ _ => multiplier.isFinite
  | _ => true

/-- A mode without a threshold of its own has nothing to store. -/
def ThresholdOverride.isFinite (o : ThresholdOverride) : Bool :=
  o.paper.all Float.isFinite && o.real.all Float.isFinite

def Thresholds.isFinite (t : Thresholds) : Bool :=
  t.paperMinimum.isFinite && t.realMinimum.isFinite && t.overrides.values.all ThresholdOverride.isFinite

def StrategyEntry.isFinite (e : StrategyEntry) : Bool :=
  e.kind.isFinite && e.parameters.values.all Setting.isFinite

/-- Every number of a configuration is finite. -/
def DeskConfig.isFinite (c : DeskConfig) : Bool :=
  c.thresholds.isFinite && c.strategies.all StrategyEntry.isFinite

theorem SortedMap.eq_empty {α : Type} {map : SortedMap α} (empty : map.isEmpty = true) : map = ∅ :=
  SortedMap.ext (List.isEmpty_iff.mp empty)

theorem Decoder.word_int {n : Int} (held : 0 ≤ n ∧ n < UInt64.size) :
    word (.int n) = .ok n.toNat.toUInt64 := by
  simp only [word, Decoder.ofOption, if_pos held]

namespace TreeForm

variable {form : Document → Document} (F : TreeForm form)

include F

/-- A number is read as it was given, if a store keeps it. -/
theorem float_read {x : Float} (finite : x.isFinite = true) :
    Decoder.float (form (.float x)) = .ok x := by
  rw [F.float finite]
  rfl

theorem text_read (s : String) : string (form (.text s)) = .ok s := by
  rw [F.text]
  rfl

theorem bool_read (b : Bool) : Decoder.bool (form (.bool b)) = .ok b := by
  rw [F.bool]
  rfl

/-- A word is stored as a whole number, which never leaves the range of words. -/
theorem word_read (n : UInt64) : word (form (StrategyKind.wordDocument n)) = .ok n := by
  have held : 0 ≤ (n.toNat : Int) ∧ (n.toNat : Int) < UInt64.size :=
    ⟨Int.natCast_nonneg _, Int.ofNat_lt.mpr n.toNat_lt_size⟩
  rw [StrategyKind.wordDocument, F.int, word_int held, Int.toNat_natCast, Nat.toUInt64, UInt64.ofNat_toNat]

/-- A number that was not given is left out, and read as not given. -/
theorem optionalFloat_read {value : Option Float} (finite : value.all Float.isFinite = true) :
    ((value.map Document.float).map form).elim (.ok none) (optional Decoder.float) = .ok value := by
  cases value with
  | none => rfl
  | some x =>
    rw [Option.map_some, Option.map_some, F.float finite]
    rfl

theorem optionalText_read (value : Option String) :
    ((value.map Document.text).map form).elim (.ok none) (optional string) = .ok value := by
  cases value with
  | none => rfl
  | some s =>
    rw [Option.map_some, Option.map_some, F.text]
    rfl

/-- An empty map is left out and stands for itself. -/
theorem givenMap_read {α : Type} {decode : Decoder α} {encode : α → Document} {map : SortedMap α}
    (reads : ∀ value ∈ map.values, decode (form (encode value)) = .ok value) :
    ((if map.isEmpty then none else some (ofSortedMap encode map)).map form).elim (.ok ∅)
      (Decoder.sortedMap decode) = .ok map := by
  cases empty : map.isEmpty with
  | true => rw [SortedMap.eq_empty empty]; rfl
  | false => exact F.sortedMap reads

/-- The form of a setting tells a number from a text. -/
theorem setting_read {s : Setting} (finite : s.isFinite = true) :
    Setting.ofDocument (form s.toDocument) = .ok s := by
  cases s with
  | number value =>
    rw [Setting.toDocument, F.float finite]
    rfl
  | text value =>
    rw [Setting.toDocument, F.text]
    rfl

/-- Parameters are found by the names of their fields, whatever order a store has brought these into. -/
theorem parameters_read {p : Parameters} (finite : p.isFinite = true) :
    Parameters.ofDocument (form p.toDocument) = .ok p := by
  have values : Decoder.sortedMap Setting.ofDocument (form (.ofSortedMap Setting.toDocument p.values)) =
      .ok p.values :=
    F.sortedMap fun _ member => F.setting_read (List.all_eq_true.mp finite _ member)
  obtain ⟨stored, same, fields⟩ := F.record [("strategy_id", some (.text p.strategyId)),
    ("values", some (.ofSortedMap Setting.toDocument p.values)), ("enabled", some (.bool p.enabled))] (by simp)
  have read : form p.toDocument = .map stored := same
  simp [Parameters.ofDocument, read, field, fieldOr_eq, fields, List.lookup_cons, values,
    F.text_read, F.bool_read]

theorem movingAverage_read (site : Site) (m : MovingAverage) :
    MovingAverage.ofDocument site (form m.toDocument) = .ok m := by
  rw [MovingAverage.toDocument, F.text]
  cases m <;> rfl

theorem tradingMode_read (site : Site) (m : TradingMode) :
    TradingMode.ofDocument site (form m.toDocument) = .ok m := by
  rw [TradingMode.toDocument, F.text]
  cases m <;> rfl

theorem override_read (site : Site) {o : ThresholdOverride} (finite : o.isFinite = true) :
    ThresholdOverride.ofDocument site (form o.toDocument) = .ok o := by
  obtain ⟨paper, real⟩ := Bool.and_eq_true_iff.mp finite
  obtain ⟨stored, same, fields⟩ := F.record
    [("paper", o.paper.map .float), ("real", o.real.map .float)] (by simp)
  rw [ThresholdOverride.toDocument, same]
  simp [ThresholdOverride.ofDocument, fieldOr_eq, fields, List.lookup_cons,
    F.optionalFloat_read paper, F.optionalFloat_read real, -Option.map_map, -Option.elim_map]

/-- Thresholds come back with all overrides, be there any or none. -/
theorem thresholds_read (site : Site) {t : Thresholds} (finite : t.isFinite = true) :
    Thresholds.ofDocument site (form t.toDocument) = .ok t := by
  obtain ⟨minima, overridesFinite⟩ := Bool.and_eq_true_iff.mp finite
  obtain ⟨paper, real⟩ := Bool.and_eq_true_iff.mp minima
  have override : ∀ o ∈ t.overrides.values, ThresholdOverride.ofDocument site (form o.toDocument) = .ok o :=
    fun o member => F.override_read site (List.all_eq_true.mp overridesFinite o member)
  have overrides := F.givenMap_read override
  obtain ⟨stored, same, fields⟩ := F.record [("paper_trading_min", some (.float t.paperMinimum)),
    ("real_trading_min", some (.float t.realMinimum)), ("overrides", if t.overrides.isEmpty then none
      else some (.ofSortedMap ThresholdOverride.toDocument t.overrides))] (by simp)
  rw [Thresholds.toDocument, same]
  simp [Thresholds.ofDocument, fieldOr_eq, fields, List.lookup_cons,
    F.float_read paper, F.float_read real, overrides]

/-- The tag leads back to the kind, and each kind has fields of its own. -/
theorem kind_read (site : Site) {kind : StrategyKind} (finite : kind.isFinite = true) :
    StrategyKind.ofDocument site (form kind.toDocument) = .ok kind := by
  have tag (label : String) (known : label ∈ ["trend_following", "mean_reversion", "breakout", "spread_reversion"]) :
      tagWord site ["trend_following", "mean_reversion", "breakout", "spread_reversion"]
        (form (.text label)) = .ok label := by
    rw [F.text]
    simp only [List.mem_cons, List.not_mem_nil, or_false] at known
    rcases known with rfl | rfl | rfl | rfl <;> rfl
  cases kind with
  | trendFollowing fast slow average atr name =>
    obtain ⟨stored, same, fields⟩ := F.record [("type", some (.text "trend_following")),
      ("fast_period", some (wordDocument fast)), ("slow_period", some (wordDocument slow)),
      ("ma_type", some average.toDocument), ("atr_period", some (wordDocument atr)),
      ("name", name.map .text)] (by simp)
    have read : form (StrategyKind.trendFollowing fast slow average atr name).toDocument = .map stored := same
    simp [StrategyKind.ofDocument, read, field, fieldOr_eq, fields,
      List.lookup_cons, tag, F.word_read, F.movingAverage_read, F.optionalText_read, -Option.map_map,
      -Option.elim_map]
  | meanReversion period multiplier rsi atr name =>
    obtain ⟨stored, same, fields⟩ := F.record [("type", some (.text "mean_reversion")),
      ("period", some (wordDocument period)), ("multiplier", some (.float multiplier)),
      ("rsi_period", some (wordDocument rsi)), ("atr_period", some (wordDocument atr)),
      ("name", name.map .text)] (by simp)
    have read : form (StrategyKind.meanReversion period multiplier rsi atr name).toDocument = .map stored := same
    simp [StrategyKind.ofDocument, read, field, fieldOr_eq, fields,
      List.lookup_cons, tag, F.word_read, F.float_read finite, F.optionalText_read, -Option.map_map,
      -Option.elim_map]
  | breakout period atr name =>
    obtain ⟨stored, same, fields⟩ := F.record [("type", some (.text "breakout")),
      ("period", some (wordDocument period)), ("atr_period", some (wordDocument atr)),
      ("name", name.map .text)] (by simp)
    have read : form (StrategyKind.breakout period atr name).toDocument = .map stored := same
    simp [StrategyKind.ofDocument, read, field, fieldOr_eq, fields,
      List.lookup_cons, tag, F.word_read, F.optionalText_read, -Option.map_map, -Option.elim_map]
  | spreadReversion zscoreKey name =>
    obtain ⟨stored, same, fields⟩ := F.record [("type", some (.text "spread_reversion")),
      ("zscore_key", some (.text zscoreKey)), ("name", name.map .text)] (by simp)
    have read : form (StrategyKind.spreadReversion zscoreKey name).toDocument = .map stored := same
    simp [StrategyKind.ofDocument, read, field, fieldOr_eq, fields,
      List.lookup_cons, tag, F.text_read, F.optionalText_read, -Option.map_map, -Option.elim_map]

/-- An entry comes back enabled or not, with the settings that were given for it. -/
theorem entry_read (site : Site) {e : StrategyEntry} (finite : e.isFinite = true) :
    StrategyEntry.ofDocument site (form e.toDocument) = .ok e := by
  obtain ⟨kind, settings⟩ := Bool.and_eq_true_iff.mp finite
  have setting : ∀ s ∈ e.parameters.values, Setting.ofDocument (form s.toDocument) = .ok s :=
    fun s member => F.setting_read (List.all_eq_true.mp settings s member)
  have parameters := F.givenMap_read setting
  obtain ⟨stored, same, fields⟩ := F.record [("kind", some e.kind.toDocument),
    ("enabled", some (.bool e.enabled)), ("params", if e.parameters.isEmpty then none
      else some (.ofSortedMap Setting.toDocument e.parameters))] (by simp)
  have read : form e.toDocument = .map stored := same
  simp [StrategyEntry.ofDocument, read, field, fieldOr_eq, fields,
    List.lookup_cons, F.kind_read site kind, F.bool_read, parameters]

/-- A finite configuration comes back from any store, with its strategies in their order. -/
theorem config_read (site : Site) {c : DeskConfig} (finite : c.isFinite = true) :
    DeskConfig.ofDocument site (form c.toDocument) = .ok c := by
  obtain ⟨thresholds, entries⟩ := Bool.and_eq_true_iff.mp finite
  have entry : ∀ e ∈ c.strategies, StrategyEntry.ofDocument site (form e.toDocument) = .ok e :=
    fun e member => F.entry_read site (List.all_eq_true.mp entries e member)
  have strategies := F.items entry
  obtain ⟨stored, same, fields⟩ := F.record [("mode", some c.mode.toDocument),
    ("thresholds", some c.thresholds.toDocument),
    ("strategies", some (.list (c.strategies.map StrategyEntry.toDocument)))] (by simp)
  have read : form c.toDocument = .map stored := same
  simp [DeskConfig.ofDocument, read, fieldOr_eq, fields, List.lookup_cons,
    F.tradingMode_read, F.thresholds_read site thresholds, strategies]

end TreeForm

end SignalDesk
