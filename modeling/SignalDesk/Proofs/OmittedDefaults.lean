import SignalDesk.Proofs.ConfigDocuments
import SignalDesk.Proofs.OmittedFields

namespace SignalDesk

open Document Decoder StrategyKind

/-- The path of one of some fields, where the condition beside it is met. -/
def OneOf (fields : List (String × Prop)) (path : List Step) : Prop :=
  ∃ field ∈ fields, path = [.field field.1] ∧ field.2

/-- The fields that may be missing, each with what is then assumed. -/
def ThresholdOverride.defaults (o : ThresholdOverride) : List (String × Prop) :=
  [("paper", o.paper = none), ("real", o.real = none)]

def Thresholds.defaults (t : Thresholds) : List (String × Prop) :=
  [("paper_trading_min", t.paperMinimum = standard.paperMinimum),
    ("real_trading_min", t.realMinimum = standard.realMinimum), ("overrides", t.overrides = standard.overrides)]

def StrategyKind.defaults : StrategyKind → List (String × Prop)
  | trendFollowing _ _ average atr name =>
    [("ma_type", average = .simple), ("atr_period", atr = defaultAtrPeriod), ("name", name = none)]
  | meanReversion period multiplier rsi atr name =>
    [("period", period = defaultBandPeriod), ("multiplier", multiplier = defaultMultiplier),
      ("rsi_period", rsi = defaultRsiPeriod), ("atr_period", atr = defaultAtrPeriod), ("name", name = none)]
  | breakout period atr name =>
    [("period", period = defaultBandPeriod), ("atr_period", atr = defaultAtrPeriod), ("name", name = none)]
  | spreadReversion _ name => [("name", name = none)]

def StrategyEntry.defaults (e : StrategyEntry) : List (String × Prop) :=
  [("enabled", e.enabled = true), ("params", e.parameters = ∅)]

def DeskConfig.defaults (c : DeskConfig) : List (String × Prop) :=
  [("mode", c.mode = standard.mode), ("thresholds", c.thresholds = standard.thresholds),
    ("strategies", c.strategies = standard.strategies)]

/-- The paths into the document of some thresholds at which the value is the one that is assumed. -/
def Thresholds.DefaultAt (t : Thresholds) (path : List Step) : Prop :=
  OneOf t.defaults path ∨ ∃ name o rest, path = .field "overrides" :: .field name :: rest ∧
    t.overrides.get? name = some o ∧ OneOf o.defaults rest

def StrategyEntry.DefaultAt (e : StrategyEntry) (path : List Step) : Prop :=
  OneOf e.defaults path ∨ ∃ rest, path = .field "kind" :: rest ∧ OneOf e.kind.defaults rest

def DeskConfig.DefaultAt (c : DeskConfig) (path : List Step) : Prop :=
  OneOf c.defaults path ∨ (∃ rest, path = .field "thresholds" :: rest ∧ c.thresholds.DefaultAt rest) ∨
    ∃ index e rest, path = .field "strategies" :: .item index :: rest ∧ c.strategies[index]? = some e ∧
      e.DefaultAt rest

variable {gone : Marks} {site : Site}

theorem OneOf.not_longer {fields : List (String × Prop)} {first second : Step} {path : List Step} :
    ¬OneOf fields (first :: second :: path) := by
  simp [OneOf]

theorem OneOf.shallow {fields : List (String × Prop)} {path : List Step} (one : OneOf fields path) :
    ∃ name, path = [.field name] := by
  obtain ⟨field, -, same, -⟩ := one
  exact ⟨field.1, same⟩

/-- An override may lose what stands in it, but it is read. -/
theorem ThresholdOverride.read_without {o : ThresholdOverride} {document : Document}
    (read : ofDocument site document = .ok o) (shallow : gone.Within fun path => ∃ name, path = [.field name]) :
    ∃ other, ofDocument site (document.without gone) = .ok other ∧
      (gone.Within (OneOf o.defaults) → other = o) := by
  obtain ⟨fields, given, assembled⟩ := bind_eq_ok.mp read
  obtain ⟨paper, readPaper, rest⟩ := bind_eq_ok.mp assembled
  obtain ⟨real, readReal, same⟩ := bind_eq_ok.mp rest
  cases same
  cases document with
  | map fields =>
    cases given
    have leaf (name : String) : (gone.below (.field name)).Silent := by
      intro step path marked
      simpa using shallow _ _ marked
    have reads (name : String) {value : Option Float}
        (read : fieldOr fields name none (optional Decoder.float) = .ok value) :
        fieldOr (fieldsWithout gone fields) name none (optional Decoder.float) =
          .ok (if gone [.field name] then none else value) := by
      cases marked : gone [.field name] with
      | true =>
        rw [fieldOr, lookup_fieldsWithout, marked]
        rfl
      | false => exact fieldOr_leaf read (leaf name) fun gone => absurd (marked.symm.trans gone) Bool.false_ne_true
    refine ⟨⟨if gone [.field "paper"] then none else paper, if gone [.field "real"] then none else real⟩,
      bind_eq_ok.mpr ⟨_, rfl, bind_eq_ok.mpr ⟨_, reads "paper" readPaper,
        bind_eq_ok.mpr ⟨_, reads "real" readReal, rfl⟩⟩⟩, fun within => ?_⟩
    have paperGone (marked : gone [.field "paper"] = true) : paper = none := by
      simpa [OneOf, defaults] using within _ _ marked
    have realGone (marked : gone [.field "real"] = true) : real = none := by
      simpa [OneOf, defaults] using within _ _ marked
    grind
  | list items =>
    have noItems (index : Nat) : (gone.below (.item index)).Silent := by
      intro step path marked
      simpa using shallow _ _ marked
    rw [without, itemsWithout_eq_self noItems]
    exact ⟨_, bind_eq_ok.mpr ⟨_, given, assembled⟩, fun _ => rfl⟩
  | _ => cases given

/-- Leaving out a threshold that is the standard one changes no thresholds. -/
theorem Thresholds.read_without {t : Thresholds} {document : Document} (read : ofDocument site document = .ok t)
    (within : gone.Within t.DefaultAt) : ofDocument site (document.without gone) = .ok t := by
  have noItems (index : Nat) : (gone.below (.item index)).Silent := by
    intro step path marked
    simpa [DefaultAt, OneOf] using within _ _ marked
  have leaf {name : String} (flat : name ≠ "overrides") : (gone.below (.field name)).Silent := by
    intro step path marked
    simpa [DefaultAt, OneOf, flat] using within _ _ marked
  refine record_without read noItems fun fields assembled => ?_
  obtain ⟨paper, readPaper, rest⟩ := bind_eq_ok.mp assembled
  obtain ⟨real, readReal, rest⟩ := bind_eq_ok.mp rest
  obtain ⟨overrides, readOverrides, same⟩ := bind_eq_ok.mp rest
  cases same
  have keepsPaper := fieldOr_leaf readPaper (leaf (by decide))
    (fun marked => by simpa [DefaultAt, OneOf, defaults, standard] using within _ _ marked)
  have keepsReal := fieldOr_leaf readReal (leaf (by decide))
    (fun marked => by simpa [DefaultAt, OneOf, defaults, standard] using within _ _ marked)
  have keepsOverrides := fieldOr_without gone readOverrides
    (fun marked => by simpa [DefaultAt, OneOf, defaults, standard] using within _ _ marked)
    (fun document readMap => by
      refine sortedMap_without readMap (fun name => ?_) (fun name o document readOne => ?_)
      · refine Bool.eq_false_iff.mpr fun marked => ?_
        simpa [DefaultAt, OneOf] using within _ _ marked
      · have shallow : ((gone.below (.field "overrides")).below (.field name)).Within
            fun path => ∃ name, path = [.field name] := by
          intro step path marked
          rcases within _ _ marked with own | ⟨_, _, rest, same, -, one⟩
          · exact absurd own OneOf.not_longer
          · cases same
            exact one.shallow
        obtain ⟨other, readOther, unchanged⟩ := ThresholdOverride.read_without readOne shallow
        refine ⟨other, readOther, fun found => unchanged fun step path marked => ?_⟩
        simpa [DefaultAt, OneOf.not_longer, found] using within _ _ marked)
  exact bind_eq_ok.mpr ⟨_, keepsPaper, bind_eq_ok.mpr ⟨_, keepsReal, bind_eq_ok.mpr ⟨_, keepsOverrides, rfl⟩⟩⟩

/-- Leaving out a number or a name that is assumed anyway changes no kind of strategy. -/
theorem StrategyKind.read_without {kind : StrategyKind} {document : Document}
    (read : ofDocument site document = .ok kind) (within : gone.Within (OneOf kind.defaults)) :
    ofDocument site (document.without gone) = .ok kind := by
  have leaf (name : String) : (gone.below (.field name)).Silent :=
    fun step path marked => OneOf.not_longer (within _ _ marked)
  have noItems (index : Nat) : (gone.below (.item index)).Silent :=
    fun step path marked => OneOf.not_longer (within _ _ marked)
  cases document with
  | map fields =>
    obtain ⟨⟨label, record⟩, tagged, assembled⟩ := bind_eq_ok.mp read
    obtain ⟨_, plain, tagged⟩ := bind_eq_ok.mp tagged
    cases plain
    obtain ⟨_, readLabel, same⟩ := bind_eq_ok.mp tagged
    cases same
    have keepsTag : ¬gone [.field "type"] = true := by
      intro marked
      have listed := within _ _ marked
      cases kind <;> simp [OneOf, defaults] at listed
    have keepsLabel := field_leaf readLabel (leaf "type") keepsTag
    refine bind_eq_ok.mpr ⟨(label, .map (fieldsWithout gone fields)), ?_, ?_⟩
    · exact bind_eq_ok.mpr ⟨_, rfl, bind_eq_ok.mpr ⟨label, keepsLabel, rfl⟩⟩
    · dsimp only at assembled ⊢
      by_cases trend : label = "trend_following"
      · rw [if_pos trend] at assembled ⊢
        simp only [bind_eq_ok] at assembled ⊢
        obtain ⟨_, given, fast, readFast, slow, readSlow, average, readAverage, atr, readAtr, name, readName,
          same⟩ := assembled
        cases given
        cases same
        refine ⟨_, rfl, fast, field_leaf readFast (leaf _) ?_, slow, field_leaf readSlow (leaf _) ?_,
          average, fieldOr_leaf readAverage (leaf _) ?_, atr, fieldOr_leaf readAtr (leaf _) ?_,
          name, fieldOr_leaf readName (leaf _) ?_, rfl⟩ <;> intro marked <;>
            simpa [OneOf, defaults] using within _ _ marked
      rw [if_neg trend] at assembled ⊢
      by_cases reversion : label = "mean_reversion"
      · rw [if_pos reversion] at assembled ⊢
        simp only [bind_eq_ok] at assembled ⊢
        obtain ⟨_, given, period, readPeriod, multiplier, readMultiplier, rsi, readRsi, atr, readAtr, name, readName,
          same⟩ := assembled
        cases given
        cases same
        refine ⟨_, rfl, period, fieldOr_leaf readPeriod (leaf _) ?_,
          multiplier, fieldOr_leaf readMultiplier (leaf _) ?_, rsi, fieldOr_leaf readRsi (leaf _) ?_,
          atr, fieldOr_leaf readAtr (leaf _) ?_, name, fieldOr_leaf readName (leaf _) ?_, rfl⟩ <;> intro marked <;>
            simpa [OneOf, defaults] using within _ _ marked
      rw [if_neg reversion] at assembled ⊢
      by_cases broken : label = "breakout"
      · rw [if_pos broken] at assembled ⊢
        simp only [bind_eq_ok] at assembled ⊢
        obtain ⟨_, given, period, readPeriod, atr, readAtr, name, readName, same⟩ := assembled
        cases given
        cases same
        refine ⟨_, rfl, period, fieldOr_leaf readPeriod (leaf _) ?_, atr, fieldOr_leaf readAtr (leaf _) ?_,
          name, fieldOr_leaf readName (leaf _) ?_, rfl⟩ <;> intro marked <;>
            simpa [OneOf, defaults] using within _ _ marked
      rw [if_neg broken] at assembled ⊢
      by_cases spread : label = "spread_reversion"
      · rw [if_pos spread] at assembled ⊢
        simp only [bind_eq_ok] at assembled ⊢
        obtain ⟨_, given, zscoreKey, readKey, name, readName, same⟩ := assembled
        cases given
        cases same
        refine ⟨_, rfl, zscoreKey, field_leaf readKey (leaf _) ?_, name, fieldOr_leaf readName (leaf _) ?_, rfl⟩ <;>
          intro marked <;> simpa [OneOf, defaults] using within _ _ marked
      rw [if_neg spread] at assembled
      cases assembled
  | list items =>
    rw [without, itemsWithout_eq_self noItems]
    exact read
  | _ => cases read

theorem StrategyEntry.read_without {e : StrategyEntry} {document : Document}
    (read : ofDocument site document = .ok e) (within : gone.Within e.DefaultAt) :
    ofDocument site (document.without gone) = .ok e := by
  have noItems (index : Nat) : (gone.below (.item index)).Silent := by
    intro step path marked
    simpa [DefaultAt, OneOf] using within _ _ marked
  have leaf {name : String} (flat : name ≠ "kind") : (gone.below (.field name)).Silent := by
    intro step path marked
    simpa [DefaultAt, OneOf, flat] using within _ _ marked
  refine record_without read noItems fun fields assembled => ?_
  obtain ⟨kind, readKind, rest⟩ := bind_eq_ok.mp assembled
  obtain ⟨enabled, readEnabled, rest⟩ := bind_eq_ok.mp rest
  obtain ⟨parameters, readParameters, same⟩ := bind_eq_ok.mp rest
  cases same
  have keepsKind := field_without gone readKind
    (Bool.eq_false_iff.mpr fun marked => by simpa [DefaultAt, OneOf, defaults] using within _ _ marked)
    (fun document readOne => StrategyKind.read_without readOne fun step path marked => by
      simpa [DefaultAt, OneOf.not_longer] using within _ _ marked)
  have keepsEnabled := fieldOr_leaf readEnabled (leaf (by decide))
    (fun marked => by simpa [DefaultAt, OneOf, defaults] using within _ _ marked)
  have keepsParameters := fieldOr_leaf readParameters (leaf (by decide))
    (fun marked => by simpa [DefaultAt, OneOf, defaults] using within _ _ marked)
  exact bind_eq_ok.mpr ⟨_, keepsKind, bind_eq_ok.mpr ⟨_, keepsEnabled, bind_eq_ok.mpr ⟨_, keepsParameters, rfl⟩⟩⟩

/-- From any document of a configuration, be its fields given or assumed, the ones with the value that is assumed
anyway can be left out. -/
theorem DeskConfig.read_without {c : DeskConfig} {document : Document} (read : ofDocument site document = .ok c)
    (within : gone.Within c.DefaultAt) : ofDocument site (document.without gone) = .ok c := by
  have noItems (index : Nat) : (gone.below (.item index)).Silent := by
    intro step path marked
    simpa [DefaultAt, OneOf] using within _ _ marked
  refine record_without read noItems fun fields assembled => ?_
  obtain ⟨mode, readMode, rest⟩ := bind_eq_ok.mp assembled
  obtain ⟨thresholds, readThresholds, rest⟩ := bind_eq_ok.mp rest
  obtain ⟨strategies, readStrategies, same⟩ := bind_eq_ok.mp rest
  cases same
  have modeLeaf : (gone.below (.field "mode")).Silent := by
    intro step path marked
    simpa [DefaultAt, OneOf] using within _ _ marked
  have keepsMode := fieldOr_leaf readMode modeLeaf
    (fun marked => by simpa [DefaultAt, OneOf, defaults, standard] using within _ _ marked)
  have keepsThresholds := fieldOr_without gone readThresholds
    (fun marked => by simpa [DefaultAt, Thresholds.DefaultAt, OneOf, defaults, standard] using within _ _ marked)
    (fun document readOne => Thresholds.read_without readOne fun step path marked => by
      simpa [DefaultAt, OneOf.not_longer] using within _ _ marked)
  have keepsStrategies := fieldOr_without gone readStrategies
    (fun marked => by simpa [DefaultAt, OneOf, defaults, standard] using within _ _ marked)
    (fun document readList => items_without readList fun index e document listed readOne =>
      StrategyEntry.read_without readOne fun step path marked => by
        simpa [DefaultAt, OneOf.not_longer, listed] using within _ _ marked)
  exact bind_eq_ok.mpr ⟨_, keepsMode, bind_eq_ok.mpr ⟨_, keepsThresholds, bind_eq_ok.mpr ⟨_, keepsStrategies, rfl⟩⟩⟩

/-- What a configuration holds by default need not stand in its document: be they left out one at a time or all
together, at whatever depth, it is read back as it was. A document without anything is the standard desk. -/
theorem DeskConfig.defaults_omissible {form : Document → Document} (kept : TreeForm form) (site : Site) :
    (∀ (c : DeskConfig) (gone : Marks), c.isFinite = true → gone.Within c.DefaultAt →
      ofDocument site ((form c.toDocument).without gone) = .ok c) ∧
    ofDocument site (.map []) = .ok standard :=
  ⟨fun _ _ finite within => read_without (kept.config_read site finite) within, rfl⟩

/-- A desk that is the standard one but for a threshold and two of the numbers of its strategies. -/
def sparseConfig : DeskConfig where
  mode := .paper
  thresholds := ⟨Thresholds.standard.paperMinimum, 0.75, ∅⟩
  strategies := [⟨.meanReversion 20 2.0 7 14 none, true, ∅⟩, ⟨.breakout 55 14 none, true, ∅⟩]

/-- All that stands in its document and need not. -/
def sparseMarks : Marks := fun path => path ∈ [
  [.field "mode"], [.field "thresholds", .field "paper_trading_min"],
  [.field "thresholds", .field "overrides"],
  [.field "strategies", .item 0, .field "enabled"],
  [.field "strategies", .item 0, .field "kind", .field "period"],
  [.field "strategies", .item 0, .field "kind", .field "multiplier"],
  [.field "strategies", .item 0, .field "kind", .field "atr_period"],
  [.field "strategies", .item 1, .field "enabled"],
  [.field "strategies", .item 1, .field "kind", .field "atr_period"]]

theorem sparseConfig_omits :
    sparseConfig.isFinite = true ∧ sparseMarks.Within sparseConfig.DefaultAt ∧
      sparseConfig.toDocument.canonical.without sparseMarks = .map [
        ("strategies", .list [
          .map [("kind", .map [("rsi_period", .int 7), ("type", .text "mean_reversion")])],
          .map [("kind", .map [("period", .int 55), ("type", .text "breakout")])]]),
        ("thresholds", .map [("real_trading_min", .float 0.75)])] ∧
      DeskConfig.ofDocument .json (sparseConfig.toDocument.canonical.without sparseMarks) = .ok sparseConfig ∧
      DeskConfig.ofDocument .json (.map []) = .ok .standard := by
  have finite : sparseConfig.isFinite = true := by decide +kernel
  have within : sparseMarks.Within sparseConfig.DefaultAt := by
    intro step path marked
    simp only [sparseMarks, List.mem_cons, List.not_mem_nil, or_false, decide_eq_true_eq] at marked
    rcases marked with h | h | h | h | h | h | h | h | h <;> cases h <;>
      simp [sparseConfig, DeskConfig.DefaultAt, Thresholds.DefaultAt, StrategyEntry.DefaultAt, OneOf,
        DeskConfig.defaults, Thresholds.defaults, StrategyEntry.defaults, StrategyKind.defaults, DeskConfig.standard,
        Thresholds.standard, defaultBandPeriod, defaultMultiplier, defaultAtrPeriod] <;>
      exact ⟨True, trivial⟩
  have omissible := DeskConfig.defaults_omissible treeForm_canonical .json
  refine ⟨finite, within, ?_, omissible.1 sparseConfig sparseMarks finite within, omissible.2⟩
  rfl

end SignalDesk
