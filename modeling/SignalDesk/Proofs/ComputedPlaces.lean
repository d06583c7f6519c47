import SignalDesk.Proofs.IndicatorPositions

namespace SignalDesk

open Scalar

variable {α : Type} [Scalar α]

/-- Nothing is undefined from one place on, in front of another. -/
def Gapless (inputs : List α) (first behind : Nat) : Prop :=
  ∀ x ∈ (inputs.take behind).drop first, isUndefined x = false

instance (inputs : List α) (first behind : Nat) : Decidable (Gapless inputs first behind) :=
  inferInstanceAs (Decidable (∀ x ∈ _, _))

theorem any_isUndefined_eq_false {values : List α} :
    values.any isUndefined = false ↔ ∀ x ∈ values, isUndefined x = false := by
  simp only [List.any_eq_false, Bool.not_eq_true]

theorem Gapless.mono {inputs : List α} {first second before behind : Nat} (gapless : Gapless inputs first behind)
    (later : first ≤ second) (earlier : before ≤ behind) : Gapless inputs second before := by
  intro x member
  refine gapless x ?_
  have front : inputs.take before = (inputs.take behind).take before := by
    rw [List.take_take, Nat.min_eq_left earlier]
  have rest : (inputs.take behind).drop second = ((inputs.take behind).drop first).drop (second - first) := by
    rw [List.drop_drop, Nat.add_sub_cancel' later]
  rw [front, List.drop_take, rest] at member
  exact List.mem_of_mem_drop (List.mem_of_mem_take member)

theorem gapless_iff {inputs : List α} {first behind : Nat} : Gapless inputs first behind ↔
    ∀ j x, first ≤ j → j < behind → inputs[j]? = some x → isUndefined x = false := by
  have entry (k : Nat) :
      ((inputs.take behind).drop first)[k]? = if first + k < behind then inputs[first + k]? else none := by
    rw [List.getElem?_drop, List.getElem?_take]
  constructor
  · intro gapless j x from_ before there
    refine gapless x (List.mem_iff_getElem?.mpr ⟨j - first, ?_⟩)
    rw [entry, Nat.add_sub_cancel' from_, if_pos before, there]
  · intro defined x member
    obtain ⟨k, there⟩ := List.mem_iff_getElem?.mp member
    rw [entry] at there
    split at there
    · exact defined (first + k) x (Nat.le_add_right _ _) ‹_› there
    · cases there

/-- A series that has a value at a place under a condition, and is undefined there otherwise. -/
structure SettledAt (series : List α) (i : Nat) (computed : Prop) (value : α) : Prop where
  value : computed → series[i]? = some value
  undefined : ¬computed → series[i]? = some undefined

namespace SettledAt

variable {series : List α} {i : Nat} {computed other : Prop} {value : α}

theorem congr (settled : SettledAt series i computed value) (same : other ↔ computed) :
    SettledAt series i other value :=
  ⟨fun holds => settled.value (same.mp holds), fun fails => settled.undefined fun holds => fails (same.mpr holds)⟩

theorem append (settled : SettledAt series i computed value) (front : List α) :
    SettledAt (front ++ series) (front.length + i) computed value := by
  have place : (front ++ series)[front.length + i]? = series[i]? := by
    rw [List.getElem?_append_right (Nat.le_add_right _ _), Nat.add_sub_cancel_left]
  exact ⟨fun holds => place.trans (settled.value holds), fun fails => place.trans (settled.undefined fails)⟩

end SettledAt

/-- Where a series is defined, it has its value. -/
theorem SettledAt.of_defined {series : List Float} {i : Nat} {computed : Prop} {value entry : Float}
    (settled : SettledAt series i computed value) (there : series[i]? = some entry) (defined : entry.isNaN = false) :
    computed ∧ entry = value := by
  by_cases holds : computed
  · exact ⟨holds, Option.some.inj (there.symm.trans (settled.value holds))⟩
  · obtain rfl := Option.some.inj (there.symm.trans (settled.undefined holds))
    exact absurd defined (by decide)

theorem undefineds_getElem? {n i : Nat} (within : i < n) : (undefineds n : List α)[i]? = some undefined := by
  rw [undefineds, List.getElem?_replicate, if_pos within]

theorem gapless_window {period : Nat} {values : List α} {i : Nat} (full : period ≤ i + 1) :
    Gapless values (i + 1 - period) (i + 1) ↔ (windowAt period values i).any isUndefined = false := by
  rw [any_isUndefined_eq_false, windowAt, Gapless, List.drop_take, Nat.sub_sub_self full]

/-- A window is computed if it is full and has no gap. -/
theorem rolling_settledAt {period : Nat} (positive : 1 ≤ period) (f : List α → α) {values : List α} {i : Nat}
    (within : i < values.length) :
    SettledAt (rolling period f values) i (period ≤ i + 1 ∧ Gapless values (i + 1 - period) (i + 1))
      (f (windowAt period values i)) := by
  have entry := rolling_getElem? period f within
  constructor
  · rintro ⟨full, gapless⟩
    rw [entry, if_neg (by omega), (gapless_window full).mp gapless, if_neg Bool.false_ne_true]
  · intro fails
    rw [entry]
    split
    · rfl
    · rename_i full
      have gap : (windowAt period values i).any isUndefined = true :=
        Bool.not_eq_false _ ▸ fun none => fails ⟨by omega, (gapless_window (by omega)).mpr none⟩
      rw [if_pos gap]

/-- What smoothing makes of some values, one after the other. -/
def smoothed (weight : α) : α → List α → α := List.foldl fun previous value => blend weight value previous

/-- Smoothing goes on to a place if nothing is undefined up to it. -/
theorem smoothFrom_settledAt (weight previous : α) {values : List α} {k : Nat} (within : k < values.length) :
    SettledAt (smoothFrom weight previous values) k (Gapless values 0 (k + 1))
      (smoothed weight previous (values.take (k + 1))) := by
  induction values generalizing previous k with
  | nil => exact absurd within (Nat.not_lt_zero k)
  | cons value rest ih =>
    cases gap : isUndefined value with
    | true =>
      constructor
      · intro gapless
        have defined := gapless value (by simp)
        rw [gap] at defined
        cases defined
      · intro _
        rw [smoothFrom, if_pos gap]
        exact undefineds_getElem? within
    | false =>
      rw [smoothFrom, gap, if_neg Bool.false_ne_true]
      cases k with
      | zero =>
        have gapless : Gapless (value :: rest) 0 (0 + 1) := by simpa [Gapless] using gap
        exact ⟨fun _ => rfl, fun fails => absurd gapless fails⟩
      | succ k =>
        rw [List.length_cons, Nat.succ_lt_succ_iff] at within
        have settled := ih (blend weight value previous) within
        have same : Gapless (value :: rest) 0 (k + 1 + 1) ↔ Gapless rest 0 (k + 1) := by
          simp [Gapless, gap]
        exact ⟨fun gapless => settled.value (same.mp gapless),
          fun gapped => settled.undefined fun gapless => gapped (same.mpr gapless)⟩

/-- The value of smoothing at a place: on from the mean of the first values, one after the other. -/
def smoothedAt (weight : α) (period : Nat) (values : List α) (i : Nat) : α :=
  smoothed weight (mean (values.take period)) ((values.take (i + 1)).drop period)

/-- Smoothing reaches every place from the seed on, until the first gap. -/
theorem smoothFromMean_settledAt {weight : α} {period : Nat} (positive : 1 ≤ period) {values : List α} {i : Nat}
    (within : i < values.length) :
    SettledAt (smoothFromMean weight period values) i (period ≤ i + 1 ∧ Gapless values 0 (i + 1))
      (smoothedAt weight period values i) := by
  unfold smoothFromMean
  split
  · rename_i unseeded
    refine ⟨?_, fun _ => undefineds_getElem? within⟩
    rintro ⟨full, gapless⟩
    have seed : (values.take period).any isUndefined = false :=
      any_isUndefined_eq_false.mpr (gapless.mono (Nat.zero_le 0) full)
    simp only [seed, Bool.false_eq_true, or_false] at unseeded
    omega
  · rename_i seeded
    rw [not_or, not_or, Bool.not_eq_true, any_isUndefined_eq_false] at seeded
    obtain ⟨-, long, seed⟩ := seeded
    have front : (undefineds (period - 1) : List α).length = period - 1 := length_undefineds _
    rcases Nat.lt_trichotomy (i + 1) period with early | here | late
    · refine ⟨fun computed => absurd computed.1 (by omega), fun _ => ?_⟩
      rw [List.getElem?_append_left (by omega), undefineds_getElem? (by omega)]
    · have reached : period ≤ i + 1 ∧ Gapless values 0 (i + 1) := ⟨Nat.le_of_eq here.symm, here ▸ seed⟩
      refine ⟨fun _ => ?_, fun fails => absurd reached fails⟩
      have nothing : (values.take (i + 1)).drop period = [] :=
        List.drop_eq_nil_of_le (by rw [List.length_take]; omega)
      rw [List.getElem?_append_right (by omega), front, show i - (period - 1) = 0 by omega, smoothedAt, nothing]
      rfl
    · obtain ⟨k, rfl⟩ : ∃ k, i = period + k := ⟨i - period, by omega⟩
      have inside : k < (values.drop period).length := by
        rw [List.length_drop]
        omega
      have settled := smoothFrom_settledAt weight (mean (values.take period)) inside
      have behind := settled.append (undefineds (period - 1) ++ [mean (values.take period)])
      have later : (values.take (period + k + 1)).drop period = (values.drop period).take (k + 1) := by
        rw [List.drop_take, Nat.add_assoc, Nat.add_sub_cancel_left]
      have split : values.take (period + k + 1) = values.take period ++ (values.drop period).take (k + 1) := by
        rw [Nat.add_assoc, List.take_add]
      rw [List.length_append, front, List.length_singleton, Nat.sub_add_cancel positive, List.append_assoc,
        List.singleton_append] at behind
      rw [smoothedAt, later]
      refine behind.congr ?_
      simp only [Gapless, List.drop_zero, split, List.forall_mem_append]
      exact ⟨fun computed => computed.2.2, fun gapless => ⟨by omega, seed, gapless⟩⟩

/-- Smoothing from the first defined value on reaches every place behind its seed, until the first gap. -/
theorem wilderSmooth_settledAt {period : Nat} (positive : 1 ≤ period) {values : List α} {i : Nat}
    (within : i < values.length) :
    SettledAt (wilderSmooth period values) i
      (∃ start, (values.findIdx? fun value => !isUndefined value) = some start ∧ start + period ≤ i + 1 ∧
        Gapless values start (i + 1))
      (smoothedAt (ofNat 1 / ofNat period) period (values.dropWhile isUndefined)
        (i - (values.takeWhile isUndefined).length)) := by
  cases found : values.findIdx? fun value => !isUndefined value with
  | none =>
    have nothing : ∀ value ∈ values, isUndefined value = true := by
      simpa using List.findIdx?_eq_none_iff.mp found
    refine ⟨nofun, fun _ => ?_⟩
    rw [wilderSmooth_of_all_undefined positive nothing, undefineds_getElem? within]
  | some start =>
    have front := length_takeWhile_of_findIdx? found
    obtain ⟨inside, first⟩ := List.findIdx?_eq_some_iff_findIdx_eq.mp found
    have rest : values.dropWhile isUndefined = values.drop start := by
      rw [List.dropWhile_eq_drop_findIdx_not, first]
    rw [wilderSmooth, front, rest]
    by_cases early : i < start
    · refine ⟨?_, fun _ => ?_⟩
      · rintro ⟨other, same, full, -⟩
        cases same
        omega
      · rw [List.getElem?_append_left (by rwa [length_undefineds]), undefineds_getElem? early]
    · obtain ⟨k, rfl⟩ : ∃ k, i = start + k := ⟨i - start, by omega⟩
      have inside : k < (values.drop start).length := by
        rw [List.length_drop]
        omega
      have settled : SettledAt (smoothFromMean (ofNat 1 / ofNat period) period (values.drop start)) k _ _ :=
        smoothFromMean_settledAt positive inside
      have behind := settled.append (undefineds start)
      rw [length_undefineds] at behind
      rw [Nat.add_sub_cancel_left]
      refine behind.congr ?_
      have same : Gapless values start (start + k + 1) ↔ Gapless (values.drop start) 0 (k + 1) := by
        rw [Gapless, Gapless, List.drop_take, Nat.add_assoc, Nat.add_sub_cancel_left, List.drop_zero]
      constructor
      · rintro ⟨_, ⟨⟩, full, gapless⟩
        exact ⟨by omega, same.mp gapless⟩
      · rintro ⟨full, gapless⟩
        exact ⟨start, rfl, by omega, same.mpr gapless⟩

/-- The average gain and loss after some changes, one after the other. -/
def averaged (weight : α) : α × α → List α → α × α := List.foldl fun averages change =>
  (blend weight (larger change (ofNat 0)) averages.1, blend weight (larger (-change) (ofNat 0)) averages.2)

/-- The average gain and loss among the first changes. -/
def seedAverages (period : Nat) (moves : List α) : α × α :=
  (sum ((moves.take period).filter fun c => less (ofNat 0) c) / ofNat period,
    -sum ((moves.take period).filter fun c => less c (ofNat 0)) / ofNat period)

/-- What every change keeps of both averages, they have behind all changes. -/
theorem averaged_invariant {holds : α → Prop} {weight : α} {seed : α × α} {moves : List α}
    (seeded : holds seed.1 ∧ holds seed.2)
    (kept : ∀ move ∈ moves, ∀ previous, holds previous → holds (blend weight (larger move (ofNat 0)) previous) ∧
      holds (blend weight (larger (-move) (ofNat 0)) previous)) :
    holds (averaged weight seed moves).1 ∧ holds (averaged weight seed moves).2 :=
  List.foldlRecOn (motive := fun averages : α × α => holds averages.1 ∧ holds averages.2) moves _ seeded
    fun _ hold move member => ⟨(kept move member _ hold.1).1, (kept move member _ hold.2).2⟩

theorem averagesFrom_getElem? (weight gain loss : α) {moves : List α} {k : Nat} (within : k < moves.length) :
    (averagesFrom weight gain loss moves)[k]? =
      if Gapless moves 0 (k + 1) then some (averaged weight (gain, loss) (moves.take (k + 1))) else none := by
  induction moves generalizing gain loss k with
  | nil => exact absurd within (Nat.not_lt_zero k)
  | cons change rest ih =>
    cases gap : isUndefined change with
    | true =>
      have gapped : ¬Gapless (change :: rest) 0 (k + 1) := fun gapless => by
        have defined := gapless change (by simp)
        rw [gap] at defined
        cases defined
      rw [averagesFrom, if_pos gap, if_neg gapped, List.getElem?_nil]
    | false =>
      rw [averagesFrom, gap, if_neg Bool.false_ne_true]
      cases k with
      | zero =>
        have gapless : Gapless (change :: rest) 0 (0 + 1) := by simpa [Gapless] using gap
        rw [if_pos gapless]
        rfl
      | succ k =>
        rw [List.length_cons, Nat.succ_lt_succ_iff] at within
        have same : Gapless (change :: rest) 0 (k + 1 + 1) ↔ Gapless rest 0 (k + 1) := by
          simp [Gapless, gap]
        simp only [List.getElem?_cons_succ, ih _ _ within, same]
        rfl

/-- The averages stand at every place behind the period, until the first undefined change. -/
theorem strengthAverages_getElem? {period : Nat} (positive : 1 ≤ period) {closes : List α} {k : Nat}
    (within : period + k < closes.length) :
    (strengthAverages period closes)[k]? =
      if Gapless (changes closes) 0 (period + k) then
        some (averaged (ofNat 1 / ofNat period) (seedAverages period (changes closes))
          (((changes closes).take (period + k)).drop period))
      else none := by
  have moves := length_changes closes
  have split : (changes closes).take (period + k) =
      (changes closes).take period ++ ((changes closes).drop period).take k := List.take_add
  rw [strengthAverages]
  dsimp only
  split
  · rename_i unseeded
    rw [if_neg, List.getElem?_nil]
    intro gapless
    have seed : ((changes closes).take period).any isUndefined = false :=
      any_isUndefined_eq_false.mpr (gapless.mono (Nat.zero_le 0) (Nat.le_add_right period k))
    simp only [seed, Bool.false_eq_true, or_false] at unseeded
    omega
  · rename_i seeded
    rw [not_or, not_or, Bool.not_eq_true, any_isUndefined_eq_false] at seeded
    obtain ⟨-, -, seed⟩ := seeded
    have same : Gapless (changes closes) 0 (period + k) ↔ Gapless ((changes closes).drop period) 0 k := by
      simp only [Gapless, List.drop_zero, split, List.forall_mem_append]
      exact and_iff_right seed
    simp only [same]
    rw [List.drop_take, Nat.add_sub_cancel_left]
    cases k with
    | zero =>
      have gapless : Gapless ((changes closes).drop period) 0 0 := by simp [Gapless]
      rw [if_pos gapless]
      rfl
    | succ k =>
      rw [List.getElem?_cons_succ, averagesFrom_getElem? _ _ _ (by rw [List.length_drop]; omega)]
      rfl

theorem mem_strengthAverages {period : Nat} {closes : List α} {average : α × α}
    (member : average ∈ strengthAverages period closes) :
    1 ≤ period ∧ ∃ k, period + k < closes.length ∧ Gapless (changes closes) 0 (period + k) ∧
      average = averaged (ofNat 1 / ofNat period) (seedAverages period (changes closes))
        (((changes closes).take (period + k)).drop period) := by
  have positive : 1 ≤ period := by
    refine Nat.pos_of_ne_zero ?_
    rintro rfl
    rw [strengthAverages, if_pos (Or.inl rfl)] at member
    cases member
  obtain ⟨k, there⟩ := List.mem_iff_getElem?.mp member
  obtain ⟨inside, -⟩ := List.getElem?_eq_some_iff.mp there
  have fit := length_strengthAverages_le period closes
  have within : period + k < closes.length := by omega
  have entry := strengthAverages_getElem? positive within
  rw [there] at entry
  split at entry
  · exact ⟨positive, k, within, ‹_›, Option.some.inj entry⟩
  · cases entry

/-- The value of the oscillator at a place. -/
def strengthAt (period : Nat) (moves : List α) (i : Nat) : α :=
  let averages := averaged (ofNat 1 / ofNat period) (seedAverages period moves) ((moves.take i).drop period)
  relativeStrength averages.1 averages.2

theorem rsi_settledAt {period : Nat} (positive : 1 ≤ period) {closes : List α} {i : Nat}
    (within : i < closes.length) :
    SettledAt (rsi period closes) i (period ≤ i ∧ Gapless (changes closes) 0 i)
      (strengthAt period (changes closes) i) := by
  have fit := length_strengthAverages_le period closes
  have front : (undefineds (min period closes.length) : List α).length = min period closes.length :=
    length_undefineds _
  rw [rsi_eq_append, List.append_assoc]
  by_cases early : i < period
  · refine ⟨fun computed => absurd computed.1 (by omega), fun _ => ?_⟩
    rw [List.getElem?_append_left (by omega), undefineds_getElem? (by omega)]
  · obtain ⟨k, rfl⟩ : ∃ k, i = period + k := ⟨i - period, by omega⟩
    have averages := strengthAverages_getElem? positive within
    rw [Nat.min_eq_left (by omega)] at front ⊢
    constructor
    · rintro ⟨-, gapless⟩
      rw [if_pos gapless] at averages
      obtain ⟨inside, -⟩ := List.getElem?_eq_some_iff.mp averages
      rw [List.getElem?_append_right (by omega), front, Nat.add_sub_cancel_left,
        List.getElem?_append_left (by rwa [List.length_map]), List.getElem?_map, averages]
      rfl
    · intro fails
      rw [if_neg fun gapless => fails ⟨by omega, gapless⟩, List.getElem?_eq_none_iff] at averages
      rw [List.getElem?_append_right (by omega), front, Nat.add_sub_cancel_left,
        List.getElem?_append_right (by rwa [List.length_map]), undefineds_getElem? (by rw [List.length_map]; omega)]

namespace Indicator

/-- What an indicator reads of the bars. -/
def inputs (bars : List (Bar Float)) : Indicator → List Float
  | sma _ | ema _ | bollinger _ _ _ => bars.map Bar.closing
  | rsi _ => changes (bars.map Bar.closing)
  | atr _ => trueRanges bars
  | donchian .upper _ => bars.map Bar.high
  | donchian .lower _ => bars.map Bar.low

/-- From one bar to the next the close changes, which the oscillator reads, and a true range belongs to the later
bar. -/
theorem inputs_getElem? {bars : List (Bar Float)} {i : Nat} {previous bar : Bar Float}
    (before : bars[i]? = some previous) (here : bars[i + 1]? = some bar) (period : Nat) :
    ((rsi period).inputs bars)[i]? = some (bar.closing - previous.closing) ∧
      ((atr period).inputs bars)[i + 1]? = some (trueRange previous bar) := by
  refine ⟨changes_getElem? ?_ ?_, trueRanges_getElem? before here⟩
  · rw [List.getElem?_map, before, Option.map_some]
  · rw [List.getElem?_map, here, Option.map_some]

/-- Where an indicator is computed: a window as soon as it is full, if it has no gap; an average of closes if there is no
gap up to its place; an oscillator if none of the changes up to its place is undefined; and a volatility from `period`
true ranges on, counted from the first defined one, up to the next gap. -/
def ComputedAt (bars : List (Bar Float)) (i : Nat) (indicator : Indicator) : Prop :=
  match indicator with
  | sma period | bollinger _ period _ | donchian _ period =>
    period ≤ i + 1 ∧ Gapless (indicator.inputs bars) (i + 1 - period) (i + 1)
  | ema period => period ≤ i + 1 ∧ Gapless (indicator.inputs bars) 0 (i + 1)
  | rsi period => period ≤ i ∧ Gapless (indicator.inputs bars) 0 i
  | atr period => ∃ start, ((indicator.inputs bars).findIdx? fun range => !range.isNaN) = some start ∧
      start + period ≤ i + 1 ∧ Gapless (indicator.inputs bars) start (i + 1)

/-- What is computed there. -/
def valueAt (bars : List (Bar Float)) (i : Nat) (indicator : Indicator) : Float :=
  match indicator with
  | sma period => mean (windowAt period (indicator.inputs bars) i)
  | bollinger band period multiplier => bollingerValue band multiplier (windowAt period (indicator.inputs bars) i)
  | donchian band period => donchianValue band (windowAt period (indicator.inputs bars) i)
  | ema period => smoothedAt (ofNat 2 / (ofNat period + ofNat 1)) period (indicator.inputs bars) i
  | rsi period => strengthAt period (indicator.inputs bars) i
  | atr period => smoothedAt (ofNat 1 / ofNat period) period ((indicator.inputs bars).dropWhile isUndefined)
      (i - ((indicator.inputs bars).takeWhile isUndefined).length)

theorem series_settledAt {indicator : Indicator} (positive : 1 ≤ indicator.period) {bars : List (Bar Float)} {i : Nat}
    (within : i < bars.length) :
    SettledAt (indicator.series bars) i (indicator.ComputedAt bars i) (indicator.valueAt bars i) := by
  have entries {part : Bar Float → Float} : i < (bars.map part).length := by rwa [List.length_map]
  cases indicator with
  | sma period => exact rolling_settledAt positive mean entries
  | bollinger band period multiplier => exact rolling_settledAt positive (bollingerValue band multiplier) entries
  | donchian band period => cases band <;> exact rolling_settledAt positive (donchianValue _) entries
  | ema period => exact smoothFromMean_settledAt positive entries
  | rsi period => exact rsi_settledAt positive entries
  | atr period => exact wilderSmooth_settledAt positive (by rwa [trueRanges_causal.length_eq])

/-- A volatility has no true range at the first bar, so nothing is computed in front of the lookback. -/
theorem lookback_le_of_computedAt {indicator : Indicator} {bars : List (Bar Float)} {i : Nat}
    (computed : indicator.ComputedAt bars i) : indicator.lookback ≤ i := by
  cases indicator with
  | sma period | ema period | bollinger band period multiplier | donchian band period =>
    have full := computed.1
    simp only [lookback]
    omega
  | rsi period => exact computed.1
  | atr period =>
    obtain ⟨start, found, full, -⟩ := computed
    have behind : 1 ≤ start := by
      refine Nat.pos_of_ne_zero ?_
      rintro rfl
      obtain ⟨inside, defined, -⟩ := List.findIdx?_eq_some_iff_getElem.mp found
      have there := (trueRanges_getElem?_zero bars).symm.trans (List.getElem?_eq_getElem inside)
      obtain ⟨first, -, gap⟩ := Option.map_eq_some_iff.mp there
      rw [← gap] at defined
      exact absurd defined (by decide)
    simp only [lookback]
    omega

/-- Whether an indicator is made of windows, each on its own. The others go on from what they have made before. -/
def isWindowed : Indicator → Bool
  | sma _ | bollinger _ _ _ | donchian _ _ => true
  | ema _ | rsi _ | atr _ => false

/-- A bar at which an indicator misses its input. A change belongs to the later one of its bars, and a volatility
misses nothing in front of the first true range. -/
def GapAt (bars : List (Bar Float)) (gap : Nat) (indicator : Indicator) : Prop :=
  match indicator with
  | rsi _ => 1 ≤ gap ∧ ∃ x, (indicator.inputs bars)[gap - 1]? = some x ∧ x.isNaN = true
  | atr _ => (∃ start ≤ gap, ((indicator.inputs bars).findIdx? fun range => !range.isNaN) = some start) ∧
      ∃ x, (indicator.inputs bars)[gap]? = some x ∧ x.isNaN = true
  | _ => ∃ x, (indicator.inputs bars)[gap]? = some x ∧ x.isNaN = true

/-- A window that has left a gap behind is computed again. -/
theorem computedAt_of_isWindowed {indicator : Indicator} (windowed : indicator.isWindowed = true)
    {bars : List (Bar Float)} {gap i : Nat} (left : gap + indicator.period ≤ i)
    (after : ∀ later, gap < later → later ≤ i → ¬indicator.GapAt bars later) : indicator.ComputedAt bars i := by
  have window {inputs : List Float} {period : Nat} (left : gap + period ≤ i)
      (after : ∀ later, gap < later → later ≤ i → ¬∃ x, inputs[later]? = some x ∧ x.isNaN = true) :
      period ≤ i + 1 ∧ Gapless inputs (i + 1 - period) (i + 1) := by
    refine ⟨by omega, gapless_iff.mpr fun j x first behind there => ?_⟩
    exact Bool.eq_false_iff.mpr fun undefined => after j (by omega) (by omega) ⟨x, there, undefined⟩
  cases indicator with
  | sma period | bollinger band period multiplier | donchian band period => exact window left after
  | ema period | rsi period | atr period => cases windowed

/-- What goes on from before never gets over a gap. -/
theorem not_computedAt_of_gapAt {indicator : Indicator} (recursive : indicator.isWindowed = false)
    {bars : List (Bar Float)} {gap i : Nat} (gapped : indicator.GapAt bars gap) (le : gap ≤ i) :
    ¬indicator.ComputedAt bars i := by
  have hit {inputs : List Float} {first behind place : Nat} (gapless : Gapless inputs first behind)
      (from_ : first ≤ place) (before : place < behind)
      (gapped : ∃ x, inputs[place]? = some x ∧ x.isNaN = true) : False := by
    obtain ⟨x, there, undefined⟩ := gapped
    have defined : x.isNaN = false := gapless_iff.mp gapless place x from_ before there
    rw [defined] at undefined
    cases undefined
  cases indicator with
  | sma period | bollinger band period multiplier | donchian band period => cases recursive
  | ema period => exact fun computed => hit computed.2 (Nat.zero_le gap) (by omega) gapped
  | rsi period =>
    obtain ⟨some, gapped⟩ := gapped
    exact fun computed => hit computed.2 (Nat.zero_le _) (by omega) gapped
  | atr period =>
    obtain ⟨⟨start, before, first⟩, gapped⟩ := gapped
    rintro ⟨other, found, -, gapless⟩
    obtain rfl : other = start := Option.some.inj (found.symm.trans first)
    exact hit gapless before (by omega) gapped

/-- The entry of a series at one of the bars. -/
structure EntryAt (indicator : Indicator) (bars : List (Bar Float)) (i : Nat) (series : List Float) : Prop where
  settled : SettledAt series i (indicator.ComputedAt bars i) (indicator.valueAt bars i)
  warmup : i < indicator.lookback → series[i]? = some undefined
  recovers : indicator.isWindowed = true → ∀ gap, gap + indicator.period ≤ i →
    (∀ later, gap < later → later ≤ i → ¬indicator.GapAt bars later) →
      series[i]? = some (indicator.valueAt bars i)
  stays : indicator.isWindowed = false → ∀ gap, indicator.GapAt bars gap → gap ≤ i → series[i]? = some undefined

/-- Over any bars an indicator is computed exactly where its inputs are known, and undefined at all other places: in
front of its lookback, for windows as long as a gap is among them, and for the others from the first gap on. -/
theorem compute_entryAt {indicator : Indicator} {bars : List (Bar Float)} {i : Nat}
    (positive : 1 ≤ indicator.period) (bounded : indicator.period + bars.length < positionLimit)
    (within : i < bars.length) :
    ∃ series, indicator.compute bars = .ok series ∧ series.length = bars.length ∧
      indicator.EntryAt bars i series := by
  have notWidest : indicator ≠ .rsi (positionLimit - 1) := by
    rintro rfl
    simp only [period] at bounded
    omega
  have settled := series_settledAt positive within
  refine ⟨indicator.series bars, compute_eq_series positive bounded notWidest, indicator.series_causal.length_eq bars,
    settled, ?_, ?_, ?_⟩
  · exact fun early => settled.undefined fun computed => absurd (lookback_le_of_computedAt computed) (by omega)
  · exact fun windowed gap left after => settled.value (computedAt_of_isWindowed windowed left after)
  · exact fun recursive gap gapped le => settled.undefined (not_computedAt_of_gapAt recursive gapped le)

/-- Behind the gap a window is computed again, and an average is not. A volatility over two bars is there as soon as two
of them have a bar before them, and lost behind the gap; an oscillator over one bar is lost at the gap. -/
theorem gappedBars_entryAt :
    1 ≤ (sma 1).period ∧ (sma 1).period + gappedBars.length < positionLimit ∧ 3 < gappedBars.length ∧
      (∃ series, (sma 1).compute gappedBars = .ok series ∧ (sma 1).EntryAt gappedBars 3 series ∧
        series[3]? = some 99.0) ∧
      (∃ series, (ema 1).compute gappedBars = .ok series ∧ series[3]? = some undefined) ∧
      (∃ series, (rsi 1).compute gappedBars = .ok series ∧ (rsi 1).EntryAt gappedBars 1 series ∧
        series[1]? = some 100.0 ∧ series[2]? = some undefined) ∧
      ∃ series, (atr 2).compute gappedBars = .ok series ∧ (atr 2).EntryAt gappedBars 2 series ∧
        series[1]? = some undefined ∧ series[2]? = some 4.0 ∧ series[3]? = some undefined := by
  have bounded : (sma 1).period + gappedBars.length < positionLimit := by decide
  have entries {indicator : Indicator} (positive : 1 ≤ indicator.period)
      (fits : indicator.period + gappedBars.length < positionLimit) :
      ∃ series, indicator.compute gappedBars = .ok series ∧
        ∀ i < gappedBars.length, indicator.EntryAt gappedBars i series := by
    obtain ⟨series, run, -, -⟩ := compute_entryAt positive fits (by decide : 0 < gappedBars.length)
    refine ⟨series, run, fun i within => ?_⟩
    obtain ⟨other, again, -, entry⟩ := compute_entryAt positive fits within
    cases run.symm.trans again
    exact entry
  obtain ⟨means, meansRun, mean⟩ := @entries (sma 1) (by decide) bounded
  obtain ⟨averages, averagesRun, average⟩ := @entries (ema 1) (by decide) bounded
  obtain ⟨strengths, strengthsRun, strength⟩ := @entries (rsi 1) (by decide) bounded
  obtain ⟨ranges, rangesRun, range⟩ := @entries (atr 2) (by decide) (by decide)
  have meanComputed : (sma 1).ComputedAt gappedBars 3 := by
    change _ ∧ Gapless _ _ _
    decide
  have meanValue : (sma 1).valueAt gappedBars 3 = 99.0 := by decide
  have averageGap : (ema 1).GapAt gappedBars 2 := ⟨0.0 / 0.0, rfl, by decide⟩
  have strengthComputed : (rsi 1).ComputedAt gappedBars 1 := by
    change _ ∧ Gapless _ _ _
    decide
  have strengthValue : (rsi 1).valueAt gappedBars 1 = 100.0 := by decide
  have strengthGap : (rsi 1).GapAt gappedBars 2 := ⟨by decide, _, (inputs_getElem? (i := 1) rfl rfl 1).1, by decide⟩
  have first : ((atr 2).inputs gappedBars).findIdx? (fun range => !range.isNaN) = some 1 := by decide
  have rangeComputed : (atr 2).ComputedAt gappedBars 2 := by
    refine ⟨1, first, by decide, ?_⟩
    decide
  have rangeValue : (atr 2).valueAt gappedBars 2 = 4.0 := by decide +kernel
  have rangeGap : (atr 2).GapAt gappedBars 3 :=
    ⟨⟨1, by decide, first⟩, _, (inputs_getElem? (i := 2) rfl rfl 2).2, by decide⟩
  refine ⟨by decide, bounded, by decide, ⟨means, meansRun, mean 3 (by decide), ?_⟩, ⟨averages, averagesRun, ?_⟩,
    ⟨strengths, strengthsRun, strength 1 (by decide), ?_, ?_⟩,
    ⟨ranges, rangesRun, range 2 (by decide), ?_, ?_, ?_⟩⟩
  · exact meanValue ▸ (mean 3 (by decide)).settled.value meanComputed
  · exact (average 3 (by decide)).stays rfl 2 averageGap (by decide)
  · exact strengthValue ▸ (strength 1 (by decide)).settled.value strengthComputed
  · exact (strength 2 (by decide)).stays rfl 2 strengthGap le_rfl
  · exact (range 1 (by decide)).warmup (by decide)
  · exact rangeValue ▸ (range 2 (by decide)).settled.value rangeComputed
  · exact (range 3 (by decide)).stays rfl 3 rangeGap le_rfl

end Indicator

end SignalDesk
