import SignalDesk.Proofs.ChannelBreakout
import SignalDesk.Proofs.ComputedPlaces
import SignalDesk.Proofs.MonotoneDoubles

namespace SignalDesk

open Scalar

theorem windowAt_map {α β : Type} (part : α → β) (period : Nat) (entries : List α) (i : Nat) :
    windowAt period (entries.map part) i = (windowAt period entries i).map part := by
  rw [windowAt, windowAt, ← List.map_drop, ← List.map_take]

/-- A shorter window is the end of a longer one. -/
theorem windowAt_subset {α : Type} {period longer i : Nat} (le : period ≤ longer) (full : longer ≤ i + 1)
    (entries : List α) : windowAt period entries i ⊆ windowAt longer entries i := by
  have shorter : windowAt period entries i = (windowAt longer entries i).drop (longer - period) := by
    rw [windowAt, windowAt, List.drop_take, List.drop_drop, Nat.sub_sub_self le,
      show i + 1 - longer + (longer - period) = i + 1 - period by omega]
  rw [shorter]
  exact List.drop_subset _ _

theorem windowAt_ne_nil {α : Type} {period i : Nat} {entries : List α} (positive : 1 ≤ period) (full : period ≤ i + 1)
    (within : i < entries.length) : windowAt period entries i ≠ [] := by
  rw [← List.length_pos_iff, windowAt, List.length_take, List.length_drop]
  omega

/-- A fold that picks one of two values at each step ends with one of those it was given. -/
theorem foldl_pick_mem {α : Type} {pick : α → α → α} (picks : ∀ a b, pick a b = a ∨ pick a b = b) (start : α)
    (values : List α) : values.foldl pick start ∈ start :: values := by
  induction values generalizing start with
  | nil => exact List.mem_singleton_self start
  | cons value rest ih =>
    rw [List.foldl_cons]
    rcases List.mem_cons.mp (ih (pick start value)) with here | later
    · rw [here]
      rcases picks start value with first | second
      · rw [first]
        exact List.mem_cons_self
      · rw [second]
        exact List.mem_cons_of_mem start List.mem_cons_self
    · exact List.mem_cons_of_mem _ (List.mem_cons_of_mem _ later)

section Channel

variable {window : List Float} (defined : ∀ value ∈ window, value.isNaN = false)

include defined

/-- The edge of a channel is one of the values in it: the infinite double that the search starts from gives way to
the first of them. -/
theorem donchianValue_mem (band : Band) (filled : window ≠ []) : donchianValue band window ∈ window := by
  obtain ⟨value, rest, rfl⟩ := List.exists_cons_of_ne_nil filled
  have valueDefined := defined value List.mem_cons_self
  cases band with
  | upper =>
    have first : larger (-1.0 / 0.0) value = value :=
      larger_eq_right valueDefined (double_not_lt_of_le (endOfLine_le valueDefined))
    rw [donchianValue, List.foldl_cons, first]
    exact foldl_pick_mem (fun a b => ite_eq_or_eq _ a b) value rest
  | lower =>
    have first : smaller (1.0 / 0.0) value = value :=
      smaller_eq_right valueDefined (double_not_lt_of_le (le_endOfLine valueDefined))
    rw [donchianValue, List.foldl_cons, first]
    exact foldl_pick_mem (fun a b => ite_eq_or_eq _ a b) value rest

theorem le_donchianValue {value : Float} (member : value ∈ window) : value ≤ donchianValue .upper window := by
  have filled := List.ne_nil_of_mem member
  have edge := defined _ (donchianValue_mem defined .upper filled)
  refine double_le_of_not_lt edge (defined value member) fun below => ?_
  exact not_lt_self value ((donchianValue_lt_iff defined filled).mp below value member)

theorem donchianValue_le {value : Float} (member : value ∈ window) : donchianValue .lower window ≤ value := by
  have filled := List.ne_nil_of_mem member
  have edge := defined _ (donchianValue_mem defined .lower filled)
  refine double_le_of_not_lt (defined value member) edge fun above => ?_
  exact not_lt_self value ((lt_donchianValue_iff defined filled).mp above value member)

end Channel

/-- The deviation from the mean is not negative, so the lower band does not lie above the upper one. -/
theorem bollingerValue_le {multiplier : Float} (finite : multiplier.isFinite = true) (positive : 0.0 < multiplier)
    {window : List Float} (lower : (bollingerValue .lower multiplier window).isNaN = false)
    (upper : (bollingerValue .upper multiplier window).isNaN = false) :
    bollingerValue .lower multiplier window ≤ bollingerValue .upper multiplier window := by
  simp only [bollingerValue] at lower upper ⊢
  have deviation := sqrt_nonneg_double (defined_of_mul (defined_of_add upper).2).2
  exact sub_le_add_double (mul_nonneg_double finite positive deviation) lower upper

namespace Indicator

theorem compute_eq_of_isWindowed {indicator : Indicator} (windowed : indicator.isWindowed = true)
    (positive : 1 ≤ indicator.period) (bars : List (Bar Float)) :
    indicator.compute bars = .ok (indicator.series bars) := by
  rw [compute, if_neg (by omega), if_pos]
  cases indicator with
  | sma | bollinger | donchian => rfl
  | ema | rsi | atr => cases windowed

/-- An indicator is computed over some bars, and this is its entry at one of them. -/
def YieldsAt (indicator : Indicator) (bars : List (Bar Float)) (i : Nat) (x : Float) : Prop :=
  ∃ series, indicator.compute bars = .ok series ∧ series[i]? = some x

section Entries

variable {indicator : Indicator} {bars : List (Bar Float)} {i : Nat} {x y : Float}

theorem YieldsAt.unique (yields : indicator.YieldsAt bars i x) (also : indicator.YieldsAt bars i y) : x = y := by
  obtain ⟨series, run, there⟩ := yields
  obtain ⟨_, again, here⟩ := also
  cases Except.ok.inj (run.symm.trans again)
  exact Option.some.inj (there.symm.trans here)

theorem exists_yieldsAt (windowed : indicator.isWindowed = true) (positive : 1 ≤ indicator.period)
    (within : i < bars.length) : ∃ x, indicator.YieldsAt bars i x := by
  have inside : i < (indicator.series bars).length := by
    rwa [indicator.series_causal.length_eq]
  exact ⟨_, _, compute_eq_of_isWindowed windowed positive bars, List.getElem?_eq_getElem inside⟩

/-- An entry that is defined is the value of its window. -/
theorem YieldsAt.computed (yields : indicator.YieldsAt bars i x) (windowed : indicator.isWindowed = true)
    (positive : 1 ≤ indicator.period) (within : i < bars.length) (defined : x.isNaN = false) :
    indicator.ComputedAt bars i ∧ x = indicator.valueAt bars i := by
  obtain ⟨series, run, there⟩ := yields
  cases Except.ok.inj (run.symm.trans (compute_eq_of_isWindowed windowed positive bars))
  exact (series_settledAt positive within).of_defined there defined

end Entries

/-- The entries of both series of a channel at one of the bars. -/
structure BandsAt (channel : Band → Indicator) (bars : List (Bar Float)) (i : Nat) (lower upper : Float) : Prop where
  lower : (channel .lower).YieldsAt bars i lower
  upper : (channel .upper).YieldsAt bars i upper

section Bands

variable {channel : Band → Indicator} {bars : List (Bar Float)} {i : Nat}

theorem BandsAt.unique {lower upper otherLower otherUpper : Float} (bands : BandsAt channel bars i lower upper)
    (others : BandsAt channel bars i otherLower otherUpper) : lower = otherLower ∧ upper = otherUpper :=
  ⟨bands.lower.unique others.lower, bands.upper.unique others.upper⟩

theorem exists_bandsAt (windowed : ∀ band, (channel band).isWindowed = true)
    (positive : ∀ band, 1 ≤ (channel band).period) (within : i < bars.length) :
    ∃ lower upper, BandsAt channel bars i lower upper := by
  obtain ⟨lower, atLower⟩ := exists_yieldsAt (windowed .lower) (positive .lower) within
  obtain ⟨upper, atUpper⟩ := exists_yieldsAt (windowed .upper) (positive .upper) within
  exact ⟨lower, upper, atLower, atUpper⟩

end Bands

end Indicator

/-- The bounds of some bars, each of them a price of one of the bars. -/
structure Encloses (window : List (Bar Float)) (lower upper : Float) : Prop where
  highs : ∀ bar ∈ window, bar.high ≤ upper
  top : ∃ bar ∈ window, bar.high = upper
  lows : ∀ bar ∈ window, lower ≤ bar.low
  bottom : ∃ bar ∈ window, bar.low = lower

namespace Encloses

variable {window wider : List (Bar Float)} {lower upper wideLower wideUpper : Float}

theorem of_window (filled : window ≠ []) (highs : ∀ value ∈ window.map Bar.high, value.isNaN = false)
    (lows : ∀ value ∈ window.map Bar.low, value.isNaN = false) :
    Encloses window (donchianValue .lower (window.map Bar.low)) (donchianValue .upper (window.map Bar.high)) where
  highs bar member := le_donchianValue highs (List.mem_map_of_mem member)
  top := List.mem_map.mp (donchianValue_mem highs .upper (by simpa using filled))
  lows bar member := donchianValue_le lows (List.mem_map_of_mem member)
  bottom := List.mem_map.mp (donchianValue_mem lows .lower (by simpa using filled))

/-- One regular bar keeps the sides of a channel apart. -/
theorem le (encloses : Encloses window lower upper) (regular : ∃ bar ∈ window, bar.low ≤ bar.high) :
    lower ≤ upper := by
  obtain ⟨bar, member, order⟩ := regular
  exact double_le_trans (double_le_trans (encloses.lows bar member) order) (encloses.highs bar member)

theorem mono (encloses : Encloses window lower upper) (around : Encloses wider wideLower wideUpper)
    (part : window ⊆ wider) : wideLower ≤ lower ∧ upper ≤ wideUpper := by
  obtain ⟨highest, isHighest, rfl⟩ := encloses.top
  obtain ⟨lowest, isLowest, rfl⟩ := encloses.bottom
  exact ⟨around.lows lowest (part isLowest), around.highs highest (part isHighest)⟩

end Encloses

namespace Indicator

variable {bars : List (Bar Float)} {period i : Nat} {lower upper : Float}

/-- A channel of highs and lows that is defined is the tightest one around its window. -/
theorem BandsAt.encloses (positive : 1 ≤ period) (within : i < bars.length)
    (bands : BandsAt (donchian · period) bars i lower upper) (lowerDefined : lower.isNaN = false)
    (upperDefined : upper.isNaN = false) : period ≤ i + 1 ∧ Encloses (windowAt period bars i) lower upper := by
  obtain ⟨⟨full, lows⟩, rfl⟩ := bands.lower.computed rfl positive within lowerDefined
  obtain ⟨⟨-, highs⟩, rfl⟩ := bands.upper.computed rfl positive within upperDefined
  rw [gapless_window full, any_isUndefined_eq_false] at lows highs
  change ∀ x ∈ windowAt period (bars.map Bar.low) i, x.isNaN = false at lows
  change ∀ x ∈ windowAt period (bars.map Bar.high) i, x.isNaN = false at highs
  rw [windowAt_map] at lows highs
  have encloses := Encloses.of_window (windowAt_ne_nil positive full within) highs lows
  rw [← windowAt_map, ← windowAt_map] at encloses
  exact ⟨full, encloses⟩

/-- Over any bars the two bands of a channel do not cross where both are defined. Those of highs and lows are the
tightest around their window, and a longer period does not bring them closer; those around a mean keep their order
through every rounding and overflow. -/
theorem bands_never_cross (positive : 1 ≤ period) (within : i < bars.length) :
    (∃ lower upper, BandsAt (donchian · period) bars i lower upper ∧
      (lower.isNaN = false → upper.isNaN = false →
        Encloses (windowAt period bars i) lower upper ∧
        ((∃ bar ∈ windowAt period bars i, bar.low ≤ bar.high) → lower ≤ upper) ∧
        ∀ longer ≥ period, ∀ wideLower wideUpper, BandsAt (donchian · longer) bars i wideLower wideUpper →
          wideLower.isNaN = false → wideUpper.isNaN = false →
            wideLower ≤ lower ∧ upper ≤ wideUpper ∧ ¬wideUpper - wideLower < upper - lower)) ∧
    ∀ multiplier : Float, multiplier.isFinite = true → 0.0 < multiplier →
      ∃ lower upper, BandsAt (bollinger · period multiplier) bars i lower upper ∧
        (lower.isNaN = false → upper.isNaN = false → lower ≤ upper) := by
  constructor
  · have found : ∃ lower upper, BandsAt (donchian · period) bars i lower upper :=
      exists_bandsAt (fun _ => rfl) (fun _ => positive) within
    obtain ⟨lower, upper, bands⟩ := found
    refine ⟨lower, upper, bands, fun lowerDefined upperDefined => ?_⟩
    obtain ⟨-, encloses⟩ := bands.encloses positive within lowerDefined upperDefined
    refine ⟨encloses, encloses.le, ?_⟩
    intro longer le wideLower wideUpper wide wideLowerDefined wideUpperDefined
    obtain ⟨full, around⟩ := wide.encloses (positive.trans le) within wideLowerDefined wideUpperDefined
    obtain ⟨below, above⟩ := encloses.mono around (windowAt_subset le full bars)
    refine ⟨below, above, fun narrower => ?_⟩
    obtain ⟨wideDefined, defined, -⟩ := lt_iff_linePlace.mp narrower
    exact double_not_lt_of_le (sub_le_sub_double above below defined wideDefined) narrower
  · intro multiplier finite some
    have found : ∃ lower upper, BandsAt (bollinger · period multiplier) bars i lower upper :=
      exists_bandsAt (fun _ => rfl) (fun _ => positive) within
    obtain ⟨lower, upper, bands⟩ := found
    refine ⟨lower, upper, bands, fun lowerDefined upperDefined => ?_⟩
    obtain ⟨-, rfl⟩ := bands.lower.computed rfl positive within lowerDefined
    obtain ⟨-, rfl⟩ := bands.upper.computed rfl positive within upperDefined
    exact bollingerValue_le finite some lowerDefined upperDefined

/-- The first high is infinite, and the first two lows are the two zeros. -/
def spikedBars : List (Bar Float) :=
  [⟨⟨0, 0⟩, 1.0, 1.0 / 0.0, -0.0, 1.0, 5.0⟩, ⟨⟨3600, 0⟩, 1.0, 4.0, 0.0, 1.0, 5.0⟩,
    ⟨⟨7200, 0⟩, 1.0, 5.0, 2.0, 3.0, 5.0⟩]

theorem spikedBars_bands :
    1 ≤ 2 ∧ 2 < spikedBars.length ∧ (2.0 : Float).isFinite = true ∧ (0.0 : Float) < 2.0 ∧
      BandsAt (donchian · 2) spikedBars 2 0.0 5.0 ∧ Encloses (windowAt 2 spikedBars 2) 0.0 5.0 ∧
      BandsAt (donchian · 3) spikedBars 2 0.0 (1.0 / 0.0) ∧ (5.0 : Float) ≤ 1.0 / 0.0 ∧
      BandsAt (bollinger · 2 2.0) spikedBars 2 0.0 4.0 ∧ (0.0 : Float) ≤ 4.0 := by
  have within : 2 < spikedBars.length := by decide
  have short : BandsAt (donchian · 2) spikedBars 2 0.0 5.0 := ⟨⟨_, rfl, by decide⟩, ⟨_, rfl, by decide⟩⟩
  have long : BandsAt (donchian · 3) spikedBars 2 0.0 (1.0 / 0.0) := ⟨⟨_, rfl, by decide⟩, ⟨_, rfl, by decide⟩⟩
  have around : BandsAt (bollinger · 2 2.0) spikedBars 2 0.0 4.0 :=
    ⟨⟨_, rfl, by decide +kernel⟩, ⟨_, rfl, by decide +kernel⟩⟩
  obtain ⟨⟨lower, upper, bands, tight⟩, ordered⟩ := @bands_never_cross spikedBars 2 2 (by decide) within
  obtain ⟨rfl, rfl⟩ := bands.unique short
  obtain ⟨encloses, -, wider⟩ := tight (by decide) (by decide)
  obtain ⟨-, above, -⟩ := wider 3 (by decide) _ _ long (by decide) (by decide)
  obtain ⟨lower, upper, bands, order⟩ := ordered 2.0 (by decide) (by decide)
  obtain ⟨rfl, rfl⟩ := bands.unique around
  exact ⟨by decide, within, by decide, by decide, short, encloses, long, above, around, order (by decide) (by decide)⟩

end Indicator

end SignalDesk
