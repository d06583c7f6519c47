import SignalDesk.Proofs.ChannelOrder
import SignalDesk.Proofs.ExactNumbers

namespace SignalDesk

open Scalar

open Exact hiding undefined

/-- A number from the least to the greatest of some numbers. -/
def Exact.Amid (values : List ℚ) (x : Exact) : Prop :=
  ∃ least greatest : ℚ, values.minimum = least ∧ values.maximum = greatest ∧ x.In (Set.Icc least greatest)

section Bounds

variable {low high weight : ℚ} {x : Exact} {values : List ℚ}

/-- What lies between any two bounds of some numbers lies amid them. -/
theorem amid_of_bounds (nonempty : values ≠ [])
    (between : ∀ low high, (∀ y ∈ values, y ∈ Set.Icc low high) → x.In (Set.Icc low high)) : x.Amid values := by
  have some := List.length_pos_iff.mpr nonempty
  have least := (List.coe_minimum_of_length_pos some).symm
  have greatest := (List.coe_maximum_of_length_pos some).symm
  refine ⟨_, _, least, greatest, between _ _ fun y member => ?_⟩
  exact ⟨(List.minimum_eq_coe_iff.mp least).2 y member, (List.maximum_eq_coe_iff.mp greatest).2 y member⟩

/-- There is no room amid equal numbers. -/
theorem Exact.Amid.eq_number {c : ℚ} (amid : x.Amid values) (constant : ∀ y ∈ values, y = c) : x = number c := by
  obtain ⟨least, greatest, minimal, maximal, q, ⟨above, below⟩, rfl⟩ := amid
  rw [constant _ (List.minimum_eq_coe_iff.mp minimal).1] at above
  rw [constant _ (List.maximum_eq_coe_iff.mp maximal).1] at below
  rw [le_antisymm below above]

/-- A mean weighs every number equally. -/
theorem mean_in (nonempty : values ≠ []) (inside : ∀ y ∈ values, y ∈ Set.Icc low high) :
    (mean (values.map number)).In (Set.Icc low high) := by
  have count : (0 : ℚ) < values.length := Nat.cast_pos.mpr (List.length_pos_iff.mpr nonempty)
  have above := List.card_nsmul_le_sum values low fun y member => (inside y member).1
  have below := List.sum_le_card_nsmul values high fun y member => (inside y member).2
  rw [nsmul_eq_mul, mul_comm] at above below
  exact ⟨_, ⟨(le_div_iff₀ count).mpr above, (div_le_iff₀ count).mpr below⟩, mean_number nonempty⟩

/-- However long smoothing goes on, it does not leave the bounds. -/
theorem smoothed_in (nonneg : 0 ≤ weight) (atMost : weight ≤ 1) (inside : ∀ y ∈ values, y ∈ Set.Icc low high)
    (start : x.In (Set.Icc low high)) : (smoothed (number weight) x (values.map number)).In (Set.Icc low high) := by
  rw [smoothed, List.foldl_map]
  refine List.foldlRecOn values _ start fun previous kept y member => ?_
  exact .blend (convex_Icc low high) nonneg atMost ⟨y, inside y member, rfl⟩ kept

end Bounds

/-- The entry of a series of averages: in front of the first place there is none, and from there on it lies amid what is
averaged, so that it is the same where all of that is the same. -/
structure AverageAt (series : List Exact) (first i : Nat) (inputs : List ℚ) : Prop where
  early : i < first → series[i]? = some .undefined
  amid : first ≤ i → ∃ x, series[i]? = some x ∧ x.Amid inputs
  constant : first ≤ i → ∀ c, (∀ input ∈ inputs, input = c) → series[i]? = some (.number c)

namespace AverageAt

variable {series : List Exact} {first i : Nat} {inputs : List ℚ}

theorem of_settledAt {computed : Prop} {value : Exact} (settled : SettledAt series i computed value)
    (reached : computed ↔ first ≤ i) (amid : first ≤ i → value.Amid inputs) : AverageAt series first i inputs where
  early before := settled.undefined fun computed => absurd (reached.mp computed) (by omega)
  amid from_ := ⟨value, settled.value (reached.mpr from_), amid from_⟩
  constant from_ c same := by rw [settled.value (reached.mpr from_), (amid from_).eq_number same]

/-- Behind another entry every place is one further. -/
theorem cons (average : AverageAt series first i inputs) (x : Exact) :
    AverageAt (x :: series) (first + 1) (i + 1) inputs where
  early before := average.early (by omega)
  amid from_ := average.amid (by omega)
  constant from_ := average.constant (by omega)

end AverageAt

variable {period i : Nat} {values : List ℚ} {bars : List (Bar ℚ)}

theorem sma_averageAt (positive : 1 ≤ period) (within : i < values.length) :
    AverageAt (sma period (values.map number)) (period - 1) i (windowAt period values i) := by
  refine .of_settledAt (rolling_settledAt positive mean (by rwa [List.length_map])) ?_ fun from_ => ?_
  · rw [and_iff_left (gapless_number _ _)]
    omega
  · rw [windowAt_map]
    have filled := windowAt_ne_nil positive (by omega) within
    exact amid_of_bounds filled fun _ _ inside => mean_in filled inside

/-- Smoothing that starts from a mean stays amid all that it has seen. -/
theorem smoothFromMean_averageAt {weight : ℚ} (nonneg : 0 ≤ weight) (atMost : weight ≤ 1) (positive : 1 ≤ period)
    (within : i < values.length) :
    AverageAt (smoothFromMean (number weight) period (values.map number)) (period - 1) i (values.take (i + 1)) := by
  refine .of_settledAt (smoothFromMean_settledAt positive (by rwa [List.length_map])) ?_ fun from_ => ?_
  · rw [and_iff_left (gapless_number _ _)]
    omega
  · have long : period ≤ i + 1 := by omega
    have filled : values.take period ≠ [] := by
      rw [← List.length_pos_iff, List.length_take]
      omega
    have seed : ∀ y ∈ values.take period, y ∈ values.take (i + 1) := fun _ member =>
      (List.take_prefix_take_left long).subset member
    refine amid_of_bounds (List.ne_nil_of_mem (seed _ (List.head_mem filled))) fun low high inside => ?_
    rw [smoothedAt, ← List.map_take, ← List.map_take, ← List.map_drop]
    refine smoothed_in nonneg atMost (fun y member => inside y (List.mem_of_mem_drop member)) ?_
    exact mean_in filled fun y member => inside y (seed y member)

/-- The weight of a new value is a share of the whole. -/
theorem ema_averageAt (positive : 1 ≤ period) (within : i < values.length) :
    AverageAt (ema period (values.map number)) (period - 1) i (values.take (i + 1)) := by
  have one : (1 : ℚ) ≤ period := Nat.one_le_cast.mpr positive
  have weight : (ofNat 2 / (ofNat period + ofNat 1) : Exact) = number (2 / (period + 1)) := by
    rw [ofNat_number, ofNat_number, ofNat_number, number_add, Nat.cast_ofNat, Nat.cast_one,
      number_div (by positivity)]
  rw [ema, weight]
  exact smoothFromMean_averageAt (by positivity) ((div_le_one (by positivity)).mpr (by linarith)) positive within

/-- How far the price moved over one bar, from the close before it, in exact numbers. -/
def exactRange (previous bar : Bar ℚ) : ℚ :=
  max (max (bar.high - bar.low) |bar.high - previous.closing|) |bar.low - previous.closing|

/-- The true ranges of all bars but the first one. -/
def exactRanges (bars : List (Bar ℚ)) : List ℚ := List.zipWith exactRange bars bars.tail

theorem trueRange_exact (previous bar : Bar ℚ) :
    trueRange previous.exact bar.exact = number (exactRange previous bar) := by
  simp [trueRange, Bar.exact, exactRange]

theorem trueRanges_exact (first : Bar ℚ) (rest : List (Bar ℚ)) :
    trueRanges ((first :: rest).map Bar.exact) =
      undefined :: (exactRanges (first :: rest)).map number := by
  rw [List.map_cons, trueRanges, ← List.map_cons, List.zipWith_map, exactRanges, List.tail_cons, List.map_zipWith]
  simp only [trueRange_exact]

theorem wilderSmooth_number (values : List ℚ) : wilderSmooth period (values.map number) =
    smoothFromMean (ofNat 1 / ofNat period) period (values.map number) := by
  cases values with
  | nil => simp [wilderSmooth, undefineds]
  | cons value rest => exact wilderSmooth_cons_of_defined rfl _

/-- The first bar has no true range, so every place is one further than among the ranges. -/
theorem atr_averageAt (positive : 1 ≤ period) (within : i < bars.length) :
    AverageAt (atr period (bars.map Bar.exact)) period i ((exactRanges bars).take i) := by
  obtain ⟨first, rest, rfl⟩ := List.exists_cons_of_length_pos (Nat.zero_lt_of_lt within)
  rw [atr, trueRanges_exact, wilderSmooth_cons_of_undefined rfl, wilderSmooth_number]
  cases i with
  | zero => exact ⟨fun _ => rfl, fun reached => by omega, fun reached => by omega⟩
  | succ i =>
    obtain ⟨weight, nonneg, atMost⟩ := one_div_ofNat positive
    have inside : i < (exactRanges (first :: rest)).length := by
      simpa [exactRanges] using within
    have average := (smoothFromMean_averageAt nonneg atMost positive inside).cons undefined
    rwa [Nat.sub_add_cancel positive, ← weight] at average

/-- In exact numbers a simple average lies between the least and the greatest close of its window, an exponential one
between those of all closes up to its place, and a volatility between the least and the greatest true range up to its
place; each is defined at every place from its lookback on, and over a constant it is that constant. -/
theorem averages_amid (positive : 1 ≤ period) (within : i < bars.length) :
    (trueRanges (bars.map Bar.exact)).tail = (exactRanges bars).map number ∧
      AverageAt (sma period (exactCloses bars)) (period - 1) i (windowAt period (bars.map Bar.closing) i) ∧
      AverageAt (ema period (exactCloses bars)) (period - 1) i ((bars.map Bar.closing).take (i + 1)) ∧
      AverageAt (atr period (bars.map Bar.exact)) period i ((exactRanges bars).take i) := by
  have closes : i < (bars.map Bar.closing).length := by rwa [List.length_map]
  have ranges : (trueRanges (bars.map Bar.exact)).tail = (exactRanges bars).map number := by
    obtain ⟨first, rest, rfl⟩ := List.exists_cons_of_length_pos (Nat.zero_lt_of_lt within)
    rw [trueRanges_exact, List.tail_cons]
  rw [exactCloses_eq]
  exact ⟨ranges, sma_averageAt positive closes, ema_averageAt positive closes, atr_averageAt positive within⟩

/-- Bars with whole prices. -/
def steppedBars : List (Bar ℚ) :=
  [⟨⟨0, 0⟩, 10, 12, 9, 10, 5⟩, ⟨⟨3600, 0⟩, 10, 15, 10, 14, 5⟩, ⟨⟨7200, 0⟩, 14, 14, 10, 11, 5⟩,
    ⟨⟨10800, 0⟩, 11, 13, 10, 12, 5⟩]

/-- Two steps behind their seeds the averages are no longer whole, but still amid the prices and the ranges. -/
theorem steppedBars_averages :
    1 ≤ 2 ∧ 3 < steppedBars.length ∧ AverageAt (sma 2 (exactCloses steppedBars)) 1 3 [11, 12] ∧
      AverageAt (ema 2 (exactCloses steppedBars)) 1 3 [10, 14, 11, 12] ∧
      AverageAt (atr 2 (steppedBars.map Bar.exact)) 2 3 [5, 4, 3] ∧
      (ema 2 (exactCloses steppedBars))[3]? = some (number (106 / 9)) ∧
      (atr 2 (steppedBars.map Bar.exact))[3]? = some (number (15 / 4)) := by
  have within : 3 < steppedBars.length := by decide
  have ranges : (exactRanges steppedBars).take 3 = [5, 4, 3] := by decide +kernel
  obtain ⟨-, simple, exponential, volatility⟩ := averages_amid (show 1 ≤ 2 by decide) within
  rw [ranges] at volatility
  exact ⟨by decide, within, simple, exponential, volatility, by decide +kernel, by decide +kernel⟩

end SignalDesk
