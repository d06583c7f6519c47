import Mathlib.Tactic.FieldSimp
import Mathlib.Tactic.Ring
import SignalDesk.Proofs.ExactNumbers

namespace SignalDesk

open Scalar

open Exact hiding undefined

namespace Exact

/-- A number that is not negative. -/
def Nonneg (x : Exact) : Prop := x.In (Set.Ici 0)

namespace Nonneg

variable {x y : Exact} {values : List Exact} {period : Nat}

theorem add (first : x.Nonneg) (second : y.Nonneg) : (x + y).Nonneg := by
  obtain ⟨p, pNonneg, rfl⟩ := first
  obtain ⟨q, qNonneg, rfl⟩ := second
  exact ⟨p + q, Set.mem_Ici.mpr (add_nonneg pNonneg qNonneg), number_add⟩

theorem div_ofNat (nonneg : x.Nonneg) (positive : 1 ≤ period) : (x / ofNat period).Nonneg := by
  obtain ⟨p, pNonneg, rfl⟩ := nonneg
  have divisor : (0 : ℚ) < period := Nat.cast_pos.mpr positive
  exact ⟨p / period, div_nonneg pNonneg divisor.le, number_div divisor.ne'⟩

theorem zero : (ofNat 0 : Exact).Nonneg := ⟨0, Set.self_mem_Ici, by rw [ofNat_number, Nat.cast_zero]⟩

theorem sum (nonneg : ∀ value ∈ values, value.Nonneg) : (Scalar.sum values).Nonneg :=
  List.foldlRecOn values _ (neg_ofNat_zero ▸ zero) fun _ total value member => total.add (nonneg value member)

/-- Only the part of a change above zero counts, and nothing of an undefined one. -/
theorem larger_zero (x : Exact) : (larger x (ofNat 0)).Nonneg := by
  cases x with
  | undefined => exact zero
  | number q => exact ⟨max q 0, le_max_right q 0, by rw [ofNat_number, Nat.cast_zero, larger_number]⟩

theorem blend (positive : 1 ≤ period) (value : x.Nonneg) (previous : y.Nonneg) :
    (blend (ofNat 1 / ofNat period) x y).Nonneg := by
  obtain ⟨weight, nonneg, atMost⟩ := one_div_ofNat positive
  rw [weight]
  exact In.blend (convex_Ici 0) nonneg atMost value previous

end Nonneg

theorem neg_neg_exact (x : Exact) : - -x = x := by
  cases x with
  | undefined => rfl
  | number q => rw [neg_number, neg_number, neg_neg]

theorem isUndefined_neg (x : Exact) : isUndefined (-x) = isUndefined x := by
  cases x <;> rfl

theorem less_zero_neg (x : Exact) : less (ofNat 0) (-x) = less x (ofNat 0) := by
  cases x with
  | undefined => rfl
  | number q =>
    rw [neg_number, ofNat_number, Nat.cast_zero, less_number, less_number]
    exact decide_eq_decide.mpr neg_pos

theorem less_neg_zero (x : Exact) : less (-x) (ofNat 0) = less (ofNat 0) x := by
  rw [← less_zero_neg, neg_neg_exact]

theorem neg_add_neg (x y : Exact) : -x + -y = -(x + y) := by
  cases x with
  | undefined => rfl
  | number p =>
    cases y with
    | undefined => rfl
    | number q => simp only [neg_number, number_add, neg_add]

/-- A sum starts from zero, which is its own opposite. -/
theorem sum_neg (values : List Exact) : sum (values.map fun value => -value) = -sum values := by
  have folded (start : Exact) :
      (values.map fun value => -value).foldl (· + ·) (-start) = -values.foldl (· + ·) start := by
    induction values generalizing start with
    | nil => rfl
    | cons value rest ih => rw [List.map_cons, List.foldl_cons, neg_add_neg, ih, List.foldl_cons]
  rw [sum, sum, ← folded, neg_neg_exact, neg_ofNat_zero]

/-- Between mirrored numbers lies the opposite difference. -/
theorem sub_sub_sub (level : ℚ) (x y : Exact) : (number level - x) - (number level - y) = -(x - y) := by
  cases x with
  | undefined => rfl
  | number p =>
    cases y with
    | undefined => rfl
    | number q => simp only [number_sub, neg_number, sub_sub_sub_cancel_left, neg_sub]

end Exact

section Strength

variable {period : Nat} {gain loss : ℚ}

/-- The share of the gains in all moves, in percent, and a half where nothing moved. -/
def gainShare (gain loss : ℚ) : ℚ := if gain + loss = 0 then 50 else 100 * gain / (gain + loss)

/-- The gains' share and the losses' make up the whole. -/
theorem gainShare_swap (gain loss : ℚ) : gainShare loss gain = 100 - gainShare gain loss := by
  rw [gainShare, gainShare, add_comm loss gain]
  split
  · norm_num
  · rename_i moved
    field_simp
    ring

/-- The three fixed values of the oscillator continue its formula to averages of zero. -/
theorem relativeStrength_number (gains : 0 ≤ gain) (losses : 0 ≤ loss) :
    relativeStrength (number gain) (number loss) = number (gainShare gain loss) := by
  simp only [relativeStrength, ofNat_number, Nat.cast_zero, same_number, gainShare]
  rcases losses.eq_or_lt with rfl | lost
  · rcases gains.eq_or_lt with rfl | gained
    · simp
    · simp [gained.ne']
  · rcases gains.eq_or_lt with rfl | gained
    · simp [lost.ne']
    · have moved : 1 + gain / loss ≠ 0 := by positivity
      have some : gain + loss ≠ 0 := by positivity
      have share : 100 - 100 / (1 + gain / loss) = 100 * gain / (gain + loss) := by
        field_simp
        ring
      rw [decide_eq_false lost.ne', decide_eq_false gained.ne', if_neg some]
      simp only [Bool.and_self, Bool.false_eq_true, if_false, Nat.cast_ofNat, Nat.cast_one, number_div lost.ne',
        number_add, number_div moved, number_sub, share]

/-- Gains and losses that are exchanged give the rest of a hundred. -/
theorem relativeStrength_swap {gain loss : Exact} (gains : gain.Nonneg) (losses : loss.Nonneg) :
    ∃ r, relativeStrength gain loss = number r ∧ relativeStrength loss gain = number (100 - r) := by
  obtain ⟨g, gNonneg, rfl⟩ := gains
  obtain ⟨l, lNonneg, rfl⟩ := losses
  exact ⟨gainShare g l, relativeStrength_number gNonneg lNonneg,
    by rw [relativeStrength_number lNonneg gNonneg, gainShare_swap]⟩

end Strength

section Averages

variable {period : Nat} {moves closes : List Exact}

/-- The opposite changes exchange gains and losses, although the two are summed up differently. -/
theorem seedAverages_neg (period : Nat) (moves : List Exact) :
    seedAverages period (moves.map fun move => -move) = (seedAverages period moves).swap := by
  simp only [seedAverages, ← List.map_take, List.filter_map, Function.comp_def, less_zero_neg, less_neg_zero, sum_neg,
    neg_neg_exact, Prod.swap_prod_mk]

/-- So does every later step, whatever the averages are. -/
theorem averagesFrom_neg (weight gain loss : Exact) (moves : List Exact) :
    averagesFrom weight loss gain (moves.map fun move => -move) =
      (averagesFrom weight gain loss moves).map Prod.swap := by
  induction moves generalizing gain loss with
  | nil => rfl
  | cons change rest ih =>
    rw [List.map_cons, averagesFrom, averagesFrom, isUndefined_neg, neg_neg_exact]
    split
    · rfl
    · dsimp only
      rw [ih, List.map_cons, Prod.swap_prod_mk]

/-- Mirrored closes change by the opposite amounts. -/
theorem changes_mirrored (level : ℚ) (closes : List Exact) :
    changes (closes.map fun close => number level - close) = (changes closes).map fun move => -move := by
  simp only [changes, ← List.map_tail, List.zipWith_map, List.map_zipWith, sub_sub_sub]

theorem strengthAverages_eq_seeded (period : Nat) (closes : List Exact) : strengthAverages period closes =
    if period = 0 ∨ closes.length < period + 1 ∨ ((changes closes).take period).any isUndefined then []
    else seedAverages period (changes closes) :: averagesFrom (ofNat 1 / ofNat period)
      (seedAverages period (changes closes)).1 (seedAverages period (changes closes)).2
      ((changes closes).drop period) := rfl

theorem strengthAverages_mirrored (level : ℚ) (period : Nat) (closes : List Exact) :
    strengthAverages period (closes.map fun close => number level - close) =
      (strengthAverages period closes).map Prod.swap := by
  have gaps : (((changes closes).take period).map fun move => -move).any isUndefined =
      ((changes closes).take period).any isUndefined := by
    simp only [List.any_map, Function.comp_def, isUndefined_neg]
  rw [strengthAverages_eq_seeded, strengthAverages_eq_seeded, List.length_map, changes_mirrored, ← List.map_take, gaps,
    seedAverages_neg, ← List.map_drop, Prod.fst_swap, Prod.snd_swap, averagesFrom_neg]
  split <;> rfl

/-- The average gain and loss are never negative, however long they are smoothed. -/
theorem strengthAverages_nonneg_exact {averages : Exact × Exact}
    (member : averages ∈ strengthAverages period closes) : averages.1.Nonneg ∧ averages.2.Nonneg := by
  obtain ⟨positive, k, -, -, rfl⟩ := mem_strengthAverages member
  have gains (moves : List Exact) : (seedAverages period moves).1.Nonneg := by
    refine Nonneg.div_ofNat (.sum fun move member => ?_) positive
    have above := (List.mem_filter.mp member).2
    cases move with
    | undefined => cases above
    | number q =>
      have positive : 0 < q := by simpa [ofNat_number, less_number] using above
      exact ⟨q, positive.le, rfl⟩
  -- the losses are the gains of the opposite changes
  have losses : (seedAverages period (changes closes)).2.Nonneg := by
    have swapped := gains ((changes closes).map fun move => -move)
    rwa [seedAverages_neg, Prod.fst_swap] at swapped
  refine averaged_invariant ⟨gains _, losses⟩ fun move _ previous nonneg => ?_
  exact ⟨.blend positive (.larger_zero move) nonneg, .blend positive (.larger_zero (-move)) nonneg⟩

/-- Closes may be missing here: a hundred less an undefined value is undefined. -/
theorem rsi_mirrored_eq (level : ℚ) (period : Nat) (closes : List Exact) :
    rsi period (closes.map fun close => number level - close) =
      (rsi period closes).map fun value => number 100 - value := by
  have gaps (n : Nat) : (undefineds n : List Exact).map (fun value => number 100 - value) = undefineds n :=
    List.map_replicate
  rw [rsi_eq_append, rsi_eq_append, strengthAverages_mirrored, List.length_map, List.length_map, List.map_append,
    List.map_append, gaps, gaps, List.map_map, List.map_map]
  congr 2
  refine List.map_congr_left fun averages member => ?_
  obtain ⟨gains, losses⟩ := strengthAverages_nonneg_exact member
  obtain ⟨r, given, mirrored⟩ := relativeStrength_swap gains losses
  rw [Function.comp_apply, Function.comp_apply, Prod.fst_swap, Prod.snd_swap, given, mirrored, number_sub]

end Averages

/-- A bar with its close mirrored: as far below half the level as it was above. -/
def Bar.mirrored (level : ℚ) (b : Bar ℚ) : Bar ℚ := { b with closing := level - b.closing }

theorem exactCloses_mirrored (level : ℚ) (bars : List (Bar ℚ)) :
    exactCloses (bars.map (Bar.mirrored level)) = (exactCloses bars).map fun close => number level - close := by
  simp only [exactCloses_eq, List.map_map]
  rfl

/-- Over rational closes the oscillator is defined from its lookback on, and not before. -/
theorem rsi_number {period i : Nat} (positive : 1 ≤ period) {closes : List ℚ} (within : i < closes.length) :
    (i < period → (rsi period (closes.map number))[i]? = some .undefined) ∧
      (period ≤ i → ∃ r, (rsi period (closes.map number))[i]? = some (number r)) := by
  have entries : i < (closes.map number).length := by rwa [List.length_map]
  have settled := rsi_settledAt positive entries
  refine ⟨fun before => settled.undefined fun computed => absurd computed.1 (by omega), fun reached => ?_⟩
  have moves : changes (closes.map number) = (List.zipWith (· - ·) closes.tail closes).map number := by
    simp only [changes, ← List.map_tail, List.zipWith_map, List.map_zipWith, number_sub]
  have gapless : Gapless (changes (closes.map number)) 0 i := moves ▸ gapless_number 0 i
  obtain ⟨later, rfl⟩ := Nat.exists_eq_add_of_le reached
  have averages := strengthAverages_getElem? positive entries
  rw [if_pos gapless] at averages
  obtain ⟨gains, losses⟩ := strengthAverages_nonneg_exact (List.mem_of_getElem? averages)
  obtain ⟨r, value, -⟩ := relativeStrength_swap gains losses
  exact ⟨r, (settled.value ⟨reached, gapless⟩).trans (congrArg some value)⟩

/-- Two series that have no value in front of the first place and from there on values that make up a hundred. -/
structure MirroredAt (series mirror : List Exact) (first i : Nat) : Prop where
  early : i < first → series[i]? = some .undefined ∧ mirror[i]? = some .undefined
  late : first ≤ i → ∃ r, series[i]? = some (.number r) ∧ mirror[i]? = some (.number (100 - r))

/-- In exact numbers, mirroring all closes mirrors the oscillator: what was a gain is now a loss of the same size, and
the seed, every later step and the fixed values for markets without gains or without losses treat the two alike. -/
theorem rsi_mirrored {period : Nat} (positive : 1 ≤ period) (level : ℚ) (bars : List (Bar ℚ)) :
    (rsi period (exactCloses bars)).length = bars.length ∧
      (rsi period (exactCloses (bars.map (Bar.mirrored level)))).length = bars.length ∧
      ∀ i < bars.length, MirroredAt (rsi period (exactCloses bars))
        (rsi period (exactCloses (bars.map (Bar.mirrored level)))) period i := by
  have length (bars : List (Bar ℚ)) : (rsi period (exactCloses bars)).length = bars.length := by
    rw [(rsi_causal period).length_eq, exactCloses_eq, List.length_map, List.length_map]
  refine ⟨length bars, by rw [length, List.length_map], fun i within => ?_⟩
  rw [exactCloses_mirrored, rsi_mirrored_eq, exactCloses_eq]
  have closes : i < (bars.map Bar.closing).length := by rwa [List.length_map]
  obtain ⟨early, late⟩ := rsi_number positive closes
  constructor
  · intro before
    exact ⟨early before, by rw [List.getElem?_map, early before]; rfl⟩
  · intro reached
    obtain ⟨r, value⟩ := late reached
    exact ⟨r, value, by rw [List.getElem?_map, value]; rfl⟩

/-- Bars that rest at first, then rise, then fall. -/
def swingingBars : List (Bar ℚ) :=
  [(0, 10), (3600, 10), (7200, 10), (10800, 12), (14400, 9)].map fun (seconds, close) =>
    ⟨⟨seconds, 0⟩, 10, 12, 9, close, 5⟩

/-- Without a move, with gains only and with both. -/
theorem swingingBars_mirrored :
    1 ≤ 2 ∧ (∀ i < 5, MirroredAt (rsi 2 (exactCloses swingingBars))
        (rsi 2 (exactCloses (swingingBars.map (Bar.mirrored 21)))) 2 i) ∧
      rsi 2 (exactCloses swingingBars) = [.undefined, .undefined, number 50, number 100, number 25] ∧
      rsi 2 (exactCloses (swingingBars.map (Bar.mirrored 21))) =
        [.undefined, .undefined, number 50, number 0, number 75] :=
  ⟨by decide, (rsi_mirrored (by decide) 21 swingingBars).2.2, by decide +kernel, by decide +kernel⟩

end SignalDesk
