import SignalDesk.Proofs.ComputedSeries
import SignalDesk.Proofs.SoundIndicators

namespace SignalDesk

section DistinctByName

variable {indicators : List Indicator}

theorem distinctByName_concat (indicators : List Indicator) (indicator : Indicator) :
    distinctByName (indicators ++ [indicator]) =
      if (distinctByName indicators).any fun other => other.name == indicator.name then distinctByName indicators
      else distinctByName indicators ++ [indicator] := by
  rw [distinctByName, List.foldl_append]
  rfl

theorem distinctByName_subset : distinctByName indicators ⊆ indicators := by
  induction indicators using List.reverseRecOn with
  | nil => exact List.Subset.refl _
  | append_singleton before indicator ih =>
    rw [distinctByName_concat]
    split
    · exact List.subset_append_of_subset_left _ ih
    · exact List.append_subset.mpr ⟨List.subset_append_of_subset_left _ ih, List.subset_append_right _ _⟩

/-- No name is lost. -/
theorem exists_mem_distinctByName {indicator : Indicator} (member : indicator ∈ indicators) :
    ∃ kept ∈ distinctByName indicators, kept.name = indicator.name := by
  induction indicators using List.reverseRecOn with
  | nil => cases member
  | append_singleton before last ih =>
    rw [distinctByName_concat]
    split
    · rename_i known
      rcases List.mem_append.mp member with earlier | new
      · exact ih earlier
      · rw [List.mem_singleton.mp new]
        simpa using known
    · rcases List.mem_append.mp member with earlier | new
      · obtain ⟨kept, isKept, same⟩ := ih earlier
        exact ⟨kept, List.mem_append_left _ isKept, same⟩
      · exact ⟨indicator, List.mem_append_right _ new, rfl⟩

theorem distinctByName_names_nodup (indicators : List Indicator) :
    ((distinctByName indicators).map Indicator.name).Nodup := by
  induction indicators using List.reverseRecOn with
  | nil => exact List.nodup_nil
  | append_singleton before last ih =>
    rw [distinctByName_concat]
    split
    · exact ih
    · rename_i fresh
      rw [List.map_append, List.map_singleton, ← List.concat_eq_append, List.nodup_concat]
      refine ⟨fun known => fresh ?_, ih⟩
      simpa using known

end DistinctByName

/-- Keeping one indicator of each name loses none of those that the kinds ask for. -/
theorem mem_indicatorSet {kinds : List StrategyKind} {indicator : Indicator} :
    indicator ∈ indicatorSet kinds ↔ ∃ kind ∈ kinds, indicator ∈ kind.indicators := by
  have sound {i : Indicator} (asked : i ∈ kinds.flatMap StrategyKind.indicators) : i.Sound := by
    obtain ⟨kind, -, member⟩ := List.mem_flatMap.mp asked
    exact kind.indicators_sound i member
  rw [indicatorSet, ← List.mem_flatMap]
  constructor
  · exact fun kept => distinctByName_subset kept
  · intro asked
    obtain ⟨kept, isKept, same⟩ := exists_mem_distinctByName asked
    rwa [← (sound (distinctByName_subset isKept)).eq_of_name_eq (sound asked) same]

theorem indicatorSet_sound (kinds : List StrategyKind) :
    ∀ indicator ∈ indicatorSet kinds, indicator.Sound := by
  intro indicator member
  obtain ⟨kind, -, asked⟩ := mem_indicatorSet.mp member
  exact kind.indicators_sound indicator asked

/-- Among sound indicators each has its own series under its name. -/
theorem SeriesCache.get?_compute_of_mem {bars : List (Bar Float)} {indicators : List Indicator}
    {cache : SeriesCache} (computed : compute bars indicators = .ok cache)
    (sound : ∀ other ∈ indicators, other.Sound) {indicator : Indicator} (member : indicator ∈ indicators) :
    cache.get? indicator.name = some (indicator.series bars) := by
  rw [get?_compute computed]
  cases found : indicators.reverse.find? fun other => other.name == indicator.name with
  | none =>
    rw [List.find?_eq_none] at found
    exact absurd (beq_self_eq_true _) (found indicator (List.mem_reverse.mpr member))
  | some other =>
    have same : other.name = indicator.name := by simpa using List.find?_some found
    have listed := List.mem_reverse.mp (List.mem_of_find?_eq_some found)
    rw [(sound other listed).eq_of_name_eq (sound indicator member) same]
    rfl

/-- Periods that leave room for the bars are all that a sound indicator needs, but for the oscillator of the
greatest period over no bars. -/
theorem Indicator.Sound.compute_eq_series {indicator : Indicator} {bars : List (Bar Float)}
    (sound : indicator.Sound) (bounded : indicator.period + bars.length < positionLimit)
    (notWidest : bars = [] → indicator ≠ .rsi (positionLimit - 1)) :
    indicator.compute bars = .ok (indicator.series bars) := by
  refine Indicator.compute_eq_series sound.period bounded ?_
  rintro rfl
  have none : bars ≠ [] := fun empty => notWidest empty rfl
  have some := List.length_pos_iff.mpr none
  simp only [Indicator.period] at bounded
  omega

theorem SeriesCache.compute_ok_of_bounded {bars : List (Bar Float)} {indicators : List Indicator}
    (sound : ∀ indicator ∈ indicators, indicator.Sound)
    (bounded : ∀ indicator ∈ indicators, indicator.period + bars.length < positionLimit)
    (notWidest : bars = [] → .rsi (positionLimit - 1) ∉ indicators) :
    ∃ cache, compute bars indicators = .ok cache := by
  refine compute_ok fun indicator member => ?_
  have computed := (sound indicator member).compute_eq_series (bounded indicator member)
    fun empty widest => notWidest empty (widest ▸ member)
  obtain ⟨positive, fits, -⟩ := Indicator.compute_eq_ok.mp computed
  exact ⟨positive, fits⟩

/-- Under the names that a kind reads stand the same series, whether they are computed for this kind alone
or for all kinds of a list. -/
theorem indicatorSet_shares {kinds : List StrategyKind} {kind : StrategyKind} {bars : List (Bar Float)}
    (listed : kind ∈ kinds)
    (bounded : ∀ other ∈ kinds, ∀ indicator ∈ other.indicators,
      indicator.period + bars.length < positionLimit)
    (notWidest : bars = [] → ∀ other ∈ kinds, .rsi (positionLimit - 1) ∉ other.indicators) :
    ∃ shared alone, SeriesCache.compute bars (indicatorSet kinds) = .ok shared ∧
      SeriesCache.compute bars kind.indicators = .ok alone ∧
      ∀ indicator ∈ kind.indicators, ∃ series, indicator.compute bars = .ok series ∧
        alone.get? indicator.name = some series ∧ shared.get? indicator.name = some series := by
  obtain ⟨shared, sharedRun⟩ : ∃ shared, SeriesCache.compute bars (indicatorSet kinds) = .ok shared := by
    refine SeriesCache.compute_ok_of_bounded (indicatorSet_sound kinds) ?_ ?_
    · intro indicator member
      obtain ⟨other, known, asked⟩ := mem_indicatorSet.mp member
      exact bounded other known indicator asked
    · intro empty member
      obtain ⟨other, known, asked⟩ := mem_indicatorSet.mp member
      exact notWidest empty other known asked
  obtain ⟨alone, aloneRun⟩ := SeriesCache.compute_ok_of_bounded kind.indicators_sound (bounded kind listed)
    fun empty => notWidest empty kind listed
  refine ⟨shared, alone, sharedRun, aloneRun, fun indicator asked => ?_⟩
  have computed : indicator.compute bars = .ok (indicator.series bars) :=
    (kind.indicators_sound indicator asked).compute_eq_series (bounded kind listed indicator asked)
      fun empty widest => notWidest empty kind listed (widest ▸ asked)
  exact ⟨indicator.series bars, computed,
    SeriesCache.get?_compute_of_mem aloneRun kind.indicators_sound asked,
    SeriesCache.get?_compute_of_mem sharedRun (indicatorSet_sound kinds)
      (mem_indicatorSet.mpr ⟨kind, listed, asked⟩)⟩

/-- A channel and a band that share their volatility. -/
def sharingKinds : List StrategyKind := [.breakout 20 14 none, .meanReversion 20 2.0 14 14 none]

theorem sharingKinds_shares :
    (.breakout 20 14 none) ∈ sharingKinds ∧
      (∀ other ∈ sharingKinds, ∀ indicator ∈ other.indicators,
        indicator.period + Indicator.gappedBars.length < positionLimit) ∧
      Indicator.gappedBars ≠ [] ∧
      ∃ shared alone, SeriesCache.compute Indicator.gappedBars (indicatorSet sharingKinds) = .ok shared ∧
        SeriesCache.compute Indicator.gappedBars (StrategyKind.breakout 20 14 none).indicators = .ok alone ∧
        ∀ indicator ∈ (StrategyKind.breakout 20 14 none).indicators, ∃ series,
          indicator.compute Indicator.gappedBars = .ok series ∧
            alone.get? indicator.name = some series ∧ shared.get? indicator.name = some series := by
  have bounded : ∀ other ∈ sharingKinds, ∀ indicator ∈ other.indicators,
      indicator.period + Indicator.gappedBars.length < positionLimit := by decide
  exact ⟨List.mem_cons_self, bounded, nofun, indicatorSet_shares List.mem_cons_self bounded nofun⟩

/-- A channel beside a band with the widest oscillator. -/
def crowdedKinds : List StrategyKind :=
  [.breakout 20 14 none, .meanReversion 20 2.0 18446744073709551615 14 none]

/-- The channel can be computed alone and not together with the widest oscillator. -/
theorem crowdedKinds_not_shared :
    (.breakout 20 14 none) ∈ crowdedKinds ∧
      (∀ other ∈ crowdedKinds, ∀ indicator ∈ other.indicators,
        indicator.period + ([] : List (Bar Float)).length < positionLimit) ∧
      (∃ alone, SeriesCache.compute [] (StrategyKind.breakout 20 14 none).indicators = .ok alone) ∧
      SeriesCache.compute [] (indicatorSet crowdedKinds) = .error .positionOverflow :=
  ⟨List.mem_cons_self, by decide, ⟨_, rfl⟩, rfl⟩

end SignalDesk
