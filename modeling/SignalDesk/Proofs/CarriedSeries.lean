import SignalDesk.Proofs.IndicatorSharing

namespace SignalDesk

theorem Snapshot.finiteBack_eq_ok {s : Snapshot} {key : String} {back : Nat} {value : Float} :
    s.finiteBack key back = .ok value ↔ ∃ series, s.indicators.get? key = some series ∧
      series.reverse[back]? = some value ∧ value.isFinite = true := by
  unfold finiteBack
  cases found : s.indicators.get? key with
  | none => simp
  | some series =>
    cases stands : series.reverse[back]? with
    | none => simp [stands]
    | some last =>
      simp only [Option.some.injEq, exists_eq_left', stands]
      cases finite : last.isFinite with
      | false =>
        simp only [Bool.false_eq_true, if_false, reduceCtorEq, false_iff]
        rintro ⟨rfl, isFinite⟩
        rw [finite] at isFinite
        cases isFinite
      | true =>
        simp only [if_true, Except.ok.injEq]
        exact ⟨fun same => ⟨same, same ▸ finite⟩, And.left⟩

theorem Snapshot.latestClose_eq_ok {s : Snapshot} {close : Float} :
    s.latestClose = .ok close ↔ ∃ bar, s.latestBar = some bar ∧ bar.isSane = true ∧ bar.closing = close := by
  unfold latestClose
  cases latest : s.latestBar with
  | none => simp
  | some bar => cases sane : bar.isSane <;> cases void : bar.isVoid <;> simp [sane, void]

/-- Under their names stand the series of the indicators over the bars. -/
def Snapshot.Carries (market : Snapshot) (indicators : List Indicator) : Prop :=
  ∀ indicator ∈ indicators, market.indicators.get? indicator.name = some (indicator.series market.bars)

theorem Snapshot.carries_of_compute {symbol : String} {timeframe : Timeframe} {bars : List (Bar Float)}
    {kind : StrategyKind} {cache : SeriesCache} (computed : SeriesCache.compute bars kind.indicators = .ok cache) :
    Carries ⟨symbol, timeframe, bars, cache⟩ kind.indicators :=
  fun _ => SeriesCache.get?_compute_of_mem computed kind.indicators_sound

namespace Snapshot.Carries

variable {market : Snapshot} {indicators : List Indicator} {indicator : Indicator} {value : Float}
  {places : Nat}

/-- What is read behind the end of a carried series stands there. -/
theorem back (carries : market.Carries indicators) (member : indicator ∈ indicators)
    (read : market.finiteBack indicator.name places = .ok value) :
    (indicator.series market.bars).reverse[places]? = some value ∧ value.isFinite = true := by
  obtain ⟨series, found, stands, finite⟩ := finiteBack_eq_ok.mp read
  rw [carries indicator member] at found
  cases found
  exact ⟨stands, finite⟩

theorem latest (carries : market.Carries indicators) (member : indicator ∈ indicators)
    (read : market.latestFinite indicator.name = .ok value) :
    (indicator.series market.bars).getLast? = some value ∧ value.isFinite = true := by
  rw [List.getLast?_eq_head?_reverse, List.head?_eq_getElem?]
  exact carries.back member read

theorem previous (carries : market.Carries indicators) (member : indicator ∈ indicators)
    (read : market.previousFinite indicator.name = .ok value) :
    value ∈ indicator.series market.bars ∧ value.isFinite = true := by
  obtain ⟨stands, finite⟩ := carries.back member read
  exact ⟨List.mem_reverse.mp (List.mem_of_getElem? stands), finite⟩

end Snapshot.Carries

end SignalDesk
