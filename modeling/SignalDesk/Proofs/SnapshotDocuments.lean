import SignalDesk.Codec.Market
import SignalDesk.Proofs.ComputedSeries
import SignalDesk.Proofs.JsonForm

namespace SignalDesk

open Document Decoder

theorem Timeframe.ofDocument_toDocument (site : Site) (t : Timeframe) :
    Timeframe.ofDocument site t.toDocument.canonical = .ok t := by
  cases t <;> rfl

def Bar.isFinite (b : Bar Float) : Bool :=
  b.opening.isFinite && b.high.isFinite && b.low.isFinite && b.closing.isFinite && b.volume.isFinite

theorem Bar.ofDocument_toDocument {b : Bar Float} (regular : b.time.Regular) :
    Bar.ofDocument b.toDocument.canonical = if b.isFinite then .ok b else .error .shape := by
  simp [ofDocument, toDocument, field, lookup_stored, List.lookup_cons,
    instant_toText regular, float_canonical, isFinite, ite_and]

namespace SeriesCache

def isFinite (cache : SeriesCache) : Bool := cache.values.all fun series => series.all Float.isFinite

theorem ofDocument_toDocument (cache : SeriesCache) :
    SeriesCache.ofDocument (SeriesCache.toDocument cache).canonical =
      if cache.isFinite then .ok cache else .error .shape := by
  have read : sortedMap (items float) (ofSortedMap (fun values => list (values.map .float)) cache).canonical =
      if cache.isFinite then .ok cache else .error .shape :=
    sortedMap_canonical fun entry _ => items_canonical fun x _ => float_canonical x
  simp [SeriesCache.ofDocument, SeriesCache.toDocument, field, lookup_stored, read]

end SeriesCache

namespace Snapshot

def isFinite (s : Snapshot) : Bool := s.bars.all Bar.isFinite && SeriesCache.isFinite s.indicators

theorem ofDocument_toDocument {s : Snapshot} (regular : ∀ bar ∈ s.bars, bar.time.Regular) :
    Snapshot.ofDocument s.toDocument.canonical = if s.isFinite then .ok s else .error .shape := by
  have bars : items Bar.ofDocument (list (s.bars.map Bar.toDocument)).canonical =
      if s.bars.all Bar.isFinite then .ok s.bars else .error .shape :=
    items_canonical fun bar member => bar.ofDocument_toDocument (regular bar member)
  simp [ofDocument, toDocument, field, lookup_stored, List.lookup_cons, bars,
    Timeframe.ofDocument_toDocument, SeriesCache.ofDocument_toDocument, isFinite, ite_and, -List.all_eq_true]

end Snapshot

/-- With a bar at hand an indicator that looks back leaves a gap, whatever else is computed. -/
theorem SeriesCache.compute_not_isFinite {bars : List (Bar Float)} {indicators : List Indicator}
    {cache : SeriesCache} (computed : compute bars indicators = .ok cache) (some : bars ≠ [])
    (warms : ∃ indicator ∈ indicators, 1 ≤ indicator.lookback) : cache.isFinite = false := by
  obtain ⟨indicator, member, long⟩ := warms
  have found := get?_compute computed indicator.name
  -- a later indicator of the same name takes its place, but looks back as far
  cases last : indicators.reverse.find? (fun other => other.name == indicator.name) with
  | none =>
    rw [List.find?_eq_none] at last
    exact absurd (beq_self_eq_true _) (last indicator (List.mem_reverse.mpr member))
  | some other =>
    have sameName : other.name = indicator.name := by simpa using List.find?_some last
    have otherLong : 1 ≤ other.lookback := by rwa [Indicator.lookback_eq_of_name_eq sameName]
    rw [last, Option.map_some, SortedMap.get?_eq_some] at found
    have gap : Scalar.undefined ∈ other.series bars :=
      List.mem_of_mem_head? (Indicator.series_head otherLong some)
    have gapped : (other.series bars).all Float.isFinite = false :=
      List.all_eq_false.mpr ⟨Scalar.undefined, gap, by decide⟩
    exact List.all_eq_false.mpr ⟨other.series bars, List.mem_map_of_mem found, by simp [gapped]⟩

namespace Snapshot

/-- A snapshot computed from finite bars comes back from its JSON form exactly if all of its series are
finite throughout. As soon as an indicator looks back, they are not: the gap at its start is written as
`null`, which is read as no number. -/
theorem ofDocument_computed (symbol : String) (timeframe : Timeframe) (bars : List (Bar Float))
    (indicators : List Indicator) (finite : ∀ bar ∈ bars, bar.isFinite = true)
    (regular : ∀ bar ∈ bars, bar.time.Regular)
    (sound : ∀ indicator ∈ indicators, indicator.period ≠ 0 ∧ indicator.fits bars = true) :
    ∃ cache, SeriesCache.compute bars indicators = .ok cache ∧
      let market : Snapshot := ⟨symbol, timeframe, bars, cache⟩
      Snapshot.ofDocument market.toDocument.canonical =
          (if cache.isFinite then .ok market else .error .shape) ∧
        (bars ≠ [] → (∃ indicator ∈ indicators, 1 ≤ indicator.lookback) →
          Snapshot.ofDocument market.toDocument.canonical = .error .shape) := by
  obtain ⟨cache, computed⟩ := SeriesCache.compute_ok sound
  refine ⟨cache, computed, ?_⟩
  intro market
  have barsFinite : bars.all Bar.isFinite = true := List.all_eq_true.mpr finite
  have read : Snapshot.ofDocument market.toDocument.canonical =
      if cache.isFinite then .ok market else .error .shape := by
    rw [ofDocument_toDocument regular, isFinite, barsFinite, Bool.true_and]
  refine ⟨read, fun some warms => ?_⟩
  rw [read, SeriesCache.compute_not_isFinite computed some warms]
  rfl

/-- One bar of a market at rest. -/
def restingBar : Bar Float := ⟨⟨1704153600, 0⟩, 1.0, 1.0, 1.0, 1.0, 1.0⟩

theorem restingBar_regular : restingBar.time.Regular := ⟨by decide, by decide⟩

/-- A mean over one bar leaves no gap. -/
theorem restingBar_read :
    ∃ cache, SeriesCache.compute [restingBar] [.sma 1] = .ok cache ∧
      Snapshot.ofDocument (Snapshot.mk "BTC/USDC" .hour [restingBar] cache).toDocument.canonical =
        .ok ⟨"BTC/USDC", .hour, [restingBar], cache⟩ := by
  obtain ⟨cache, computed, read, -⟩ := ofDocument_computed "BTC/USDC" .hour [restingBar] [.sma 1]
    (by decide) (by simp [restingBar_regular]) (by decide)
  have mean : SeriesCache.compute [restingBar] [.sma 1] = .ok (SortedMap.ofList [("sma_1", [1.0])]) := rfl
  have finite : cache.isFinite = true := by
    cases computed.symm.trans mean
    decide
  exact ⟨cache, computed, read.trans (if_pos finite)⟩

/-- A mean over two bars has no value at the first one. -/
theorem restingBar_unread :
    restingBar.isFinite = true ∧ 1 ≤ (Indicator.sma 2).period ∧
      ∃ cache, SeriesCache.compute [restingBar] [.sma 2] = .ok cache ∧
        Snapshot.ofDocument (Snapshot.mk "BTC/USDC" .hour [restingBar] cache).toDocument.canonical =
          .error .shape := by
  have gap : SeriesCache.compute [restingBar] [.sma 2] = .ok (SortedMap.ofList [("sma_2", [0.0 / 0.0])]) := rfl
  refine ⟨by decide, by decide, _, gap, ?_⟩
  rw [ofDocument_toDocument (by simp [restingBar_regular]), if_neg (by decide)]

end Snapshot

end SignalDesk
