import Mathlib.Data.List.Nodup
import Mathlib.Data.Prod.Lex
import SignalDesk.Cycle
import SignalDesk.Proofs.TextOrder

namespace SignalDesk

/-- The entries given, sorted by their keys. Entries of one key stay as they were given, so only one
arrangement is a stable sort. -/
structure StableSort {α κ : Type} [LinearOrder κ] (key : α → κ) (given sorted : List α) : Prop where
  perm : sorted.Perm given
  ascending : sorted.Pairwise fun a b => key a ≤ key b
  stable (k : κ) : sorted.filter (fun a => key a = k) = given.filter fun a => key a = k

namespace StableSort

variable {α κ : Type} [LinearOrder κ] {key : α → κ}

theorem mergeSort (key : α → κ) (given : List α) :
    StableSort key given (given.mergeSort fun a b => key a ≤ key b) := by
  have trans (a b c : α) : decide (key a ≤ key b) = true → decide (key b ≤ key c) = true →
      decide (key a ≤ key c) = true := by simpa using le_trans
  have total (a b : α) : (decide (key a ≤ key b) || decide (key b ≤ key a)) = true := by
    simpa using le_total (key a) (key b)
  have perm := List.mergeSort_perm given fun a b => decide (key a ≤ key b)
  refine ⟨perm, (List.pairwise_mergeSort trans total given).imp of_decide_eq_true, fun k => ?_⟩
  have ties : (given.filter fun a => key a = k).Pairwise fun a b => decide (key a ≤ key b) = true := by
    refine List.pairwise_of_forall_mem_list fun a aTie b bTie => ?_
    have aKey := of_decide_eq_true (List.mem_filter.mp aTie).2
    have bKey := of_decide_eq_true (List.mem_filter.mp bTie).2
    exact decide_eq_true (aKey.trans bKey.symm).le
  -- The sort keeps the ties as they stand, and by their number there is nothing else among them.
  have kept := (List.sublist_mergeSort trans total ties List.filter_sublist).filter fun a => key a = k
  rw [List.filter_filter, List.filter_congr fun a _ => Bool.and_self _] at kept
  exact (kept.eq_of_length (perm.filter _).length_eq.symm).symm

/-- Where no two entries have one key, the order in which they are given does not matter. -/
theorem eq_of_perm {given others sorted resorted : List α} (first : StableSort key given sorted)
    (second : StableSort key others resorted) (same : given.Perm others)
    (distinct : (given.map key).Nodup) : sorted = resorted := by
  refine List.Perm.eq_of_pairwise ?_ first.ascending second.ascending
    (first.perm.trans (same.trans second.perm.symm))
  intro a b aMember bMember before behind
  have bGiven := same.mem_iff.mpr (second.perm.mem_iff.mp bMember)
  exact List.inj_on_of_nodup_map distinct (first.perm.mem_iff.mp aMember) bGiven
    (le_antisymm before behind)

end StableSort

theorem Timeframe.index_injective : Function.Injective Timeframe.index := by
  intro a b same
  cases a <;> cases b <;> first | rfl | cases same

/-- The place of a market in a report: by the bytes of its symbol, then by its timeframe. -/
def Snapshot.place (market : Snapshot) : List ℕ ×ₗ ℕ :=
  toLex (byteValues market.symbol, market.timeframe.index)

theorem Snapshot.place_eq_iff {a b : Snapshot} :
    a.place = b.place ↔ (a.symbol, a.timeframe) = (b.symbol, b.timeframe) := by
  simp only [place, toLex_inj, Prod.mk.injEq, byteValues_strictMono.injective.eq_iff,
    Timeframe.index_injective.eq_iff]

theorem MarketReport.le_evaluateMarket (desk : Desk) (a b : Snapshot) :
    MarketReport.le (desk.evaluateMarket a) (desk.evaluateMarket b) = decide (a.place ≤ b.place) := by
  have sections : MarketReport.le (desk.evaluateMarket a) (desk.evaluateMarket b) =
      (a.symbol < b.symbol || a.symbol == b.symbol && a.timeframe.index ≤ b.timeframe.index) := rfl
  rw [sections, Bool.eq_iff_iff]
  simp only [Snapshot.place, Prod.Lex.toLex_le_toLex, byteValues_strictMono.lt_iff_lt,
    byteValues_strictMono.injective.eq_iff, Bool.or_eq_true, Bool.and_eq_true, decide_eq_true_eq,
    beq_iff_eq]

/-- The sections of a report stand in an order that only the markets decide, and each is made of its own
market alone. -/
theorem Desk.runCycle_markets_eq (desk : Desk) (markets : List Snapshot) :
    (desk.runCycle markets).markets =
      (markets.mergeSort fun a b => a.place ≤ b.place).map desk.evaluateMarket :=
  (List.map_mergeSort fun a _ b _ => (MarketReport.le_evaluateMarket desk a b).symm).symm

theorem Desk.runCycle_singleton (desk : Desk) (market : Snapshot) :
    (desk.runCycle [market]).markets = [desk.evaluateMarket market] := by
  rw [runCycle_markets_eq, List.mergeSort_singleton, List.map_singleton]

end SignalDesk
