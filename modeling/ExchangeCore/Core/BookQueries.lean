import ExchangeCore.Core.BookRun
import ExchangeCore.PriceTime.Depth

/-!
# What the order book reports

The book answers `depth` and `top_of_book` from level totals it maintains as it
goes.  On a sound book these are the aggregation of the resting orders
themselves.
-/

namespace ExchangeCore

open SummaryBitmap LinkedList PriceLevel PriceTime List

namespace OrderBook

/-- Every level of a ladder, as `depth` reports it. -/
def allLevels (ladder : PriceLadder) : List DepthLevel :=
  ladder.indices.map fun i =>
    { price := ladder.priceAt i
      quantity := (ladder.level i).totalQuantity
      orderCount := (ladder.level i).orderCount }

theorem depthOfSide_eq (ladder : PriceLadder) (maxLevels : Nat) :
    depthOfSide ladder maxLevels = (allLevels ladder).take maxLevels := by
  rw [depthOfSide, allLevels, map_take]

section Queries

variable {book : OrderBook} {q : Queues} {free : List OrderHandle} {side : Side} {i j : Nat}
  (hRep : Rep book q free)
include hRep

theorem Rep.tickPrice_lt : tickPrice book.instrument i < tickPrice book.instrument j ↔ i < j := by
  unfold tickPrice
  rw [Int.add_lt_add_iff_left, Int.mul_lt_mul_right hRep.tick_pos, Int.ofNat_lt]

theorem Rep.better_iff :
    Better side (tickPrice book.instrument i) (tickPrice book.instrument j) ↔
      Before (side == .buy) i j := by
  cases side with
  | buy => exact hRep.tickPrice_lt
  | sell => exact hRep.tickPrice_lt

/-- The orders of a side at the price of a tick are those queued there. -/
theorem Rep.filter_price (hLt : i < book.instrument.tickCount) :
    (viewQueue book q side).filter
        (fun order => decide (order.price = tickPrice book.instrument i)) =
      (q side i).map book.pool.order := by
  obtain ⟨ahead, behind, -, hOld, hAhead, hBehind⟩ := q.handles_split side hLt
  have hOff : ∀ hs : List OrderHandle, (∀ h ∈ hs, ∃ j, j ≠ i ∧ h ∈ q side j) →
      (hs.map book.pool.order).filter
        (fun order => decide (order.price = tickPrice book.instrument i)) = [] := by
    intro hs hPlaces
    rw [filter_eq_nil_iff]
    intro order hOrder
    obtain ⟨h, hh, rfl⟩ := mem_map.mp hOrder
    obtain ⟨j, hNe, hj⟩ := hPlaces h hh
    rw [decide_eq_true_eq, (hRep.placed side j h hj).2]
    intro hPrice
    rcases Nat.lt_or_gt_of_ne hNe with hLess | hMore
    · exact absurd (hRep.tickPrice_lt.mpr hLess) (by omega)
    · exact absurd (hRep.tickPrice_lt.mpr hMore) (by omega)
  have hOn : ((q side i).map book.pool.order).filter
      (fun order => decide (order.price = tickPrice book.instrument i)) =
        (q side i).map book.pool.order := by
    rw [filter_eq_self]
    intro order hOrder
    obtain ⟨h, hh, rfl⟩ := mem_map.mp hOrder
    exact decide_eq_true (hRep.placed side i h hh).2
  rw [viewQueue, hOld, map_append, map_append, filter_append,
    filter_append, hOn, hOff ahead, hOff behind, nil_append, append_nil]
  · intro h hh
    obtain ⟨j, -, hBefore, hj⟩ := hBehind h hh
    refine ⟨j, ?_, hj⟩
    rintro rfl
    exact Before.irrefl hBefore
  · intro h hh
    obtain ⟨j, -, hBefore, hj⟩ := hAhead h hh
    refine ⟨j, ?_, hj⟩
    rintro rfl
    exact Before.irrefl hBefore

/-- The maintained totals of a level are the aggregation of its orders. -/
theorem Rep.levelAt_eq (hLt : i < book.instrument.tickCount) :
    ({ price := (book.ladder side).priceAt i
       quantity := ((book.ladder side).level i).totalQuantity
       orderCount := ((book.ladder side).level i).orderCount } : DepthLevel) =
      levelAt (viewQueue book q side) ((book.ladder side).priceAt i) := by
  have hHolds := hRep.holds side i hLt
  rw [(hRep.laid side).priceAt, levelAt, quantityAt, countAt, hRep.filter_price hLt,
    hHolds.total, hHolds.count, length_map, map_map]
  rfl

theorem Rep.aggregates (hTight : Tight book q none) (side : Side) :
    Aggregates side (viewQueue book q side) (allLevels (book.ladder side)) := by
  have hLaid := hRep.laid side
  refine ⟨(book.ladder side).indices.map (book.ladder side).priceAt, ?_, ?_, fun price => ?_⟩
  · rw [allLevels, map_map]
    apply map_congr_left
    intro i hi
    exact hRep.levelAt_eq (hRep.test_of_mem_indices hi).2
  · rw [pairwise_map, hLaid.valid.indices_eq]
    apply (PriceLadder.pairwise_members _).imp
    intro i j hBefore
    rw [hLaid.priceAt, hLaid.priceAt, hRep.better_iff, ← hLaid.descending]
    exact hBefore
  · rw [mem_map]
    constructor
    · intro ⟨i, hi, hPrice⟩
      obtain ⟨hSet, hLt⟩ := hRep.test_of_mem_indices hi
      have hNe := (hTight side i hSet).resolve_right (by simp)
      obtain ⟨h, t, hQueue⟩ := exists_cons_of_ne_nil hNe
      have hMem : h ∈ q side i := by simp [hQueue]
      refine ⟨book.pool.order h, ?_, ?_⟩
      · exact mem_map_of_mem (Queues.mem_handles.mpr ⟨i, hLt, hMem⟩)
      · rw [← hPrice, hLaid.priceAt]
        exact (hRep.placed side i h hMem).2
    · intro ⟨order, hOrder, hPrice⟩
      obtain ⟨h, hh, rfl⟩ := mem_map.mp hOrder
      obtain ⟨i, -, hi⟩ := Queues.mem_handles.mp hh
      refine ⟨i, ?_, ?_⟩
      · rw [hLaid.valid.indices_eq, PriceLadder.mem_members hLaid.valid]
        exact hRep.marked side i (ne_nil_of_mem hi)
      · rw [hLaid.priceAt, ← hPrice]
        exact (hRep.placed side i h hi).2.symm

/-- The top of a side is its first level. -/
theorem Rep.topOfSide_eq (side : Side) :
    topOfSide (book.ladder side) = topOf (allLevels (book.ladder side)) := by
  have hValid := (hRep.laid side).valid
  have hHead : (book.ladder side).indices.head? = (book.ladder side).bestOccupied := by
    rw [hValid.indices_eq, hValid.bestOccupied_eq]
  unfold topOfSide
  by_cases hEmpty : (book.ladder side).empty = true
  · have hNone : (book.ladder side).bestOccupied = none := by
      have hZero : (book.ladder side).occupied = 0 := by
        simpa [PriceLadder.empty] using hEmpty
      simp [PriceLadder.bestOccupied, hZero]
    rw [if_pos hEmpty, allLevels, List.head?_eq_none_iff.mp (hHead.trans hNone)]
    rfl
  · rw [if_neg hEmpty, ← hHead, allLevels]
    cases (book.ladder side).indices <;> rfl

end Queries

/-- The reports of a sound book are those of the orders it holds. -/
theorem Sound.reports {book : OrderBook} (hSound : book.Sound) :
    Reports book.instrument (book.sideOrders .buy) (book.sideOrders .sell) book.topOfBook
      book.depth := by
  obtain ⟨q, free, hRep, hTight⟩ := hSound
  have hBids : topOfSide book.bids = topOf (allLevels book.bids) := hRep.topOfSide_eq .buy
  have hAsks : topOfSide book.asks = topOf (allLevels book.asks) := hRep.topOfSide_eq .sell
  refine ⟨allLevels book.bids, allLevels book.asks, ?_, ?_, fun maxLevels => ?_, ?_⟩
  · rw [hRep.sideOrders_eq]
    exact hRep.aggregates hTight .buy
  · rw [hRep.sideOrders_eq]
    exact hRep.aggregates hTight .sell
  · rw [OrderBook.depth, depthOfSide_eq, depthOfSide_eq]
  · rw [topOfBook, hBids, hAsks]

end OrderBook
end ExchangeCore
