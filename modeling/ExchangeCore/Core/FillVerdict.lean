import ExchangeCore.Core.BookQueries

/-!
# What the verdict on a fill-or-kill order depends on

The liquidity count reads prices, accounts and what remains of each order, in
queue order.  It adds up level totals in 64-bit words when prevention is inactive,
so the verdict is not that of the abstract book, but it is still a function of
what the queue offers.
-/

namespace ExchangeCore

open PriceTime

/-- What an order offers a counterparty. -/
def Order.offer (order : Order) : Order :=
  { account := order.account, price := order.price, remaining := order.remaining }

namespace OrderBook

/-- Adding up level totals, read off the levels that `depth` reports. -/
def fillableDepth (crosses : Int → Bool) (needed : Nat) : List DepthLevel → Nat → Nat
  | [], available => available
  | level :: rest, available =>
    if !crosses level.price then
      available
    else
      let available := Word64.add available level.quantity
      if needed ≤ available then available else fillableDepth crosses needed rest available

theorem fillableLevels_eq (ladder : PriceLadder) (crosses : Int → Bool) (needed available : Nat) :
    fillableLevels ladder crosses needed ladder.indices available =
      fillableDepth crosses needed (allLevels ladder) available := by
  unfold allLevels
  generalize ladder.indices = is
  induction is generalizing available with
  | nil => rfl
  | cons i is ih =>
    rw [List.map_cons, fillableLevels, fillableDepth]
    dsimp only
    split
    · rfl
    split
    · rfl
    · exact ih _

theorem aggregates_offer {side : Side} {orders : List Order} {levels : List DepthLevel}
    (hLevels : Aggregates side orders levels) :
    Aggregates side (orders.map Order.offer) levels := by
  obtain ⟨prices, rfl, hSorted, hCovers⟩ := hLevels
  refine ⟨prices, List.map_congr_left fun price _ => ?_, hSorted, fun price => ?_⟩
  · have hFilter : (orders.map Order.offer).filter (fun order => decide (order.price = price)) =
        (orders.filter fun order => decide (order.price = price)).map Order.offer :=
      List.filter_map
    rw [levelAt, levelAt, quantityAt, quantityAt, countAt, countAt, hFilter, List.length_map,
      List.map_map]
    rfl
  · rw [hCovers]
    simp only [List.mem_map, exists_exists_and_eq_and]
    rfl

theorem fillableFrom_offer (policy : SelfTradePolicy) (account : AccountId)
    (crosses : Int → Bool) (queue : List Order) (unallocated willFill : Nat) :
    fillableFrom policy account crosses (queue.map Order.offer) unallocated willFill =
      fillableFrom policy account crosses queue unallocated willFill := by
  induction queue generalizing unallocated willFill with
  | nil => rfl
  | cons resting rest ih =>
    simp only [List.map_cons, fillableFrom, ih]
    rfl

/-- The verdict depends on what the opposite queue offers and on nothing else, least of
all on where in the slab the orders are. -/
theorem Sound.verdict_congr {book book' : OrderBook} (hSound : book.Sound)
    (hSound' : book'.Sound) {order : Order} (hInstrument : book.instrument = book'.instrument)
    (hQueue : (book.sideOrders order.side.opposite).map Order.offer =
      (book'.sideOrders order.side.opposite).map Order.offer) :
    book.verdict order = book'.verdict order := by
  obtain ⟨q, free, hRep, hTight⟩ := hSound
  obtain ⟨q', free', hRep', hTight'⟩ := hSound'
  rw [hRep.sideOrders_eq, hRep'.sideOrders_eq] at hQueue
  have hFillable : book.fillable order.side.opposite order.crosses order.remaining
      order.account = book'.fillable order.side.opposite order.crosses order.remaining
      order.account := by
    unfold fillable
    rw [hInstrument]
    dsimp only
    split
    · -- Level by level: the same levels, so the same totals.
      have hLevels := (aggregates_offer (hRep.aggregates hTight order.side.opposite)).unique
        (aggregates_offer (hRep'.aggregates hTight' order.side.opposite))
        (hQueue ▸ List.Perm.refl _)
      rw [fillableLevels_eq, fillableLevels_eq, hLevels]
    -- Order by order: the same accounts and quantities in the same places.
    rw [hRep.fillableWalk_eq _ hTight _ _ _ fun _ h => h,
      hRep'.fillableWalk_eq _ hTight' _ _ _ fun _ h => h, ← hRep.viewQueue_members,
      ← hRep'.viewQueue_members, hInstrument, ← fillableFrom_offer, hQueue, fillableFrom_offer]
  rw [verdict, verdict, hFillable]

end OrderBook
end ExchangeCore
