import Mathlib.Algebra.BigOperators.Group.List.Basic
import ExchangeCore.PriceTime.Book

/-!
# Aggregated depth

What a depth snapshot of one side is: one level per price that has orders, best
price first, with the quantity and the number of orders at that price.  The
quantity is a 64-bit word, as both books of the source report it.  A list of
orders has only one such aggregation, so two books that hold the same orders
report the same depth.
-/

namespace ExchangeCore
namespace PriceTime

/-- `a` is a strictly better price than `b` for a resting order of this side. -/
def Better : Side → Int → Int → Prop
  | .buy, a, b => b < a
  | .sell, a, b => a < b

variable {side : Side} {a b price : Int} {orders orders' : List Order}

theorem Better.asymm (hBetter : Better side a b) : ¬ Better side b a := by
  cases side <;> simp only [Better] at * <;> omega

theorem Better.trans {c : Int} (hab : Better side a b)
    (hbc : Better side b c) : Better side a c := by
  cases side <;> simp only [Better] at * <;> omega

theorem Better.ne (hBetter : Better side a b) : a ≠ b := by
  rintro rfl
  exact hBetter.asymm hBetter

theorem better_or_eq_or_better (side : Side) (a b : Int) :
    Better side a b ∨ a = b ∨ Better side b a := by
  cases side <;> simp only [Better] <;> omega

/-- What rests at one price. -/
def quantityAt (orders : List Order) (price : Int) : Nat :=
  ((orders.filter fun order => decide (order.price = price)).map Order.remaining).sum

def countAt (orders : List Order) (price : Int) : Nat :=
  (orders.filter fun order => decide (order.price = price)).length

/-- The level a price has in a snapshot. -/
def levelAt (orders : List Order) (price : Int) : DepthLevel :=
  { price := price
    quantity := Word64.wrap (quantityAt orders price)
    orderCount := countAt orders price }

/-- `levels` is the depth of `orders`, all of one side. -/
def Aggregates (side : Side) (orders : List Order) (levels : List DepthLevel) : Prop :=
  ∃ prices : List Int, levels = prices.map (levelAt orders) ∧ prices.Pairwise (Better side) ∧
    ∀ price, price ∈ prices ↔ ∃ order ∈ orders, order.price = price

/-- The best price and its quantity, or the empty values. -/
def topOf : List DepthLevel → Int × Nat
  | [] => (noPrice, 0)
  | level :: _ => (level.price, level.quantity)

theorem levelAt_perm (hPerm : orders.Perm orders') (price : Int) :
    levelAt orders price = levelAt orders' price := by
  have hFilter := hPerm.filter fun order => decide (order.price = price)
  simp only [levelAt, quantityAt, countAt, (hFilter.map Order.remaining).sum_eq, hFilter.length_eq]

/-- The same orders, in whatever order, have the same depth. -/
theorem Aggregates.unique
    {levels levels' : List DepthLevel} (hLevels : Aggregates side orders levels)
    (hLevels' : Aggregates side orders' levels') (hPerm : orders.Perm orders') :
    levels = levels' := by
  obtain ⟨prices, rfl, hSorted, hCovers⟩ := hLevels
  obtain ⟨prices', rfl, hSorted', hCovers'⟩ := hLevels'
  have hNodup : prices.Nodup := hSorted.imp fun h => h.ne
  have hNodup' : prices'.Nodup := hSorted'.imp fun h => h.ne
  have hSame : prices.Perm prices' := by
    rw [List.perm_ext_iff_of_nodup hNodup hNodup']
    intro price
    rw [hCovers, hCovers']
    exact ⟨fun ⟨o, ho, hPrice⟩ => ⟨o, hPerm.subset ho, hPrice⟩,
      fun ⟨o, ho, hPrice⟩ => ⟨o, hPerm.symm.subset ho, hPrice⟩⟩
  have hEq : prices = prices' :=
    hSame.eq_of_pairwise (fun a b _ _ hab hba => absurd hba hab.asymm) hSorted hSorted'
  rw [hEq]
  exact List.map_congr_left fun price _ => levelAt_perm hPerm price

/-- What a book holding these orders reports: its depth to any number of levels,
and its top. -/
def Reports (instrument : Instrument) (bids asks : List Order) (top : TopOfBook)
    (depth : Nat → DepthSnapshot) : Prop :=
  ∃ bidLevels askLevels, Aggregates .buy bids bidLevels ∧ Aggregates .sell asks askLevels ∧
    (∀ maxLevels, depth maxLevels =
      { instrument := instrument.id
        bids := bidLevels.take maxLevels
        asks := askLevels.take maxLevels }) ∧
    top =
      { instrument := instrument.id
        bidPrice := (topOf bidLevels).1
        bidQuantity := (topOf bidLevels).2
        askPrice := (topOf askLevels).1
        askQuantity := (topOf askLevels).2 }

/-- Reports are determined by the orders. -/
theorem Reports.unique {instrument : Instrument} {bids bids' asks asks' : List Order}
    {top top' : TopOfBook} {depth depth' : Nat → DepthSnapshot}
    (hReports : Reports instrument bids asks top depth)
    (hReports' : Reports instrument bids' asks' top' depth')
    (hBids : bids.Perm bids') (hAsks : asks.Perm asks') : top = top' ∧ depth = depth' := by
  obtain ⟨bidLevels, askLevels, hBidLevels, hAskLevels, hDepth, rfl⟩ := hReports
  obtain ⟨bidLevels', askLevels', hBidLevels', hAskLevels', hDepth', rfl⟩ := hReports'
  obtain rfl := hBidLevels.unique hBidLevels' hBids
  obtain rfl := hAskLevels.unique hAskLevels' hAsks
  refine ⟨rfl, ?_⟩
  funext maxLevels
  rw [hDepth, hDepth']

/-- A newcomer changes its own price only. -/
theorem levelAt_append {order : Order}
    (hNe : order.price ≠ price) : levelAt (orders ++ [order]) price = levelAt orders price := by
  have hFilter : (orders ++ [order]).filter (fun o => decide (o.price = price)) =
      orders.filter fun o => decide (o.price = price) := by
    simp [List.filter_append, hNe]
  simp only [levelAt, quantityAt, countAt, hFilter]

theorem levelAt_append_self (orders : List Order) (order : Order) :
    levelAt (orders ++ [order]) order.price =
      { price := order.price
        quantity := Word64.add (levelAt orders order.price).quantity order.remaining
        orderCount := (levelAt orders order.price).orderCount + 1 } := by
  simp [levelAt, quantityAt, countAt, List.filter_append, Word64.add_wrap]

theorem levelAt_of_absent (hAbsent : ∀ order ∈ orders, order.price ≠ price) :
    levelAt orders price = { price := price } := by
  have hFilter : orders.filter (fun o => decide (o.price = price)) = [] := by
    rw [List.filter_eq_nil_iff]
    intro order hMem
    simp [hAbsent order hMem]
  simp [levelAt, quantityAt, countAt, hFilter, Word64.wrap_zero]

end PriceTime
end ExchangeCore
