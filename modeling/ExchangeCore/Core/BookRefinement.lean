import Mathlib.Algebra.Order.BigOperators.Group.List
import ExchangeCore.Core.MatchLoop
import ExchangeCore.PriceTime.Fillable

/-!
# The order book refines the abstract book

`abs` reads the abstract book off the structures by the traversals the source
itself uses, and `Sound` is the representation invariant.  Every command of a
sound book returns what the abstract command returns, leaves a sound book, and
commutes with `abs`.

Level totals and the fill-or-kill fast path count in 64-bit words.  A word never
exceeds the quantity it stands for, so an order the book accepts as fillable
does fill; the converse, and exact totals, need the resting quantity to fit.
-/

namespace ExchangeCore

open SummaryBitmap LinkedList PriceLevel PriceTime List Book

namespace OrderBook

/-- The book the structures stand for. -/
def abs (book : OrderBook) : Book :=
  { instrument := book.instrument
    bids := book.sideOrders .buy
    asks := book.sideOrders .sell
    nextTradeId := book.nextTradeId }

/-- The representation invariant between commands. -/
def Sound (book : OrderBook) : Prop :=
  ∃ q free, Rep book q free ∧ Tight book q none

@[simp] theorem queue_abs (book : OrderBook) (side : Side) :
    book.abs.queue side = book.sideOrders side := by
  cases side <;> rfl

theorem flatMap_filter_of_nil {α β : Type} {p : α → Bool} {f g : α → List β} (l : List α)
    (hIn : ∀ x ∈ l, p x = true → f x = g x) (hOut : ∀ x ∈ l, p x = false → g x = []) :
    (l.filter p).flatMap f = l.flatMap g := by
  induction l with
  | nil => rfl
  | cons x l ih =>
    have hRest := ih (fun y hy => hIn y (by simp [hy])) fun y hy => hOut y (by simp [hy])
    cases hp : p x with
    | true => simp [hp, hRest, hIn x (by simp) hp]
    | false => simp [hp, hRest, hOut x (by simp) hp]

section Reading

variable {book : OrderBook} {q : Queues} {free : List OrderHandle}

section

variable (hRep : Rep book q free)
include hRep

/-- The traversal of the source visits exactly the represented orders. -/
theorem Rep.sideOrders_eq (side : Side) : book.sideOrders side = viewQueue book q side := by
  have hLaid := hRep.laid side
  unfold sideOrders viewQueue Queues.handles
  rw [hLaid.valid.indices_eq, PriceLadder.members, hLaid.descending, hLaid.length, map_flatMap]
  refine flatMap_filter_of_nil _ (fun i hi _ => ?_) fun i hi hUnset => ?_
  · rw [(hRep.holds side i (mem_scanAll.mp hi)).handles_eq]
  · by_cases hNil : q side i = []
    · rw [hNil]
      rfl
    · rw [hRep.marked side i hNil] at hUnset
      contradiction

theorem Rep.abs_eq : book.abs = view book q := by
  simp only [abs, view, hRep.sideOrders_eq]

theorem Rep.mem_orders_iff {order : Order} :
    order ∈ (view book q).orders ↔ ∃ h side i, h ∈ q side i ∧ book.pool.order h = order := by
  rw [mem_orders]
  constructor
  · intro ⟨side, hMem⟩
    rw [queue_view] at hMem
    obtain ⟨h, hh, hOrder⟩ := mem_map.mp hMem
    obtain ⟨i, -, hi⟩ := Queues.mem_handles.mp hh
    exact ⟨h, side, i, hi, hOrder⟩
  · intro ⟨h, side, i, hi, hOrder⟩
    refine ⟨side, ?_⟩
    rw [queue_view]
    exact mem_map.mpr ⟨h, Queues.mem_handles.mpr ⟨i, hRep.lt_tickCount hi, hi⟩, hOrder⟩

/-- The index answers what a search of the queues would. -/
theorem Rep.find_eq (id : OrderId) :
    (book.index.find id).map book.pool.order = (view book q).find id := by
  apply Option.ext
  intro order
  rw [find_eq_some_iff hRep.nodup_ids, hRep.mem_orders_iff, Option.map_eq_some_iff]
  constructor
  · intro ⟨h, hFind, hOrder⟩
    obtain ⟨⟨side, i, hi⟩, hId⟩ := (hRep.index_find id h).mp hFind
    exact ⟨⟨h, side, i, hi, hOrder⟩, by rw [← hOrder]; exact hId⟩
  · intro ⟨⟨h, side, i, hi, hOrder⟩, hId⟩
    exact ⟨h, (hRep.index_find id h).mpr ⟨⟨side, i, hi⟩, by rw [hOrder]; exact hId⟩, hOrder⟩

theorem Rep.contains_eq (id : OrderId) :
    book.index.contains id = ((view book q).find id).isSome := by
  rw [← hRep.find_eq, FlatHashMap.contains, Option.isSome_map]

theorem Rep.find_none_iff (id : OrderId) :
    book.index.find id = none ↔ (view book q).find id = none := by
  rw [← hRep.find_eq, Option.map_eq_none_iff]

theorem Rep.validate_eq (order : Order) : book.validate order = (view book q).validate order := by
  unfold validate Book.validate
  rw [hRep.contains_eq]
  rfl

/-- The best price of a ladder is the price of the order that would trade
next. -/
theorem Rep.best_price (hTight : Tight book q none) (side : Side) :
    (book.ladder side).bestOccupied.map (book.ladder side).priceAt =
      (viewQueue book q side).head?.map Order.price := by
  cases hBest : (book.ladder side).bestOccupied with
  | none =>
    rw [hRep.best_none hBest]
    rfl
  | some i =>
    obtain ⟨-, -, hOrders, hFront⟩ := hRep.best hTight hBest
    obtain ⟨h, t, hQueue⟩ := exists_cons_of_ne_nil hOrders
    obtain ⟨behind, -, -, hView, -⟩ := hRep.view_front hFront hQueue
    rw [hView, Option.map_some, List.head?_cons, Option.map_some, (hRep.laid side).priceAt,
      (hRep.placed side i h (by simp [hQueue])).2]

end

/-- The emptiness test before a best price is redundant. -/
theorem empty_best (ladder : PriceLadder) :
    (if ladder.empty then none else ladder.bestOccupied.map ladder.priceAt) =
      ladder.bestOccupied.map ladder.priceAt := by
  split
  · next hEmpty =>
      rw [PriceLadder.empty, beq_iff_eq] at hEmpty
      simp [PriceLadder.bestOccupied, hEmpty]
  · rfl

theorem Rep.wouldCross_eq (hRep : Rep book q free) (hTight : Tight book q none)
    (order : Order) : book.wouldCross order = (view book q).wouldCross order := by
  have hAsk : book.bestAsk = (viewQueue book q .sell).head?.map Order.price :=
    (empty_best book.asks).trans (hRep.best_price hTight .sell)
  have hBid : book.bestBid = (viewQueue book q .buy).head?.map Order.price :=
    (empty_best book.bids).trans (hRep.best_price hTight .buy)
  unfold wouldCross Book.wouldCross
  cases hType : order.type with
  | market => simp
  | limit =>
    cases hSide : order.side with
    | buy =>
      simp only [Order.isBuy, hSide, hAsk, Side.opposite, queue_view]
      cases (viewQueue book q .sell).head? <;>
        simp [Order.crosses, Order.isBuy, hType, hSide]
    | sell =>
      simp only [Order.isBuy, hSide, hBid, Side.opposite, queue_view]
      cases (viewQueue book q .buy).head? <;>
        simp [Order.crosses, Order.isBuy, hType, hSide]

end Reading

/-! ## The fill-or-kill count -/

section Fillable

/-- Orders of one level walked by the two loops. -/
theorem fillableOrders_eq (policy : SelfTradePolicy) (account : AccountId)
    (crosses : Int → Bool) (orders later : List Order)
    (hCross : ∀ order ∈ orders, crosses order.price = true) (unallocated willFill : Nat) :
    fillableFrom policy account crosses (orders ++ later) unallocated willFill =
      if (fillableOrders policy account orders unallocated willFill).2.2 then
        (fillableOrders policy account orders unallocated willFill).2.1
      else
        fillableFrom policy account crosses later
          (fillableOrders policy account orders unallocated willFill).1
          (fillableOrders policy account orders unallocated willFill).2.1 := by
  induction orders generalizing unallocated willFill with
  | nil => rfl
  | cons head rest ih =>
    have hRest := ih fun order hMem => hCross order (by simp [hMem])
    have hHead := hCross head (by simp)
    rw [cons_append, fillableFrom, fillableOrders]
    simp only [hHead, Bool.not_true, Bool.false_eq_true, if_false]
    cases (if head.account = account then policy else .allow) with
    | cancelIncoming => rfl
    | cancelBoth => rfl
    | cancelResting => exact hRest _ _
    | decrementBoth =>
      dsimp only
      split
      · rfl
      · exact hRest _ _
    | allow =>
      dsimp only
      split
      · rfl
      · exact hRest _ _

variable {book : OrderBook} {q : Queues} {free : List OrderHandle} {side : Side}

/-- The orders of one tick, all at its price. -/
def tickOrders (book : OrderBook) (q : Queues) (side : Side) (i : Nat) : List Order :=
  (q side i).map book.pool.order

theorem Rep.price_tickOrders (hRep : Rep book q free) {i : Nat} {order : Order}
    (hMem : order ∈ tickOrders book q side i) :
    order.price = (book.ladder side).priceAt i := by
  obtain ⟨h, hh, rfl⟩ := mem_map.mp hMem
  rw [(hRep.laid side).priceAt]
  exact (hRep.placed side i h hh).2

theorem viewQueue_eq_flatMap (book : OrderBook) (q : Queues) (side : Side) :
    viewQueue book q side =
      (scanAll (side == .buy) book.instrument.tickCount).flatMap (tickOrders book q side) := by
  rw [viewQueue, Queues.handles, map_flatMap]
  rfl

variable (hRep : Rep book q free)
include hRep

/-- The occupied levels of a tight ladder, each with its nonempty queue. -/
theorem Rep.viewQueue_members :
    viewQueue book q side = (book.ladder side).indices.flatMap (tickOrders book q side) := by
  have hLaid := hRep.laid side
  rw [viewQueue_eq_flatMap, hLaid.valid.indices_eq, PriceLadder.members, hLaid.descending,
    hLaid.length]
  refine (flatMap_filter_of_nil _ (fun _ _ _ => rfl) fun i _ hUnset => ?_).symm
  by_cases hNil : q side i = []
  · simp [tickOrders, hNil]
  · rw [hRep.marked side i hNil] at hUnset
    contradiction

theorem Rep.test_of_mem_indices {i : Nat} (hMem : i ∈ (book.ladder side).indices) :
    (book.ladder side).test i = true ∧ i < book.instrument.tickCount := by
  have hLaid := hRep.laid side
  rw [hLaid.valid.indices_eq, PriceLadder.mem_members hLaid.valid] at hMem
  refine ⟨hMem, ?_⟩
  rw [← hLaid.length]
  exact hLaid.valid.bounded i hMem

/-- A level of a tight ladder starts with an order at its price. -/
theorem Rep.tickOrders_cons (hTight : Tight book q none) {i : Nat}
    (hMem : i ∈ (book.ladder side).indices) :
    ∃ first others, tickOrders book q side i = first :: others ∧
      first.price = (book.ladder side).priceAt i := by
  have hOrders := (hTight side i (hRep.test_of_mem_indices hMem).1).resolve_right (by simp)
  obtain ⟨h, t, hQueue⟩ := exists_cons_of_ne_nil hOrders
  exact ⟨_, _, by rw [tickOrders, hQueue]; rfl,
    hRep.price_tickOrders (by simp [tickOrders, hQueue])⟩

/-- With prevention active the walk over levels is the walk over the queue. -/
theorem Rep.fillableWalk_eq (side : Side) (hTight : Tight book q none)
    (crosses : Int → Bool) (account : AccountId) (is : List Nat)
    (hIs : ∀ i ∈ is, i ∈ (book.ladder side).indices) (unallocated willFill : Nat) :
    fillableWalk book (book.ladder side) crosses account is unallocated willFill =
      fillableFrom book.instrument.selfTradePolicy account crosses
        (is.flatMap (tickOrders book q side)) unallocated willFill := by
  induction is generalizing unallocated willFill with
  | nil => rfl
  | cons i is ih =>
    obtain ⟨first, others, hCons, hPrice⟩ := hRep.tickOrders_cons hTight (hIs i (by simp))
    have hHandles := (hRep.holds side i (hRep.test_of_mem_indices (hIs i (by simp))).2).handles_eq
    have hRest := ih fun j hj => hIs j (by simp [hj])
    rw [fillableWalk, flatMap_cons, hHandles,
      show (q side i).map book.pool.order = tickOrders book q side i from rfl]
    cases hCross : crosses ((book.ladder side).priceAt i) with
    | false => simp [hCons, fillableFrom, hPrice, hCross]
    | true =>
      rw [fillableOrders_eq _ _ _ (tickOrders book q side i) _ fun order hMem => by
        rw [hRep.price_tickOrders hMem]; exact hCross]
      simp only [Bool.not_true, Bool.false_eq_true, if_false]
      split
      · rfl
      · exact hRest _ _

/-- What crosses among the levels, as one number per level. -/
theorem Rep.fillableLevels_spec (side : Side) (hTight : Tight book q none)
    (order : Order) (needed : Nat) (is : List Nat)
    (hIs : ∀ i ∈ is, i ∈ (book.ladder side).indices) (available counted : Nat)
    (hLe : available ≤ counted) :
    let total := counted + crossingQuantity order (is.flatMap (tickOrders book q side))
    (needed ≤ fillableLevels (book.ladder side) order.crosses needed is available →
      needed ≤ total) ∧
    (available = counted → total < Word64.modulus →
      (needed ≤ fillableLevels (book.ladder side) order.crosses needed is available ↔
        needed ≤ total)) := by
  induction is generalizing available counted with
  | nil =>
    simp only [fillableLevels, flatMap_nil, crossingQuantity, crossing,
      takeWhile_nil, map_nil, sum_nil, Nat.add_zero]
    exact ⟨fun h => h.trans hLe, fun hEq _ => by rw [hEq]⟩
  | cons i is ih =>
    obtain ⟨first, others, hCons, hPrice⟩ := hRep.tickOrders_cons hTight (hIs i (by simp))
    have hTotal : ((book.ladder side).level i).totalQuantity =
        Word64.wrap (((tickOrders book q side i).map Order.remaining).sum) := by
      rw [(hRep.holds side i (hRep.test_of_mem_indices (hIs i (by simp))).2).total, restingSum,
        tickOrders, map_map]
      rfl
    have hRest := ih fun j hj => hIs j (by simp [hj])
    dsimp only
    rw [fillableLevels, flatMap_cons]
    cases hCross : order.crosses ((book.ladder side).priceAt i) with
    | false =>
      have hNone : crossingQuantity order (tickOrders book q side i ++
          is.flatMap (tickOrders book q side)) = 0 := by
        simp [hCons, crossingQuantity, crossing, hPrice, hCross]
      rw [hNone]
      simp only [Bool.not_false, if_true, Nat.add_zero]
      exact ⟨fun h => h.trans hLe, fun hEq _ => by rw [hEq]⟩
    | true =>
      have hSum : crossingQuantity order (tickOrders book q side i ++
          is.flatMap (tickOrders book q side)) =
            ((tickOrders book q side i).map Order.remaining).sum +
              crossingQuantity order (is.flatMap (tickOrders book q side)) := by
        have hAll : ∀ resting ∈ tickOrders book q side i,
            order.crosses resting.price = true := fun resting hMem => by
          rw [hRep.price_tickOrders hMem]
          exact hCross
        simp [crossingQuantity, crossing, takeWhile_append_of_pos hAll]
      rw [hSum]
      simp only [Bool.not_true, Bool.false_eq_true, if_false]
      set level := ((tickOrders book q side i).map Order.remaining).sum with hLevel
      have hAddLe : Word64.add available ((book.ladder side).level i).totalQuantity ≤
          counted + level := by
        rw [hTotal]
        have hAdd := Word64.add_le available (Word64.wrap level)
        have hWrap := Word64.wrap_le level
        omega
      obtain ⟨hSound, hExact⟩ := hRest (Word64.add available
        ((book.ladder side).level i).totalQuantity) (counted + level) hAddLe
      have hAddEq : available = counted → counted + level < Word64.modulus →
          Word64.add available ((book.ladder side).level i).totalQuantity = counted + level := by
        intro hEq hFits
        rw [hTotal, Word64.wrap_of_lt (by omega), hEq, Word64.add_of_lt hFits]
      split
      · next hEnough => exact ⟨fun _ => by omega, fun _ _ => by
          constructor
          · intro _
            omega
          · intro _
            exact hEnough⟩
      · refine ⟨fun h => by have := hSound h; omega, fun hEq hFits => ?_⟩
        rw [hExact (hAddEq hEq (by omega)) (by omega)]
        omega

/-- The book's verdict on a fill-or-kill order: never too generous, and exact
when the opposite side's quantity fits a word. -/
theorem Rep.fillable_spec (hTight : Tight book q none) (order : Order) :
    (order.remaining ≤ book.fillable order.side.opposite order.crosses order.remaining
        order.account → (view book q).canFill order = true) ∧
    (((viewQueue book q order.side.opposite).map Order.remaining).sum < Word64.modulus →
      (order.remaining ≤ book.fillable order.side.opposite order.crosses order.remaining
        order.account ↔ (view book q).canFill order = true)) := by
  rw [canFill_eq, decide_eq_true_eq, fillable, fillableQuantity,
    preventionActive, queue_view]
  simp only [show (view book q).instrument = book.instrument from rfl]
  cases hActive : book.instrument.selfTradePolicy != .allow && order.account.valid with
  | true =>
    have hWalk := hRep.fillableWalk_eq order.side.opposite hTight order.crosses
      order.account _ (fun _ h => h) order.remaining 0
    rw [← hRep.viewQueue_members] at hWalk
    simp only [Bool.not_true, Bool.false_eq_true, if_false, if_true, hWalk]
    exact ⟨id, fun _ => trivial⟩
  | false =>
    have hLevels := hRep.fillableLevels_spec order.side.opposite hTight order
      order.remaining _ (fun _ h => h) 0 0 (le_refl 0)
    rw [← hRep.viewQueue_members] at hLevels
    simp only [Nat.zero_add] at hLevels
    simp only [Bool.not_false, if_true, Bool.false_eq_true, if_false, Nat.le_min, le_refl, true_and]
    refine ⟨hLevels.1, fun hFits => hLevels.2 trivial (lt_of_le_of_lt ?_ hFits)⟩
    exact ((takeWhile_sublist _).map _).sum_le_sum fun _ _ => Nat.zero_le _

end Fillable

/-! ## Commands -/

/-- A concrete outcome stands for an abstract one. -/
structure Refines {R : Type} (outcome : Outcome OrderBook R) (spec : Outcome Book R) : Prop where
  sound : outcome.book.Sound
  book : outcome.book.abs = spec.book
  result : outcome.result = spec.result
  fills : outcome.fills = spec.fills
  withdrawals : outcome.withdrawals = spec.withdrawals

section Commands

variable {book : OrderBook} {q : Queues} {free : List OrderHandle} {order : Order} {i : Nat}

/-- What the machine left behind, as a book. -/
theorem Sim.view_eq {a : Book} {s : MatchState} {m : Matching}
    (hSim : Sim order.side.opposite a s m q free) : view s.book q = a.matched order m := by
  have hQueue := hSim.queue
  have hOther := hSim.other
  have hInstrument := hSim.instrument
  have hTrade := hSim.nextTradeId
  cases hSide : order.side <;>
    simp [hSide, Side.opposite, Book.queue] at hQueue hOther <;>
    simp [view, Book.matched, Book.setQueue, Side.opposite, hSide, hQueue, hOther, hInstrument,
      hTrade]

variable (hRep : Rep book q free)
include hRep

/-- Price order along the ticks decides whom an order at a tick queues behind. -/
theorem Rep.yieldsTo_iff
    (hPrice : order.price = tickPrice book.instrument i) {x : OrderHandle} {j : Nat}
    (hx : x ∈ q order.side j) :
    order.yieldsTo (book.pool.order x) = true ↔ ¬ Before (order.side == .buy) i j := by
  obtain ⟨-, hxPrice⟩ := hRep.placed order.side j x hx
  have hMono : ∀ a b : Nat, tickPrice book.instrument a ≤ tickPrice book.instrument b ↔ a ≤ b := by
    intro a b
    unfold tickPrice
    rw [Int.add_le_add_iff_left, Int.mul_le_mul_right hRep.tick_pos, Int.ofNat_le]
  unfold Order.yieldsTo Order.isBuy
  rw [hxPrice, hPrice]
  cases hSide : order.side with
  | buy => simp [hMono]
  | sell =>
    rw [show (Side.sell == Side.buy) = false from rfl]
    simp [hMono]

/-- So it stands between what is queued up to its tick and what is queued behind it. -/
theorem Rep.enqueue_viewQueue
    (hPrice : order.price = tickPrice book.instrument i) {ahead behind : List OrderHandle}
    (hHandles : q.handles book.instrument.tickCount order.side =
      ahead ++ q order.side i ++ behind) (hAhead : ∀ x ∈ ahead, ∃ j < book.instrument.tickCount,
      Before (order.side == .buy) j i ∧ x ∈ q order.side j)
    (hBehind : ∀ x ∈ behind, ∃ j < book.instrument.tickCount,
      Before (order.side == .buy) i j ∧ x ∈ q order.side j) :
    enqueue order (viewQueue book q order.side) =
      (ahead ++ q order.side i).map book.pool.order ++
        order :: behind.map book.pool.order := by
  have hFirst : ∀ x ∈ (ahead ++ q order.side i).map book.pool.order, order.yieldsTo x = true := by
    intro x hx
    obtain ⟨y, hy, rfl⟩ := mem_map.mp hx
    rcases mem_append.mp hy with hy | hy
    · obtain ⟨j, -, hBefore, hj⟩ := hAhead y hy
      exact (hRep.yieldsTo_iff hPrice hj).mpr fun hLater => Before.irrefl (hBefore.trans hLater)
    · exact (hRep.yieldsTo_iff hPrice hy).mpr Before.irrefl
  rw [enqueue, viewQueue, hHandles, map_append, takeWhile_append_of_pos hFirst,
    dropWhile_append_of_pos hFirst]
  cases behind with
  | nil => simp
  | cons y rest =>
    obtain ⟨j, -, hLater, hj⟩ := hBehind y (by simp)
    have hNot : order.yieldsTo (book.pool.order y) = false := by
      rw [← Bool.not_eq_true, hRep.yieldsTo_iff hPrice hj]
      exact not_not.mpr hLater
    simp [hNot]

/-- Resting an order puts it at the tail of its price in the view. -/
theorem Rep.view_rest (order : Order)
    (hTight : Tight book q none) (hLt : i < book.instrument.tickCount)
    (hPrice : order.price = tickPrice book.instrument i)
    (hFresh : book.index.find order.id = none) :
    (book.rest order).Sound ∧
      (book.rest order).abs = (view book q).setQueue order.side
        (enqueue order ((view book q).queue order.side)) := by
  obtain ⟨h, free', hRest, hNew, hOld, hTest, hInstrument, hTrade⟩ :=
    hRep.rest hLt hPrice hFresh
  obtain ⟨ahead, behind, hSet, hHandles, hAhead, hBehind⟩ := q.handles_split order.side hLt
  have hOldMap : ∀ hs : List OrderHandle, (∀ x ∈ hs, ∃ j, x ∈ q order.side j) →
      hs.map (book.rest order).pool.order = hs.map book.pool.order := fun hs hMem =>
    map_congr_left fun x hx => by
      obtain ⟨j, hj⟩ := hMem x hx
      exact hOld x order.side j hj
  refine ⟨⟨_, free', hRest, ?_⟩, ?_⟩
  · intro side j hSetBit
    left
    by_cases hPlace : side = order.side ∧ j = i
    · obtain ⟨rfl, rfl⟩ := hPlace
      rw [Queues.set_same]
      simp
    rw [Queues.set_of_ne q _ hPlace]
    rw [hTest, Bool.or_eq_true, decide_eq_true_eq] at hSetBit
    exact (hTight side j (hSetBit.resolve_left hPlace)).resolve_right (by simp)
  · have hSame : viewQueue (book.rest order)
        (q.set order.side i (q order.side i ++ [h])) order.side =
          enqueue order (viewQueue book q order.side) := by
      rw [hRep.enqueue_viewQueue hPrice hHandles hAhead hBehind, viewQueue, hInstrument, hSet]
      simp only [map_append, map_cons, hNew, append_assoc, singleton_append]
      rw [hOldMap ahead fun x hx => (hAhead x hx).imp fun j hj => hj.2.2,
        hOldMap (q order.side i) fun x hx => ⟨i, hx⟩,
        hOldMap behind fun x hx => (hBehind x hx).imp fun j hj => hj.2.2]
    have hOther : viewQueue (book.rest order)
        (q.set order.side i (q order.side i ++ [h])) order.side.opposite =
          viewQueue book q order.side.opposite := by
      rw [viewQueue, viewQueue, hInstrument,
        Queues.handles_set_other q _ i _ (Side.opposite_ne order.side)]
      refine map_congr_left fun x hx => ?_
      obtain ⟨j, -, hj⟩ := Queues.mem_handles.mp hx
      exact hOld x _ j hj
    rw [hRest.abs_eq]
    cases hSide : order.side <;>
      simp only [hSide, Side.opposite] at hSame hOther <;>
      simp [view, setQueue, queue, hSame, hOther, hInstrument, hTrade]

/-- Inserting, with the book's own verdict on a fill-or-kill order. -/
theorem Rep.insert_refines (hTight : Tight book q none) (order : Order)
    (fills : List Fill) (withdrawals : List Withdrawal) :
    Refines (book.insert order fills withdrawals)
      ((view book q).insert
        (decide (order.remaining ≤ book.fillable order.side.opposite order.crosses
          order.remaining order.account)) order fills withdrawals) := by
  have hSound : book.Sound := ⟨q, free, hRep, hTight⟩
  obtain ⟨q', free', hSim, hTight', -⟩ := match_sim hRep hTight order fills withdrawals
  have hInstrument : (view book q).instrument = book.instrument := rfl
  unfold OrderBook.insert Book.insert
  simp only [← hRep.validate_eq, ← hRep.wouldCross_eq hTight, hInstrument]
  split
  · exact ⟨hSound, hRep.abs_eq, rfl, rfl, rfl⟩
  next hValidated =>
  split
  · exact ⟨hSound, hRep.abs_eq, rfl, rfl, rfl⟩
  next hPost =>
  have hKillIff : (order.tif = .fillOrKill ∧
      book.fillable order.side.opposite order.crosses order.remaining order.account <
        order.remaining) = ((order.tif == .fillOrKill && !decide (order.remaining ≤
        book.fillable order.side.opposite order.crosses order.remaining order.account)) =
          true) := by
    simp
  simp only [hKillIff]
  split
  · exact ⟨hSound, hRep.abs_eq, rfl, rfl, rfl⟩
  set s := book.match order.side.opposite order fills withdrawals with hs
  set m := ((view book q).arrival order fills withdrawals).finish book.instrument with hm
  have hMatched := hSim.view_eq
  have hAbs : s.book.abs = (view book q).matched order m := hSim.rep.abs_eq.trans hMatched
  rw [hSim.incoming, hSim.stpCancelled, hSim.fills, hSim.withdrawals]
  by_cases hUsed : m.incoming.remaining = 0
  · rw [if_pos hUsed, if_pos (by simp [hUsed])]
    exact ⟨⟨q', free', hSim.rep, hTight'⟩, hAbs, rfl, rfl, rfl⟩
  rw [if_neg hUsed]
  by_cases hExpires : order.type = .market ∨ order.tif = .immediateOrCancel
  · rw [if_pos hExpires, if_pos (by simp [Book.expires_iff.mpr hExpires])]
    exact ⟨⟨q', free', hSim.rep, hTight'⟩, hAbs, rfl, rfl, rfl⟩
  rw [if_neg hExpires, if_neg (by simp [hUsed, mt Book.expires_iff.mp hExpires])]
  -- The remainder has a level, and its id is still unused.
  have hReaches := Matching.reaches_finish book.instrument
    ((view book q).arrival order fills withdrawals)
  obtain ⟨hId, -, -, hPriceEq, hSide, -⟩ := Order.eq_of_terms_eq hReaches.terms.1
  have hNone : (view book q).validate order = .none := by
    rw [← hRep.validate_eq]
    exact not_not.mp hValidated
  obtain ⟨-, -, hBand, hFreshView⟩ := Book.validate_eq_none_iff.mp hNone
  have hLimit : order.type = .limit := by
    cases hCase : order.type with
    | limit => rfl
    | market => exact absurd (Or.inl hCase) hExpires
  obtain ⟨i, hLt, hPrice⟩ :=
    PriceLadder.exists_index_of_isValidPrice hRep.tick_pos (hBand hLimit)
  have hBookInstrument : s.book.instrument = book.instrument := hSim.instrument
  have hFresh : s.book.index.find m.incoming.id = none := by
    rw [hSim.rep.find_none_iff, hMatched, Book.find_eq_none_iff]
    intro other hOther
    obtain ⟨o, ho, hSame⟩ := Book.mem_ids_matched rfl hOther
    rw [(Order.eq_of_terms_eq hSame).1]
    exact fun hEq => Book.find_eq_none_iff.mp hFreshView o ho (hEq.trans hId)
  obtain ⟨hRested, hRestedAbs⟩ := hSim.rep.view_rest m.incoming hTight'
    (by rw [hBookInstrument]; exact hLt)
    (by rw [hBookInstrument]; exact hPriceEq.trans hPrice) hFresh
  have hSide' : m.incoming.side = order.side := hSide
  refine ⟨hRested, ?_, rfl, rfl, rfl⟩
  show (s.book.rest m.incoming).abs = _
  rw [hRestedAbs, hMatched, hSide']

end Commands

end OrderBook
end ExchangeCore
