import ExchangeCore.Core.PriceLadder
import ExchangeCore.Util.FlatHashMap
import ExchangeCore.PriceTime.Book

/-!
# The order book

The book as the source builds it: one slab of nodes, a ladder of intrusive
queues per side, and an index from order id to slab handle.  Each function is
the source function of the same name, with the book passed in and returned.

The loops of `match` run on fuel.  Every pass of the inner loop either takes an
order off the book or uses up the incoming one, and every pass of the outer
loop erases a level or uses it up, so the live order count and the occupied
level count bound them.  The pointer to the withdrawal buffer may be null in
the source; the model always collects, and a caller without a buffer ignores
what comes back.
-/

namespace ExchangeCore

structure OrderBook where
  instrument : Instrument
  pool : OrderPool
  bids : PriceLadder
  asks : PriceLadder
  index : FlatHashMap OrderId OrderHandle
  nextTradeId : Nat := 1
  deriving DecidableEq

namespace OrderBook

def create (instrument : Instrument) (initialCapacity : Nat) : OrderBook :=
  { instrument := instrument
    pool := OrderPool.create initialCapacity
    bids := PriceLadder.ofInstrument true instrument
    asks := PriceLadder.ofInstrument false instrument
    index := FlatHashMap.create (initialCapacity * 2) }

variable (book : OrderBook)

/-- The ladder an order of this side rests on. -/
def ladder : Side → PriceLadder
  | .buy => book.bids
  | .sell => book.asks

def setLadder (side : Side) (ladder : PriceLadder) : OrderBook :=
  match side with
  | .buy => { book with bids := ladder }
  | .sell => { book with asks := ladder }

/-- Write back the slab and the index. -/
def setStore (pool : OrderPool) (index : FlatHashMap OrderId OrderHandle) : OrderBook :=
  { book with pool := pool, index := index }

/-- Hand out the next trade id. -/
def bumpTradeId : OrderBook :=
  { book with nextTradeId := book.nextTradeId + 1 }

def find (id : OrderId) : Option Order :=
  (book.index.find id).map book.pool.order

def validate (order : Order) : RejectReason :=
  if order.instrument ≠ book.instrument.id then .unknownInstrument
  else if !book.instrument.isValidQuantity order.quantity then .invalidQuantity
  else if order.type == .limit && !book.instrument.isValidPrice order.price then .invalidPrice
  else if book.index.contains order.id then .duplicateOrderId
  else .none

/-! ## Fill-or-kill liquidity -/

/-- Prevention inactive: level totals are added up, in 64-bit words, until they
reach what is needed or a level does not cross. -/
def fillableLevels (ladder : PriceLadder) (crosses : Int → Bool) (needed : Nat) :
    List Nat → Nat → Nat
  | [], available => available
  | i :: rest, available =>
    if !crosses (ladder.priceAt i) then
      available
    else
      let available := Word64.add available (ladder.level i).totalQuantity
      if needed ≤ available then available
      else fillableLevels ladder crosses needed rest available

/-- Prevention active: what is left to allocate and what will fill after one
level's orders, and whether the answer is final. -/
def fillableOrders (policy : SelfTradePolicy) (account : AccountId) :
    List Order → Nat → Nat → Nat × Nat × Bool
  | [], unallocated, willFill => (unallocated, willFill, false)
  | resting :: rest, unallocated, willFill =>
    match if resting.account = account then policy else .allow with
    | .cancelIncoming => (unallocated, willFill, true)
    | .cancelBoth => (unallocated, willFill, true)
    | .cancelResting => fillableOrders policy account rest unallocated willFill
    | .decrementBoth =>
      let left := unallocated - min unallocated resting.remaining
      if left = 0 then (left, willFill, true)
      else fillableOrders policy account rest left willFill
    | .allow =>
      -- Somebody else's order trades.
      let traded := min unallocated resting.remaining
      if unallocated - traded = 0 then (unallocated - traded, willFill + traded, true)
      else fillableOrders policy account rest (unallocated - traded) (willFill + traded)

/-- The walk over the crossing levels with prevention active. -/
def fillableWalk (book : OrderBook) (ladder : PriceLadder) (crosses : Int → Bool)
    (account : AccountId) : List Nat → Nat → Nat → Nat
  | [], _, willFill => willFill
  | i :: rest, unallocated, willFill =>
    if !crosses (ladder.priceAt i) then
      willFill
    else
      let orders := ((ladder.level i).handles book.pool).map book.pool.order
      let (unallocated, willFill, final) :=
        fillableOrders book.instrument.selfTradePolicy account orders unallocated willFill
      if final then willFill
      else fillableWalk book ladder crosses account rest unallocated willFill

/-- Quantity that would fill for an aggressor of `account` asking for `needed`. -/
def fillable (side : Side) (crosses : Int → Bool) (needed : Nat) (account : AccountId) : Nat :=
  let ladder := book.ladder side
  let preventionActive := book.instrument.selfTradePolicy != .allow && account.valid
  if !preventionActive then
    fillableLevels ladder crosses needed ladder.indices 0
  else
    fillableWalk book ladder crosses account ladder.indices needed 0

/-! ## Matching -/

/-- Write through a reference to one level. -/
def setLevel (side : Side) (i : Nat) (level : PriceLevel) : OrderBook :=
  book.setLadder side ((book.ladder side).setLevel i level)

/-- Unlink a resting order from its level, drop its index entry and return its
node to the slab. -/
def dropResting (side : Side) (i : Nat) (handle : OrderHandle) : OrderBook :=
  let id := (book.pool.order handle).id
  let (level, pool) := ((book.ladder side).level i).unlink book.pool handle
  (book.setLevel side i level).setStore (pool.release handle) (book.index.erase id).1

/-- Write a resting order's new quantities and take the difference off its
level's total. -/
def reduceResting (side : Side) (i : Nat) (handle : OrderHandle)
    (order : Order) (quantity : Nat) : OrderBook :=
  (book.setLevel side i (((book.ladder side).level i).reduce quantity)).setStore
    (book.pool.setOrder handle order) book.index

/-- Reduce a resting order, and take it off the book once nothing is left. -/
def settleResting (side : Side) (i : Nat) (handle : OrderHandle)
    (order : Order) (quantity : Nat) : OrderBook :=
  let reduced := book.reduceResting side i handle order quantity
  if order.remaining = 0 then reduced.dropResting side i handle else reduced

/-- Erase a level once its queue has emptied. -/
def closeLevel (side : Side) (i : Nat) : OrderBook :=
  if ((book.ladder side).level i).empty then
    book.setLadder side ((book.ladder side).erase i)
  else
    book

/-- The locals of `match` that its loops change. -/
structure MatchState where
  book : OrderBook
  incoming : Order
  fills : List Fill
  withdrawals : List Withdrawal
  stpCancelled : Nat := 0

namespace MatchState

variable (s : MatchState)

/-- Prevention on an own resting order.  The policies that stop the aggressor
leave it with nothing remaining, which ends both loops. -/
def prevent (side : Side) (i : Nat) (handle : OrderHandle) : MatchState :=
  let instrument := s.book.instrument
  let resting := s.book.pool.order handle
  match instrument.selfTradePolicy with
  | .allow => s
  | .cancelIncoming =>
    { s with
      stpCancelled := s.stpCancelled + s.incoming.remaining
      incoming := { s.incoming with remaining := 0 } }
  | .cancelResting =>
    { s with
      withdrawals := s.withdrawals ++
        [Withdrawal.ofResting instrument resting resting.remaining true]
      book := s.book.dropResting side i handle }
  | .cancelBoth =>
    { s with
      stpCancelled := s.stpCancelled + s.incoming.remaining
      incoming := { s.incoming with remaining := 0 }
      withdrawals := s.withdrawals ++
        [Withdrawal.ofResting instrument resting resting.remaining true]
      book := s.book.dropResting side i handle }
  | .decrementBoth =>
    let overlap := min s.incoming.remaining resting.remaining
    let reduced := resting.shrink overlap
    { s with
      incoming := s.incoming.shrink overlap
      stpCancelled := s.stpCancelled + overlap
      withdrawals := s.withdrawals ++
        [Withdrawal.ofResting instrument reduced overlap (reduced.remaining == 0)]
      book := s.book.settleResting side i handle reduced overlap }

/-- A trade with the front order of the level at `levelPrice`. -/
def trade (side : Side) (i : Nat) (levelPrice : Int) (handle : OrderHandle) : MatchState :=
  let resting := s.book.pool.order handle
  let quantity := min s.incoming.remaining resting.remaining
  let incoming := s.incoming.take quantity
  let reduced := resting.take quantity
  { s with
    incoming := incoming
    fills := s.fills ++ [Fill.between s.book.instrument s.book.nextTradeId levelPrice quantity
      incoming reduced]
    book := (s.book.settleResting side i handle reduced quantity).bumpTradeId }

/-- The inner loop: the front order of one level, again and again. -/
def matchLevel (side : Side) (i : Nat) (levelPrice : Int) : Nat → MatchState → MatchState
  | 0, s => s
  | fuel + 1, s =>
    if s.incoming.remaining = 0 then
      s
    else
      match ((s.book.ladder side).level i).front with
      | none => s
      | some handle =>
        if s.book.instrument.prevents s.incoming.account (s.book.pool.order handle).account then
          matchLevel side i levelPrice fuel (s.prevent side i handle)
        else
          matchLevel side i levelPrice fuel (s.trade side i levelPrice handle)

/-- The outer loop: the best level of the opposite side, while it crosses. -/
def matchLevels (side : Side) (crosses : Int → Bool) : Nat → MatchState → MatchState
  | 0, s => s
  | fuel + 1, s =>
    if s.incoming.remaining = 0 then
      s
    else
      match (s.book.ladder side).bestOccupied with
      | none => s
      | some i =>
        let levelPrice := (s.book.ladder side).priceAt i
        if !crosses levelPrice then
          s
        else
          let s := matchLevel side i levelPrice (s.book.pool.live + 1) s
          matchLevels side crosses fuel { s with book := s.book.closeLevel side i }

end MatchState

/-- Match an incoming order against one side. -/
def «match» (side : Side) (incoming : Order) (fills : List Fill)
    (withdrawals : List Withdrawal) : MatchState :=
  MatchState.matchLevels side incoming.crosses ((book.ladder side).occupied + 1)
    { book := book, incoming := incoming, fills := fills, withdrawals := withdrawals }

/-! ## Commands -/

def bestBid : Option Int :=
  if book.bids.empty then none else book.bids.bestOccupied.map book.bids.priceAt

def bestAsk : Option Int :=
  if book.asks.empty then none else book.asks.bestOccupied.map book.asks.priceAt

def wouldCross (order : Order) : Bool :=
  if order.type = .market then
    true
  else if order.isBuy then
    book.bestAsk.any fun ask => decide (order.price ≥ ask)
  else
    book.bestBid.any fun bid => decide (order.price ≤ bid)

/-- Store the order, index it, and append it to the queue of its price. -/
def rest (order : Order) : OrderBook :=
  let (pool, handle) := book.pool.acquire order
  let index := (book.index.insert order.id handle).1
  match (book.ladder order.side).subscript order.price with
  | (_, none) => book.setStore pool index
  | (ladder, some i) =>
    let (level, pool) := (ladder.level i).pushBack pool handle
    (book.setLadder order.side (ladder.setLevel i level)).setStore pool index

def insert (order : Order) (fills : List Fill)
    (withdrawals : List Withdrawal) : Outcome OrderBook SubmitResult :=
  let reject := book.validate order
  if reject ≠ .none then
    ⟨book, { reject := reject }, fills, withdrawals⟩
  else
    let requested := order.remaining
    if order.postOnly && book.wouldCross order then
      ⟨book, { reject := .postOnlyWouldCross }, fills, withdrawals⟩
    else if order.tif = .fillOrKill ∧
        book.fillable order.side.opposite order.crosses requested order.account < requested then
      ⟨book, { reject := .fillOrKillUnfillable }, fills, withdrawals⟩
    else
      let s := book.match order.side.opposite order fills withdrawals
      let result : SubmitResult :=
        { filled := requested - s.incoming.remaining - s.stpCancelled
          stpCancelled := s.stpCancelled }
      if s.incoming.remaining = 0 then
        ⟨s.book, result, s.fills, s.withdrawals⟩
      else if order.type = .market ∨ order.tif = .immediateOrCancel then
        ⟨s.book, result, s.fills, s.withdrawals⟩
      else
        ⟨s.book.rest s.incoming, { result with rested := true }, s.fills, s.withdrawals⟩

/-- A newly submitted order has traded nothing yet. -/
def submit (order : Order) (fills : List Fill)
    (withdrawals : List Withdrawal) : Outcome OrderBook SubmitResult :=
  book.insert { order with remaining := order.quantity } fills withdrawals

def cancel (id : OrderId) : OrderBook × CancelResult :=
  match book.index.find id with
  | none => (book, { reject := .unknownOrder })
  | some handle =>
    let order := book.pool.order handle
    match (book.ladder order.side).find order.price with
    | none => (book, { order := order })
    | some i =>
      let (level, pool) := ((book.ladder order.side).level i).unlink book.pool handle
      let unlinked := (book.ladder order.side).setLevel i level
      let ladder := if level.empty then unlinked.erase i else unlinked
      ((book.setLadder order.side ladder).setStore (pool.release handle) (book.index.erase id).1,
        { order := order })

def replace (id : OrderId) (newPrice : Int) (newQuantity newSequence : Nat)
    (now : Int) (fills : List Fill) (withdrawals : List Withdrawal) :
    Outcome OrderBook ReplaceResult :=
  match book.index.find id with
  | none => ⟨book, { reject := .unknownOrder }, fills, withdrawals⟩
  | some handle =>
    let previous := book.pool.order handle
    if !book.instrument.isValidPrice newPrice then
      ⟨book, { reject := .invalidPrice, previous := previous }, fills, withdrawals⟩
    else if !book.instrument.isValidQuantity newQuantity then
      ⟨book, { reject := .invalidQuantity, previous := previous }, fills, withdrawals⟩
    else if newQuantity ≤ previous.filled then
      ⟨(book.cancel id).1, { previous := previous }, fills, withdrawals⟩
    else if newPrice = previous.price ∧ newQuantity < previous.quantity then
      let newRemaining := newQuantity - previous.filled
      let resting := { previous with quantity := newQuantity, remaining := newRemaining }
      let book :=
        match (book.ladder previous.side).find previous.price with
        | none => book
        | some i => book.reduceResting previous.side i handle resting
            (previous.remaining - newRemaining)
      ⟨book, { previous := previous, priorityRetained := true, rested := true }, fills, withdrawals⟩
    else
      let amended : Order :=
        { previous with
          price := newPrice
          quantity := newQuantity
          remaining := newQuantity - previous.filled
          sequence := newSequence
          acceptedAt := now }
      let resubmitted := (book.cancel id).1.insert amended fills withdrawals
      ⟨resubmitted.book,
        { reject := resubmitted.result.reject
          previous := previous
          filled := resubmitted.result.filled
          stpCancelled := resubmitted.result.stpCancelled
          rested := resubmitted.result.rested },
        resubmitted.fills, resubmitted.withdrawals⟩

/-! ## Queries -/

/-- The best price and total of one side, or the empty values. -/
def topOfSide (ladder : PriceLadder) : Int × Nat :=
  if ladder.empty then
    (noPrice, 0)
  else
    match ladder.bestOccupied with
    | none => (noPrice, 0)
    | some i => (ladder.priceAt i, (ladder.level i).totalQuantity)

def topOfBook : TopOfBook :=
  { instrument := book.instrument.id
    bidPrice := (topOfSide book.bids).1
    bidQuantity := (topOfSide book.bids).2
    askPrice := (topOfSide book.asks).1
    askQuantity := (topOfSide book.asks).2 }

/-- The first `maxLevels` levels of one side, best price first. -/
def depthOfSide (ladder : PriceLadder) (maxLevels : Nat) : List DepthLevel :=
  (ladder.indices.take maxLevels).map fun i =>
    { price := ladder.priceAt i
      quantity := (ladder.level i).totalQuantity
      orderCount := (ladder.level i).orderCount }

def depth (maxLevels : Nat) : DepthSnapshot :=
  { instrument := book.instrument.id
    bids := depthOfSide book.bids maxLevels
    asks := depthOfSide book.asks maxLevels }

/-- The resting orders of one side in matching order. -/
def sideOrders (side : Side) : List Order :=
  (book.ladder side).indices.flatMap fun i =>
    (((book.ladder side).level i).handles book.pool).map book.pool.order

/-- Every resting order in matching order, bids before asks. -/
def restingOrders : List Order :=
  book.sideOrders .buy ++ book.sideOrders .sell

def restingOrderCount : Nat := book.index.size

end OrderBook
end ExchangeCore
