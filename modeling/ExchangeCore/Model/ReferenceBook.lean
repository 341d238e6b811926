import Mathlib.Data.List.Sort
import ExchangeCore.Lib.LinearScan
import ExchangeCore.PriceTime.Timing
import ExchangeCore.PriceTime.Fillable

/-!
# The reference book

The naive book the source tests its order book against: one flat list of orders
in arrival order, scanned from end to end for the next counterparty, with a
fill-or-kill order tried out on a copy.  Every function is the source function
of the same name, except that the two sides' halves of a loop over all orders
are written as one loop per side.
-/

namespace ExchangeCore

open PriceTime

structure ReferenceBook where
  instrument : Instrument
  orders : List Order := []
  nextTradeId : Nat := 1
  deriving DecidableEq

namespace ReferenceBook

/-- What a command of the reference book leaves behind. -/
structure Answer (R : Type) where
  book : ReferenceBook
  result : R
  fills : List Fill

variable (book : ReferenceBook)

def find (id : OrderId) : Option Nat :=
  book.orders.findIdx? fun order => decide (order.id = id)

def orderAt (index : Nat) : Order := book.orders[index]?.getD default

def remove (index : Nat) : ReferenceBook :=
  { book with orders := book.orders.eraseIdx index }

/-- A live order of the other side, at a price the aggressor accepts. -/
def eligible (aggressorSide : Side) (limit : Int) (isMarket : Bool) (candidate : Order) : Bool :=
  if candidate.side == aggressorSide || candidate.remaining == 0 then
    false
  else if !isMarket then
    if aggressorSide == .buy then decide (candidate.price ≤ limit)
    else decide (candidate.price ≥ limit)
  else
    true

/-- Price first, then arrival. -/
def preferred (aggressorSide : Side) (candidate incumbent : Order) : Bool :=
  (if aggressorSide == .buy then decide (candidate.price < incumbent.price)
    else decide (candidate.price > incumbent.price)) ||
  (decide (candidate.price = incumbent.price) &&
    decide (candidate.sequence < incumbent.sequence))

/-- The order an aggressor should trade with next, with its place in the list. -/
def bestCounterparty (aggressorSide : Side) (limit : Int)
    (isMarket : Bool) : Option (Order × Nat) :=
  LinearScan.select (fun candidate => eligible aggressorSide limit isMarket candidate.1)
    (fun candidate incumbent => preferred aggressorSide candidate.1 incumbent.1)
    book.orders.zipIdx

/-- Write a resting order back, and remove it once nothing is left. -/
def settle (slot : Nat) (resting : Order) : ReferenceBook :=
  if resting.remaining = 0 then
    book.remove slot
  else
    { book with orders := book.orders.set slot resting }

/-- The locals of `match` that its loop changes. -/
structure MatchState where
  book : ReferenceBook
  incoming : Order
  fills : List Fill
  stpCancelled : Nat := 0

namespace MatchState

def prevent (s : MatchState) (slot : Nat) (resting : Order) : MatchState :=
  match s.book.instrument.selfTradePolicy with
  | .cancelIncoming =>
    { s with
      stpCancelled := s.stpCancelled + s.incoming.remaining
      incoming := { s.incoming with remaining := 0 } }
  | .cancelResting => { s with book := s.book.remove slot }
  | .cancelBoth =>
    { s with
      stpCancelled := s.stpCancelled + s.incoming.remaining
      incoming := { s.incoming with remaining := 0 }
      book := s.book.remove slot }
  | _ =>
    let overlap := min s.incoming.remaining resting.remaining
    { s with
      incoming := s.incoming.shrink overlap
      stpCancelled := s.stpCancelled + overlap
      book := s.book.settle slot (resting.shrink overlap) }

def trade (s : MatchState) (slot : Nat) (resting : Order) : MatchState :=
  let quantity := min s.incoming.remaining resting.remaining
  let incoming := s.incoming.take quantity
  let resting := resting.take quantity
  { s with
    incoming := incoming
    fills := s.fills ++ [Fill.between s.book.instrument s.book.nextTradeId resting.price quantity
      incoming resting]
    book :=
      { s.book with nextTradeId := s.book.nextTradeId + 1 }.settle slot resting }

/-- The matching loop.  Each pass uses up the incoming order or removes one, so
the number of orders bounds it. -/
def loop : Nat → MatchState → MatchState
  | 0, s => s
  | fuel + 1, s =>
    if s.incoming.remaining = 0 then
      s
    else
      match s.book.bestCounterparty s.incoming.side s.incoming.price
          (s.incoming.type == .market) with
      | none => s
      | some (resting, slot) =>
        let preventionActive :=
          s.book.instrument.selfTradePolicy != .allow && s.incoming.account.valid
        if preventionActive && decide (resting.account = s.incoming.account) then
          loop fuel (s.prevent slot resting)
        else
          loop fuel (s.trade slot resting)

end MatchState

def «match» (incoming : Order) (fills : List Fill) : MatchState :=
  MatchState.loop (book.orders.length + 1)
    { book := book, incoming := incoming, fills := fills }

/-- What a finished match reports. -/
def MatchState.result (s : MatchState) (requested : Nat) : SubmitResult :=
  { filled := requested - s.incoming.remaining - s.stpCancelled
    stpCancelled := s.stpCancelled }

def wouldCross (order : Order) : Bool :=
  if order.type = .market then true
  else (book.bestCounterparty order.side order.price false).isSome

def submit (order : Order) (fills : List Fill) : Answer SubmitResult :=
  if order.instrument ≠ book.instrument.id then
    ⟨book, { reject := .unknownInstrument }, fills⟩
  else if !book.instrument.isValidQuantity order.quantity then
    ⟨book, { reject := .invalidQuantity }, fills⟩
  else if order.type == .limit && !book.instrument.isValidPrice order.price then
    ⟨book, { reject := .invalidPrice }, fills⟩
  else if (book.find order.id).isSome then
    ⟨book, { reject := .duplicateOrderId }, fills⟩
  else
    let order : Order :=
      if order.remaining = 0 then { order with remaining := order.quantity } else order
    if order.postOnly && book.wouldCross order then
      ⟨book, { reject := .postOnlyWouldCross }, fills⟩
    else
      -- A copy of the whole book answers whether the order can fill.
      let trial := book.match order []
      if order.tif = .fillOrKill ∧ (trial.result order.remaining).filled < order.remaining then
        ⟨book, { reject := .fillOrKillUnfillable }, fills⟩
      else
        let s := book.match order fills
        let result := s.result order.remaining
        if s.incoming.remaining = 0 then
          ⟨s.book, result, s.fills⟩
        else if order.type = .market ∨ order.tif = .immediateOrCancel then
          ⟨s.book, result, s.fills⟩
        else
          ⟨{ s.book with orders := s.book.orders ++ [s.incoming] },
            { result with rested := true }, s.fills⟩

def cancel (id : OrderId) : ReferenceBook × CancelResult :=
  match book.find id with
  | none => (book, { reject := .unknownOrder })
  | some index => (book.remove index, { order := book.orderAt index })

def replace (id : OrderId) (newPrice : Int)
    (newQuantity newSequence : Nat) (now : Int) (fills : List Fill) : Answer ReplaceResult :=
  match book.find id with
  | none => ⟨book, { reject := .unknownOrder }, fills⟩
  | some index =>
    let previous := book.orderAt index
    if !book.instrument.isValidPrice newPrice then
      ⟨book, { reject := .invalidPrice, previous := previous }, fills⟩
    else if !book.instrument.isValidQuantity newQuantity then
      ⟨book, { reject := .invalidQuantity, previous := previous }, fills⟩
    else if newQuantity ≤ previous.filled then
      ⟨book.remove index, { previous := previous }, fills⟩
    else if newPrice = previous.price ∧ newQuantity < previous.quantity then
      let resting : Order :=
        { previous with
          quantity := newQuantity
          remaining := newQuantity - previous.filled }
      ⟨{ book with orders := book.orders.set index resting },
        { previous := previous, priorityRetained := true, rested := true }, fills⟩
    else
      let amended : Order :=
        { previous with
          price := newPrice
          quantity := newQuantity
          remaining := newQuantity - previous.filled
          sequence := newSequence
          acceptedAt := now }
      let resubmitted := (book.remove index).submit amended fills
      ⟨resubmitted.book,
        { reject := resubmitted.result.reject
          previous := previous
          filled := resubmitted.result.filled
          stpCancelled := resubmitted.result.stpCancelled
          rested := resubmitted.result.rested },
        resubmitted.fills⟩

/-! ## Queries -/

/-- The comparison `resting_orders` sorts one side by. -/
def sortsBefore (side : Side) (a b : Order) : Bool :=
  if a.price ≠ b.price then
    match side with
    | .buy => decide (a.price > b.price)
    | .sell => decide (a.price < b.price)
  else
    decide (a.sequence < b.sequence)

/-- The orders of one side, sorted. -/
def sideOrders (side : Side) : List Order :=
  (book.orders.filter fun order => decide (order.side = side)).insertionSort
    fun a b => sortsBefore side b a = false

def restingOrders : List Order :=
  book.sideOrders .buy ++ book.sideOrders .sell

/-- `price` improves on `best`, which may still be unset. -/
def improves (side : Side) (price best : Int) : Bool :=
  best == noPrice ||
    match side with
    | .buy => decide (price > best)
    | .sell => decide (price < best)

/-- The first loop of `top_of_book`: the best price of one side. -/
def bestPrice (side : Side) : Int :=
  book.orders.foldl (fun best order =>
      if order.side = side ∧ improves side order.price best = true then order.price else best)
    noPrice

/-- The second loop: the quantity at that price. -/
def quantityAtBest (side : Side) : Nat :=
  book.orders.foldl (fun total order =>
      if order.side = side ∧ order.price = book.bestPrice side then
        Word64.add total order.remaining
      else
        total)
    0

def topOfBook : TopOfBook :=
  { instrument := book.instrument.id
    bidPrice := book.bestPrice .buy
    bidQuantity := book.quantityAtBest .buy
    askPrice := book.bestPrice .sell
    askQuantity := book.quantityAtBest .sell }

/-- The key order of the map of one side. -/
def priceBefore (side : Side) (a b : Int) : Bool :=
  match side with
  | .buy => decide (a > b)
  | .sell => decide (a < b)

/-- Add an order to its level in a map kept in key order, creating the level if
it is new. -/
def addToLevels (side : Side) (order : Order) : List DepthLevel → List DepthLevel
  | [] => [{ price := order.price, quantity := Word64.add 0 order.remaining, orderCount := 1 }]
  | level :: rest =>
    if order.price = level.price then
      { price := order.price
        quantity := Word64.add level.quantity order.remaining
        orderCount := level.orderCount + 1 } :: rest
    else if priceBefore side order.price level.price then
      { price := order.price, quantity := Word64.add 0 order.remaining, orderCount := 1 } ::
        level :: rest
    else
      level :: addToLevels side order rest

def levelsOf (side : Side) : List DepthLevel :=
  book.orders.foldl
    (fun levels order => if order.side = side then addToLevels side order levels else levels) []

def depth (maxLevels : Nat) : DepthSnapshot :=
  { instrument := book.instrument.id
    bids := (book.levelsOf .buy).take maxLevels
    asks := (book.levelsOf .sell).take maxLevels }

end ReferenceBook
end ExchangeCore
