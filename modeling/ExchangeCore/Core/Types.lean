import ExchangeCore.Lib.Word64

/-!
# The venue's data

Identifiers, enumerations, orders, fills, withdrawals, instruments, commands
and results, field by field as `include/xc/core` declares them.  Prices (in
whole ticks) and times (in nanoseconds) are integers, quantities (in whole
lots) and sequence numbers are natural numbers; where
a 64-bit word can actually wrap (level totals, exposure, the fill-or-kill
count) the operation that wraps says so through `Word64`.
-/

namespace ExchangeCore

/-- The kinds of identifier, so that an order id cannot be passed where an
account id is expected. -/
inductive IdTag
  | order
  | account
  | trade
  | instrument
  deriving DecidableEq

/-- A tagged identifier.  Zero is the reserved invalid value. -/
structure Id (tag : IdTag) where
  value : Nat := 0
  deriving DecidableEq, Inhabited

/-- A default-constructed identifier never names anything. -/
def Id.valid {tag : IdTag} (id : Id tag) : Bool := id.value != 0

abbrev OrderId := Id .order
abbrev AccountId := Id .account
abbrev TradeId := Id .trade
abbrev InstrumentId := Id .instrument

/-- The sentinel for "no price"; real prices are strictly positive. -/
def noPrice : Int := 0

inductive Side
  | buy
  | sell
  deriving DecidableEq, Inhabited

def Side.opposite : Side → Side
  | .buy => .sell
  | .sell => .buy

theorem Side.opposite_ne (side : Side) : side.opposite ≠ side := by
  cases side <;> decide

inductive OrderType
  | limit
  | market
  deriving DecidableEq, Inhabited

inductive TimeInForce
  | day
  | immediateOrCancel
  | fillOrKill
  | goodTilCancelled
  deriving DecidableEq, Inhabited

/-- What happens when an order would trade against its own account. -/
inductive SelfTradePolicy
  | allow
  | cancelIncoming
  | cancelResting
  | cancelBoth
  | decrementBoth
  deriving DecidableEq, Inhabited

/-- Why a command was refused; `none` means it was not. -/
inductive RejectReason
  | none
  | unknownInstrument
  | unknownOrder
  | duplicateOrderId
  | invalidPrice
  | invalidQuantity
  | invalidSide
  | fillOrKillUnfillable
  | postOnlyWouldCross
  | selfTrade
  | riskLimit
  | priceCollar
  | halted
  | rateLimit
  deriving DecidableEq, Inhabited

/-- A single order as the book holds it. -/
structure Order where
  id : OrderId := {}
  account : AccountId := {}
  instrument : InstrumentId := {}
  price : Int := noPrice
  /-- What the order is working, counted from submission. -/
  quantity : Nat := 0
  /-- What is still available to trade. -/
  remaining : Nat := 0
  side : Side := .buy
  type : OrderType := .limit
  tif : TimeInForce := .day
  acceptedAt : Int := 0
  sequence : Nat := 0
  postOnly : Bool := false
  deriving DecidableEq, Inhabited

def Order.filled (order : Order) : Nat := order.quantity - order.remaining

theorem Order.setRemaining_eq {order : Order} {remaining : Nat}
    (hSame : order.remaining = remaining) : { order with remaining := remaining } = order := by
  subst hSame
  rfl

def Order.isBuy (order : Order) : Bool := order.side == .buy

/-- One execution between an incoming order and a resting one. -/
structure Fill where
  id : TradeId
  instrument : InstrumentId
  price : Int
  quantity : Nat
  aggressorOrder : OrderId
  restingOrder : OrderId
  aggressorAccount : AccountId
  restingAccount : AccountId
  aggressorSide : Side
  restingFilled : Bool
  timestamp : Int
  deriving DecidableEq

/-- Quantity taken off a resting order without trading. -/
structure Withdrawal where
  order : OrderId
  account : AccountId
  instrument : InstrumentId
  side : Side
  quantity : Nat
  fullyRemoved : Bool
  reason : RejectReason
  deriving DecidableEq

/-- Static configuration of one tradable instrument.  A symbol is a byte
string, as `std::string` is. -/
structure Instrument where
  id : InstrumentId := {}
  symbol : List UInt8 := []
  tickSize : Int := 1
  lotSize : Nat := 1
  minQuantity : Nat := 1
  displayExponent : Nat := 2
  selfTradePolicy : SelfTradePolicy := .cancelIncoming
  minPrice : Int := 1
  maxPrice : Int := 65535
  expectedRestingOrders : Nat := 4096
  deriving DecidableEq, Inhabited

namespace Instrument

variable (instrument : Instrument)

/-- A positive price on the tick grid and inside the band.  The remainder is
the truncating one of the source language. -/
def isValidPrice (price : Int) : Bool :=
  decide (0 < price) && decide (price.tmod instrument.tickSize = 0) &&
    decide (instrument.minPrice ≤ price) && decide (price ≤ instrument.maxPrice)

/-- The band's floor, rounded to a whole tick. -/
def ladderBase : Int :=
  instrument.minPrice.tdiv instrument.tickSize * instrument.tickSize

/-- How many ticks the band spans. -/
def tickCount : Nat :=
  ((instrument.maxPrice - instrument.ladderBase).tdiv instrument.tickSize).toNat + 1

/-- At least the venue minimum and a whole number of lots. -/
def isValidQuantity (quantity : Nat) : Bool :=
  decide (instrument.minQuantity ≤ quantity) && decide (quantity % instrument.lotSize = 0)

/-- The configurations a book is meant to be built from. -/
structure WellFormed (instrument : Instrument) : Prop where
  tick_pos : 1 ≤ instrument.tickSize
  lot_pos : 1 ≤ instrument.lotSize
  min_pos : 1 ≤ instrument.minPrice
  band : instrument.minPrice ≤ instrument.maxPrice

end Instrument

/-! ## Results -/

/-- Outcome of submitting an order. -/
structure SubmitResult where
  reject : RejectReason := .none
  filled : Nat := 0
  stpCancelled : Nat := 0
  rested : Bool := false
  deriving DecidableEq, Inhabited

def SubmitResult.accepted (result : SubmitResult) : Bool := result.reject == .none

/-- Outcome of cancelling an order, with the order as it stood. -/
structure CancelResult where
  reject : RejectReason := .none
  order : Order := {}
  deriving DecidableEq, Inhabited

def CancelResult.accepted (result : CancelResult) : Bool := result.reject == .none

/-- Outcome of amending a resting order. -/
structure ReplaceResult where
  reject : RejectReason := .none
  priorityRetained : Bool := false
  previous : Order := {}
  filled : Nat := 0
  stpCancelled : Nat := 0
  rested : Bool := false
  deriving DecidableEq, Inhabited

def ReplaceResult.accepted (result : ReplaceResult) : Bool := result.reject == .none

/-- The best bid and offer.  The book leaves `sequence` at its default. -/
structure TopOfBook where
  instrument : InstrumentId := {}
  sequence : Nat := 0
  bidPrice : Int := noPrice
  askPrice : Int := noPrice
  bidQuantity : Nat := 0
  askQuantity : Nat := 0
  deriving DecidableEq, Inhabited

/-- One aggregated price level. -/
structure DepthLevel where
  price : Int := noPrice
  quantity : Nat := 0
  orderCount : Nat := 0
  deriving DecidableEq, Inhabited

/-- Aggregated depth, best price first on each side. -/
structure DepthSnapshot where
  instrument : InstrumentId := {}
  sequence : Nat := 0
  bids : List DepthLevel := []
  asks : List DepthLevel := []
  deriving DecidableEq, Inhabited

/-- What a book operation leaves behind: the book, its own result, and the two
buffers it appends to. -/
structure Outcome (B R : Type) where
  book : B
  result : R
  fills : List Fill
  withdrawals : List Withdrawal
  deriving DecidableEq

/-! ## Commands -/

/-- A request to open a new order, with only what a client supplies. -/
structure NewOrder where
  id : OrderId := {}
  account : AccountId := {}
  instrument : InstrumentId := {}
  side : Side := .buy
  type : OrderType := .limit
  tif : TimeInForce := .day
  price : Int := noPrice
  quantity : Nat := 0
  postOnly : Bool := false
  deriving DecidableEq, Inhabited

/-- A request to withdraw a resting order. -/
structure CancelOrder where
  id : OrderId := {}
  account : AccountId := {}
  instrument : InstrumentId := {}
  deriving DecidableEq, Inhabited

/-- A request to amend a resting order; `newQuantity` is the new total. -/
structure ReplaceOrder where
  id : OrderId := {}
  account : AccountId := {}
  instrument : InstrumentId := {}
  newPrice : Int := noPrice
  newQuantity : Nat := 0
  deriving DecidableEq, Inhabited

end ExchangeCore
