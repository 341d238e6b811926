import Mathlib.Data.List.Sort
import ExchangeCore.Core.OrderBook
import ExchangeCore.Journal.RecordCodec
import ExchangeCore.Risk.KillSwitch
import ExchangeCore.Risk.RiskEngine

/-!
# The matching engine

Routes commands to one book per instrument, numbers them, hands them to the
journal and reports what the books did back to risk, as
`src/core/matching_engine.cpp` has it.  Time is read once per command, so each
command carries the reading `now`.  The journal, the risk engine and the kill
switch are borrowed and may be absent.

Listeners are external; `notices` holds the calls each of them receives during
one command, in order.
-/

namespace ExchangeCore

/-- One call on an engine listener. -/
inductive Notice
  | orderAccepted (sequence : Nat) (order : Order)
  | orderRejected (sequence : Nat) (command : NewOrder) (reason : RejectReason)
  | orderCancelled (sequence : Nat) (order : Order)
  | orderReplaced (sequence : Nat) (previous amended : Order)
  | fills (sequence : Nat) (fills : List Fill)
  deriving DecidableEq

/-- A command's result with its position in the engine's total ordering. -/
structure Sequenced (R : Type) where
  result : R
  sequence : Nat := 0
  deriving DecidableEq

/-- The order a new-order command asks for, stamped by the engine. -/
def Order.ofCommand (command : NewOrder) (sequence : Nat) (now : Int) : Order :=
  { id := command.id
    account := command.account
    instrument := command.instrument
    side := command.side
    type := command.type
    tif := command.tif
    price := command.price
    quantity := command.quantity
    remaining := command.quantity
    postOnly := command.postOnly
    sequence := sequence
    acceptedAt := now }

namespace RiskEngine

variable (risk : RiskEngine)

/-- A fill, and the close of the resting order it used up. -/
def settleFill (fill : Fill) : RiskEngine :=
  if fill.restingFilled then (risk.onFill fill).onOrderClosed fill.restingAccount
  else risk.onFill fill

/-- A withdrawal, and the close of the order it removed. -/
def settleWithdrawal (withdrawal : Withdrawal) : RiskEngine :=
  let released := risk.onWorkingReleased withdrawal.account withdrawal.instrument
    withdrawal.side withdrawal.quantity
  if withdrawal.fullyRemoved then released.onOrderClosed withdrawal.account else released

/-- Everything a book did in one command, reported back. -/
def settle (instrument : InstrumentId) (fills : List Fill)
    (withdrawals : List Withdrawal) : RiskEngine :=
  let settled := withdrawals.foldl settleWithdrawal (fills.foldl settleFill risk)
  match fills.getLast? with
  | none => settled
  | some last => settled.setReferencePrice instrument last.price

/-- A resting order stops counting: its quantity and its place. -/
def onOrderWithdrawn (order : Order) (instrument : InstrumentId) : RiskEngine :=
  (risk.onWorkingReleased order.account instrument order.side order.remaining).onOrderClosed
    order.account

end RiskEngine

structure MatchingEngine (J : Type) where
  journal : Option J := none
  risk : Option RiskEngine := none
  kill : Option KillSwitch := none
  books : AList fun _ : InstrumentId => OrderBook := ∅
  symbols : AList fun _ : List UInt8 => InstrumentId := ∅
  instrumentOrder : List InstrumentId := []
  scratchRecord : Record := {}
  fills : List Fill := []
  withdrawals : List Withdrawal := []
  notices : List Notice := []
  sequence : Nat := 0

namespace MatchingEngine

variable {J : Type} (engine : MatchingEngine J)

def bookFor (id : InstrumentId) : Option OrderBook :=
  engine.books.lookup id

def findInstrument (id : InstrumentId) : Option Instrument :=
  (engine.bookFor id).map OrderBook.instrument

def findSymbol (symbol : List UInt8) : Option Instrument :=
  (engine.symbols.lookup symbol).bind engine.findInstrument

/-! ## Parts of a command -/

/-- The buffers start empty for every command. -/
def clearBuffers : MatchingEngine J :=
  { engine with fills := [], withdrawals := [], notices := [] }

def onRisk (update : RiskEngine → RiskEngine) : MatchingEngine J :=
  { engine with risk := engine.risk.map update }

def onKill (update : KillSwitch → KillSwitch) : MatchingEngine J :=
  { engine with kill := engine.kill.map update }

def notify (notices : List Notice) : MatchingEngine J :=
  { engine with notices := engine.notices ++ notices }

/-- The calls that report a command's fills, none if there are none. -/
def fillNotices : List Notice :=
  if engine.fills.isEmpty then [] else [.fills engine.sequence engine.fills]

/-- What a book operation leaves behind. -/
def adopt (id : InstrumentId) (book : OrderBook)
    (fills : List Fill) (withdrawals : List Withdrawal) : MatchingEngine J :=
  { engine with
    books := engine.books.insert id book
    fills := fills
    withdrawals := withdrawals }

def settleRisk (instrument : InstrumentId) : MatchingEngine J :=
  engine.onRisk fun risk => risk.settle instrument engine.fills engine.withdrawals

/-- Record an order from the book as it actually rests. -/
def recordRested (rested : Option Order) : MatchingEngine J :=
  match rested with
  | none => engine
  | some order => engine.onRisk fun risk => risk.onOrderRested order

/-- Make an instrument tradable. -/
def register (instrument : Instrument) : MatchingEngine J :=
  { engine with
    symbols := engine.symbols.insert instrument.symbol instrument.id
    books := engine.books.insert instrument.id
      (OrderBook.create instrument instrument.expectedRestingOrders)
    instrumentOrder := (engine.instrumentOrder ++ [instrument.id]).insertionSort
      fun a b => a.value ≤ b.value }

/-- Answer a new order with a rejection and tell the listeners. -/
def refuse (sequence : Nat) (command : NewOrder)
    (result : SubmitResult) : MatchingEngine J × Sequenced SubmitResult :=
  (engine.notify [.orderRejected sequence command result.reject], ⟨result, sequence⟩)

/-- Pre-trade risk, if there is any.  A refusal counts towards the account's run
of rejects. -/
def checkRisk (command : NewOrder) (now : Int) : MatchingEngine J × RejectReason :=
  match engine.risk with
  | none => (engine, .none)
  | some risk =>
    let (risk, reason) := risk.check command now
    let engine := { engine with risk := some risk }
    if reason ≠ .none then
      (engine.onKill fun kill => kill.recordReject command.account now, reason)
    else
      (engine, .none)

/-- A recorded new order enters the book. -/
def place (target : OrderBook) (command : NewOrder) (now : Int) :
    MatchingEngine J × Sequenced SubmitResult :=
  let order := Order.ofCommand command engine.sequence now
  let outcome := target.submit order engine.fills engine.withdrawals
  let engine := engine.adopt command.instrument outcome.book outcome.fills outcome.withdrawals
  if outcome.result.reject ≠ .none then
    (engine.onKill fun kill => kill.recordReject command.account now).refuse engine.sequence
      command outcome.result
  else
    let engine := (engine.onKill fun kill => kill.recordAccept command.account).settleRisk
      command.instrument
    let engine :=
      if outcome.result.rested then engine.recordRested (outcome.book.find command.id)
      else engine
    (engine.notify (.orderAccepted engine.sequence order :: engine.fillNotices),
      ⟨outcome.result, engine.sequence⟩)

/-- A recorded cancellation reaches the book. -/
def withdraw (target : OrderBook) (command : CancelOrder) :
    MatchingEngine J × Sequenced CancelResult :=
  let (book, result) := target.cancel command.id
  let engine := engine.adopt command.instrument book engine.fills engine.withdrawals
  if result.reject ≠ .none then
    (engine, ⟨result, engine.sequence⟩)
  else
    let engine := engine.onRisk fun risk =>
      risk.onOrderWithdrawn result.order command.instrument
    (engine.notify [.orderCancelled engine.sequence result.order], ⟨result, engine.sequence⟩)

/-- A recorded amendment reaches the book.  What the order worked is released
first and recorded again afterwards. -/
def amend (target : OrderBook) (previous : Order)
    (command : ReplaceOrder) (now : Int) : MatchingEngine J × Sequenced ReplaceResult :=
  let engine := engine.onRisk fun risk => risk.onOrderWithdrawn previous command.instrument
  let outcome := target.replace command.id command.newPrice command.newQuantity engine.sequence
    now engine.fills engine.withdrawals
  let engine := engine.adopt command.instrument outcome.book outcome.fills outcome.withdrawals
  if outcome.result.reject ≠ .none then
    (engine.onRisk fun risk => risk.onOrderRested previous, ⟨outcome.result, engine.sequence⟩)
  else
    let amended := outcome.book.find command.id
    let engine := (engine.settleRisk command.instrument).recordRested amended
    let notice :=
      match amended with
      | some order => Notice.orderReplaced engine.sequence outcome.result.previous order
      | none => .orderCancelled engine.sequence outcome.result.previous
    (engine.notify (notice :: engine.fillNotices), ⟨outcome.result, engine.sequence⟩)

/-- For replay only: the number the next command will follow. -/
def restoreSequence (lastAssigned : Nat) : MatchingEngine J :=
  { engine with sequence := lastAssigned }

section Commands

variable [JournalSink J]

/-- Hand a record to the journal, if there is one. -/
def append (record : Record) (now : Int) : MatchingEngine J × Bool :=
  match engine.journal with
  | none => (engine, true)
  | some journal =>
    let (journal, recorded) := JournalSink.append journal record now
    ({ engine with journal := some journal }, recorded)

/-- A command that cannot be recorded is not executed, and halts the venue. -/
def journalCommand (record : Record) (now : Int) : MatchingEngine J × Bool :=
  let (engine, recorded) := engine.append record now
  if recorded then (engine, true)
  else (engine.onKill fun kill => kill.haltVenue .riskBreach now, false)

/-- Number a command and journal it through the reused record, of which `payload`
sets the type and the command.  The number is the source's for the first `2 ^ 64 - 1`
commands; results that compare numbers are about runs no longer than that. -/
def sequenceCommand (payload : Record → Record) (now : Int) : MatchingEngine J × Bool :=
  let sequence := engine.sequence + 1
  let record := { payload engine.scratchRecord with sequence := sequence, timestamp := now }
  { engine with sequence := sequence, scratchRecord := record }.journalCommand record now

def addInstrument (instrument : Instrument) (now : Int) : MatchingEngine J × Bool :=
  if !instrument.id.valid || instrument.symbol.isEmpty then
    (engine, false)
  else if (engine.bookFor instrument.id).isSome ||
      (engine.symbols.lookup instrument.symbol).isSome then
    (engine, false)
  else
    let sequence := engine.sequence + 1
    let record : Record :=
      { type := .instrumentDefined
        sequence := sequence
        timestamp := now
        instrument := instrument }
    let (engine, recorded) := { engine with sequence := sequence }.append record now
    if recorded then (engine.register instrument, true) else (engine, false)

def submit (command : NewOrder) (now : Int) : MatchingEngine J × Sequenced SubmitResult :=
  let engine := engine.clearBuffers
  match engine.bookFor command.instrument with
  | none => engine.refuse 0 command { reject := .unknownInstrument }
  | some target =>
    if !command.account.valid then
      engine.refuse 0 command { reject := .unknownOrder }
    else if engine.kill.any fun kill => kill.blocksNewOrders command.account then
      engine.refuse 0 command { reject := .halted }
    else
      let (engine, reason) := engine.checkRisk command now
      if reason ≠ .none then
        engine.refuse 0 command { reject := reason }
      else
        let (engine, recorded) := engine.sequenceCommand
          (fun record => { record with type := .newOrder, newOrder := command }) now
        if recorded then engine.place target command now
        else engine.refuse engine.sequence command { reject := .halted }

def cancel (command : CancelOrder) (now : Int) : MatchingEngine J × Sequenced CancelResult :=
  let engine := engine.clearBuffers
  match engine.bookFor command.instrument with
  | none => (engine, ⟨{ reject := .unknownInstrument }, 0⟩)
  | some target =>
    match target.find command.id with
    | none => (engine, ⟨{ reject := .unknownOrder }, 0⟩)
    | some resting =>
      if resting.account ≠ command.account then
        (engine, ⟨{ reject := .unknownOrder }, 0⟩)
      else
        let (engine, recorded) := engine.sequenceCommand
          (fun record => { record with type := .cancelOrder, cancelOrder := command }) now
        if recorded then engine.withdraw target command
        else (engine, ⟨{ reject := .halted }, engine.sequence⟩)

def replace (command : ReplaceOrder) (now : Int) : MatchingEngine J × Sequenced ReplaceResult :=
  let engine := engine.clearBuffers
  match engine.bookFor command.instrument with
  | none => (engine, ⟨{ reject := .unknownInstrument }, 0⟩)
  | some target =>
    match target.find command.id with
    | none => (engine, ⟨{ reject := .unknownOrder }, 0⟩)
    | some resting =>
      if resting.account ≠ command.account then
        (engine, ⟨{ reject := .unknownOrder }, 0⟩)
      else
        let (engine, recorded) := engine.sequenceCommand
          (fun record => { record with type := .replaceOrder, replaceOrder := command }) now
        if recorded then engine.amend target resting command now
        else (engine, ⟨{ reject := .halted }, engine.sequence⟩)

end Commands

end MatchingEngine
end ExchangeCore
