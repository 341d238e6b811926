import ExchangeCore.Core.EngineSteps
import ExchangeCore.Lib.Machine

/-!
# Runs of the engine

An event is a command with the clock reading it meets, or a change to what the
engine borrows: account limits, instrument controls, the risk engine and the kill
switch themselves.  A run folds `apply` over a list of events.

Every book of a reachable engine is a kept book filed under its own instrument
id (`Housed`), provided that instruments are only added with a positive tick.
-/

namespace ExchangeCore

open PriceTime

inductive Event
  | addInstrument (instrument : Instrument) (now : Int)
  | submit (command : NewOrder) (now : Int)
  | cancel (command : CancelOrder) (now : Int)
  | replace (command : ReplaceOrder) (now : Int)
  | configure (account : AccountId) (limits : AccountLimits)
  | configureInstrument (instrument : InstrumentId) (controls : InstrumentControls)
  | setReferencePrice (instrument : InstrumentId) (price : Int)
  | setRiskEngine (risk : Option RiskEngine)
  | setKillSwitch (kill : Option KillSwitch)
  deriving DecidableEq

namespace Event

/-- A ladder divides by the tick, so the source asserts that it is positive. -/
def Ticked : Event → Prop
  | .addInstrument instrument _ => 0 < instrument.tickSize
  | _ => True

instance : DecidablePred Ticked := fun event => by
  rcases event with _ | _ <;> dsimp only [Ticked] <;> infer_instance

/-- The commands of clients. -/
def IsCommand : Event → Prop
  | .submit _ _ | .cancel _ _ | .replace _ _ => True
  | _ => False

/-- The risk engine stays the one that is attached. -/
def KeepsRisk : Event → Prop
  | .setRiskEngine _ => False
  | _ => True

instance : DecidablePred KeepsRisk := fun event => by
  rcases event with _ | _ <;> dsimp only [KeepsRisk] <;> infer_instance

/-- The account's limits stay as they are. -/
def KeepsLimits (account : AccountId) : Event → Prop
  | .configure other _ => other ≠ account
  | _ => True

instance (account : AccountId) : DecidablePred (KeepsLimits account) := fun event => by
  rcases event with _ | _ <;> dsimp only [KeepsLimits] <;> infer_instance

end Event

/-- A listed band of three ticks. -/
def sampleListing (policy : SelfTradePolicy) : Instrument :=
  { OrderBook.sampleInstrument with symbol := [88], selfTradePolicy := policy }

def sampleNewOrder (id account : Nat) (side : Side) (price : Int) (quantity : Nat)
    (postOnly : Bool) : NewOrder :=
  { id := ⟨id⟩
    account := ⟨account⟩
    instrument := ⟨1⟩
    side := side
    price := price
    quantity := quantity
    postOnly := postOnly }

def sampleReplace (id account : Nat) (newPrice : Int) (newQuantity : Nat) : ReplaceOrder :=
  { id := ⟨id⟩
    account := ⟨account⟩
    instrument := ⟨1⟩
    newPrice := newPrice
    newQuantity := newQuantity }

namespace MatchingEngine

variable {J : Type}

/-- An engine with no instruments yet. -/
def start (journal : Option J) (risk : Option RiskEngine) (kill : Option KillSwitch) :
    MatchingEngine J :=
  { journal := journal, risk := risk, kill := kill }

section Apply

variable [JournalSink J]

def apply (engine : MatchingEngine J) : Event → MatchingEngine J
  | .addInstrument instrument now => (engine.addInstrument instrument now).1
  | .submit command now => (engine.submit command now).1
  | .cancel command now => (engine.cancel command now).1
  | .replace command now => (engine.replace command now).1
  | .configure account limits => engine.onRisk fun risk => risk.configure account limits
  | .configureInstrument instrument controls =>
    engine.onRisk fun risk => risk.configureInstrument instrument controls
  | .setReferencePrice instrument price =>
    engine.onRisk fun risk => risk.setReferencePrice instrument price
  | .setRiskEngine risk => { engine with risk := risk }
  | .setKillSwitch kill => { engine with kill := kill }

def run (engine : MatchingEngine J) (events : List Event) : MatchingEngine J :=
  Machine.run apply engine events

end Apply

/-! ## Parts of a command that leave the numbering alone -/

/-- The journal, the instruments and the numbering are the same, and neither risk
nor a kill switch has been attached. -/
structure Frame (engine engine' : MatchingEngine J) : Prop where
  journal : engine'.journal = engine.journal
  symbols : engine'.symbols = engine.symbols
  instrumentOrder : engine'.instrumentOrder = engine.instrumentOrder
  sequence : engine'.sequence = engine.sequence
  risk : engine.risk = none → engine'.risk = none
  kill : engine.kill = none → engine'.kill = none

/-- A recorded command has reached the book of its instrument: the engine adopts what the
book makes of it and answers as the book does, under the number of the command. -/
structure Reached {R : Type} (engine : MatchingEngine J) (id : InstrumentId)
    (outcome : Outcome OrderBook R) (reply : MatchingEngine J × Sequenced R) : Prop
    extends Frame engine reply.1 where
  books : reply.1.books = engine.books.insert id outcome.book
  fills : reply.1.fills = outcome.fills
  withdrawals : reply.1.withdrawals = outcome.withdrawals
  answer : reply.2 = ⟨outcome.result, engine.sequence⟩

theorem Reached.result {R : Type} {engine : MatchingEngine J} {id : InstrumentId}
    {outcome : Outcome OrderBook R} {reply : MatchingEngine J × Sequenced R}
    (hReached : Reached engine id outcome reply) : reply.2.result = outcome.result := by
  rw [hReached.answer]

section Reached

variable (engine : MatchingEngine J)

theorem place_reached (target : OrderBook) (command : NewOrder) (now : Int) :
    Reached engine command.instrument (target.submit (Order.ofCommand command engine.sequence now)
      engine.fills engine.withdrawals) (engine.place target command now) := by
  unfold place
  dsimp only
  -- The book's answer is a name from here on, so that comparing the two sides runs no match.
  generalize target.submit (Order.ofCommand command engine.sequence now) engine.fills
    engine.withdrawals = outcome
  split
  · refine ⟨⟨rfl, rfl, rfl, rfl, id, fun hKill => ?_⟩, rfl, rfl, rfl, rfl⟩
    simp [refuse, notify, onKill, adopt, hKill]
  · cases outcome.result.rested <;> cases outcome.book.find command.id <;>
      refine ⟨⟨rfl, rfl, rfl, rfl, fun hRisk => ?_, fun hKill => ?_⟩, rfl, rfl, rfl, rfl⟩ <;>
      simp [recordRested, settleRisk, onRisk, onKill, notify, adopt, *]

theorem withdraw_reached (target : OrderBook) (command : CancelOrder) :
    Reached engine command.instrument ⟨(target.cancel command.id).1, (target.cancel command.id).2,
      engine.fills, engine.withdrawals⟩ (engine.withdraw target command) := by
  unfold withdraw
  dsimp only
  split
  · exact ⟨⟨rfl, rfl, rfl, rfl, id, id⟩, rfl, rfl, rfl, rfl⟩
  · refine ⟨⟨rfl, rfl, rfl, rfl, fun hRisk => ?_, id⟩, rfl, rfl, rfl, rfl⟩
    simp [onRisk, notify, adopt, hRisk]

theorem amend_reached (target : OrderBook) (previous : Order) (command : ReplaceOrder)
    (now : Int) : Reached engine command.instrument (target.replace command.id command.newPrice
      command.newQuantity engine.sequence now engine.fills engine.withdrawals)
      (engine.amend target previous command now) := by
  unfold amend
  dsimp only [onRisk]
  generalize target.replace command.id command.newPrice command.newQuantity engine.sequence now
    engine.fills engine.withdrawals = outcome
  split
  · refine ⟨⟨rfl, rfl, rfl, rfl, fun hRisk => ?_, id⟩, rfl, rfl, rfl, rfl⟩
    simp [adopt, hRisk]
  · cases outcome.book.find command.id <;>
      refine ⟨⟨rfl, rfl, rfl, rfl, fun hRisk => ?_, id⟩, rfl, rfl, rfl, rfl⟩ <;>
      simp [recordRested, settleRisk, onRisk, notify, adopt, hRisk]

end Reached

/-! ## Books of a reachable engine -/

/-- Every book is kept and filed under its own instrument. -/
def Housed (engine : MatchingEngine J) : Prop :=
  ∀ id book, engine.bookFor id = some book → book.Kept ∧ book.instrument.id = id

theorem bookFor_insert (books : AList fun _ : InstrumentId => OrderBook) (id other : InstrumentId)
    (book : OrderBook) :
    (books.insert id book).lookup other = if other = id then some book else books.lookup other := by
  split
  · next h =>
      rw [h]
      exact AList.lookup_insert books
  · next h => exact AList.lookup_insert_ne h

section Housed

variable {engine engine' : MatchingEngine J}

/-- Putting a book back after a command on it. -/
theorem Housed.insert (hHoused : engine.Housed) {id : InstrumentId}
    {target : OrderBook} (hTarget : engine.bookFor id = some target) (fills : List Fill)
    (withdrawals : List Withdrawal) (command : BookCommand) (hBooks : engine'.books =
      engine.books.insert id (target.apply fills withdrawals command).book) :
    engine'.Housed := by
  obtain ⟨hKept, hId⟩ := hHoused id target hTarget
  intro other book hBook
  rw [bookFor, hBooks, bookFor_insert] at hBook
  split at hBook
  · next h =>
      rw [← Option.some.inj hBook]
      exact ⟨hKept.apply fills withdrawals command, by
        rw [hKept.instrument_apply, hId, h]⟩
  · exact hHoused other book hBook

theorem Housed.still (hHoused : engine.Housed)
    (hStill : Still engine engine') : engine'.Housed := by
  intro id book hBook
  rw [hStill.bookFor] at hBook
  exact hHoused id book hBook

theorem housed_start (journal : Option J) (risk : Option RiskEngine) (kill : Option KillSwitch) :
    (start journal risk kill).Housed := by
  intro id book hBook
  have hNone : (start journal risk kill).bookFor id = none := AList.lookup_empty id
  rw [hNone] at hBook
  contradiction

section Events

variable [JournalSink J]

/-- Adding an instrument leaves the engine still, or registers it. -/
theorem addInstrument_cases (engine : MatchingEngine J) (instrument : Instrument) (now : Int) :
    Still engine (engine.addInstrument instrument now).1 ∨
      ∃ engine', Still engine engine' ∧ engine.bookFor instrument.id = none ∧
        (engine.addInstrument instrument now).1 = engine'.register instrument := by
  unfold addInstrument
  split
  · exact Or.inl (Still.of_risk rfl rfl rfl rfl)
  split
  · exact Or.inl (Still.of_risk rfl rfl rfl rfl)
  next hFree =>
  have hNone : engine.bookFor instrument.id = none := by
    cases hBook : engine.bookFor instrument.id with
    | none => rfl
    | some book => simp [hBook] at hFree
  dsimp only
  have hStill : ∀ record, Still engine
      ({ engine with sequence := engine.sequence + 1 }.append record now).1 :=
    fun record => by
      rw [append_fst]
      exact Still.of_risk rfl rfl rfl rfl
  split
  · exact Or.inr ⟨_, hStill _, hNone, rfl⟩
  · exact Or.inl (hStill _)

/-- What an event can do to the books: nothing, a command to one of them, or a new one
for an instrument with a positive tick. -/
inductive BookStep (engine engine' : MatchingEngine J) : Prop
  | still (hBooks : engine'.books = engine.books)
      (hOrder : engine'.instrumentOrder = engine.instrumentOrder)
  | applied (id : InstrumentId) (target : OrderBook) (fills : List Fill)
      (withdrawals : List Withdrawal) (command : BookCommand)
      (hTarget : engine.bookFor id = some target)
      (hBooks : engine'.books =
        engine.books.insert id (target.apply fills withdrawals command).book)
      (hOrder : engine'.instrumentOrder = engine.instrumentOrder)
  | listed (instrument : Instrument) (hTick : 0 < instrument.tickSize)
      (hBooks : engine'.books = engine.books.insert instrument.id
        (OrderBook.create instrument instrument.expectedRestingOrders))
      (hOrder : engine'.instrumentOrder = (engine.instrumentOrder ++ [instrument.id]).insertionSort
        fun a b => a.value ≤ b.value)

omit [JournalSink J] in
/-- A command that reaches a book is a command to it. -/
theorem Reached.bookStep {R : Type} {id : InstrumentId} {outcome : Outcome OrderBook R}
    {reply : MatchingEngine J × Sequenced R} (hReached : Reached engine' id outcome reply)
    (hStill : Still engine engine') {target : OrderBook} (hTarget : engine.bookFor id = some target)
    (command : BookCommand)
    (hBook : outcome.book = (target.apply engine'.fills engine'.withdrawals command).book) :
    BookStep engine reply.1 :=
  .applied id target _ _ command hTarget (by rw [hReached.books, hStill.books, hBook])
    (hReached.instrumentOrder.trans hStill.instrumentOrder)

section

variable (engine)

theorem submit_bookStep (command : NewOrder) (now : Int) :
    BookStep engine (engine.submit command now).1 := by
  have hCases := submit_cases engine command now
  generalize engine.submit command now = reply at hCases ⊢
  cases hCases with
  | turnedAway engine' reason hReason hStill => exact .still hStill.books hStill.instrumentOrder
  | unrecorded engine' hStill => exact .still hStill.books hStill.instrumentOrder
  | placed engine' target hStill _ _ _ hTarget =>
    exact (place_reached engine' target command now).bookStep hStill hTarget (.submit _) rfl

theorem cancel_bookStep (command : CancelOrder) (now : Int) :
    BookStep engine (engine.cancel command now).1 := by
  have hCases := cancel_cases engine command now
  generalize engine.cancel command now = reply at hCases ⊢
  cases hCases with
  | turnedAway => exact .still rfl rfl
  | unrecorded engine' hStill => exact .still hStill.books hStill.instrumentOrder
  | reached engine' target resting hStill _ _ _ hTarget =>
    exact (withdraw_reached engine' target command).bookStep hStill hTarget (.cancel _) rfl

theorem replace_bookStep (command : ReplaceOrder) (now : Int) :
    BookStep engine (engine.replace command now).1 := by
  have hCases := replace_cases engine command now
  generalize engine.replace command now = reply at hCases ⊢
  cases hCases with
  | turnedAway => exact .still rfl rfl
  | unrecorded engine' hStill => exact .still hStill.books hStill.instrumentOrder
  | reached engine' target resting hStill _ _ _ hTarget =>
    exact (amend_reached engine' target resting command now).bookStep hStill hTarget
      (.replace _ _ _ _ _) rfl

theorem apply_bookStep {event : Event} (hTicked : event.Ticked) :
    BookStep engine (engine.apply event) := by
  cases event with
  | addInstrument instrument now =>
    rcases addInstrument_cases engine instrument now with hStill | ⟨engine', hStill, -, hEq⟩
    · exact .still hStill.books hStill.instrumentOrder
    have hListed : engine.apply (.addInstrument instrument now) = engine'.register instrument := hEq
    rw [hListed]
    refine .listed instrument hTicked ?_ ?_
    · rw [MatchingEngine.register, hStill.books]
    · rw [MatchingEngine.register, hStill.instrumentOrder]
  | submit command now => exact submit_bookStep engine command now
  | cancel command now => exact cancel_bookStep engine command now
  | replace command now => exact replace_bookStep engine command now
  | _ => exact .still rfl rfl

end

omit [JournalSink J] in
theorem Housed.bookStep (hHoused : engine.Housed) {engine' : MatchingEngine J}
    (hStep : BookStep engine engine') : engine'.Housed := by
  cases hStep with
  | still hBooks =>
    intro id book hBook
    exact hHoused id book ((congrArg (AList.lookup id) hBooks).symm.trans hBook)
  | applied id target fills withdrawals command hTarget hBooks =>
    exact hHoused.insert hTarget fills withdrawals command hBooks
  | listed instrument hTick hBooks =>
    intro other book hBook
    rw [bookFor, hBooks, bookFor_insert] at hBook
    split at hBook
    · next h =>
        rw [← Option.some.inj hBook]
        exact ⟨OrderBook.kept_create hTick _, h.symm⟩
    · exact hHoused other book hBook

theorem Housed.apply (hHoused : engine.Housed) {event : Event} (hTicked : event.Ticked) :
    (engine.apply event).Housed :=
  hHoused.bookStep (apply_bookStep engine hTicked)

variable {events : List Event}

/-- Along a run whose instruments have positive ticks the books stay in order. -/
theorem Housed.always (hHoused : engine.Housed) (hTicked : ∀ event ∈ events, event.Ticked) :
    Machine.Always MatchingEngine.apply Housed engine events :=
  (Machine.each_of_forall hTicked).always hHoused fun _ _ hHoused hTicked =>
    hHoused.apply hTicked

theorem Housed.run (hHoused : engine.Housed)
    (hTicked : ∀ event ∈ events, event.Ticked) : (engine.run events).Housed :=
  (hHoused.always hTicked).final

end Events

/-! ## Facts about every book -/

/-- Every book has the property and is among the instruments the engine lists. -/
def EachBook (P : OrderBook → Prop) (engine : MatchingEngine J) : Prop :=
  ∀ id book, engine.bookFor id = some book → P book ∧ id ∈ engine.instrumentOrder

section EachBook

variable {P : OrderBook → Prop} (hCreate : ∀ instrument : Instrument, 0 < instrument.tickSize →
    P (OrderBook.create instrument instrument.expectedRestingOrders))
  (hApply : ∀ book : OrderBook, book.Kept → P book → ∀ fills withdrawals command,
    P (book.apply fills withdrawals command).book)

include hCreate hApply

/-- A property of new books that no command destroys. -/
theorem EachBook.bookStep (hEach : engine.EachBook P) (hHoused : engine.Housed)
    {engine' : MatchingEngine J} (hStep : BookStep engine engine') : engine'.EachBook P := by
  intro other book hBook
  cases hStep with
  | still hBooks hOrder =>
    rw [hOrder]
    exact hEach other book ((congrArg (AList.lookup other) hBooks).symm.trans hBook)
  | applied id target fills withdrawals command hTarget hBooks hOrder =>
    rw [hOrder]
    rw [bookFor, hBooks, bookFor_insert] at hBook
    split at hBook
    · next hId =>
        obtain ⟨hTargetP, hListed⟩ := hEach id target hTarget
        rw [← Option.some.inj hBook, hId]
        exact ⟨hApply target (hHoused id target hTarget).1 hTargetP fills withdrawals command,
          hListed⟩
    · exact hEach other book hBook
  | listed instrument hTick hBooks hOrder =>
    rw [hOrder, List.mem_insertionSort, List.mem_append, List.mem_singleton]
    rw [bookFor, hBooks, bookFor_insert] at hBook
    split at hBook
    · next hId =>
        rw [← Option.some.inj hBook]
        exact ⟨hCreate instrument hTick, Or.inr hId⟩
    · obtain ⟨hBookP, hListed⟩ := hEach other book hBook
      exact ⟨hBookP, Or.inl hListed⟩

theorem EachBook.run [JournalSink J] (hEach : engine.EachBook P) (hHoused : engine.Housed)
    {events : List Event} (hTicked : ∀ event ∈ events, event.Ticked) :
    (engine.run events).EachBook P := by
  have hBoth : Machine.Always MatchingEngine.apply
      (fun engine : MatchingEngine J => engine.Housed ∧ engine.EachBook P) engine events := by
    refine (Machine.each_of_forall hTicked).always ⟨hHoused, hEach⟩ ?_
    intro before event hInv hTick
    have hStep := apply_bookStep before hTick
    exact ⟨hInv.1.bookStep hStep, hInv.2.bookStep hCreate hApply hInv.1 hStep⟩
  exact hBoth.final.2

end EachBook

end Housed

end MatchingEngine
end ExchangeCore
