import ExchangeCore.Core.CommandReports

/-!
# Only whole lots rest and trade

The lot size is checked of the quantity an order or an amendment comes with, and of nothing
else.  What is left of an order comes out of minima and subtractions, and an amendment
restarts it from what was filled.  That all of these stay whole is an invariant: a meeting
keeps it, so a command does, so a run does.
-/

namespace ExchangeCore

/-- A resting order has lots left, whole ones. -/
structure Order.Whole (instrument : Instrument) (order : Order) : Prop where
  live : 0 < order.remaining
  price : instrument.isValidPrice order.price = true
  remaining : instrument.lotSize ∣ order.remaining
  quantity : instrument.lotSize ∣ order.quantity

/-- Reports of whole lots, the fills at prices the instrument accepts. -/
structure WholeReports (instrument : Instrument) (fills : List Fill)
    (withdrawals : List Withdrawal) (stpCancelled : Nat) : Prop where
  traded : ∀ fill ∈ fills, 0 < fill.quantity ∧ instrument.lotSize ∣ fill.quantity ∧
    instrument.isValidPrice fill.price = true
  withdrawn : ∀ withdrawal ∈ withdrawals,
    0 < withdrawal.quantity ∧ instrument.lotSize ∣ withdrawal.quantity
  prevented : instrument.lotSize ∣ stpCancelled

theorem wholeReports_nil (instrument : Instrument) : WholeReports instrument [] [] 0 :=
  ⟨by simp, by simp, dvd_zero _⟩

namespace PriceTime

namespace Matching

variable {instrument : Instrument} {m m' : Matching}

structure Whole (instrument : Instrument) (m : Matching) : Prop where
  remaining : instrument.lotSize ∣ m.incoming.remaining
  quantity : instrument.lotSize ∣ m.incoming.quantity
  queue : ∀ o ∈ m.queue, o.Whole instrument
  reports : WholeReports instrument m.fills m.withdrawals m.stpCancelled

theorem Whole.step (hWhole : m.Whole instrument) (hStep : m.step instrument = some m') :
    m'.Whole instrument := by
  obtain ⟨hRemaining, hQuantity, hOrders, hTraded, hWithdrawn, hPrevented⟩ := hWhole
  obtain ⟨head, rest, hQueue, hLeft, -, hMeets⟩ := step_cases hStep
  have hHead := hOrders head (by simp [hQueue])
  have hRest : ∀ o ∈ rest, o.Whole instrument := fun o ho => hOrders o (by simp [hQueue, ho])
  -- What the two orders have in common is one of the two remainders.
  have hMin : instrument.lotSize ∣ min m.incoming.remaining head.remaining := by
    rcases min_choice m.incoming.remaining head.remaining with h | h <;> rw [h]
    · exact hRemaining
    · exact hHead.remaining
  have hSome : 0 < min m.incoming.remaining head.remaining := lt_min hLeft hHead.live
  have hPulled : ∀ withdrawal ∈ m.withdrawals ++
      [Withdrawal.ofResting instrument head head.remaining true],
      0 < withdrawal.quantity ∧ instrument.lotSize ∣ withdrawal.quantity :=
    List.forall_mem_append.mpr
      ⟨hWithdrawn, List.forall_mem_singleton.mpr ⟨hHead.live, hHead.remaining⟩⟩
  cases hMeets with
  | trade =>
    refine ⟨Nat.dvd_sub hRemaining hMin, hQuantity, forall_mem_settle (fun hMore =>
      ⟨Nat.pos_of_ne_zero hMore, hHead.price, Nat.dvd_sub hHead.remaining hMin, hHead.quantity⟩)
      hRest, List.forall_mem_append.mpr ⟨hTraded, ?_⟩, hWithdrawn, hPrevented⟩
    exact List.forall_mem_singleton.mpr ⟨hSome, hMin, hHead.price⟩
  | cancelIncoming =>
    exact ⟨dvd_zero _, hQuantity, hOrders, hTraded, hWithdrawn, Nat.dvd_add hPrevented hRemaining⟩
  | cancelResting => exact ⟨hRemaining, hQuantity, hRest, hTraded, hPulled, hPrevented⟩
  | cancelBoth =>
    exact ⟨dvd_zero _, hQuantity, hRest, hTraded, hPulled, Nat.dvd_add hPrevented hRemaining⟩
  | decrementBoth =>
    refine ⟨Nat.dvd_sub hRemaining hMin, Nat.dvd_sub hQuantity hMin, forall_mem_settle
      (fun hMore => ⟨Nat.pos_of_ne_zero hMore, hHead.price, Nat.dvd_sub hHead.remaining hMin,
        Nat.dvd_sub hHead.quantity hMin⟩) hRest, hTraded,
      List.forall_mem_append.mpr ⟨hWithdrawn, ?_⟩, Nat.dvd_add hPrevented hMin⟩
    exact List.forall_mem_singleton.mpr ⟨hSome, hMin⟩

end Matching

namespace Book

variable {book : Book} {order : Order} {id : OrderId}

def Whole (book : Book) : Prop := ∀ o ∈ book.orders, o.Whole book.instrument

theorem lot_dvd_of_isValidQuantity {instrument : Instrument} {quantity : Nat}
    (hValid : instrument.isValidQuantity quantity = true) : instrument.lotSize ∣ quantity := by
  rw [Instrument.isValidQuantity, Bool.and_eq_true, decide_eq_true_eq, decide_eq_true_eq] at hValid
  exact Nat.dvd_of_mod_eq_zero hValid.2

theorem Whole.remove (hWhole : book.Whole) (order : Order) : (book.remove order).Whole := by
  intro o ho
  rw [instrument_remove]
  exact hWhole o (mem_orders_remove ho)

theorem Whole.insert {fillable : Bool} {outcome : Outcome Book SubmitResult}
    (hWhole : book.Whole)
    (hLots : book.instrument.lotSize ∣ order.quantity → book.instrument.lotSize ∣ order.remaining)
    (hOutcome : book.insert fillable order [] [] = outcome) : outcome.book.Whole ∧
      WholeReports book.instrument outcome.fills outcome.withdrawals
        outcome.result.stpCancelled := by
  cases insertion_of_eq hOutcome with
  | refused => exact ⟨hWhole, wholeReports_nil _⟩
  | entered m rested hMatch hAccepts hRested =>
    have hReaches := Matching.reaches_of_finish hMatch
    obtain ⟨-, hValidQuantity, hValidPrice, -⟩ := validate_eq_none_iff.mp hAccepts.1
    have hQuantity := lot_dvd_of_isValidQuantity hValidQuantity
    have hEnd : m.Whole book.instrument := hReaches.invariant
      (fun _ _ hBefore hStep => hBefore.step hStep) ⟨hLots hQuantity, hQuantity, fun o ho =>
        hWhole o (mem_orders.mpr ⟨_, ho⟩), wholeReports_nil _⟩
    refine ⟨fun o ho => ?_, hEnd.reports⟩
    rw [instrument_entered]
    rcases mem_orders_entered.mp ho with ⟨hRests, rfl⟩ | hOld
    · obtain ⟨hLeft, hStays⟩ := hRested.mp hRests
      obtain ⟨-, -, -, hPrice, -⟩ := Order.eq_of_terms_eq hReaches.terms.1
      refine ⟨Nat.pos_of_ne_zero hLeft, ?_, hEnd.remaining, hEnd.quantity⟩
      rw [hPrice]
      refine hValidPrice ?_
      cases hType : order.type with
      | limit => rfl
      | market => simp [expires, hType] at hStays
    · rcases mem_orders_matched.mp hOld with hMet | hSame
      · exact hEnd.queue o hMet
      · exact hWhole o (mem_orders.mpr ⟨_, hSame⟩)

theorem Whole.replace {newPrice : Int} {newQuantity newSequence : Nat} {now : Int}
    {outcome : Outcome Book ReplaceResult} (hWhole : book.Whole)
    (hOutcome : book.replace id newPrice newQuantity newSequence now [] [] = outcome) :
    outcome.book.Whole ∧ WholeReports book.instrument outcome.fills outcome.withdrawals
      outcome.result.stpCancelled := by
  -- What was filled is whole, so what an amendment leaves is.
  have hLeft : ∀ {previous}, book.find id = some previous → book.instrument.lotSize ∣ newQuantity →
      book.instrument.lotSize ∣ newQuantity - previous.filled := by
    intro previous hFind hQuantity
    have hPrevious := hWhole previous (List.mem_of_find?_eq_some hFind)
    exact Nat.dvd_sub hQuantity (Nat.dvd_sub hPrevious.quantity hPrevious.remaining)
  cases replacement_of_eq hOutcome with
  | unknown => exact ⟨hWhole, wholeReports_nil _⟩
  | refused => exact ⟨hWhole, wholeReports_nil _⟩
  | closed previous => exact ⟨hWhole.remove previous, wholeReports_nil _⟩
  | inPlace previous hFind _ hQuantity hMore =>
    refine ⟨fun o ho => ?_, wholeReports_nil _⟩
    rw [amendInPlace, instrument_setQueue]
    rcases mem_orders_amendInPlace ho with hOld | ⟨origin, hOrigin, -, rfl⟩
    · exact hWhole o hOld
    · have hLots := lot_dvd_of_isValidQuantity hQuantity
      exact ⟨Nat.sub_pos_of_lt (not_le.mp hMore), (hWhole origin hOrigin).price,
        hLeft hFind hLots, hLots⟩
  | requeued previous hFind _ hQuantity _ _ inserted hInserted =>
    have hInsert := (hWhole.remove previous).insert (fun _ => ?_) hInserted.symm
    · rwa [instrument_remove] at hInsert
    · rw [instrument_remove]
      exact hLeft hFind (lot_dvd_of_isValidQuantity hQuantity)

end Book
end PriceTime

open PriceTime

/-- What a reply says prevention cancelled of the order. -/
def BookReply.stpCancelled : BookReply → Nat
  | .submitted result => result.stpCancelled
  | .cancelled _ => 0
  | .replaced result => result.stpCancelled

namespace OrderBook

theorem Kept.whole {book : OrderBook} (hKept : book.Kept) (hWhole : book.abs.Whole)
    (command : BookCommand) : (book.apply [] [] command).book.abs.Whole ∧
      WholeReports book.instrument (book.apply [] [] command).fills
        (book.apply [] [] command).withdrawals
        (book.apply [] [] command).result.stpCancelled := by
  have hRefines := hKept.refines [] [] command
  rw [hRefines.book, hRefines.fills, hRefines.withdrawals, hRefines.result]
  cases command with
  | submit order => exact hWhole.insert (fun hLots => hLots) rfl
  | cancel id =>
    refine ⟨fun o ho => ?_, wholeReports_nil _⟩
    show o.Whole (book.abs.cancel id).1.instrument
    rw [Book.instrument_cancel]
    exact hWhole o (Book.mem_orders_cancel ho)
  | replace id newPrice newQuantity newSequence now => exact hWhole.replace rfl

theorem Kept.whole_run {book : OrderBook} (hKept : book.Kept) (hWhole : book.abs.Whole)
    (commands : List BookCommand) : (book.run commands).abs.Whole := by
  induction commands generalizing book with
  | nil => exact hWhole
  | cons command commands ih => exact ih (hKept.apply [] [] command) (hKept.whole hWhole command).1

/-- On every reachable book the resting orders have whole lots left, and whatever command
comes next, it trades, withdraws and cancels whole lots. -/
theorem reachable_in_whole_lots (instrument : Instrument) (hTick : 0 < instrument.tickSize)
    (initialCapacity : Nat) (commands : List BookCommand) :
    let book := (create instrument initialCapacity).run commands
    (∀ order ∈ book.restingOrders, 0 < order.remaining ∧
      instrument.lotSize ∣ order.remaining) ∧
    ∀ command, WholeReports instrument (book.apply [] [] command).fills
      (book.apply [] [] command).withdrawals (book.apply [] [] command).result.stpCancelled := by
  intro book
  have hStart := kept_create hTick initialCapacity
  have hKept : book.Kept := hStart.run commands
  have hInstrument : book.instrument = instrument := hStart.instrument_run commands
  have hWhole : book.abs.Whole := hStart.whole_run (by
    rw [abs_create hTick]
    intro o ho
    cases ho) commands
  refine ⟨fun order hMem => ?_, fun command => ?_⟩
  · have hOrder : order.Whole book.instrument := hWhole order hMem
    rw [hInstrument] at hOrder
    exact ⟨hOrder.live, hOrder.remaining⟩
  · have hReports := (hKept.whole hWhole command).2
    rwa [hInstrument] at hReports

def lotsOfTen : Instrument := { sampleInstrument with lotSize := 10 }

/-- A sale of thirty, shrunk to twenty where it stands. -/
def shrunkSale : List BookCommand :=
  [.submit (sampleOrder 1 1 .sell 2 30 1), .replace ⟨1⟩ 2 20 2 0]

theorem reachable_in_whole_lots_sample :
    let outcome := ((create lotsOfTen 1).run shrunkSale).apply [] []
      (.submit (sampleOrder 2 2 .buy 2 30 3))
    outcome.fills.map Fill.quantity = [20] ∧
      WholeReports lotsOfTen outcome.fills outcome.withdrawals outcome.result.stpCancelled :=
  ⟨by decide +kernel, (reachable_in_whole_lots lotsOfTen (by decide) 1 shrunkSale).2
    (.submit (sampleOrder 2 2 .buy 2 30 3))⟩

end OrderBook
end ExchangeCore
