import ExchangeCore.Core.EngineRun
import ExchangeCore.PriceTime.Census

/-!
# What a command does to the books

In terms of the abstract book: a command leaves every book alone, or is recorded
and replaces exactly one book by what the abstract operation makes of it, with
the prints of that operation in the engine's buffers.  Risk, halts and the
journal decide only which of the two happens, so everything about resting orders
and prints is proved from these lemmas and the abstract book alone.
-/

namespace ExchangeCore

open PriceTime

namespace MatchingEngine

variable {J : Type}

/-- `engine'` differs from `engine` in the book of one instrument, which now stands
for `after`, and has these prints in its buffers. -/
structure Booked (engine engine' : MatchingEngine J) (id : InstrumentId) (after : Book)
    (fills : List Fill) (withdrawals : List Withdrawal) : Prop where
  book : ∃ book : OrderBook, book.Sound ∧ book.abs = after ∧
    ∀ other, engine'.bookFor other = if other = id then some book else engine.bookFor other
  fills : engine'.fills = fills
  withdrawals : engine'.withdrawals = withdrawals

section Booking

variable {engine engine' : MatchingEngine J} {id : InstrumentId}

theorem bookFor_of_books {book : OrderBook}
    (hBooks : engine'.books = engine.books.insert id book) (other : InstrumentId) :
    engine'.bookFor other = if other = id then some book else engine.bookFor other := by
  rw [bookFor, hBooks]
  exact bookFor_insert _ _ _ _

/-- What the abstract book says about a command, the engine makes of it. -/
theorem Reached.booked {R : Type} {before : MatchingEngine J} {outcome : Outcome OrderBook R}
    {spec : Outcome Book R} {reply : MatchingEngine J × Sequenced R}
    (hReached : Reached engine id outcome reply) (hStill : Still before engine)
    (hRefines : OrderBook.Refines outcome spec) :
    reply.2.result = spec.result ∧
      Booked before reply.1 id spec.book spec.fills spec.withdrawals := by
  refine ⟨hReached.result.trans hRefines.result, ⟨outcome.book, hRefines.sound, hRefines.book,
    fun other => ?_⟩, hReached.fills.trans hRefines.fills,
    hReached.withdrawals.trans hRefines.withdrawals⟩
  rw [bookFor_of_books hReached.books, hStill.bookFor]

/-- What cancelling a resting order does to the book. -/
theorem cancel_refines {target : OrderBook} (hKept : target.Kept) {id : OrderId} {resting : Order}
    (hResting : target.find id = some resting) (fills : List Fill)
    (withdrawals : List Withdrawal) :
    OrderBook.Refines ⟨(target.cancel id).1, (target.cancel id).2, fills, withdrawals⟩
      ⟨target.abs.remove resting, { order := resting }, fills, withdrawals⟩ := by
  obtain ⟨hSound, hAbs, hResult⟩ := hKept.sound.cancel id
  rw [Book.cancel, hKept.find_abs hResting] at hAbs hResult
  exact ⟨hSound, hAbs, hResult, rfl, rfl⟩

variable [JournalSink J]

/-- The book and the order that a submission brings to it. -/
def Enters (engine : MatchingEngine J) (command : NewOrder) (now : Int)
    (holds : OrderBook → Order → Prop) : Prop :=
  ∃ target ∈ engine.bookFor command.instrument, engine.Clears command now ∧
    engine.Recordable (newOrderPayload command) now ∧
    holds target (Order.ofCommand command (engine.sequence + 1) now)

/-- The book and the order of the account that an amendment finds in it. -/
def Amends (engine : MatchingEngine J) (command : ReplaceOrder) (now : Int)
    (holds : OrderBook → Order → Prop) : Prop :=
  ∃ target ∈ engine.bookFor command.instrument, ∃ previous ∈ target.find command.id,
    previous.account = command.account ∧ engine.Recordable (replacePayload command) now ∧
    holds target previous

/-- A submission leaves the books alone and is rejected, or is answered as its book
answers. -/
theorem submit_booked (hHoused : engine.Housed) (command : NewOrder) (now : Int) :
    ((∀ id, (engine.submit command now).1.bookFor id = engine.bookFor id) ∧
        (engine.submit command now).1.fills = [] ∧
        (engine.submit command now).2.result.reject ≠ .none ∧
        ∀ holds, ¬ engine.Enters command now holds) ∨
      ∃ target outcome, engine.bookFor command.instrument = some target ∧
        (∀ holds, engine.Enters command now holds ↔
          holds target (Order.ofCommand command (engine.sequence + 1) now)) ∧
        (∀ risk, engine.risk = some risk → (risk.check command now).2 = .none) ∧
        target.abs.insert (target.verdict (Order.ofCommand command (engine.sequence + 1) now))
          (Order.ofCommand command (engine.sequence + 1) now) [] [] = outcome ∧
        (engine.submit command now).2.result = outcome.result ∧
        Booked engine (engine.submit command now).1 command.instrument outcome.book outcome.fills
          outcome.withdrawals := by
  have hCases := submit_cases engine command now
  generalize engine.submit command now = reply at hCases ⊢
  cases hCases with
  | turnedAway engine' reason hReason hStill hFills _ _ hWhy =>
    refine Or.inl ⟨hStill.bookFor, hFills, hReason, ?_⟩
    rintro holds ⟨target, hTarget, hClears, -⟩
    exact hWhy target hTarget hClears
  | unrecorded engine' hStill hFills hNumbered =>
    refine Or.inl ⟨hStill.bookFor, hFills, nofun, ?_⟩
    rintro holds ⟨-, -, -, hRecordable, -⟩
    exact absurd (hNumbered.recordable_iff.mp hRecordable) Bool.false_ne_true
  | placed engine' target hStill hFills hWithdrawals hNumbered hTarget hAccount hOpen hCheck =>
    obtain ⟨hKept, -⟩ := hHoused _ _ hTarget
    have hRefines := hKept.sound.submit (Order.ofCommand command (engine.sequence + 1) now) [] []
    have hReached := place_reached engine' target command now
    rw [hNumbered.sequence, hFills, hWithdrawals] at hReached
    refine Or.inr ⟨target, _, hTarget, fun holds => ?_, hCheck, rfl,
      hReached.booked hStill hRefines⟩
    constructor
    · rintro ⟨other, hOther, -, -, hHolds⟩
      rw [Option.some.inj (hTarget.symm.trans hOther)]
      exact hHolds
    · exact fun hHolds => ⟨target, hTarget, ⟨hAccount, hOpen, hCheck⟩,
        hNumbered.recordable_iff.mpr rfl, hHolds⟩

/-- A cancellation leaves the books alone and is rejected, or removes a resting
order of its account and is accepted. -/
theorem cancel_booked (hHoused : engine.Housed) (command : CancelOrder) (now : Int) :
    ((∀ id, (engine.cancel command now).1.bookFor id = engine.bookFor id) ∧
        (engine.cancel command now).1.fills = [] ∧
        (engine.cancel command now).2.result.reject ≠ .none) ∨
      ∃ target resting, engine.bookFor command.instrument = some target ∧
        target.find command.id = some resting ∧ resting.account = command.account ∧
        (engine.cancel command now).2.result = { order := resting } ∧
        Booked engine (engine.cancel command now).1 command.instrument
          (target.abs.remove resting) [] [] := by
  have hCases := cancel_cases engine command now
  generalize engine.cancel command now = reply at hCases ⊢
  cases hCases with
  | turnedAway reason hReason =>
    exact Or.inl ⟨fun _ => rfl, rfl, by rcases hReason with rfl | rfl <;> simp⟩
  | unrecorded engine' hStill hFills => exact Or.inl ⟨hStill.bookFor, hFills, by simp⟩
  | reached engine' target resting hStill hFills hWithdrawals _ hTarget hResting hOwner =>
    obtain ⟨hKept, -⟩ := hHoused _ _ hTarget
    have hReached := withdraw_reached engine' target command
    rw [hFills, hWithdrawals] at hReached
    exact Or.inr ⟨target, resting, hTarget, hResting, hOwner,
      hReached.booked hStill (cancel_refines hKept hResting [] [])⟩

/-- A cancellation prints nothing. -/
theorem Housed.fills_cancel (hHoused : engine.Housed) (command : CancelOrder) (now : Int) :
    (engine.cancel command now).1.fills = [] := by
  rcases cancel_booked hHoused command now with ⟨-, hFills, -⟩ | ⟨_, _, _, _, _, _, hBooked⟩
  · exact hFills
  · exact hBooked.fills

section Amends

variable {command : ReplaceOrder} {now : Int}
  (holds : OrderBook → Order → Prop)

theorem Foreign.not_amends
    (hForeign : engine.Foreign command.instrument command.id command.account) :
    ¬ engine.Amends command now holds := by
  rintro ⟨target, hTarget, previous, hPrevious, hOwner, -⟩
  exact hForeign target previous hTarget hPrevious hOwner

theorem Numbered.not_amends
    (hNumbered : Numbered engine engine' (replacePayload command) now false) :
    ¬ engine.Amends command now holds := by
  rintro ⟨-, -, -, -, -, hRecordable, -⟩
  exact absurd (hNumbered.recordable_iff.mp hRecordable) Bool.false_ne_true

theorem Numbered.amends_iff {target : OrderBook} {previous : Order}
    (hNumbered : Numbered engine engine' (replacePayload command) now true)
    (hTarget : engine.bookFor command.instrument = some target)
    (hPrevious : target.find command.id = some previous)
    (hOwner : previous.account = command.account) :
    engine.Amends command now holds ↔ holds target previous := by
  constructor
  · rintro ⟨other, hOther, order, hOrder, -, -, hHolds⟩
    cases hTarget.symm.trans hOther
    rw [Option.some.inj (hPrevious.symm.trans hOrder)]
    exact hHolds
  · exact fun hHolds => ⟨target, hTarget, previous, hPrevious, hOwner,
      hNumbered.recordable_iff.mpr rfl, hHolds⟩

end Amends

/-- An amendment leaves the books alone and is rejected, or reaches the book of a
resting order of its account. -/
theorem replace_booked (hHoused : engine.Housed) (command : ReplaceOrder) (now : Int) :
    ((∀ id, (engine.replace command now).1.bookFor id = engine.bookFor id) ∧
        (engine.replace command now).1.fills = [] ∧
        (engine.replace command now).2.result.reject ≠ .none ∧
        (engine.replace command now).2.result.reject ≠ .postOnlyWouldCross ∧
        ∀ holds, ¬ engine.Amends command now holds) ∨
      ∃ target previous outcome, engine.bookFor command.instrument = some target ∧
        target.find command.id = some previous ∧ previous.account = command.account ∧
        (∀ holds, engine.Amends command now holds ↔ holds target previous) ∧
        target.abs.replace command.id command.newPrice command.newQuantity (engine.sequence + 1)
          now [] [] = outcome ∧
        (engine.replace command now).2.result = outcome.result ∧
        Booked engine (engine.replace command now).1 command.instrument outcome.book outcome.fills
          outcome.withdrawals := by
  have hCases := replace_cases engine command now
  generalize engine.replace command now = reply at hCases ⊢
  cases hCases with
  | turnedAway reason hReason hWhy =>
    refine Or.inl ⟨fun _ => rfl, rfl, ?_, ?_, fun holds => Foreign.not_amends holds hWhy⟩ <;>
      rcases hReason with rfl | rfl <;> simp
  | unrecorded engine' hStill hFills hNumbered =>
    exact Or.inl ⟨hStill.bookFor, hFills, by simp, by simp,
      fun holds => Numbered.not_amends holds hNumbered⟩
  | reached engine' target previous hStill hFills hWithdrawals hNumbered hTarget hPrevious hOwner =>
    obtain ⟨hKept, -⟩ := hHoused _ _ hTarget
    have hRefines := hKept.sound.replace hKept.valid command.id command.newPrice
      command.newQuantity (engine.sequence + 1) now [] []
    have hReached := amend_reached engine' target previous command now
    rw [hNumbered.sequence, hFills, hWithdrawals] at hReached
    exact Or.inr ⟨target, previous, _, hTarget, hPrevious, hOwner,
      fun holds => Numbered.amends_iff holds hNumbered hTarget hPrevious hOwner, rfl,
      hReached.booked hStill hRefines⟩

end Booking

/-! ## Resting orders -/

/-- The order rests in the book of this instrument. -/
def Rests (engine : MatchingEngine J) (id : InstrumentId) (order : Order) : Prop :=
  ∃ book, engine.bookFor id = some book ∧ order ∈ book.restingOrders

section Resting

variable {engine engine' : MatchingEngine J} {id : InstrumentId}

theorem rests_iff_of_bookFor {book : OrderBook}
    (hBook : engine.bookFor id = some book) (order : Order) :
    engine.Rests id order ↔ order ∈ book.abs.orders := by
  constructor
  · rintro ⟨other, hOther, hMem⟩
    rw [hBook] at hOther
    rw [Option.some.inj hOther]
    exact hMem
  · exact fun hMem => ⟨book, hBook, hMem⟩

theorem rests_iff_mem {order : Order} :
    engine.Rests id order ↔
      order ∈ ((engine.bookFor id).map OrderBook.restingOrders).getD [] := by
  unfold Rests
  cases engine.bookFor id <;> simp

theorem rests_congr (hBook : engine'.bookFor id = engine.bookFor id)
    (order : Order) : engine'.Rests id order ↔ engine.Rests id order := by
  rw [Rests, Rests, hBook]

theorem Booked.rests {after : Book} {fills : List Fill}
    {withdrawals : List Withdrawal} (hBooked : Booked engine engine' id after fills withdrawals)
    (other : InstrumentId) (order : Order) :
    engine'.Rests other order ↔
      if other = id then order ∈ after.orders else engine.Rests other order := by
  obtain ⟨book, -, rfl, hBooks⟩ := hBooked.book
  have hOther := hBooks other
  split
  · next h =>
      rw [if_pos h] at hOther
      exact rests_iff_of_bookFor hOther order
  next h =>
  rw [if_neg h] at hOther
  exact rests_congr hOther order

/-- What rests may rest there. -/
theorem Housed.rests (hHoused : engine.Housed) {order : Order}
    (hRests : engine.Rests id order) : ∃ book, engine.bookFor id = some book ∧
      book.Kept ∧ order ∈ book.abs.queue order.side ∧ order.Rests book.instrument := by
  obtain ⟨book, hBook, hMem⟩ := hRests
  obtain ⟨hKept, -⟩ := hHoused id book hBook
  obtain ⟨side, hSide⟩ := Book.mem_orders.mp (show order ∈ book.abs.orders from hMem)
  have hEq := hKept.valid.side_eq side order hSide
  exact ⟨book, hBook, hKept, hEq ▸ hSide, hKept.valid.rests side order hSide⟩

/-- Only the three commands change what rests: a new instrument's book is empty. -/
theorem rests_apply [JournalSink J] (engine : MatchingEngine J) {event : Event}
    (hTicked : event.Ticked) (hOther : ¬ event.IsCommand) (id : InstrumentId) (order : Order) :
    (engine.apply event).Rests id order ↔ engine.Rests id order := by
  cases event with
  | addInstrument instrument now =>
    change (engine.addInstrument instrument now).1.Rests id order ↔ _
    rcases addInstrument_cases engine instrument now with hStill | ⟨engine', hStill, hNew, hEq⟩
    · exact rests_congr (hStill.bookFor id) order
    rw [hEq]
    have hBook : (engine'.register instrument).bookFor id = if id = instrument.id then
        some (OrderBook.create instrument instrument.expectedRestingOrders)
      else engine'.bookFor id := bookFor_insert _ _ _ _
    by_cases hId : id = instrument.id
    · rw [if_pos hId] at hBook
      rw [rests_iff_of_bookFor hBook, OrderBook.abs_create hTicked]
      refine iff_of_false (by simp [Book.orders]) ?_
      rintro ⟨book, hSome, -⟩
      rw [hId, hNew] at hSome
      contradiction
    · rw [if_neg hId] at hBook
      exact (rests_congr hBook order).trans (rests_congr (hStill.bookFor id) order)
  | submit command now => exact absurd trivial hOther
  | cancel command now => exact absurd trivial hOther
  | replace command now => exact absurd trivial hOther
  | _ => exact Iff.rfl

end Resting

/-! ## Ledgers of an accepted order -/

section Ledgers

variable {target : OrderBook} (hKept : target.Kept)
include hKept

/-- What the book's two ledgers say about a new order it accepts. -/
theorem submit_ledger {order : Order} (hWhole : order.remaining = order.quantity)
    {outcome : Outcome OrderBook SubmitResult} (hOutcome : target.submit order [] [] = outcome)
    (hAccepted : outcome.result.reject = .none) :
    outcome.book.Sound ∧
      (∃ rest, Book.Ledger target.abs order outcome.book.abs outcome.fills outcome.withdrawals
          rest ∧ Book.Left order outcome.book.abs outcome.result.rested rest) ∧
      ∀ account, outcome.book.abs.census account + Fill.closes account outcome.fills +
          Withdrawal.closes account outcome.withdrawals = target.abs.census account +
        if outcome.result.rested = true ∧ order.account = account then 1 else 0 := by
  have hRefines := hKept.sound.submit order [] []
  rw [hOutcome, Book.submit, Order.setRemaining_eq hWhole] at hRefines
  rw [hRefines.result] at hAccepted ⊢
  rw [hRefines.book, hRefines.fills, hRefines.withdrawals]
  refine ⟨hRefines.sound, ?_, Book.insert_census rfl hAccepted⟩
  exact hKept.valid.insert_ledger hWhole.le (fun _ hVerdict => Book.remaining_of_canFill _ _ _ _
    (hKept.sound.canFill_of_verdict hVerdict)) rfl hAccepted

/-- What the book's two ledgers say about an amendment it accepts. -/
theorem replace_ledger {id : OrderId} {newPrice : Int} {newQuantity sequence : Nat} {now : Int}
    {previous : Order} (hPrevious : target.find id = some previous)
    {outcome : Outcome OrderBook ReplaceResult}
    (hOutcome : target.replace id newPrice newQuantity sequence now [] [] = outcome)
    (hAccepted : outcome.result.reject = .none) :
    outcome.book.Sound ∧
      (∃ order rest, order.id = id ∧ order.account = previous.account ∧
        order.instrument = previous.instrument ∧ order.side = previous.side ∧
        order.remaining = newQuantity - previous.filled ∧
        Book.Ledger (target.abs.remove previous) order outcome.book.abs outcome.fills
          outcome.withdrawals rest ∧
        Book.Left order outcome.book.abs outcome.result.rested rest) ∧
      ∀ account, outcome.book.abs.census account + Fill.closes account outcome.fills +
          Withdrawal.closes account outcome.withdrawals +
          (if previous.account = account then 1 else 0) = target.abs.census account +
        if outcome.result.rested = true ∧ previous.account = account then 1 else 0 := by
  have hFind := hKept.find_abs hPrevious
  have hRefines := hKept.sound.replace hKept.valid id newPrice newQuantity sequence now [] []
  rw [hOutcome] at hRefines
  rw [hRefines.result] at hAccepted ⊢
  rw [hRefines.book, hRefines.fills, hRefines.withdrawals]
  exact ⟨hRefines.sound, hKept.valid.replace_ledger hFind rfl hAccepted,
    hKept.valid.replace_census hFind rfl hAccepted⟩

end Ledgers

end MatchingEngine
end ExchangeCore
