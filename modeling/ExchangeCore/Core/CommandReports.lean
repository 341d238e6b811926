import ExchangeCore.Core.BookRun
import ExchangeCore.PriceTime.Buffers
import ExchangeCore.PriceTime.Foresight
import ExchangeCore.PriceTime.Lots

/-!
# What one command reports

Three statements about a submission or an amendment on any book that a run reaches.  Its
reports take the other side in price-time order; they account for every lot of the order
and of those it met; and a fill-or-kill order is refused exactly when the matching loop
would not fill it.

The caller's buffers may hold anything: the statements are about what the command
appended to them.
-/

namespace ExchangeCore

open PriceTime

namespace OrderBook

/-- What a command answers and leaves behind is what the abstract book does with empty
buffers, and its reports come after what the buffers held. -/
structure Reports {R : Type} (outcome : Outcome OrderBook R) (spec : Outcome Book R)
    (fills : List Fill) (withdrawals : List Withdrawal) : Prop where
  fills_eq : outcome.fills = fills ++ spec.fills
  withdrawals_eq : outcome.withdrawals = withdrawals ++ spec.withdrawals
  result_eq : outcome.result = spec.result
  find_eq : outcome.book.find = spec.book.find

theorem Refines.reports {R : Type} {outcome : Outcome OrderBook R} {spec : Outcome Book R}
    {fills : List Fill} {withdrawals : List Withdrawal}
    (hRefines : Refines outcome (spec.after fills withdrawals)) :
    Reports outcome spec fills withdrawals where
  fills_eq := hRefines.fills
  withdrawals_eq := hRefines.withdrawals
  result_eq := hRefines.result
  find_eq := by
    funext id
    rw [hRefines.sound.find_eq, hRefines.book]
    rfl

section Reports

variable {book : OrderBook} (fills : List Fill) (withdrawals : List Withdrawal)

theorem Kept.submit_reports (hKept : book.Kept) (order : Order) :
    ∃ spec, book.abs.insert (book.verdict { order with remaining := order.quantity })
        { order with remaining := order.quantity } [] [] = spec ∧
      Reports (book.submit order fills withdrawals) spec fills withdrawals := by
  have hRefines := hKept.sound.submit order fills withdrawals
  rw [Book.submit, Book.insert_after] at hRefines
  exact ⟨_, rfl, Refines.reports hRefines⟩

theorem Kept.replace_reports (hKept : book.Kept) (id : OrderId) (newPrice : Int)
    (newQuantity newSequence : Nat) (now : Int) :
    Reports (book.replace id newPrice newQuantity newSequence now fills withdrawals)
      (book.abs.replace id newPrice newQuantity newSequence now [] []) fills withdrawals := by
  have hRefines := hKept.sound.replace hKept.valid id newPrice newQuantity newSequence now fills
    withdrawals
  rw [Book.replace_after] at hRefines
  exact Refines.reports hRefines

/-- The matching loop on a copy of the book, and the match of the abstract book. -/
theorem Sound.match_eq (hSound : book.Sound) (order : Order) :
    (book.match order.side.opposite order [] []).fills =
        ((book.abs.arrival order [] []).finish book.abs.instrument).fills ∧
      (book.match order.side.opposite order [] []).incoming =
        ((book.abs.arrival order [] []).finish book.abs.instrument).incoming := by
  obtain ⟨q, free, hRep, hTight⟩ := hSound
  obtain ⟨q', free', hSim, -⟩ := match_sim hRep hTight order [] []
  rw [hRep.abs_eq]
  exact ⟨hSim.fills, hSim.incoming⟩

end Reports

/-! ## Price-time priority -/

/-- What an outcome appended to the buffers takes a queue in price-time order. -/
def TakesInOrder {R : Type} (outcome : Outcome OrderBook R) (queue : List Order) (order : Order)
    (fills : List Fill) (withdrawals : List Withdrawal) : Prop :=
  ∃ new withdrawn, outcome.fills = fills ++ new ∧ outcome.withdrawals = withdrawals ++ withdrawn ∧
    SweepsInOrder queue order outcome.book.find new withdrawn

/-- On every book that increasing commands reach, the fills and withdrawals of a
submission, and those of an amendment, take the other side in price-time order. -/
theorem reports_in_price_time_order (instrument : Instrument) (hTick : 0 < instrument.tickSize)
    (initialCapacity : Nat) (commands : List BookCommand)
    (hIncreasing : BookCommand.Increasing commands) (fills : List Fill)
    (withdrawals : List Withdrawal) :
    let book := (create instrument initialCapacity).run commands
    (∀ order, TakesInOrder (book.submit order fills withdrawals)
      (book.sideOrders order.side.opposite) order fills withdrawals) ∧
    ∀ id newPrice newQuantity newSequence now previous, book.find id = some previous →
      TakesInOrder (book.replace id newPrice newQuantity newSequence now fills withdrawals)
        (book.sideOrders previous.side.opposite) { previous with price := newPrice } fills
        withdrawals := by
  intro book
  have hStart := kept_create hTick initialCapacity
  have hKept : book.Kept := hStart.run commands
  have hEmpty : (create instrument initialCapacity).abs.Timed 0 := by
    rw [abs_create hTick]
    exact Book.timed_empty instrument 0
  obtain ⟨bound, hTimed⟩ := hStart.timed_run hEmpty hIncreasing fun stamp _ => Nat.zero_le stamp
  constructor
  · intro order
    obtain ⟨spec, hSpec, hReports⟩ := hKept.submit_reports fills withdrawals order
    have hSweeps := hKept.valid.insert_sweeps hTimed hSpec
    refine ⟨_, _, hReports.fills_eq, hReports.withdrawals_eq, ?_⟩
    rw [hReports.find_eq]
    rw [queue_abs] at hSweeps
    exact ⟨hSweeps.priced, hSweeps.withdrawn, hSweeps.noneBypassed, hSweeps.last⟩
  · intro id newPrice newQuantity newSequence now previous hFind
    have hReports := hKept.replace_reports fills withdrawals id newPrice newQuantity newSequence now
    have hFindAbs := hKept.find_abs hFind
    have hSweeps := hKept.valid.replace_sweeps hTimed hFindAbs
      (Eq.refl (book.abs.replace id newPrice newQuantity newSequence now [] []))
    refine ⟨_, _, hReports.fills_eq, hReports.withdrawals_eq, ?_⟩
    rw [hReports.find_eq]
    rw [queue_abs] at hSweeps
    exact ⟨hSweeps.priced, hSweeps.withdrawn, hSweeps.noneBypassed, hSweeps.last⟩

/-- Two sales rest at one price, and a purchase takes the first and a part of the
second. -/
theorem reports_in_price_time_order_sample :
    BookCommand.Increasing (sampleCommands.take 2) ∧
      TakesInOrder
        (((create sampleInstrument 1).run (sampleCommands.take 2)).submit
          (sampleOrder 3 3 .buy 2 6 3) [] [])
        (((create sampleInstrument 1).run (sampleCommands.take 2)).sideOrders .sell)
        (sampleOrder 3 3 .buy 2 6 3) [] [] :=
  ⟨by decide, (reports_in_price_time_order sampleInstrument (by decide) 1 (sampleCommands.take 2)
    (by decide) [] []).1 (sampleOrder 3 3 .buy 2 6 3)⟩

/-! ## Lots -/

/-- What a submission appended to the buffers accounts for its own lots, what expired of
them being what the matching loop leaves of the order on a copy of the book, and for those
of every order that rested before. -/
def SubmitAccounted (book : OrderBook) (order : Order) (fills : List Fill)
    (withdrawals : List Withdrawal) : Prop :=
  let outcome := book.submit order fills withdrawals
  let expired := (book.match order.side.opposite
    { order with remaining := order.quantity } [] []).incoming.remaining
  ∃ new withdrawn, outcome.fills = fills ++ new ∧ outcome.withdrawals = withdrawals ++ withdrawn ∧
    LotsBalance order.quantity expired order.id outcome.result.filled
      outcome.result.stpCancelled outcome.result.rested outcome.book.find new ∧
    (outcome.result.rested = false → expired ≠ 0 →
      order.type = .market ∨ order.tif = .immediateOrCancel) ∧
    LotsReported book.restingOrders outcome.book.find new withdrawn

/-- What an amendment appended to the buffers accounts for what remained of its order, of
which nothing expires, and for the lots of every other order that rested before. -/
def ReplaceAccounted (book : OrderBook) (previous : Order)
    (outcome : Outcome OrderBook ReplaceResult) (newQuantity : Nat) (fills : List Fill)
    (withdrawals : List Withdrawal) : Prop :=
  ∃ new withdrawn, outcome.fills = fills ++ new ∧ outcome.withdrawals = withdrawals ++ withdrawn ∧
    LotsBalance (newQuantity - previous.filled) 0 previous.id outcome.result.filled
      outcome.result.stpCancelled outcome.result.rested outcome.book.find new ∧
    LotsReported (book.restingOrders.filter fun o => decide (o.id ≠ previous.id))
      outcome.book.find new withdrawn

/-- On every reachable book, what an accepted submission and an accepted amendment that is
queued again report accounts for every lot. -/
theorem reports_account_for_lots (instrument : Instrument) (hTick : 0 < instrument.tickSize)
    (initialCapacity : Nat) (commands : List BookCommand) (fills : List Fill)
    (withdrawals : List Withdrawal) :
    let book := (create instrument initialCapacity).run commands
    (∀ order, (book.submit order fills withdrawals).result.reject = .none →
      book.SubmitAccounted order fills withdrawals) ∧
    ∀ id newPrice newQuantity newSequence now previous, book.find id = some previous →
      previous.filled < newQuantity →
      ¬ (newPrice = previous.price ∧ newQuantity < previous.quantity) →
      (book.replace id newPrice newQuantity newSequence now fills withdrawals).result.reject =
        .none →
      book.ReplaceAccounted previous
        (book.replace id newPrice newQuantity newSequence now fills withdrawals) newQuantity fills
        withdrawals := by
  intro book
  have hKept : book.Kept := (kept_create hTick initialCapacity).run commands
  constructor
  · intro order hAccepted
    obtain ⟨spec, hSpec, hReports⟩ := hKept.submit_reports fills withdrawals order
    rw [hReports.result_eq] at hAccepted
    rcases Book.insert_enters hSpec with ⟨hRefused, -⟩ | ⟨-, m, hEnters⟩
    · exact absurd hAccepted hRefused
    have hExpired : (book.match order.side.opposite
        { order with remaining := order.quantity } [] []).incoming.remaining =
          m.incoming.remaining := by
      rw [← hEnters.finish_eq, ← (hKept.sound.match_eq _).2]
    refine ⟨_, _, hReports.fills_eq, hReports.withdrawals_eq, ?_, ?_, ?_⟩
    · rw [hReports.result_eq, hReports.find_eq, hExpired]
      exact hEnters.balance hKept.valid
    · rw [hReports.result_eq, hExpired]
      exact fun hGone hLeft => hEnters.expired hGone hLeft
    · rw [hReports.find_eq]
      exact hEnters.lots hKept.valid
  · intro id newPrice newQuantity newSequence now previous hFind hMore hMoves hAccepted
    have hReports := hKept.replace_reports fills withdrawals id newPrice newQuantity newSequence now
    have hFindAbs := hKept.find_abs hFind
    have hId : previous.id = id := ((Book.find_eq_some_iff hKept.valid.ids).mp hFindAbs).2
    rw [hReports.result_eq] at hAccepted
    obtain ⟨hBalance, hLots⟩ := hKept.valid.replace_lots hFindAbs hMore hMoves rfl hAccepted
    refine ⟨_, _, hReports.fills_eq, hReports.withdrawals_eq, ?_, ?_⟩
    · rw [hReports.result_eq, hReports.find_eq, hId]
      exact hBalance
    · rw [hReports.find_eq, hId]
      exact hLots

/-- A purchase of three that takes the two lots left of the resting sale and rests with
the third. -/
theorem reports_account_for_lots_sample :
    (((create sampleInstrument 1).run sampleCommands).submit (sampleOrder 9 5 .buy 2 3 9) []
        []).result = { filled := 2, rested := true } ∧
      ((create sampleInstrument 1).run sampleCommands).SubmitAccounted
        (sampleOrder 9 5 .buy 2 3 9) [] [] :=
  ⟨by decide +kernel, (reports_account_for_lots sampleInstrument (by decide) 1 sampleCommands []
    []).1 (sampleOrder 9 5 .buy 2 3 9) (by decide +kernel)⟩

/-! ## Fill or kill -/

section FillOrKill

variable {book : OrderBook} {order : Order}

/-- The verdict on an order is what the matching loop would trade of it, on a copy of the
book. -/
theorem Kept.verdict_eq_trial (hKept : book.Kept) (hFits : book.Fits) (order : Order) :
    book.verdict order = decide (order.remaining ≤
      Fill.total (book.match order.side.opposite order [] []).fills) := by
  have hSide : ((book.abs.queue order.side.opposite).map Order.remaining).sum <
      Word64.modulus := by
    rw [queue_abs]
    exact hFits _
  generalize hMatch : (book.abs.arrival order [] []).finish book.abs.instrument = m
  obtain ⟨hLedger, -⟩ := hKept.valid.match_ledger hMatch
  rw [hKept.sound.verdict_eq hSide, (hKept.sound.match_eq order).1, Book.canFill, hMatch,
    Book.filledBy]
  refine decide_eq_decide.mpr ?_
  omega

/-- A fill-or-kill order with a negative verdict is refused where it stands. -/
theorem insert_unfillable (hPasses : book.validate order = .none)
    (hPost : (order.postOnly && book.wouldCross order) = false)
    (hKill : order.tif = .fillOrKill) (hVerdict : book.verdict order = false)
    (fills : List Fill) (withdrawals : List Withdrawal) :
    book.insert order fills withdrawals =
      ⟨book, { reject := .fillOrKillUnfillable }, fills, withdrawals⟩ := by
  unfold OrderBook.insert
  dsimp only
  rw [if_neg (not_not.mpr hPasses), hPost, if_neg Bool.false_ne_true,
    if_pos ⟨hKill, not_le.mp (of_decide_eq_false hVerdict)⟩]

/-- The checks of the structures are those of the book they stand for. -/
theorem Sound.accepts (hSound : book.Sound) (hPasses : book.validate order = .none)
    (hPost : (order.postOnly && book.wouldCross order) = false)
    (hVerdict : book.verdict order = true) : book.abs.Accepts (book.verdict order) order := by
  obtain ⟨q, free, hRep, hTight⟩ := hSound
  refine ⟨?_, fun hOnly => ?_, fun _ => hVerdict⟩
  · rw [hRep.abs_eq, ← hRep.validate_eq]
    exact hPasses
  · rw [hRep.abs_eq, ← hRep.wouldCross_eq hTight]
    rwa [hOnly, Bool.true_and] at hPost

/-- The order is refused, with nothing changed or reported, exactly when the matching loop
on a copy of the book would trade less than its quantity; otherwise it trades all of it,
nothing of it is cancelled and nothing of it rests. -/
def AllOrNothing (book : OrderBook) (order : Order) (fills : List Fill)
    (withdrawals : List Withdrawal) : Prop :=
  let trial := book.match order.side.opposite { order with remaining := order.quantity } [] []
  let outcome := book.submit order fills withdrawals
  (outcome = ⟨book, { reject := .fillOrKillUnfillable }, fills, withdrawals⟩ ↔
      Fill.total trial.fills < order.quantity) ∧
    (order.quantity ≤ Fill.total trial.fills →
      outcome.result.reject = .none ∧ outcome.result.stpCancelled = 0 ∧
      outcome.result.rested = false ∧ outcome.book.find order.id = none ∧
      ∃ new, outcome.fills = fills ++ new ∧ Fill.total new = order.quantity)

/-- The trial fills the order, so the submission does. -/
theorem Kept.submit_fills (hKept : book.Kept) (fills : List Fill)
    (withdrawals : List Withdrawal) (hPasses : book.validate order = .none)
    (hPost : (order.postOnly && book.wouldCross order) = false)
    (hVerdict : book.verdict { order with remaining := order.quantity } = true)
    (hEnough : order.quantity ≤ Fill.total (book.match order.side.opposite
      { order with remaining := order.quantity } [] []).fills) :
    let outcome := book.submit order fills withdrawals
    outcome.result.reject = .none ∧ outcome.result.stpCancelled = 0 ∧
      outcome.result.rested = false ∧ outcome.book.find order.id = none ∧
      ∃ new, outcome.fills = fills ++ new ∧ Fill.total new = order.quantity := by
  intro outcome
  obtain ⟨spec, hSpec, hReports⟩ := hKept.submit_reports fills withdrawals order
  have hAccepted : spec.result.reject = .none := by
    rw [← hSpec, Book.reject_insert_iff]
    exact hKept.sound.accepts hPasses hPost hVerdict
  rcases Book.insert_enters hSpec with ⟨hNot, -⟩ | ⟨-, m, hEnters⟩
  · exact absurd hAccepted hNot
  -- The loop that ran is the one of the trial, which used the order up by trades.
  have hLedger : m.incoming.remaining + Fill.total m.fills + m.stpCancelled = order.quantity :=
    (hKept.valid.match_ledger hEnters.finish_eq).1
  have hTrial := (hKept.sound.match_eq { order with remaining := order.quantity }).1
  rw [hEnters.finish_eq] at hTrial
  rw [hTrial] at hEnough
  have hStays : spec.result.rested = false := by
    cases hRested : spec.result.rested with
    | false => rfl
    | true =>
      have hLeft := (hEnters.rested_iff.mp hRested).1
      omega
  have hOwn : spec.book.find order.id = none := by
    have hFind := hEnters.find_own
    rw [hStays] at hFind
    exact hFind
  refine ⟨?_, ?_, ?_, ?_, m.fills, ?_, ?_⟩
  · rw [hReports.result_eq]
    exact hAccepted
  · rw [hReports.result_eq, hEnters.stpCancelled_eq]
    omega
  · rw [hReports.result_eq]
    exact hStays
  · rw [hReports.find_eq]
    exact hOwn
  · rw [hReports.fills_eq, hEnters.fills_eq]
  · omega

end FillOrKill

/-- On every reachable book whose sides' quantities fit a word, a fill-or-kill order that
passes the other checks is filled whole or refused, and refused exactly when the matching
loop would not fill it. -/
theorem fillOrKill_all_or_nothing (instrument : Instrument) (hTick : 0 < instrument.tickSize)
    (initialCapacity : Nat) (commands : List BookCommand) (fills : List Fill)
    (withdrawals : List Withdrawal) (order : Order) (hKill : order.tif = .fillOrKill)
    (hFits : ((create instrument initialCapacity).run commands).Fits)
    (hPasses : ((create instrument initialCapacity).run commands).validate order = .none)
    (hPost : (order.postOnly &&
      ((create instrument initialCapacity).run commands).wouldCross order) = false) :
    ((create instrument initialCapacity).run commands).AllOrNothing order fills withdrawals := by
  have hKept := (kept_create hTick initialCapacity).run commands
  revert hFits hPasses hPost
  generalize (create instrument initialCapacity).run commands = book at hKept
  intro hFits hPasses hPost
  have hVerdict := hKept.verdict_eq_trial hFits { order with remaining := order.quantity }
  have hTaken := hKept.submit_fills fills withdrawals hPasses hPost
  refine ⟨⟨fun hOutcome => ?_, fun hShort => ?_⟩, fun hEnough => ?_⟩
  · by_contra hEnough
    have hReached := not_lt.mp hEnough
    have hAccepted := (hTaken (hVerdict.trans (decide_eq_true hReached)) hReached).1
    rw [hOutcome] at hAccepted
    cases hAccepted
  · have hArrives : book.validate { order with remaining := order.quantity } = .none := hPasses
    exact insert_unfillable hArrives hPost hKill
      (hVerdict.trans (decide_eq_false (not_le.mpr hShort))) fills withdrawals
  · exact hTaken (hVerdict.trans (decide_eq_true hEnough)) hEnough

/-- A fill-or-kill purchase at the price of the one resting sale, which has two left. -/
def sampleKill (quantity : Nat) : Order :=
  { sampleOrder 9 5 .buy 2 quantity 9 with tif := .fillOrKill }

theorem fillOrKill_all_or_nothing_two :
    ((create sampleInstrument 1).run sampleCommands).Fits ∧
      ((create sampleInstrument 1).run sampleCommands).AllOrNothing (sampleKill 2) [] [] :=
  ⟨by decide +kernel, fillOrKill_all_or_nothing sampleInstrument (by decide) 1 sampleCommands []
    [] (sampleKill 2) rfl (by decide +kernel) (by decide +kernel) (by decide +kernel)⟩

end OrderBook
end ExchangeCore
