import ExchangeCore.Core.EngineBooks
import ExchangeCore.Risk.Settlement

/-!
# What each command does to the accounts

Two ledgers run beside each other: what an account has resting on the books
(`holding`) and what risk has on record for it (`exposure`).  A command leaves
both alone (`Unmoved`), lets an order enter in place of what it had there before
(`Entered`, which also covers a cancellation, after which nothing is left), or
takes an order off the record and puts it back because its amendment was refused
(`Restated`).

The results of this module say which, with the numbers; no later proof looks
inside a command again.
-/

namespace ExchangeCore

open PriceTime RiskEngine MatchingEngine

namespace RiskEngine

/-- Settle what an order did on its way in, and record what rests of it. -/
def settleOrder (risk : RiskEngine) (instrument : InstrumentId) (fills : List Fill)
    (withdrawals : List Withdrawal) (found : Option Order) : RiskEngine :=
  match found with
  | none => risk.settle instrument fills withdrawals
  | some order => (risk.settle instrument fills withdrawals).onOrderRested order

section SettleOrder

variable (risk : RiskEngine) {book after : Book} {order : Order} {fills : List Fill}
  {withdrawals : List Withdrawal} {rested : Bool} {rest : Nat}

/-- The settlement alone, before what rests is recorded. -/
theorem working_settle_ledger (hLedger : Book.Ledger book order after fills withdrawals rest)
    (target : InstrumentId) (account : AccountId) (instrument : InstrumentId) (side : Side) :
    ((risk.settle target fills withdrawals).exposure account instrument).working side =
      (risk.exposure account instrument).working side -
        if instrument = book.instrument.id then
          if side = order.side then if order.account = account then Fill.total fills else 0
          else Fill.takenFrom account fills + Withdrawal.takenFrom account withdrawals
        else 0 := by
  rw [working_settle]
  congr 1
  split
  · next hHere =>
      subst hHere
      rw [sum_releases_fills account side hLedger.printed,
        sum_releases_withdrawals account side hLedger.withdrawn]
      split <;> simp
  · next hElsewhere =>
      exact sum_releases_elsewhere account side hLedger.printed hLedger.withdrawn hElsewhere

/-- Recording what rests adds it to its owner's working total. -/
theorem working_settleOrder (hLeft : Book.Left order after rested rest) (target : InstrumentId)
    {account : AccountId} {instrument : InstrumentId} {side : Side} {settled : Nat}
    (hSettled : ((risk.settle target fills withdrawals).exposure account
      instrument).working side = settled) (hWord : settled < Word64.modulus) :
    ((risk.settleOrder target fills withdrawals (after.find order.id)).exposure account
        instrument).working side =
      if account = order.account ∧ instrument = order.instrument ∧ side = order.side then
        Word64.add settled rest
      else settled := by
  cases rested with
  | false =>
    obtain ⟨rfl, hNone⟩ := hLeft
    rw [hNone, Word64.add_of_lt hWord]
    exact hSettled.trans (ite_self _).symm
  | true =>
    obtain ⟨resting, hFound, hAccount, hPlace, hSide, rfl⟩ := hLeft
    rw [hFound]
    show (((risk.settle target fills withdrawals).onOrderRested resting).exposure account
      instrument).working side = _
    rw [exposure_onOrderRested, hAccount, hPlace]
    by_cases hHere : account = order.account ∧ instrument = order.instrument
    · rw [if_pos hHere, working_commit, hSide]
      by_cases hOwn : side = order.side
      · rw [if_pos hOwn, if_pos ⟨hHere.1, hHere.2, hOwn⟩, ← hOwn, hSettled]
      · rw [if_neg hOwn, if_neg (fun h => hOwn h.2.2), hSettled]
    · rw [if_neg hHere, if_neg (fun h => hHere ⟨h.1, h.2.1⟩), hSettled]

/-- Recording what rests moves no position. -/
theorem netPosition_settleOrder_eq {account : AccountId} {instrument : InstrumentId}
    (target : InstrumentId) (fills : List Fill) (withdrawals : List Withdrawal)
    (found : Option Order) :
    ((risk.settleOrder target fills withdrawals found).exposure account instrument).netPosition =
      ((risk.settle target fills withdrawals).exposure account instrument).netPosition := by
  cases found with
  | none => rfl
  | some order =>
    show (((risk.settle target fills withdrawals).onOrderRested order).exposure account
      instrument).netPosition = _
    rw [exposure_onOrderRested]
    split
    · rw [netPosition_commit]
    · rfl

variable {limits : AccountLimits}

/-- A known account's position after an order has entered. -/
theorem netPosition_settleOrder (hLedger : Book.Ledger book order after fills withdrawals rest)
    (target : InstrumentId) (found : Option Order) (account : AccountId) (instrument : InstrumentId)
    (hLimits : risk.limitsFor account = some limits)
    (hSigned : Word64.toSigned (risk.exposure account instrument).netPosition =
      (risk.exposure account instrument).netPosition) :
    ((risk.settleOrder target fills withdrawals found).exposure account instrument).netPosition =
      Word64.toSigned ((risk.exposure account instrument).netPosition +
        if instrument = book.instrument.id then
          order.side.sign * ((if order.account = account then Fill.total fills else 0 : Nat) -
            Fill.takenFrom account fills : Int)
        else 0) := by
  rw [netPosition_settleOrder_eq, netPosition_settle _ _ _ _ _ _ hLimits hSigned]
  congr 2
  split
  · next hHere =>
      rw [hHere]
      exact sum_moves account hLedger.printed
  · next hElsewhere => exact sum_moves_elsewhere account hLedger.printed hElsewhere

theorem limitsFor_settleOrder (target : InstrumentId) (fills : List Fill)
    (withdrawals : List Withdrawal) (found : Option Order) {account : AccountId}
    (hLimits : risk.limitsFor account = some limits) :
    (risk.settleOrder target fills withdrawals found).limitsFor account = some limits := by
  have hSettled := limitsFor_settle risk account hLimits target fills withdrawals
  cases found with
  | none => exact hSettled
  | some resting => exact limitsFor_onOrderRested _ hSettled _

end SettleOrder

section Withdrawn

variable (risk : RiskEngine) (order : Order) (instrument : InstrumentId)

section

variable (account : AccountId) (other : InstrumentId)

theorem exposure_onOrderWithdrawn :
    (risk.onOrderWithdrawn order instrument).exposure account other =
      if account = order.account ∧ other = instrument then
        (risk.exposure account other).release order.side order.remaining
      else risk.exposure account other := by
  unfold onOrderWithdrawn
  rw [exposure_onOrderClosed, exposure_onWorkingReleased]

theorem working_onOrderWithdrawn (side : Side) :
    ((risk.onOrderWithdrawn order instrument).exposure account other).working side =
      (risk.exposure account other).working side -
        if account = order.account ∧ other = instrument ∧ side = order.side then order.remaining
        else 0 := by
  rw [exposure_onOrderWithdrawn]
  by_cases hHere : account = order.account ∧ other = instrument
  · rw [if_pos hHere, working_release]
    by_cases hSide : side = order.side
    · rw [if_pos hSide, if_pos ⟨hHere.1, hHere.2, hSide⟩, hSide]
    · rw [if_neg hSide, if_neg (fun h => hSide h.2.2), Nat.sub_zero]
  · rw [if_neg hHere, if_neg (fun h => hHere ⟨h.1, h.2.1⟩), Nat.sub_zero]

theorem netPosition_onOrderWithdrawn :
    ((risk.onOrderWithdrawn order instrument).exposure account other).netPosition =
      (risk.exposure account other).netPosition := by
  rw [exposure_onOrderWithdrawn]
  split <;> simp

end

theorem openOrders_onOrderWithdrawn (account : AccountId) :
    (risk.onOrderWithdrawn order instrument).openOrders account =
      risk.openOrders account - if account = order.account then 1 else 0 := by
  unfold onOrderWithdrawn
  rw [openOrders_onOrderClosed, openOrders_onWorkingReleased]

theorem limitsFor_onOrderWithdrawn {account : AccountId} {limits : AccountLimits}
    (hLimits : risk.limitsFor account = some limits) :
    (risk.onOrderWithdrawn order instrument).limitsFor account = some limits :=
  limitsFor_onOrderClosed _ _ (limitsFor_onWorkingReleased _ _ _ hLimits _ _)

end Withdrawn

end RiskEngine

namespace MatchingEngine

variable {J : Type}

/-- What risk has on record as working. -/
def working (engine : MatchingEngine J) (account : AccountId) (instrument : InstrumentId)
    (side : Side) : Nat :=
  (engine.exposure account instrument).working side

/-- The position risk has on record. -/
def netPosition (engine : MatchingEngine J) (account : AccountId) (instrument : InstrumentId) :
    Int :=
  (engine.exposure account instrument).netPosition

/-- Every working total is a word. -/
def Worded (engine : MatchingEngine J) : Prop :=
  ∀ account instrument side, engine.working account instrument side < Word64.modulus

/-- The same books under every id and the same record for every account. -/
structure Unmoved (engine engine' : MatchingEngine J) : Prop extends SameRecord engine engine' where
  bookFor : ∀ id, engine'.bookFor id = engine.bookFor id

/-- The same holdings, exposure and open orders, though perhaps other books or other
limits. -/
structure Quiet (engine engine' : MatchingEngine J) : Prop where
  holding : ∀ account instrument side,
    engine'.holding account instrument side = engine.holding account instrument side
  exposure : ∀ account instrument,
    engine'.exposure account instrument = engine.exposure account instrument
  openOrders : ∀ account, engine'.openOrders account = engine.openOrders account
  attached : engine'.risk.isSome = engine.risk.isSome

/-- An order of `account` has entered: `rest` of it rests where `freed` rested
before, and the engine's buffers hold what it did to the other side. -/
structure Entered (engine engine' : MatchingEngine J) (account : AccountId)
    (instrument : InstrumentId) (side : Side) (freed rest : Nat) : Prop where
  pos : ∀ fill ∈ engine'.fills, 0 < fill.quantity
  held_own : ∀ a, engine'.holding a instrument side + (if account = a then freed else 0) =
    engine.holding a instrument side + if account = a then rest else 0
  held_other : ∀ a, engine'.holding a instrument side.opposite +
      Fill.takenFrom a engine'.fills + Withdrawal.takenFrom a engine'.withdrawals =
    engine.holding a instrument side.opposite
  held_elsewhere : ∀ a i s, i ≠ instrument → engine'.holding a i s = engine.holding a i s
  working_own : ∀ a, engine'.working a instrument side =
    if account = a then
      Word64.add (engine.working a instrument side - freed - Fill.total engine'.fills) rest
    else engine.working a instrument side
  working_other : ∀ a, engine'.working a instrument side.opposite =
    engine.working a instrument side.opposite -
      (Fill.takenFrom a engine'.fills + Withdrawal.takenFrom a engine'.withdrawals)
  working_elsewhere : ∀ a i s, i ≠ instrument → engine'.working a i s = engine.working a i s
  net : ∀ a limits, engine.limitsFor a = some limits → ∀ i,
    Word64.toSigned (engine.netPosition a i) = engine.netPosition a i →
    engine'.netPosition a i = Word64.toSigned (engine.netPosition a i +
      if i = instrument then
        side.sign * ((if account = a then Fill.total engine'.fills else 0 : Nat) -
          Fill.takenFrom a engine'.fills : Int)
      else 0)
  attached : engine'.risk.isSome
  limits : ∀ a limits, engine.limitsFor a = some limits → engine'.limitsFor a = some limits

/-- An order was taken off the record and put back; if it was `lost`, it has also
left its book. -/
structure Restated (engine engine' : MatchingEngine J) (account : AccountId)
    (instrument : InstrumentId) (side : Side) (quantity : Nat) (lost : Bool) : Prop where
  held : ∀ a i s, engine'.holding a i s +
      (if lost = true ∧ account = a ∧ i = instrument ∧ s = side then quantity else 0) =
    engine.holding a i s
  working : ∀ a i s, engine'.working a i s =
    if account = a ∧ i = instrument ∧ s = side then
      Word64.add (engine.working a i s - quantity) quantity
    else engine.working a i s
  net : ∀ a i, engine'.netPosition a i = engine.netPosition a i
  attached : engine'.risk.isSome
  limits : ∀ a limits, engine.limitsFor a = some limits → engine'.limitsFor a = some limits

section Reading

variable {engine engine' : MatchingEngine J}

theorem Unmoved.of_still (hStill : Still engine engine') : Unmoved engine engine' :=
  ⟨hStill.toSameRecord, hStill.bookFor⟩

theorem Unmoved.trans {a b c : MatchingEngine J} (hFirst : Unmoved a b)
    (hSecond : Unmoved b c) : Unmoved a c where
  toSameRecord := hFirst.toSameRecord.trans hSecond.toSameRecord
  bookFor := fun id => (hSecond.bookFor id).trans (hFirst.bookFor id)

theorem Unmoved.quiet (hUnmoved : Unmoved engine engine') : Quiet engine engine' where
  holding := fun account instrument side => by
    rw [holding, hUnmoved.bookFor]
    rfl
  exposure := hUnmoved.exposure
  openOrders := hUnmoved.openOrders
  attached := hUnmoved.attached

section Quiet

variable (hQuiet : Quiet engine engine')
include hQuiet

theorem Quiet.working (account : AccountId) (instrument : InstrumentId) (side : Side) :
    engine'.working account instrument side = engine.working account instrument side := by
  rw [MatchingEngine.working, hQuiet.exposure]
  rfl

theorem Quiet.netPosition (account : AccountId) (instrument : InstrumentId) :
    engine'.netPosition account instrument = engine.netPosition account instrument := by
  rw [MatchingEngine.netPosition, hQuiet.exposure]
  rfl

theorem Quiet.worded (hWorded : engine.Worded) : engine'.Worded := by
  intro account instrument side
  rw [hQuiet.working]
  exact hWorded account instrument side

end Quiet

theorem holding_of_bookFor {instrument : InstrumentId} {book : OrderBook}
    (hBook : engine.bookFor instrument = some book) (account : AccountId) (side : Side) :
    engine.holding account instrument side = book.abs.holding account side := by
  rw [holding, hBook, Book.holding, OrderBook.queue_abs]
  rfl

/-- Writing a book back under an id changes no other holding. -/
theorem holding_of_books {id : InstrumentId} {book : OrderBook}
    (hBooks : engine'.books = engine.books.insert id book) (account : AccountId)
    (other : InstrumentId) (side : Side) :
    engine'.holding account other side =
      if other = id then book.abs.holding account side
      else engine.holding account other side := by
  split
  · next h =>
      have hBook : engine'.bookFor other = some book := by
        rw [bookFor_of_books hBooks, if_pos h]
      rw [holding_of_bookFor hBook]
  next h =>
  rw [holding, bookFor_of_books hBooks, if_neg h]
  rfl

variable {risk : RiskEngine} (hRisk : engine.risk = some risk)
include hRisk

theorem exposure_of_risk (account : AccountId) (instrument : InstrumentId) :
    engine.exposure account instrument = risk.exposure account instrument := by
  rw [exposure, hRisk]
  rfl

theorem openOrders_of_risk
    (account : AccountId) : engine.openOrders account = risk.openOrders account := by
  rw [openOrders, hRisk]
  rfl

theorem limitsFor_of_risk
    (account : AccountId) : engine.limitsFor account = risk.limitsFor account := by
  rw [limitsFor, hRisk]
  rfl

end Reading

/-! ## An order entering -/

/-- What is taken off a book and off the record before an order enters: nothing, or
a resting order whose place it takes. -/
structure Release (order : Order) (target : Book) where
  before : Book
  prepare : RiskEngine → RiskEngine
  freed : Nat
  count : Nat
  instrument_eq : before.instrument = target.instrument
  held : ∀ account side, before.holding account side +
    (if order.account = account ∧ order.side = side then freed else 0) = target.holding account side
  counted : ∀ account, before.census account +
    (if order.account = account then count else 0) = target.census account
  working : ∀ risk a i s, ((prepare risk).exposure a i).working s = (risk.exposure a i).working s -
      if a = order.account ∧ i = order.instrument ∧ s = order.side then freed else 0
  net : ∀ risk a i, ((prepare risk).exposure a i).netPosition = (risk.exposure a i).netPosition
  openOrders : ∀ risk a, (prepare risk).openOrders a =
    risk.openOrders a - if a = order.account then count else 0
  limits : ∀ risk a limits, risk.limitsFor a = some limits →
    (prepare risk).limitsFor a = some limits

def Release.nothing (order : Order) (target : Book) : Release order target where
  before := target
  prepare := id
  freed := 0
  count := 0
  instrument_eq := rfl
  held := by simp
  counted := by simp
  working := by simp
  net := fun _ _ _ => rfl
  openOrders := by simp
  limits := fun _ _ _ h => h

def Release.resting {target : Book} (hValid : target.Valid) {order previous : Order}
    (hMem : previous ∈ target.queue previous.side) (hAccount : order.account = previous.account)
    {instrument : InstrumentId} (hInstrument : order.instrument = instrument)
    (hSide : order.side = previous.side) : Release order target where
  before := target.remove previous
  prepare := fun risk => risk.onOrderWithdrawn previous instrument
  freed := previous.remaining
  count := 1
  instrument_eq := Book.instrument_remove _ _
  held := by
    rw [hAccount, hSide]
    exact hValid.holding_remove hMem
  counted := by
    rw [hAccount]
    exact hValid.census_remove hMem
  working := fun risk => by
    rw [hAccount, hInstrument, hSide]
    exact risk.working_onOrderWithdrawn previous instrument
  net := fun risk => risk.netPosition_onOrderWithdrawn previous instrument
  openOrders := fun risk => by
    rw [hAccount]
    exact risk.openOrders_onOrderWithdrawn previous instrument
  limits := fun risk _ _ h => risk.limitsFor_onOrderWithdrawn previous _ h

/-- An order has entered its book: `book` is what the order made of it once `release`
was taken off, and the record was settled with the prints in the buffers. -/
structure Settles (engine engine' : MatchingEngine J) {target : OrderBook} {order : Order}
    (release : Release order target.abs) (book : OrderBook) (rested : Bool) (rest : Nat) :
    Prop where
  target_eq : engine.bookFor order.instrument = some target
  id_eq : target.instrument.id = order.instrument
  books : engine'.books = engine.books.insert order.instrument book
  risk : engine'.risk = engine.risk.map fun risk => (release.prepare risk).settleOrder
    order.instrument engine'.fills engine'.withdrawals (book.abs.find order.id)
  ledger : Book.Ledger release.before order book.abs engine'.fills engine'.withdrawals rest
  left : Book.Left order book.abs rested rest
  census : ∀ account, book.abs.census account + Fill.closes account engine'.fills +
      Withdrawal.closes account engine'.withdrawals = release.before.census account +
    if rested = true ∧ order.account = account then 1 else 0

/-- The books are in order, a risk engine is attached and its totals are words. -/
structure Audited (engine : MatchingEngine J) : Prop where
  housed : engine.Housed
  attached : engine.risk.isSome
  worded : engine.Worded

/-- What the two ledgers say when the books and the record moved together. -/
theorem Settles.entered {engine engine' : MatchingEngine J} {target book : OrderBook}
    {order : Order} {release : Release order target.abs} {rested : Bool} {rest : Nat}
    (hSettles : Settles engine engine' release book rested rest) (hAudited : engine.Audited) :
    Entered engine engine' order.account order.instrument order.side release.freed rest := by
  obtain ⟨hTarget, hId, hBooks, hRisk', hLedger, hLeft, -⟩ := hSettles
  obtain ⟨risk, hRisk⟩ := Option.isSome_iff_exists.mp hAudited.attached
  rw [hRisk, Option.map_some] at hRisk'
  have hHere : release.before.instrument.id = order.instrument := by
    rw [release.instrument_eq]
    exact hId
  have hHolding := holding_of_books hBooks
  have hEngineWorking : ∀ a i s, (risk.exposure a i).working s = engine.working a i s := by
    intro a i s
    rw [working, exposure_of_risk hRisk]
  have hWorking : ∀ a i s, ∃ settled, settled = engine.working a i s -
        (if a = order.account ∧ i = order.instrument ∧ s = order.side then release.freed else 0) -
        (if i = order.instrument then
          if s = order.side then if order.account = a then Fill.total engine'.fills else 0
          else Fill.takenFrom a engine'.fills + Withdrawal.takenFrom a engine'.withdrawals
        else 0) ∧
      engine'.working a i s =
        if a = order.account ∧ i = order.instrument ∧ s = order.side then Word64.add settled rest
        else settled := by
    intro a i s
    have hWord := hAudited.worded a i s
    have hSettled := working_settle_ledger (release.prepare risk) hLedger
      order.instrument a i s
    rw [hHere, release.working, hEngineWorking] at hSettled
    refine ⟨_, rfl, ?_⟩
    rw [working, exposure_of_risk hRisk',
      working_settleOrder _ hLeft order.instrument hSettled (by omega)]
  refine
    { pos := fun fill hFill => (hLedger.printed fill hFill).pos
      held_own := fun a => ?_
      held_other := fun a => ?_
      held_elsewhere := fun a i s hElsewhere => by rw [hHolding, if_neg hElsewhere]
      working_own := fun a => ?_
      working_other := fun a => ?_
      working_elsewhere := fun a i s hElsewhere => ?_
      net := fun a limits hLimits i hSigned => ?_
      attached := by rw [hRisk']; rfl
      limits := fun a limits hLimits => ?_ }
  · have hOwn := hLedger.own a
    have hFreed := release.held a order.side
    rw [hHolding, if_pos rfl, holding_of_bookFor hTarget]
    simp only [and_true] at hFreed
    omega
  · have hOther := hLedger.other a
    have hFreed := release.held a order.side.opposite
    rw [hHolding, if_pos rfl, holding_of_bookFor hTarget]
    simp only [(Side.opposite_ne order.side).symm, and_false, if_false, Nat.add_zero] at hFreed
    omega
  · obtain ⟨settled, hSettled, hWorked⟩ := hWorking a order.instrument order.side
    simp only [and_true, if_true, eq_comm (a := a)] at hSettled hWorked
    rw [hWorked, hSettled]
    split <;> rfl
  · obtain ⟨settled, hSettled, hWorked⟩ := hWorking a order.instrument order.side.opposite
    simp only [Side.opposite_ne, and_false, if_false, if_true] at hSettled hWorked
    rw [hWorked, hSettled]
    rfl
  · obtain ⟨settled, hSettled, hWorked⟩ := hWorking a i s
    simp only [hElsewhere, false_and, and_false, if_false] at hSettled hWorked
    rw [hWorked, hSettled]
    rfl
  · rw [limitsFor_of_risk hRisk] at hLimits
    have hNet : engine.netPosition a i = ((release.prepare risk).exposure a i).netPosition := by
      rw [netPosition, exposure_of_risk hRisk, release.net]
    rw [hNet] at hSigned ⊢
    rw [netPosition, exposure_of_risk hRisk',
      netPosition_settleOrder _ hLedger order.instrument _ a i
        (release.limits risk a limits hLimits) hSigned, hHere]
  · rw [limitsFor_of_risk hRisk] at hLimits
    rw [limitsFor_of_risk hRisk']
    exact limitsFor_settleOrder _ _ _ _ _ (release.limits risk a limits hLimits)

/-! ## Commands that reach their book -/

/-- An amendment was refused: its order is taken off the record and put back, and the
book is the one it was or, for a post-only order that would have crossed, has lost it. -/
structure Reinstates (engine engine' : MatchingEngine J) (target : OrderBook)
    (instrument : InstrumentId) (previous : Order) (reason : RejectReason) : Prop where
  book : ∃ book, engine'.books = engine.books.insert instrument book ∧
    ((book = target ∧ (reason = .invalidPrice ∨ reason = .invalidQuantity)) ∨
      (book.abs = target.abs.remove previous ∧ reason = .postOnlyWouldCross))
  risk : engine'.risk = engine.risk.map fun risk =>
    (risk.onOrderWithdrawn previous instrument).onOrderRested previous
  fills : engine'.fills = []

section Reaching

variable {engine : MatchingEngine J} {target : OrderBook} {command : ReplaceOrder} {now : Int}
  {resting previous : Order}

/-- A new order the book refuses moves nothing. -/
theorem place_unmoved {command : NewOrder} (hFills : engine.fills = [])
    (hTarget : engine.bookFor command.instrument = some target)
    (hRefused : (engine.place target command now).2.result.reject ≠ .none) :
    Unmoved engine (engine.place target command now).1 ∧
      (engine.place target command now).1.fills = [] := by
  have hReached := place_reached engine target command now
  rw [hReached.result] at hRefused
  obtain ⟨hSame, hSameFills, -⟩ := OrderBook.insert_refused hRefused
  have hRisk : (engine.place target command now).1.risk = engine.risk := by
    unfold place
    dsimp only
    rw [if_pos hRefused]
    rfl
  refine ⟨⟨.of_risk hRisk, fun id => ?_⟩, (hReached.fills.trans hSameFills).trans hFills⟩
  rw [bookFor_of_books hReached.books]
  split
  · next h =>
      rw [h, hTarget]
      exact congrArg some hSame
  · rfl

/-- The record after the book has accepted a new order. -/
theorem risk_place (engine : MatchingEngine J) (command : NewOrder) (now : Int)
    {outcome : Outcome OrderBook SubmitResult}
    (hOutcome : target.submit (Order.ofCommand command engine.sequence now) engine.fills
      engine.withdrawals = outcome) (hAccepted : outcome.result.reject = .none) :
    (engine.place target command now).1.risk = engine.risk.map fun risk =>
      risk.settleOrder command.instrument outcome.fills outcome.withdrawals
        (if outcome.result.rested then outcome.book.find command.id else none) := by
  unfold place
  dsimp only
  rw [hOutcome, if_neg (not_not.mpr hAccepted)]
  cases outcome.result.rested with
  | false => rfl
  | true =>
    cases outcome.book.find command.id with
    | none => rfl
    | some resting => exact Option.map_map ..

/-- Asking whether anything rests and asking what is found come to the same. -/
theorem found_of_left {order : Order} {book : OrderBook} (hSound : book.Sound) {rested : Bool}
    {rest : Nat} (hLeft : Book.Left order book.abs rested rest) :
    (if rested then book.find order.id else none) = book.abs.find order.id := by
  rw [hSound.find_eq]
  cases rested with
  | false => exact hLeft.2.symm
  | true => rfl

/-- A new order the book accepts enters it. -/
theorem place_settles (hHoused : engine.Housed) {command : NewOrder}
    (hFills : engine.fills = []) (hWithdrawals : engine.withdrawals = [])
    (hTarget : engine.bookFor command.instrument = some target)
    (hAccepted : (engine.place target command now).2.result.reject = .none) :
    ∃ book rested rest, Settles engine (engine.place target command now).1
      (.nothing (Order.ofCommand command engine.sequence now) target.abs) book rested rest := by
  obtain ⟨hKept, hId⟩ := hHoused _ _ hTarget
  have hReached := place_reached engine target command now
  generalize hOutcome : target.submit (Order.ofCommand command engine.sequence now) engine.fills
    engine.withdrawals = outcome at hReached
  rw [hReached.result] at hAccepted
  have hRisk := risk_place engine command now hOutcome hAccepted
  rw [hFills, hWithdrawals] at hOutcome
  obtain ⟨hSound, ⟨rest, hLedger, hLeft⟩, hCensus⟩ := submit_ledger hKept rfl hOutcome hAccepted
  have hFound := found_of_left hSound hLeft
  rw [← hReached.fills, ← hReached.withdrawals] at hRisk hLedger hCensus
  exact ⟨outcome.book, outcome.result.rested, rest, hTarget, hId, hReached.books,
    hFound ▸ hRisk, hLedger, hLeft, hCensus⟩

/-- A cancellation that is recorded takes the order off both ledgers. -/
theorem withdraw_settles (hHoused : engine.Housed) {command : CancelOrder}
    (hFills : engine.fills = []) (hWithdrawals : engine.withdrawals = [])
    (hTarget : engine.bookFor command.instrument = some target)
    (hResting : target.find command.id = some resting) :
    (engine.withdraw target command).2.result = { order := resting } ∧
      (engine.withdraw target command).1.fills = [] ∧
      resting.instrument = command.instrument ∧
      ∃ release : Release resting target.abs, release.freed = resting.remaining ∧
        Settles engine (engine.withdraw target command).1 release (target.cancel command.id).1
          false 0 := by
  obtain ⟨hKept, hId⟩ := hHoused _ _ hTarget
  have hRefines := cancel_refines hKept hResting [] []
  have hReached := withdraw_reached engine target command
  rw [hFills, hWithdrawals] at hReached
  have hResult := hRefines.result
  have hAbs := hRefines.book
  dsimp only at hResult hAbs
  have hMem := hKept.valid.mem_queue_of_find (hKept.find_abs hResting)
  have hInstrument : resting.instrument = command.instrument :=
    (hKept.valid.rests _ resting hMem).instrument_eq.trans hId
  have hGone := hKept.valid.find_remove hMem
  refine ⟨hReached.result.trans hResult, hReached.fills, hInstrument,
    .resting hKept.valid hMem rfl hInstrument rfl, rfl, ?_⟩
  refine ⟨hInstrument ▸ hTarget, hInstrument ▸ hId, hInstrument ▸ hReached.books, ?_, ?_,
    ⟨rfl, by rw [hAbs, hGone]⟩, ?_⟩
  · rw [hReached.fills, hReached.withdrawals, hAbs, hGone, hInstrument]
    unfold withdraw
    dsimp only
    rw [hResult, if_neg (by simp)]
    rfl
  · rw [hReached.fills, hReached.withdrawals, hAbs]
    exact
      { own := fun account => by simp [Release.resting]
        other := fun account => by simp [Release.resting]
        printed := fun fill hFill => by simp at hFill
        withdrawn := fun withdrawal hWithdrawal => by simp at hWithdrawal
        bound := Nat.zero_le _ }
  · intro account
    rw [hReached.fills, hReached.withdrawals, hAbs]
    simp [Release.resting]

/-- The record after the book has accepted an amendment. -/
theorem risk_amend (engine : MatchingEngine J) (previous : Order) (command : ReplaceOrder)
    (now : Int) {outcome : Outcome OrderBook ReplaceResult}
    (hOutcome : target.replace command.id command.newPrice command.newQuantity engine.sequence
      now engine.fills engine.withdrawals = outcome) (hAccepted : outcome.result.reject = .none) :
    (engine.amend target previous command now).1.risk = engine.risk.map fun risk =>
      (risk.onOrderWithdrawn previous command.instrument).settleOrder command.instrument
        outcome.fills outcome.withdrawals (outcome.book.find command.id) := by
  unfold amend
  dsimp only [onRisk]
  rw [hOutcome, if_neg (not_not.mpr hAccepted)]
  cases hRisk : engine.risk with
  | none =>
    cases outcome.book.find command.id <;> simp [recordRested, settleRisk, onRisk, notify, adopt]
  | some risk => cases outcome.book.find command.id <;> rfl

section

variable (hHoused : engine.Housed) (hFills : engine.fills = [])
  (hWithdrawals : engine.withdrawals = [])
  (hTarget : engine.bookFor command.instrument = some target)
  (hPrevious : target.find command.id = some previous)
include hHoused hFills hWithdrawals hTarget hPrevious

/-- An amendment the book accepts lets the order enter again, in place of what it
had before. -/
theorem amend_settles
    (hAccepted : (engine.amend target previous command now).2.result.reject = .none) :
    ∃ order, ∃ release : Release order target.abs, ∃ book rested rest,
      order.account = previous.account ∧ order.instrument = command.instrument ∧
      order.side = previous.side ∧ order.remaining = command.newQuantity - previous.filled ∧
      release.freed = previous.remaining ∧ release.count = 1 ∧
      Settles engine (engine.amend target previous command now).1 release book rested rest := by
  obtain ⟨hKept, hId⟩ := hHoused _ _ hTarget
  have hMem := hKept.valid.mem_queue_of_find (hKept.find_abs hPrevious)
  have hReached := amend_reached engine target previous command now
  generalize hOutcome : target.replace command.id command.newPrice command.newQuantity
    engine.sequence now engine.fills engine.withdrawals = outcome at hReached
  rw [hReached.result] at hAccepted
  have hRisk := risk_amend engine previous command now hOutcome hAccepted
  rw [hFills, hWithdrawals] at hOutcome
  obtain ⟨hSound, ⟨order, rest, hOrderId, hAccount, hSame, hSide, hRemaining, hLedger, hLeft⟩,
    hCensus⟩ := replace_ledger hKept hPrevious hOutcome hAccepted
  have hInstrument : order.instrument = command.instrument :=
    (hSame.trans (hKept.valid.rests _ previous hMem).instrument_eq).trans hId
  refine ⟨order, .resting hKept.valid hMem hAccount hInstrument hSide, outcome.book,
    outcome.result.rested, rest, hAccount, hInstrument, hSide, hRemaining, rfl, rfl, ?_⟩
  rw [← hReached.fills, ← hReached.withdrawals] at hRisk hLedger hCensus
  refine ⟨hInstrument ▸ hTarget, hInstrument ▸ hId, hInstrument ▸ hReached.books, ?_, hLedger,
    hLeft, ?_⟩
  · rw [← hSound.find_eq, hOrderId, hInstrument]
    exact hRisk
  · intro account
    have hRemoved := hKept.valid.census_remove hMem account
    have hCounted := hCensus account
    rw [hAccount]
    show _ = (target.abs.remove previous).census account + _
    omega

/-- The engine after the book has refused an amendment. -/
theorem amend_reinstates
    (hRefused : (engine.amend target previous command now).2.result.reject ≠ .none) :
    Reinstates engine (engine.amend target previous command now).1 target command.instrument
      previous (engine.amend target previous command now).2.result.reject := by
  obtain ⟨hKept, -⟩ := hHoused _ _ hTarget
  generalize hOutcome : target.replace command.id command.newPrice command.newQuantity
    engine.sequence now [] [] = outcome
  have hReplace : target.replace command.id command.newPrice command.newQuantity engine.sequence
      now engine.fills engine.withdrawals = outcome := by
    rw [hFills, hWithdrawals, hOutcome]
  have hReached := amend_reached engine target previous command now
  rw [hReplace] at hReached
  rw [hReached.result] at hRefused ⊢
  obtain ⟨hNoFills, -, hWhy⟩ := hKept.replace_refused hPrevious hOutcome hRefused
  refine ⟨⟨outcome.book, hReached.books, hWhy.imp id fun hLost => ⟨hLost.1, hLost.2.1⟩⟩, ?_,
    hReached.fills.trans hNoFills⟩
  unfold amend
  dsimp only [onRisk]
  rw [hReplace, if_pos hRefused]
  show (engine.risk.map _).map _ = _
  rw [Option.map_map]
  rfl

end

/-- An amendment the book refuses leaves the order's quantity on the record, and
the order on the book unless it is a post-only order that would have crossed. -/
theorem Reinstates.restated {engine' : MatchingEngine J} {instrument : InstrumentId}
    {reason : RejectReason}
    (hReinstates : Reinstates engine engine' target instrument previous reason)
    (hHoused : engine.Housed) (hAttached : engine.risk.isSome)
    (hTarget : engine.bookFor instrument = some target) {id : OrderId}
    (hPrevious : target.find id = some previous) :
    Restated engine engine' previous.account instrument previous.side previous.remaining
      (reason == .postOnlyWouldCross) := by
  obtain ⟨hKept, hId⟩ := hHoused _ _ hTarget
  obtain ⟨risk, hRisk⟩ := Option.isSome_iff_exists.mp hAttached
  have hMem := hKept.valid.mem_queue_of_find (hKept.find_abs hPrevious)
  obtain ⟨⟨book, hBooks, hWhy⟩, hRisk', -⟩ := hReinstates
  rw [hRisk, Option.map_some] at hRisk'
  refine
    { held := fun a i s => ?_
      working := fun a i s => ?_
      net := fun a i => ?_
      attached := by rw [hRisk']; rfl
      limits := fun a limits hLimits => ?_ }
  · rw [holding_of_books hBooks]
    by_cases hHere : i = instrument
    · subst hHere
      rw [if_pos rfl, holding_of_bookFor hTarget]
      rcases hWhy with ⟨hSame, hReason⟩ | ⟨hLost, hReason⟩
      · have hKeeps : (reason == .postOnlyWouldCross) = false := by
          rcases hReason with h | h <;> rw [h] <;> rfl
        rw [hSame, hKeeps]
        simp
      rw [hLost, hReason]
      have hRemoved := hKept.valid.holding_remove hMem a s
      simp only [beq_self_eq_true, true_and, eq_comm (a := s)]
      exact hRemoved
    · rw [if_neg hHere]
      simp [hHere]
  · have hInstrument : previous.instrument = instrument :=
      (hKept.valid.rests _ previous hMem).instrument_eq.trans hId
    rw [working, exposure_of_risk hRisk', exposure_onOrderRested, hInstrument]
    by_cases hHere : a = previous.account ∧ i = instrument
    · rw [if_pos hHere, working_commit, working_onOrderWithdrawn,
        working_onOrderWithdrawn, working, exposure_of_risk hRisk]
      by_cases hSide : s = previous.side
      · rw [if_pos hSide, if_pos ⟨hHere.1, hHere.2, rfl⟩, if_pos ⟨hHere.1.symm, hHere.2, hSide⟩,
          hSide]
      · rw [if_neg hSide, if_neg (fun h => hSide h.2.2), if_neg (fun h => hSide h.2.2),
          Nat.sub_zero]
    · rw [if_neg hHere, working_onOrderWithdrawn,
        if_neg (fun h => hHere ⟨h.1, h.2.1⟩), if_neg (fun h => hHere ⟨h.1.symm, h.2.1⟩), working,
        exposure_of_risk hRisk, Nat.sub_zero]
  · rw [netPosition, exposure_of_risk hRisk', exposure_onOrderRested, netPosition,
      exposure_of_risk hRisk]
    split
    · rw [netPosition_commit, netPosition_onOrderWithdrawn]
    · rw [netPosition_onOrderWithdrawn]
  · rw [limitsFor_of_risk hRisk] at hLimits
    rw [limitsFor_of_risk hRisk']
    exact limitsFor_onOrderRested _
      (limitsFor_onOrderWithdrawn risk previous _ hLimits) _

/-- The order an amendment reports as it stood before. -/
theorem amend_previous (hHoused : engine.Housed)
    (hTarget : engine.bookFor command.instrument = some target)
    (hPrevious : target.find command.id = some previous) :
    (engine.amend target previous command now).2.result.previous = previous := by
  obtain ⟨hKept, -⟩ := hHoused _ _ hTarget
  rw [(amend_reached ..).result, (hKept.sound.replace hKept.valid _ _ _ _ _ _ _).result]
  exact Book.previous_replace (hKept.find_abs hPrevious) ..

end Reaching

/-! ## Commands -/

section Commands

variable {engine engine' after : MatchingEngine J} {account : AccountId} {instrument : InstrumentId}

theorem Unmoved.entered (hUnmoved : Unmoved engine engine') {side : Side} {freed rest : Nat}
    (hEntered : Entered engine' after account instrument side freed rest) :
    Entered engine after account instrument side freed rest := by
  obtain ⟨hPos, hOwn, hOther, hElsewhere, hWorking, hWorkingOther, hWorkingElsewhere, hNet,
    hAttached, hLimits⟩ := hEntered
  have hQuiet := hUnmoved.quiet
  simp only [hQuiet.holding, hQuiet.working] at *
  refine ⟨hPos, hOwn, hOther, hElsewhere, hWorking, hWorkingOther, hWorkingElsewhere,
    fun a limits h i hSigned => ?_, hAttached, fun a limits h =>
      hLimits a limits (hUnmoved.limits a limits h)⟩
  have hMoved := hNet a limits (hUnmoved.limits a limits h) i
  rw [hQuiet.netPosition] at hMoved
  exact hMoved hSigned

theorem Unmoved.restated (hUnmoved : Unmoved engine engine')
    {side : Side} {quantity : Nat} {lost : Bool}
    (hRestated : Restated engine' after account instrument side quantity lost) :
    Restated engine after account instrument side quantity lost := by
  obtain ⟨hHeld, hWorking, hNet, hAttached, hLimits⟩ := hRestated
  have hQuiet := hUnmoved.quiet
  simp only [hQuiet.holding, hQuiet.working, hQuiet.netPosition] at *
  exact ⟨hHeld, hWorking, hNet, hAttached, fun a limits h =>
    hLimits a limits (hUnmoved.limits a limits h)⟩

theorem Audited.still (hAudited : engine.Audited) (hStill : Still engine engine') :
    engine'.Audited :=
  ⟨hAudited.housed.still hStill, hStill.attached ▸ hAudited.attached,
    (Unmoved.of_still hStill).quiet.worded hAudited.worded⟩

variable [JournalSink J]

/-- A submission moves nothing, or its order passed every gate and was settled. -/
theorem submit_settled (hHoused : engine.Housed) (command : NewOrder) (now : Int) :
    (Unmoved engine (engine.submit command now).1 ∧ (engine.submit command now).1.fills = []) ∨
      ∃ engine', ∃ target : OrderBook, ∃ book rested rest, Still engine engine' ∧
        (engine.submit command now).2.result.reject = .none ∧
        (∀ risk, engine.risk = some risk → (risk.check command now).2 = .none) ∧
        Settles engine' (engine.submit command now).1
          (.nothing (Order.ofCommand command engine'.sequence now) target.abs) book rested
          rest := by
  have hCases := submit_cases engine command now
  generalize engine.submit command now = reply at hCases ⊢
  cases hCases with
  | turnedAway engine' reason hReason hStill hFills =>
    exact Or.inl ⟨Unmoved.of_still (hStill.refuse _ _ _), hFills⟩
  | unrecorded engine' hStill hFills =>
    exact Or.inl ⟨Unmoved.of_still (hStill.refuse _ _ _), hFills⟩
  | placed engine' target hStill hFills hWithdrawals _ hTarget _ _ hCheck =>
    have hTarget' := (hStill.bookFor _).trans hTarget
    by_cases hAccepted : (engine'.place target command now).2.result.reject = .none
    · obtain ⟨book, rested, rest, hSettles⟩ := place_settles (hHoused.still hStill) hFills
        hWithdrawals hTarget' hAccepted
      exact Or.inr ⟨engine', target, book, rested, rest, hStill, hAccepted, hCheck, hSettles⟩
    · obtain ⟨hPlaced, hNoFills⟩ := place_unmoved hFills hTarget' hAccepted
      exact Or.inl ⟨(Unmoved.of_still hStill).trans hPlaced, hNoFills⟩

/-- A cancellation moves nothing, or a resting order of its account is taken off. -/
theorem cancel_settled (hHoused : engine.Housed) (command : CancelOrder) (now : Int) :
    (Unmoved engine (engine.cancel command now).1 ∧ (engine.cancel command now).1.fills = []) ∨
      ∃ engine' resting, ∃ target : OrderBook, ∃ release : Release resting target.abs, ∃ book,
        Still engine engine' ∧ resting.account = command.account ∧
        resting.instrument = command.instrument ∧
        (engine.cancel command now).2.result = { order := resting } ∧
        (engine.cancel command now).1.fills = [] ∧ release.freed = resting.remaining ∧
        Settles engine' (engine.cancel command now).1 release book false 0 := by
  have hCases := cancel_cases engine command now
  generalize engine.cancel command now = reply at hCases ⊢
  cases hCases with
  | turnedAway => exact Or.inl ⟨Unmoved.of_still (still_clearBuffers engine), rfl⟩
  | unrecorded engine' hStill hFills => exact Or.inl ⟨Unmoved.of_still hStill, hFills⟩
  | reached engine' target resting hStill hFills hWithdrawals _ hTarget hResting hOwner =>
    obtain ⟨hResult, hNoFills, hInstrument, release, hFreed, hSettles⟩ := withdraw_settles
      (hHoused.still hStill) hFills hWithdrawals ((hStill.bookFor _).trans hTarget) hResting
    exact Or.inr ⟨engine', resting, target, release, _, hStill, hOwner, hInstrument, hResult,
      hNoFills, hFreed, hSettles⟩

/-- The resting order a command addresses. -/
def restingOrder (engine : MatchingEngine J) (instrument : InstrumentId) (id : OrderId) :
    Option Order :=
  (engine.bookFor instrument).bind fun book => book.find id

/-- An amendment moves nothing, lets the account's order enter again in place of
itself, or puts it back. -/
theorem replace_settled (hHoused : engine.Housed) (command : ReplaceOrder) (now : Int) :
    (Unmoved engine (engine.replace command now).1 ∧
        (engine.replace command now).1.fills = [] ∧
        (engine.replace command now).2.result.reject ≠ .postOnlyWouldCross) ∨
      ∃ engine' target previous, Still engine engine' ∧
        engine.bookFor command.instrument = some target ∧
        target.find command.id = some previous ∧ previous.account = command.account ∧
        (engine.replace command now).2.result.previous = previous ∧
        (((engine.replace command now).2.result.reject = .none ∧
            ∃ order, ∃ release : Release order target.abs, ∃ book rested rest,
              order.account = command.account ∧ order.instrument = command.instrument ∧
              order.side = previous.side ∧
              order.remaining = command.newQuantity - previous.filled ∧
              release.freed = previous.remaining ∧ release.count = 1 ∧
              Settles engine' (engine.replace command now).1 release book rested rest) ∨
          ((engine.replace command now).2.result.reject ≠ .none ∧
            Reinstates engine' (engine.replace command now).1 target command.instrument previous
              (engine.replace command now).2.result.reject)) := by
  have hCases := replace_cases engine command now
  generalize engine.replace command now = reply at hCases ⊢
  cases hCases with
  | turnedAway reason hReason =>
    refine Or.inl ⟨Unmoved.of_still (still_clearBuffers engine), rfl, ?_⟩
    rcases hReason with rfl | rfl <;> simp
  | unrecorded engine' hStill hFills =>
    exact Or.inl ⟨Unmoved.of_still hStill, hFills, by simp⟩
  | reached engine' target previous hStill hFills hWithdrawals _ hTarget hPrevious hOwner =>
    have hTarget' := (hStill.bookFor _).trans hTarget
    refine Or.inr ⟨engine', target, previous, hStill, hTarget, hPrevious, hOwner,
      amend_previous (hHoused.still hStill) hTarget' hPrevious, ?_⟩
    by_cases hAccepted : (engine'.amend target previous command now).2.result.reject = .none
    · obtain ⟨order, release, book, rested, rest, hAccount, hTerms⟩ := amend_settles
        (hHoused.still hStill) hFills hWithdrawals hTarget' hPrevious hAccepted
      exact Or.inl ⟨hAccepted, order, release, book, rested, rest, hAccount.trans hOwner, hTerms⟩
    · exact Or.inr ⟨hAccepted, amend_reinstates (hHoused.still hStill) hFills hWithdrawals
        hTarget' hPrevious hAccepted⟩

/-- A submission moves nothing, or its order passed every gate and entered. -/
theorem submit_effect (hAudited : engine.Audited) (command : NewOrder) (now : Int) :
    (Unmoved engine (engine.submit command now).1 ∧ (engine.submit command now).1.fills = []) ∨
      ∃ rest, (engine.submit command now).2.result.reject = .none ∧
        rest + Fill.total (engine.submit command now).1.fills ≤ command.quantity ∧
        (∀ risk, engine.risk = some risk → (risk.check command now).2 = .none) ∧
        Entered engine (engine.submit command now).1 command.account command.instrument
          command.side 0 rest := by
  rcases submit_settled hAudited.housed command now with
    hUnmoved | ⟨engine', target, book, rested, rest, hStill, hAccepted, hCheck, hSettles⟩
  · exact Or.inl hUnmoved
  · exact Or.inr ⟨rest, hAccepted, hSettles.ledger.bound, hCheck,
      (Unmoved.of_still hStill).entered (hSettles.entered (hAudited.still hStill))⟩

/-- A cancellation moves nothing, or takes a resting order of the account off
both ledgers. -/
theorem cancel_effect (hAudited : engine.Audited) (command : CancelOrder) (now : Int) :
    Unmoved engine (engine.cancel command now).1 ∨
      ∃ resting : Order, resting.remaining ≤
          engine.holding command.account command.instrument resting.side ∧
        (engine.cancel command now).1.fills = [] ∧
        Entered engine (engine.cancel command now).1 command.account command.instrument
          resting.side resting.remaining 0 := by
  rcases cancel_settled hAudited.housed command now with ⟨hUnmoved, -⟩ | ⟨engine', resting, target,
    release, book, hStill, hOwner, hInstrument, -, hFills, hFreed, hSettles⟩
  · exact Or.inl hUnmoved
  have hEntered := hSettles.entered (hAudited.still hStill)
  rw [hOwner, hInstrument, hFreed] at hEntered
  have hHere := (Unmoved.of_still hStill).entered hEntered
  have hHeld := hHere.held_own command.account
  rw [if_pos rfl, if_pos rfl] at hHeld
  exact Or.inr ⟨resting, by omega, hFills, hHere⟩

/-- An amendment moves nothing, lets the account's order enter again in place of
itself, or restates it. -/
theorem replace_effect (hAudited : engine.Audited) (command : ReplaceOrder) (now : Int) :
    (Unmoved engine (engine.replace command now).1 ∧
        (engine.replace command now).1.fills = [] ∧
        (engine.replace command now).2.result.reject ≠ .postOnlyWouldCross) ∨
      ∃ previous : Order, 0 < previous.remaining ∧
        previous.remaining ≤
          engine.holding command.account command.instrument previous.side ∧
        engine.restingOrder command.instrument command.id = some previous ∧
        (((engine.replace command now).2.result.reject = .none ∧
            ∃ rest, rest + Fill.total (engine.replace command now).1.fills ≤
                command.newQuantity - previous.filled ∧
              Entered engine (engine.replace command now).1 command.account
                command.instrument previous.side previous.remaining rest) ∨
          ((engine.replace command now).1.fills = [] ∧
            Restated engine (engine.replace command now).1 command.account command.instrument
              previous.side previous.remaining
              ((engine.replace command now).2.result.reject == .postOnlyWouldCross))) := by
  rcases replace_settled hAudited.housed command now with hUnmoved | ⟨engine', target, previous,
    hStill, hTarget, hPrevious, hOwner, -, hEffect⟩
  · exact Or.inl hUnmoved
  have hUnmoved := Unmoved.of_still hStill
  obtain ⟨hKept, -⟩ := hAudited.housed _ _ hTarget
  have hMem := hKept.valid.mem_queue_of_find (hKept.find_abs hPrevious)
  have hHeld : previous.remaining ≤
      engine.holding command.account command.instrument previous.side := by
    rw [holding_of_bookFor hTarget, ← hOwner]
    exact remaining_le_heldBy hMem
  have hFound : engine.restingOrder command.instrument command.id = some previous := by
    rw [restingOrder, hTarget]
    exact hPrevious
  refine Or.inr ⟨previous, (hKept.valid.rests _ previous hMem).live.1, hHeld, hFound, ?_⟩
  rcases hEffect with ⟨hAccepted, order, release, book, rested, rest, hAccount, hInstrument,
    hSide, hRemaining, hFreed, -, hSettles⟩ | ⟨-, hReinstates⟩
  · have hEntered := hSettles.entered (hAudited.still hStill)
    rw [hAccount, hInstrument, hSide, hFreed] at hEntered
    exact Or.inl ⟨hAccepted, rest, hRemaining ▸ hSettles.ledger.bound, hUnmoved.entered hEntered⟩
  have hRestated := hReinstates.restated (hAudited.housed.still hStill)
    (hStill.attached ▸ hAudited.attached) ((hStill.bookFor _).trans hTarget) hPrevious
  rw [hOwner] at hRestated
  exact Or.inr ⟨hReinstates.fills, hUnmoved.restated hRestated⟩

end Commands

/-! ## Other events -/

section Others

variable {engine engine' : MatchingEngine J}

variable {instrument : Instrument}

/-- A new instrument's book is empty. -/
theorem quiet_register (hTick : 0 < instrument.tickSize)
    (hNew : engine.bookFor instrument.id = none) : Quiet engine (engine.register instrument) := by
  refine ⟨fun account id side => ?_, fun _ _ => rfl, fun _ => rfl, rfl⟩
  have hBooks : (engine.register instrument).books = engine.books.insert instrument.id
    (OrderBook.create instrument instrument.expectedRestingOrders) := rfl
  rw [holding_of_books hBooks]
  split
  · next h =>
      rw [h, holding, hNew, OrderBook.abs_create hTick]
      cases side <;> rfl
  · rfl

theorem quiet_addInstrument [JournalSink J] (hTick : 0 < instrument.tickSize) (now : Int) :
    Quiet engine (engine.addInstrument instrument now).1 := by
  rcases addInstrument_cases engine instrument now with hStill | ⟨engine', hStill, hNew, hEq⟩
  · exact (Unmoved.of_still hStill).quiet
  rw [hEq]
  have hFirst := (Unmoved.of_still hStill).quiet
  have hSecond := quiet_register hTick ((hStill.bookFor instrument.id).trans hNew)
  exact ⟨fun account id side => (hSecond.holding account id side).trans
      (hFirst.holding account id side),
    fun account id => (hSecond.exposure account id).trans (hFirst.exposure account id),
    fun account => (hSecond.openOrders account).trans (hFirst.openOrders account),
    hSecond.attached.trans hFirst.attached⟩

theorem quiet_onRisk (engine : MatchingEngine J) {update : RiskEngine → RiskEngine}
    (hExposure : ∀ (risk : RiskEngine) account instrument,
      (update risk).exposure account instrument = risk.exposure account instrument)
    (hOpenOrders : ∀ (risk : RiskEngine) account,
      (update risk).openOrders account = risk.openOrders account) :
    Quiet engine (engine.onRisk update) := by
  unfold onRisk
  refine ⟨fun _ _ _ => rfl, fun account instrument => ?_, fun account => ?_, ?_⟩
  · unfold exposure
    cases engine.risk with
    | none => rfl
    | some risk => exact hExposure risk account instrument
  · unfold openOrders
    cases engine.risk with
    | none => rfl
    | some risk => exact hOpenOrders risk account
  · cases engine.risk <;> rfl

/-- Everything that is not a command leaves both ledgers alone, as long as the
risk engine stays. -/
theorem quiet_apply [JournalSink J] (engine : MatchingEngine J) {event : Event}
    (hTicked : event.Ticked) (hKeeps : event.KeepsRisk) (hOther : ¬ event.IsCommand) :
    Quiet engine (engine.apply event) := by
  cases event with
  | addInstrument instrument now => exact quiet_addInstrument hTicked now
  | submit command now => exact absurd trivial hOther
  | cancel command now => exact absurd trivial hOther
  | replace command now => exact absurd trivial hOther
  | configure account limits =>
    exact quiet_onRisk engine (fun risk => risk.exposure_configure account limits)
      fun risk => risk.openOrders_configure account limits
  | configureInstrument instrument controls =>
    exact quiet_onRisk engine (fun _ _ _ => rfl) fun _ _ => rfl
  | setReferencePrice instrument price =>
    exact quiet_onRisk engine (fun risk => risk.exposure_setReferencePrice instrument price)
      fun risk => risk.openOrders_setReferencePrice instrument price
  | setRiskEngine risk => exact absurd hKeeps not_false
  | setKillSwitch kill => exact ⟨fun _ _ _ => rfl, fun _ _ => rfl, fun _ => rfl, rfl⟩

end Others

/-! ## What holds of both ledgers throughout a run -/

section Audited

variable {engine engine' : MatchingEngine J} {account : AccountId} {instrument : InstrumentId}
  {event : Event}

theorem Entered.worded {side : Side}
    {freed rest : Nat} (hEntered : Entered engine engine' account instrument side freed rest)
    (hWorded : engine.Worded) : engine'.Worded := by
  intro a i s
  have hWord := hWorded a i s
  by_cases hHere : i = instrument
  · subst hHere
    rcases Book.queue_cases side s with rfl | rfl
    · rw [hEntered.working_own]
      split
      · exact Word64.add_lt _ _
      · exact hWord
    · rw [hEntered.working_other]
      omega
  · rw [hEntered.working_elsewhere a i s hHere]
    exact hWord

theorem Restated.worded {side : Side} {quantity : Nat} {lost : Bool}
    (hRestated : Restated engine engine' account instrument side quantity lost)
    (hWorded : engine.Worded) : engine'.Worded := by
  intro a i s
  rw [hRestated.working]
  split
  · exact Word64.add_lt _ _
  · exact hWorded a i s

/-- What an amendment takes off the record comes back exactly, if it was there. -/
theorem Restated.working_eq {owner : AccountId} {side : Side} {quantity : Nat} {lost : Bool}
    (hRestated : Restated engine engine' owner instrument side quantity lost)
    (hWorded : engine.Worded)
    (hCovers : owner = account → quantity ≤ engine.working account instrument side)
    (i : InstrumentId) (s : Side) : engine'.working account i s = engine.working account i s := by
  rw [hRestated.working]
  split
  · next h =>
      have hWord := hWorded account i s
      have hLe := hCovers h.1
      rw [h.2.1, h.2.2] at hWord ⊢
      rw [Word64.add_of_lt (by omega)]
      omega
  · rfl

/-- A risk engine with nothing on record. -/
theorem audited_start (journal : Option J) (kill : Option KillSwitch) {risk : RiskEngine}
    (hFresh : ∀ account instrument, risk.exposure account instrument = {}) :
    (start journal (some risk) kill).Audited where
  housed := housed_start journal (some risk) kill
  attached := rfl
  worded := fun account instrument side => by
    rw [working, exposure_of_risk (show (start journal (some risk) kill).risk = some risk from rfl),
      hFresh]
    cases side <;> exact Word64.modulus_pos

/-- A fresh risk engine, with limits for one account. -/
theorem audited_configured (journal : Option J) (kill : Option KillSwitch) (account : AccountId)
    (limits : AccountLimits) :
    (start journal (some (({} : RiskEngine).configure account limits)) kill).Audited :=
  audited_start journal kill fun _ _ => exposure_configure ..

variable [JournalSink J]

/-- What the commands leave of the record. -/
structure Steady (engine engine' : MatchingEngine J) : Prop where
  attached : engine'.risk.isSome
  worded : engine'.Worded
  limits : ∀ account limits, engine.limitsFor account = some limits →
    engine'.limitsFor account = some limits

variable (hAudited : engine.Audited)
include hAudited

theorem steady_command (hCommand : event.IsCommand) : Steady engine (engine.apply event) := by
  have hUnmovedSteady : ∀ {after}, Unmoved engine after → Steady engine after :=
    fun hUnmoved => ⟨hUnmoved.attached ▸ hAudited.attached, hUnmoved.quiet.worded hAudited.worded,
      hUnmoved.limits⟩
  have hEnteredSteady : ∀ {after account instrument side freed rest},
      Entered engine after account instrument side freed rest → Steady engine after :=
    fun hEntered => ⟨hEntered.attached, hEntered.worded hAudited.worded, hEntered.limits⟩
  cases event with
  | submit command now =>
    rcases submit_effect hAudited command now with ⟨hUnmoved, -⟩ | ⟨rest, -, -, -, hEntered⟩
    · exact hUnmovedSteady hUnmoved
    · exact hEnteredSteady hEntered
  | cancel command now =>
    rcases cancel_effect hAudited command now with hUnmoved | ⟨resting, -, -, hEntered⟩
    · exact hUnmovedSteady hUnmoved
    · exact hEnteredSteady hEntered
  | replace command now =>
    rcases replace_effect hAudited command now with
      ⟨hUnmoved, -, -⟩ | ⟨previous, -, -, -, ⟨-, rest, -, hEntered⟩ | ⟨-, hRestated⟩⟩
    · exact hUnmovedSteady hUnmoved
    · exact hEnteredSteady hEntered
    · exact ⟨hRestated.attached, hRestated.worded hAudited.worded, hRestated.limits⟩
  | _ => exact absurd hCommand not_false

theorem Audited.apply (hTicked : event.Ticked)
    (hKeeps : event.KeepsRisk) : (engine.apply event).Audited := by
  have hHoused := hAudited.housed.apply hTicked
  by_cases hCommand : event.IsCommand
  · have hSteady := steady_command hAudited hCommand
    exact ⟨hHoused, hSteady.attached, hSteady.worded⟩
  · have hQuiet := quiet_apply engine hTicked hKeeps hCommand
    exact ⟨hHoused, hQuiet.attached ▸ hAudited.attached, hQuiet.worded hAudited.worded⟩

theorem Audited.each {events : List Event}
    (hTicked : ∀ event ∈ events, event.Ticked) (hKeeps : ∀ event ∈ events, event.KeepsRisk) :
    Machine.Each MatchingEngine.apply
      (fun engine event => engine.Audited ∧ event.Ticked ∧ event.KeepsRisk) engine events := by
  have hEvents : Machine.Each MatchingEngine.apply (fun _ _ => _) engine events :=
    (Machine.each_of_forall hTicked).and (Machine.each_of_forall hKeeps)
  have hAlways := hEvents.always hAudited fun _ _ hAudited hEvent =>
    hAudited.apply hEvent.1 hEvent.2
  exact (hAlways.each.and hEvents).imp fun _ _ hBoth => ⟨hBoth.1.1, hBoth.2⟩

/-- An account's limits stay what they are as long as nothing sets them. -/
theorem limitsFor_apply (hTicked : event.Ticked)
    (hKeeps : event.KeepsRisk) (hLimits : event.KeepsLimits account)
    {limits : AccountLimits} (hConfigured : engine.limitsFor account = some limits) :
    (engine.apply event).limitsFor account = some limits := by
  by_cases hCommand : event.IsCommand
  · exact (steady_command hAudited hCommand).limits account limits hConfigured
  obtain ⟨risk, hAttached⟩ := Option.isSome_iff_exists.mp hAudited.attached
  rw [limitsFor_of_risk hAttached] at hConfigured
  have hRisk : ∀ update : RiskEngine → RiskEngine, (update risk).limitsFor account = some limits →
      (engine.onRisk update).limitsFor account = some limits := by
    intro update hUpdate
    rw [limitsFor, onRisk, hAttached]
    exact hUpdate
  cases event with
  | addInstrument instrument now =>
    rw [← limitsFor_of_risk hAttached] at hConfigured
    rcases addInstrument_cases engine instrument now with hStill | ⟨engine', hStill, -, hEq⟩
    · exact hStill.limits account limits hConfigured
    show (engine.addInstrument instrument now).1.limitsFor account = some limits
    rw [hEq]
    exact hStill.limits account limits hConfigured
  | submit command now => exact absurd trivial hCommand
  | cancel command now => exact absurd trivial hCommand
  | replace command now => exact absurd trivial hCommand
  | configure other newLimits =>
    refine hRisk _ ?_
    have hNe : other ≠ account := hLimits
    unfold RiskEngine.configure
    rw [RiskEngine.limitsFor, RiskEngine.find_setState, if_neg (Ne.symm hNe)]
    exact hConfigured
  | configureInstrument instrument controls => exact hRisk _ hConfigured
  | setReferencePrice instrument price =>
    exact hRisk _ (RiskEngine.limitsFor_setReferencePrice risk _ hConfigured _)
  | setRiskEngine risk => exact absurd hKeeps not_false
  | setKillSwitch kill => exact (limitsFor_of_risk hAttached account).trans hConfigured

end Audited

end MatchingEngine
end ExchangeCore
