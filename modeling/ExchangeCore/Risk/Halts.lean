import ExchangeCore.Core.Admission
import ExchangeCore.Risk.Accounts

/-!
# What a halted account can still do

A halt is looked up by new orders only.  Cancelling is meant to stay possible, and
does; amending is not gated either, so a halted account can still trade and grow
through an order it already has resting, and stays harmless exactly as far as its
amendments ask for no more than before and reach nothing they could trade with.
-/

namespace ExchangeCore

open PriceTime

/-- The event is a command of this account. -/
def Event.By (account : AccountId) : Event → Prop
  | .submit command _ => command.account = account
  | .cancel command _ => command.account = account
  | .replace command _ => command.account = account
  | _ => False

instance (account : AccountId) : DecidablePred (Event.By account) := fun event => by
  rcases event with _ | _ <;> dsimp only [Event.By] <;> infer_instance

namespace MatchingEngine

variable {J : Type}

/-- New orders of the account are blocked, by a halt of its own or of the venue. -/
def Halted (account : AccountId) (engine : MatchingEngine J) : Prop :=
  engine.kill.any (fun kill => kill.blocksNewOrders account) = true

instance (account : AccountId) (engine : MatchingEngine J) : Decidable (Halted account engine) :=
  inferInstanceAs (Decidable (_ = true))

/-- The journal, if there is one, takes whatever it is offered. -/
def Records [JournalSink J] (engine : MatchingEngine J) : Prop :=
  ∀ journal, engine.journal = some journal → ∀ record now,
    (JournalSink.append journal record now).2 = true

/-- The account traded with nobody on its own initiative and has no more resting
than before. -/
structure AddsNoRisk (account : AccountId) (engine engine' : MatchingEngine J) : Prop where
  fills : ∀ fill ∈ engine'.fills, fill.aggressorAccount ≠ account
  holding : ∀ instrument side,
    engine'.holding account instrument side ≤ engine.holding account instrument side

/-- An amendment that is refused, or that asks for no more than before and, unless
it closes the order, reaches nothing but orders that prevention keeps it from
trading with. -/
def Tame [JournalSink J] (engine : MatchingEngine J) : Event → Prop
  | .replace command now => engine.AcceptsAmended command now →
      ∀ book ∈ engine.bookFor command.instrument, ∀ previous ∈ book.find command.id,
        command.newQuantity ≤ previous.quantity ∧ (previous.filled < command.newQuantity →
            ∀ resting ∈ book.sideOrders previous.side.opposite,
              ({ previous with price := command.newPrice } : Order).crosses resting.price = true →
                book.instrument.prevents command.account resting.account = true)
  | _ => True

instance [JournalSink J] (engine : MatchingEngine J) (event : Event) :
    Decidable (Tame engine event) := by
  rcases event with _ | _ <;> dsimp only [Tame] <;> infer_instance

section Commands

variable {engine engine' : MatchingEngine J} {account : AccountId}

theorem Unmoved.addsNoRisk (hUnmoved : Unmoved engine engine') (hFills : engine'.fills = [])
    (account : AccountId) : AddsNoRisk account engine engine' where
  fills := fun fill hFill => by
    rw [hFills] at hFill
    contradiction
  holding := fun instrument side => (hUnmoved.quiet.holding account instrument side).le

variable {target book : OrderBook} {after : MatchingEngine J}

/-- A command that prints nothing and leaves the account less in the one book it
writes back. -/
theorem addsNoRisk_of_books {instrument : InstrumentId}
    (hStill : Still engine engine') (hTarget : engine.bookFor instrument = some target)
    (hBooks : after.books = engine'.books.insert instrument book) (hFills : after.fills = [])
    (hLess : ∀ side, book.abs.holding account side ≤ target.abs.holding account side) :
    AddsNoRisk account engine after where
  fills := fun fill hFill => by
    rw [hFills] at hFill
    contradiction
  holding := fun other side => by
    rw [holding_of_books hBooks]
    split
    · next h =>
        rw [h, holding_of_bookFor hTarget]
        exact hLess side
    · exact (hStill.holding account other side).le

/-- An order that enters without trading, with no more than made room for it. -/
theorem Settles.addsNoRisk {order : Order}
    {release : Release order target.abs} {rested : Bool} {rest : Nat}
    (hSettles : Settles engine' after release book rested rest)
    (hStill : Still engine engine') (hFills : after.fills = []) (hRest : rest ≤ release.freed) :
    AddsNoRisk order.account engine after := by
  refine addsNoRisk_of_books hStill ((hStill.bookFor _).symm.trans hSettles.target_eq)
    hSettles.books hFills fun side => ?_
  have hBefore := release.held order.account side
  rcases Book.queue_cases order.side side with rfl | rfl
  · have hOwn := hSettles.ledger.own order.account
    rw [if_pos rfl] at hOwn
    rw [if_pos ⟨rfl, rfl⟩] at hBefore
    omega
  · have hOther := hSettles.ledger.other order.account
    omega

variable [JournalSink J]

theorem submit_addsNoRisk (command : NewOrder) (now : Int)
    (hHalted : Halted command.account engine) :
    AddsNoRisk command.account engine (engine.submit command now).1 := by
  have hCases := submit_cases engine command now
  generalize engine.submit command now = reply at hCases ⊢
  cases hCases with
  | turnedAway engine' reason hReason hStill hFills =>
    exact (Unmoved.of_still (hStill.refuse _ _ _)).addsNoRisk hFills _
  | unrecorded engine' hStill hFills =>
    exact (Unmoved.of_still (hStill.refuse _ _ _)).addsNoRisk hFills _
  | placed engine' target hStill _ _ _ _ _ hOpen =>
    -- A recorded submission has passed the halt.
    unfold Halted at hHalted
    cases hKill : engine.kill with
    | none =>
      rw [hKill] at hHalted
      contradiction
    | some kill =>
      rw [hKill, Option.any_some, hOpen kill hKill] at hHalted
      contradiction

theorem cancel_addsNoRisk (hHoused : engine.Housed) (command : CancelOrder) (now : Int) :
    AddsNoRisk command.account engine (engine.cancel command now).1 := by
  rcases cancel_settled hHoused command now with ⟨hUnmoved, hFills⟩ | ⟨engine', resting, target,
    release, book, hStill, hOwner, -, -, hFills, -, hSettles⟩
  · exact hUnmoved.addsNoRisk hFills _
  · exact hOwner ▸ hSettles.addsNoRisk hStill hFills (Nat.zero_le _)

/-- A recorded cancellation of a resting order is accepted and removes it. -/
theorem cancel_removes (hHoused : engine.Housed) (hRecords : engine.Records)
    {command : CancelOrder} (now : Int) {resting : Order}
    (hResting : engine.restingOrder command.instrument command.id = some resting)
    (hOwner : resting.account = command.account) :
    (engine.cancel command now).2.result.reject = .none ∧
      (engine.cancel command now).1.restingOrder command.instrument command.id = none := by
  obtain ⟨target, hTarget, hFind⟩ := Option.bind_eq_some_iff.mp hResting
  have hCases := cancel_cases engine command now
  generalize engine.cancel command now = reply at hCases ⊢
  cases hCases with
  | turnedAway reason hReason hWhy => exact absurd hOwner (hWhy target resting hTarget hFind)
  | unrecorded engine' hStill hFills hNumbered =>
    cases hJournal : engine.journal with
    | none => exact absurd (hNumbered.absent hJournal) (by simp)
    | some journal =>
      have hAnswer := hNumbered.answer journal hJournal
      rw [hRecords journal hJournal] at hAnswer
      contradiction
  | reached engine' other resting' hStill _ _ _ hOther hResting' =>
    cases hTarget.symm.trans hOther
    cases hFind.symm.trans hResting'
    obtain ⟨hKept, -⟩ := hHoused _ _ hTarget
    have hReached := withdraw_reached engine' target command
    have hRefines := cancel_refines hKept hFind [] []
    have hFindAbs := hKept.find_abs hFind
    have hMem := hKept.valid.mem_queue_of_find hFindAbs
    have hId := ((Book.find_eq_some_iff hKept.valid.ids).mp hFindAbs).2
    constructor
    · exact congrArg CancelResult.reject (hReached.result.trans hRefines.result)
    · rw [restingOrder, bookFor_of_books hReached.books, if_pos rfl, Option.bind_some,
        hRefines.sound.find_eq, hRefines.book, ← hId]
      exact hKept.valid.find_remove hMem

theorem replace_addsNoRisk (hHoused : engine.Housed) (command : ReplaceOrder) (now : Int)
    (hTame : Tame engine (.replace command now)) :
    AddsNoRisk command.account engine (engine.replace command now).1 := by
  dsimp only [Tame] at hTame
  rw [acceptsAmended_iff hHoused] at hTame
  rcases replace_settled hHoused command now with ⟨hUnmoved, hFills, -⟩ | ⟨engine', target,
    previous, hStill, hTarget, hPrevious, hOwner, -, hEffect⟩
  · exact hUnmoved.addsNoRisk hFills _
  obtain ⟨hKept, -⟩ := hHoused _ _ hTarget
  have hFind := hKept.find_abs hPrevious
  have hMem := hKept.valid.mem_queue_of_find hFind
  rcases hEffect with ⟨hAccepted, order, release, book, rested, rest, hAccount, -, -, hRemaining,
    hFreed, -, hSettles⟩ | ⟨-, ⟨book, hBooks, hWhy⟩, -, hNoFills⟩
  · obtain ⟨hSize, hReach⟩ := hTame hAccepted target hTarget previous hPrevious
    have hFills : (engine.replace command now).1.fills = [] := by
      rcases replace_booked hHoused command now with ⟨-, hNone, -⟩ |
        ⟨other, previous', outcome, hOther, hPrevious', -, -, rfl, -, hBooked⟩
      · exact hNone
      cases hTarget.symm.trans hOther
      rw [hBooked.fills]
      refine Book.fills_replace hFind fun hMore resting hResting hCrosses => ?_
      rw [OrderBook.queue_abs] at hResting
      rw [hOwner]
      exact hReach hMore resting hResting hCrosses
    refine hAccount ▸ hSettles.addsNoRisk hStill hFills ?_
    have hBound := hSettles.ledger.bound
    have hLive := (hKept.valid.rests _ previous hMem).live.2
    rw [hRemaining, Order.filled] at hBound
    omega
  · refine addsNoRisk_of_books hStill hTarget hBooks hNoFills fun side => ?_
    rcases hWhy with ⟨rfl, -⟩ | ⟨hLost, -⟩
    · exact le_rfl
    have hBefore := hKept.valid.holding_remove hMem command.account side
    rw [hLost]
    omega

/-- At every reachable state, a command of a halted account adds no risk as long
as its amendments are tame, and cancelling an order the account has resting is
accepted and removes the order. -/
theorem halted_addsNoRisk (journal : Option J) (risk : Option RiskEngine)
    (kill : Option KillSwitch) (events : List Event) (hTicked : ∀ event ∈ events, event.Ticked)
    (engine : MatchingEngine J) (hEngine : (start journal risk kill).run events = engine)
    (account : AccountId) (hHalted : Halted account engine) (event : Event)
    (hBy : event.By account) (hTame : Tame engine event) :
    AddsNoRisk account engine (engine.apply event) ∧
      (engine.Records → ∀ command now resting, event = .cancel command now →
        engine.restingOrder command.instrument command.id = some resting →
        resting.account = account →
        (engine.cancel command now).2.result.reject = .none ∧
          (engine.apply event).restingOrder command.instrument command.id = none) := by
  have hHoused : engine.Housed := hEngine ▸ (housed_start journal risk kill).run hTicked
  refine ⟨?_, fun hRecords command now resting hCancel hResting hOwner => ?_⟩
  · cases event with
    | submit command now =>
      obtain rfl : command.account = account := hBy
      exact submit_addsNoRisk command now hHalted
    | cancel command now =>
      obtain rfl : command.account = account := hBy
      exact cancel_addsNoRisk hHoused command now
    | replace command now =>
      obtain rfl : command.account = account := hBy
      exact replace_addsNoRisk hHoused command now hTame
    | _ => exact absurd hBy not_false
  · subst hCancel
    have hSame : command.account = account := hBy
    exact cancel_removes hHoused hRecords now hResting (hOwner.trans hSame.symm)

end Commands

/-- Account 1 is halted while its bid rests below the offer of account 2. -/
def haltedEvents : List Event :=
  [.addInstrument (sampleListing .cancelIncoming) 0, .submit (sampleNewOrder 1 1 .buy 1 5 false) 0,
    .submit (sampleNewOrder 2 2 .sell 2 5 false) 0,
    .setKillSwitch (some (({} : KillSwitch).haltAccount ⟨1⟩ .manual 0))]

/-- The halted account doubles what it has resting, or buys what is on offer. -/
theorem halted_replace_adds_risk :
    Halted ⟨1⟩ ((start (none : Option Empty) none none).run haltedEvents) ∧
      ((start (none : Option Empty) none none).run haltedEvents).holding ⟨1⟩ ⟨1⟩ .buy = 5 ∧
      (((start (none : Option Empty) none none).run haltedEvents).apply
        (.replace (sampleReplace 1 1 1 10) 0)).holding ⟨1⟩ ⟨1⟩ .buy = 10 ∧
      (((start (none : Option Empty) none none).run haltedEvents).apply
        (.replace (sampleReplace 1 1 2 5) 0)).fills.map Fill.aggressorAccount = [⟨1⟩] := by
  decide +kernel

/-- Shrinking the bid is tame. -/
theorem halted_addsNoRisk_sample :
    AddsNoRisk ⟨1⟩ ((start (none : Option Empty) none none).run haltedEvents)
      (((start (none : Option Empty) none none).run haltedEvents).apply
        (.replace (sampleReplace 1 1 1 3) 0)) :=
  (halted_addsNoRisk none none none haltedEvents (by decide) _ rfl ⟨1⟩ (by decide +kernel)
    (.replace (sampleReplace 1 1 1 3) 0) (by decide) (by decide +kernel)).1

end MatchingEngine
end ExchangeCore
