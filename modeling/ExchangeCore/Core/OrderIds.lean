import ExchangeCore.Core.Admission
import ExchangeCore.Core.FillVerdict
import ExchangeCore.PriceTime.Anonymous

/-!
# Whose ids an account can tell apart

Ids are unique within a book, not within an account: the book's index is shared
by all accounts, and a new order is a duplicate when anybody's resting order has
its id.  Apart from that, the ids of other accounts' orders have no influence on
the answer to a submission.  Two engines that look the same to an account, in
neither of which another account uses the new order's id, answer it alike.
-/

namespace ExchangeCore

open PriceTime OrderBook

namespace OrderBook

/-- Ids are no part of what a queue offers. -/
theorem map_offer_of_anonymous {queue queue' : List Order}
    (hQueue : queue.map Order.anonymous = queue'.map Order.anonymous) :
    queue.map Order.offer = queue'.map Order.offer := by
  have hOffers := congrArg (List.map Order.offer) hQueue
  rw [List.map_map, List.map_map] at hOffers
  exact hOffers

/-- A book as an account sees it: the instrument and both queues, with the ids of
other accounts' orders blanked. -/
def seenBy (account : AccountId) (book : OrderBook) : Instrument × List Order × List Order :=
  (book.instrument, (book.sideOrders .buy).map (Order.seenBy account),
    (book.sideOrders .sell).map (Order.seenBy account))

section SeenBy

variable {account : AccountId} {book book' : OrderBook}

theorem sideOrders_of_seenBy (hSeen : book.seenBy account = book'.seenBy account) (side : Side) :
    (book.sideOrders side).map (Order.seenBy account) =
      (book'.sideOrders side).map (Order.seenBy account) := by
  have hQueues := congrArg Prod.snd hSeen
  cases side with
  | buy => exact congrArg Prod.fst hQueues
  | sell => exact congrArg Prod.snd hQueues

/-- An account sees its own orders as they are. -/
theorem mem_of_seenBy (hSeen : book.seenBy account = book'.seenBy account) {order : Order}
    (hMem : order ∈ book.restingOrders) (hOwn : order.account = account) :
    order ∈ book'.restingOrders := by
  have hOwnSeen : order.seenBy account = order := if_pos hOwn
  have hSide : ∀ side, order ∈ book.sideOrders side → order ∈ book'.sideOrders side := by
    intro side hSide
    have hMapped := List.mem_map_of_mem (f := Order.seenBy account) hSide
    rw [sideOrders_of_seenBy hSeen, hOwnSeen] at hMapped
    obtain ⟨order', hMem', hEq⟩ := List.mem_map.mp hMapped
    -- What looks like an own order is one.
    have hAccount : order'.account = account := by
      rw [← hOwn, ← hEq]
      unfold Order.seenBy
      split <;> rfl
    rw [Order.seenBy, if_pos hAccount] at hEq
    exact hEq ▸ hMem'
  rcases List.mem_append.mp hMem with hMem | hMem
  · exact List.mem_append_left _ (hSide .buy hMem)
  · exact List.mem_append_right _ (hSide .sell hMem)

theorem isSome_find {id : OrderId} :
    (book.abs.find id).isSome ↔ ∃ order ∈ book.restingOrders, order.id = id := by
  rw [Book.find, List.find?_isSome]
  simp only [decide_eq_true_eq]
  rfl

/-- An id that no other account uses is taken in both books or in neither. -/
theorem taken_of_seenBy (hSeen : book.seenBy account = book'.seenBy account) {id : OrderId}
    (hFree : ∀ order ∈ book.restingOrders, order.id = id → order.account = account)
    (hTaken : (book.abs.find id).isSome) : (book'.abs.find id).isSome := by
  obtain ⟨order, hMem, hId⟩ := isSome_find.mp hTaken
  exact isSome_find.mpr ⟨order, mem_of_seenBy hSeen hMem (hFree order hMem hId), hId⟩

end SeenBy

end OrderBook

/-! ## The answer to a submission -/

namespace MatchingEngine

variable {J : Type}

section Answer

variable (engine : MatchingEngine J)

/-- What risk answers, if there is any. -/
def riskVerdict (command : NewOrder) (now : Int) : RejectReason :=
  (engine.risk.map fun risk => (risk.check command now).2).getD .none

theorem checkRisk_snd (command : NewOrder) (now : Int) :
    (engine.checkRisk command now).2 = engine.riskVerdict command now := by
  unfold checkRisk riskVerdict
  cases engine.risk with
  | none => rfl
  | some risk =>
    dsimp only [Option.map_some, Option.getD_some]
    split
    · rfl
    · next hPass => exact (not_not.mp hPass).symm

variable [JournalSink J]

/-- The journal takes the record of a new order. -/
def journals (command : NewOrder) (now : Int) : Bool :=
  (engine.journal.map fun journal =>
    (JournalSink.append journal (engine.recordOf (newOrderPayload command) now) now).2).getD true

theorem Numbered.recorded_eq {engine engine' : MatchingEngine J} {command : NewOrder} {now : Int}
    {recorded : Bool} (hNumbered : Numbered engine engine' (newOrderPayload command) now recorded) :
    recorded = engine.journals command now := by
  unfold journals
  cases hJournal : engine.journal with
  | none => exact hNumbered.absent hJournal
  | some journal => exact (hNumbered.answer journal hJournal).symm

/-- Everything the answer to a submission depends on. -/
theorem submit_snd (command : NewOrder) (now : Int) :
    (engine.submit command now).2 =
      match engine.bookFor command.instrument with
      | none => ⟨{ reject := .unknownInstrument }, 0⟩
      | some target =>
        if !command.account.valid then ⟨{ reject := .unknownOrder }, 0⟩
        else if engine.kill.any fun kill => kill.blocksNewOrders command.account then
          ⟨{ reject := .halted }, 0⟩
        else if engine.riskVerdict command now ≠ .none then
          ⟨{ reject := engine.riskVerdict command now }, 0⟩
        else if engine.journals command now then
          ⟨(target.submit (Order.ofCommand command (engine.sequence + 1) now) [] []).result,
            engine.sequence + 1⟩
        else ⟨{ reject := .halted }, engine.sequence + 1⟩ := by
  unfold submit
  dsimp only
  rw [show engine.clearBuffers.bookFor command.instrument = engine.bookFor command.instrument
    from rfl, show engine.clearBuffers.kill = engine.kill from rfl]
  cases engine.bookFor command.instrument with
  | none => rfl
  | some target =>
    dsimp only
    split
    · rfl
    split
    · rfl
    -- The check may have used up some rate budget, but it leaves the numbering alone.
    obtain ⟨-, hFills, hWithdrawals, hSequence, hJournal, hScratch, -⟩ :=
      checkRisk_spec engine.clearBuffers command now
    have hReason := checkRisk_snd engine.clearBuffers command now
    generalize engine.clearBuffers.checkRisk command now = checked at *
    obtain ⟨passed, reason⟩ := checked
    dsimp only at *
    rw [show reason = engine.riskVerdict command now from hReason]
    split
    · rfl
    obtain ⟨-, hFills', hWithdrawals', hNumbered⟩ :=
      sequenceCommand_spec passed now (newOrderPayload command)
    have hNumbered' := hNumbered.of_same engine hSequence hJournal hScratch
    rw [← hNumbered'.recorded_eq]
    change (ite ((passed.sequenceCommand (newOrderPayload command) now).2 = true)
      ((passed.sequenceCommand (newOrderPayload command) now).1.place target command now)
      ((passed.sequenceCommand (newOrderPayload command) now).1.refuse
        (passed.sequenceCommand (newOrderPayload command) now).1.sequence command
        { reject := .halted })).2 = _
    split
    · rw [(place_reached ..).answer, hNumbered'.sequence, hFills', hWithdrawals', hFills,
        hWithdrawals]
      rfl
    · rw [← hNumbered'.sequence]
      rfl

end Answer

/-! ## Engines that look the same to an account -/

/-- A state that some run reaches, whatever journal, risk engine and kill switch
it was started with. -/
def Reachable [JournalSink J] (engine : MatchingEngine J) : Prop :=
  ∃ (journal : Option J) (risk : Option RiskEngine) (kill : Option KillSwitch)
    (events : List Event), (∀ event ∈ events, event.Ticked) ∧
      (start journal risk kill).run events = engine

variable {engine : MatchingEngine J}

theorem Reachable.housed [JournalSink J] (hReachable : engine.Reachable) : engine.Housed := by
  obtain ⟨journal, risk, kill, events, hTicked, rfl⟩ := hReachable
  exact (housed_start journal risk kill).run hTicked

/-- A property of new books that no command destroys is one of every book of a
reachable engine, and the engine lists every one of them. -/
theorem Reachable.eachBook [JournalSink J] (hReachable : engine.Reachable) {P : OrderBook → Prop}
    (hCreate : ∀ instrument : Instrument, 0 < instrument.tickSize →
      P (create instrument instrument.expectedRestingOrders))
    (hApply : ∀ book : OrderBook, book.Kept → P book → ∀ fills withdrawals command,
      P (book.apply fills withdrawals command).book) : engine.EachBook P := by
  obtain ⟨journal, risk, kill, events, hTicked, rfl⟩ := hReachable
  refine EachBook.run hCreate hApply ?_ (housed_start journal risk kill) hTicked
  intro id book hBook
  have hNone : (start journal risk kill).bookFor id = none := AList.lookup_empty id
  rw [hNone] at hBook
  contradiction

/-- Two engines that an account cannot tell apart by anything but the ids of other
accounts' orders: the halts, risk and the journal answer the command alike, and
the book looks the same to the account. -/
structure Alike [JournalSink J] (engine engine' : MatchingEngine J) (command : NewOrder)
    (now : Int) : Prop where
  halted : (engine.kill.any fun kill => kill.blocksNewOrders command.account) =
    engine'.kill.any fun kill => kill.blocksNewOrders command.account
  risk : engine.riskVerdict command now = engine'.riskVerdict command now
  journal : engine.journals command now = engine'.journals command now
  sequence : engine.sequence = engine'.sequence
  book : (engine.bookFor command.instrument).map (seenBy command.account) =
    (engine'.bookFor command.instrument).map (seenBy command.account)

/-- Only the command's own account uses its id on the instrument. -/
def OwnId (engine : MatchingEngine J) (command : NewOrder) : Prop :=
  ∀ order, engine.Rests command.instrument order → order.id = command.id →
    order.account = command.account

/-- The book's answers to the command agree. -/
theorem result_of_seenBy {book book' : OrderBook} (hSound : book.Sound) (hSound' : book'.Sound)
    {command : NewOrder} (hSeen : book.seenBy command.account = book'.seenBy command.account)
    (hFree : ∀ order ∈ book.restingOrders, order.id = command.id →
      order.account = command.account)
    (hFree' : ∀ order ∈ book'.restingOrders, order.id = command.id →
      order.account = command.account) (sequence : Nat) (now : Int) :
    (book.submit (Order.ofCommand command sequence now) [] []).result =
      (book'.submit (Order.ofCommand command sequence now) [] []).result := by
  have hInstrument : book.instrument = book'.instrument := congrArg Prod.fst hSeen
  have hQueue := fun side => map_anonymous_of_seenBy (sideOrders_of_seenBy hSeen side)
  have hTaken : (book.abs.find command.id).isSome = (book'.abs.find command.id).isSome :=
    Bool.eq_iff_iff.mpr ⟨taken_of_seenBy hSeen hFree,
      taken_of_seenBy hSeen.symm hFree'⟩
  rw [(hSound.submit _ [] []).result, (hSound'.submit _ [] []).result,
    hSound.verdict_congr hSound' hInstrument (map_offer_of_anonymous (hQueue _))]
  refine Book.insert_result_congr _ hInstrument ?_ hTaken
  rw [queue_abs, queue_abs]
  exact hQueue _

/-- No check of the risk engine is about ids. -/
theorem riskVerdict_ne_duplicate (engine : MatchingEngine J) (command : NewOrder) (now : Int) :
    engine.riskVerdict command now ≠ .duplicateOrderId := by
  unfold riskVerdict
  cases engine.risk with
  | none => exact nofun
  | some risk =>
    have hCollar : risk.checkCollar command ≠ .duplicateOrderId := by
      unfold RiskEngine.checkCollar
      dsimp only
      repeat' split
      all_goals decide
    have hLimits : ∀ state, RiskEngine.checkLimits state command ≠ .duplicateOrderId := by
      intro state
      unfold RiskEngine.checkLimits
      dsimp only
      repeat' split
      all_goals decide
    show (risk.check command now).2 ≠ .duplicateOrderId
    unfold RiskEngine.check
    split
    · exact hCollar
    dsimp only
    split
    · exact nofun
    split
    · exact hCollar
    · exact hLimits _

/-- A book calls an order a duplicate only when its id is taken. -/
theorem taken_of_duplicate {book : OrderBook} (hSound : book.Sound) {order : Order}
    (hDuplicate : (book.submit order [] []).result.reject = .duplicateOrderId) :
    ∃ found ∈ book.restingOrders, found.id = order.id := by
  rw [(hSound.submit order [] []).result, Book.submit] at hDuplicate
  have hTaken := Book.find_of_duplicate hDuplicate
  exact isSome_find.mp hTaken

/-- The new order reaches its book, and its size and price are allowed there. -/
def OtherwiseValid [JournalSink J] (engine : MatchingEngine J) (command : NewOrder) (now : Int) :
    Prop :=
  engine.Enters command now fun target _ =>
    target.instrument.isValidQuantity command.quantity = true ∧
      (command.type = .limit → target.instrument.isValidPrice command.price = true)

theorem Housed.duplicate_of_foreign [JournalSink J] {engine : MatchingEngine J}
    (hHoused : engine.Housed) {command : NewOrder} {now : Int} (hOther : ¬ engine.OwnId command)
    (hValid : engine.OtherwiseValid command now) :
    (engine.submit command now).2.result.reject = .duplicateOrderId := by
  rcases submit_booked hHoused command now with ⟨-, -, -, hNot⟩ |
    ⟨target, outcome, hTarget, hEnters, -, rfl, hResult, -⟩
  · exact absurd hValid (hNot _)
  obtain ⟨hQuantity, hPrice⟩ := (hEnters _).mp hValid
  obtain ⟨order, ⟨book, hBook, hMem⟩, hId, -⟩ : ∃ order, engine.Rests command.instrument order ∧
      order.id = command.id ∧ order.account ≠ command.account := by
    simpa [OwnId] using hOther
  cases hTarget.symm.trans hBook
  rw [hResult]
  exact Book.reject_of_taken (hHoused _ _ hTarget).2.symm hQuantity hPrice
    (isSome_find.mpr ⟨order, hMem, hId⟩) _

/-- Over every pair of reachable states that differ, for the account of a new order,
in nothing but other accounts' order ids: as long as no other account uses the
id of the new order itself, it is answered alike, and it is a duplicate only if
the account has an order with that id on the instrument.  If another account does
use the id, an order that is otherwise valid is a duplicate. -/
theorem submit_blind_to_foreign_ids [JournalSink J] {engine engine' : MatchingEngine J}
    (hReachable : engine.Reachable) (hReachable' : engine'.Reachable) (command : NewOrder)
    (now : Int) (hAlike : Alike engine engine' command now) :
    (engine.OwnId command → engine'.OwnId command →
      (engine.submit command now).2 = (engine'.submit command now).2 ∧
        ((engine.submit command now).2.result.reject = .duplicateOrderId →
          ∃ order, engine.Rests command.instrument order ∧ order.id = command.id ∧
            order.account = command.account)) ∧
    (¬ engine.OwnId command → engine.OtherwiseValid command now →
      (engine.submit command now).2.result.reject = .duplicateOrderId) := by
  have hHoused := hReachable.housed
  have hHoused' := hReachable'.housed
  refine ⟨fun hOwn hOwn' => ?_, fun hOther hValid => hHoused.duplicate_of_foreign hOther hValid⟩
  rw [submit_snd, submit_snd, ← hAlike.halted, ← hAlike.risk, ← hAlike.journal, ← hAlike.sequence]
  have hBook := hAlike.book
  cases hTarget : engine.bookFor command.instrument with
  | none =>
    rw [hTarget] at hBook
    rw [Option.map_eq_none_iff.mp hBook.symm]
    exact ⟨rfl, fun h => by cases h⟩
  | some target =>
    rw [hTarget] at hBook
    obtain ⟨target', hTarget', hSeen⟩ := Option.map_eq_some_iff.mp hBook.symm
    have hSound := (hHoused _ _ hTarget).1.sound
    have hSound' := (hHoused' _ _ hTarget').1.sound
    have hFree : ∀ order ∈ target.restingOrders, order.id = command.id →
        order.account = command.account :=
      fun order hMem => hOwn order ⟨target, hTarget, hMem⟩
    have hFree' : ∀ order ∈ target'.restingOrders, order.id = command.id →
        order.account = command.account :=
      fun order hMem => hOwn' order ⟨target', hTarget', hMem⟩
    rw [hTarget']
    dsimp only
    rw [← result_of_seenBy hSound hSound' hSeen.symm hFree hFree']
    refine ⟨rfl, ?_⟩
    split
    · exact nofun
    split
    · exact nofun
    split
    · exact fun h => absurd h (engine.riskVerdict_ne_duplicate command now)
    split
    · intro hDuplicate
      obtain ⟨order, hMem, hId⟩ := taken_of_duplicate hSound hDuplicate
      exact ⟨order, ⟨target, hTarget, hMem⟩, hId, hFree order hMem hId⟩
    · exact nofun

/-- Account 2 offers under the given id. -/
def offerEvents (id : Nat) : List Event :=
  [.addInstrument (sampleListing .allow) 0, .submit (sampleNewOrder id 2 .sell 3 1 false) 0]

/-- Account 1 is told that its id 7 is a duplicate, although it has no order, because
account 2 rests one; had account 2 called it 8, account 1's order would rest. -/
theorem duplicate_of_foreign_id :
    (((start (none : Option Empty) none none).run (offerEvents 7)).submit
        (sampleNewOrder 7 1 .buy 1 1 false) 0).2.result.reject = .duplicateOrderId ∧
      (∀ order ∈ ((((start (none : Option Empty) none none).run (offerEvents 7)).bookFor
        ⟨1⟩).map OrderBook.restingOrders).getD [], order.account = ⟨2⟩) ∧
      (((start (none : Option Empty) none none).run (offerEvents 8)).submit
        (sampleNewOrder 7 1 .buy 1 1 false) 0).2.result.rested = true := by
  decide +kernel

theorem submit_blind_to_foreign_ids_sample :
    (((start (none : Option Empty) none none).run (offerEvents 8)).submit
        (sampleNewOrder 7 1 .buy 3 1 false) 0).2 =
      (((start (none : Option Empty) none none).run (offerEvents 9)).submit
        (sampleNewOrder 7 1 .buy 3 1 false) 0).2 := by
  have hReachable : ∀ id : Nat,
      ((start (none : Option Empty) none none).run (offerEvents id)).Reachable :=
    fun id => ⟨none, none, none, offerEvents id, by simp [offerEvents, Event.Ticked]; decide, rfl⟩
  refine ((submit_blind_to_foreign_ids (hReachable 8) (hReachable 9)
    (sampleNewOrder 7 1 .buy 3 1 false) 0 ?_).1 ?_ ?_).1
  · exact ⟨by decide +kernel, by decide +kernel, by decide +kernel, by decide +kernel,
      by decide +kernel⟩
  · simp only [OwnId, rests_iff_mem]
    decide +kernel
  · simp only [OwnId, rests_iff_mem]
    decide +kernel

end MatchingEngine
end ExchangeCore
