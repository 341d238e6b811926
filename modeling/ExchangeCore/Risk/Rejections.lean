import ExchangeCore.Core.Admission
import ExchangeCore.Risk.Accounts

/-!
# What a rejected command leaves behind

A command can be refused at many depths: before it is numbered, when it cannot be
recorded, by the book before it changes anything, and by the book after it has
already taken an amended order off its queue.  Only the last of these changes a
book, and only amendments touch what risk has on record before they know whether
they will be refused: the order is released and put back, which is the identity
unless the release had to be clamped.
-/

namespace ExchangeCore

open PriceTime

/-- Every working total on record is a word. -/
def RiskEngine.Worded (risk : RiskEngine) : Prop :=
  ∀ account instrument side, (risk.exposure account instrument).working side < Word64.modulus

/-- A risk engine that is attached during the run holds words. -/
def Event.Words : Event → Prop
  | .setRiskEngine (some risk) => risk.Worded
  | _ => True

namespace RiskEngine

/-- Releasing a resting order and recording it again is the identity exactly on a record
that covers it. -/
theorem restate_iff {risk : RiskEngine} (hWorded : risk.Worded) (order : Order) :
    (∀ account, ((risk.onOrderWithdrawn order order.instrument).onOrderRested order).openOrders
          account = risk.openOrders account ∧
        ∀ instrument,
          ((risk.onOrderWithdrawn order order.instrument).onOrderRested order).exposure account
            instrument = risk.exposure account instrument) ↔
      (order.remaining ≤ (risk.exposure order.account order.instrument).working order.side ∨
        Word64.wrap order.remaining =
          (risk.exposure order.account order.instrument).working order.side) ∧
      0 < risk.openOrders order.account := by
  simp only [openOrders_onOrderRested, openOrders_onOrderWithdrawn, exposure_onOrderRested,
    exposure_onOrderWithdrawn]
  rw [← commit_release_iff _ _ _ (hWorded _ _ _)]
  constructor
  · intro hSame
    obtain ⟨hCount, hExposure⟩ := hSame order.account
    have hHere := hExposure order.instrument
    rw [if_pos ⟨rfl, rfl⟩, if_pos ⟨rfl, rfl⟩] at hHere
    rw [if_pos rfl] at hCount
    exact ⟨hHere, by omega⟩
  · rintro ⟨hHere, hOpen⟩ account
    refine ⟨?_, fun instrument => ?_⟩
    · split
      · next h => rw [h]; omega
      · rfl
    · split
      · next h =>
          rw [h.1, h.2]
          exact hHere
      · rfl

end RiskEngine

namespace MatchingEngine

variable {J : Type}

/-! ## Reachable engines, with or without risk -/

section Reachable

variable (engine : MatchingEngine J)

theorem Settles.attached {engine' : MatchingEngine J} {target book : OrderBook} {order : Order}
    {release : Release order target.abs} {rested : Bool} {rest : Nat}
    (hSettles : Settles engine engine' release book rested rest) :
    engine'.risk.isSome = engine.risk.isSome := by
  rw [hSettles.risk]
  exact Option.isSome_map

theorem attached_apply [JournalSink J] (hHoused : engine.Housed) {event : Event}
    (hTicked : event.Ticked) (hKeeps : event.KeepsRisk) :
    (engine.apply event).risk.isSome = engine.risk.isSome := by
  cases event with
  | submit command now =>
    rcases submit_settled hHoused command now with
      ⟨hUnmoved, -⟩ | ⟨engine', target, book, rested, rest, hStill, -, -, hSettles⟩
    · exact hUnmoved.attached
    · exact hSettles.attached.trans hStill.attached
  | cancel command now =>
    rcases cancel_settled hHoused command now with ⟨hUnmoved, -⟩ | ⟨engine', resting, target,
      release, book, hStill, -, -, -, -, -, hSettles⟩
    · exact hUnmoved.attached
    · exact hSettles.attached.trans hStill.attached
  | replace command now =>
    rcases replace_settled hHoused command now with ⟨hUnmoved, -⟩ | ⟨engine', target, previous,
      hStill, -, -, -, -, ⟨-, order, release, book, rested, rest, -, -, -, -, -, -, hSettles⟩ |
        ⟨-, hReinstates⟩⟩
    · exact hUnmoved.attached
    · exact hSettles.attached.trans hStill.attached
    · rw [apply, hReinstates.risk]
      exact Option.isSome_map.trans hStill.attached
  | _ => exact (quiet_apply engine hTicked hKeeps not_false).attached

theorem worded_of_risk {engine : MatchingEngine J}
    (hRisk : ∀ risk, engine.risk = some risk → risk.Worded) : engine.Worded := by
  intro account instrument side
  rw [working, exposure]
  cases hAttached : engine.risk with
  | none => cases side <;> exact Word64.modulus_pos
  | some risk => exact hRisk risk hAttached account instrument side

theorem Worded.apply [JournalSink J] {engine : MatchingEngine J} (hHoused : engine.Housed)
    (hWorded : engine.Worded) {event : Event} (hTicked : event.Ticked) (hWords : event.Words) :
    (engine.apply event).Worded := by
  by_cases hKeeps : event.KeepsRisk
  · by_cases hAttached : engine.risk.isSome
    · exact (Audited.apply ⟨hHoused, hAttached, hWorded⟩ hTicked hKeeps).worded
    refine worded_of_risk fun risk hRisk => absurd ?_ hAttached
    rw [← attached_apply engine hHoused hTicked hKeeps, hRisk]
    rfl
  cases event with
  | setRiskEngine risk =>
    refine worded_of_risk fun attached hRisk => ?_
    have hSame : risk = some attached := hRisk
    subst hSame
    exact hWords
  | _ => exact absurd trivial hKeeps

/-- What every run keeps, whatever is attached to the engine and whenever. -/
theorem housed_worded_run [JournalSink J] (journal : Option J) {risk : Option RiskEngine}
    (kill : Option KillSwitch) (hRisk : ∀ attached, risk = some attached → attached.Worded)
    {events : List Event} (hTicked : ∀ event ∈ events, event.Ticked)
    (hWords : ∀ event ∈ events, event.Words) :
    ((start journal risk kill).run events).Housed ∧
      ((start journal risk kill).run events).Worded := by
  have hAlways : Machine.Always apply (fun engine => engine.Housed ∧ engine.Worded)
      (start journal risk kill) events := by
    refine ((Machine.each_of_forall hTicked).and (Machine.each_of_forall hWords)).always
      ⟨housed_start journal risk kill, worded_of_risk hRisk⟩ ?_
    intro engine event hEngine hEvent
    exact ⟨hEngine.1.apply hEvent.1, Worded.apply hEngine.1 hEngine.2 hEvent.1 hEvent.2⟩
  exact hAlways.final

end Reachable

/-! ## Rejected commands -/

section Rejected

variable [JournalSink J]

section

variable (engine : MatchingEngine J)

/-- The event is a command, and its outcome is a rejection. -/
def Rejected : Event → Prop
  | .submit command now => (engine.submit command now).2.result.reject ≠ .none
  | .cancel command now => (engine.cancel command now).2.result.reject ≠ .none
  | .replace command now => (engine.replace command now).2.result.reject ≠ .none
  | _ => False

/-- A post-only order amended to a price at which it would trade. -/
def LosesOrder : Event → Prop
  | .replace command now => engine.Forfeits command now
  | _ => False

/-- The record covers an order.  More than a word may come round to what is on record. -/
def Covers (instrument : InstrumentId) (order : Order) : Prop :=
  (order.remaining ≤ engine.working order.account instrument order.side ∨
      Word64.wrap order.remaining = engine.working order.account instrument order.side) ∧
    0 < engine.openOrders order.account

/-- An amendment of an order of the account that the attached risk engine has less than whole
on record. -/
def Overdrawn : Event → Prop
  | .replace command now => engine.risk.isSome ∧
      engine.Amends command now fun _ previous => ¬ engine.Covers command.instrument previous
  | _ => False

instance (event : Event) : Decidable (Rejected engine event) := by
  rcases event with _ | _ <;> dsimp only [Rejected] <;> infer_instance

end

/-- No fill is reported; the books are the same exactly if the command does not lose an
order, and the record is the same exactly if the command does not overdraw it. -/
def Aftermath (engine engine' : MatchingEngine J) (loses overdraws : Prop) : Prop :=
  engine'.fills = [] ∧ ((∀ id, engine'.bookFor id = engine.bookFor id) ↔ ¬ loses) ∧
    ((∀ account, engine'.openOrders account = engine.openOrders account ∧
      ∀ instrument, engine'.exposure account instrument = engine.exposure account instrument) ↔
        ¬ overdraws)

variable {engine engine' : MatchingEngine J}

omit [JournalSink J] in
theorem Unmoved.aftermath (hUnmoved : Unmoved engine engine') (hFills : engine'.fills = [])
    {loses overdraws : Prop} (hKeeps : ¬ loses) (hSound : ¬ overdraws) :
    Aftermath engine engine' loses overdraws :=
  ⟨hFills, iff_of_true hUnmoved.bookFor hKeeps, iff_of_true (fun account =>
    ⟨hUnmoved.openOrders account, hUnmoved.exposure account⟩) hSound⟩

variable {now : Int}

theorem submit_rejected (hHoused : engine.Housed) {command : NewOrder}
    (hRejected : (engine.submit command now).2.result.reject ≠ .none) :
    Unmoved engine (engine.submit command now).1 ∧ (engine.submit command now).1.fills = [] := by
  rcases submit_settled hHoused command now with
    hUnmoved | ⟨engine', target, book, rested, rest, hStill, hAccepted, -⟩
  · exact hUnmoved
  · exact absurd hAccepted hRejected

/-- The book takes every cancellation that gets as far as the book. -/
theorem cancel_rejected (hHoused : engine.Housed) {command : CancelOrder}
    (hRejected : (engine.cancel command now).2.result.reject ≠ .none) :
    Unmoved engine (engine.cancel command now).1 ∧ (engine.cancel command now).1.fills = [] := by
  rcases cancel_settled hHoused command now with
    hUnmoved | ⟨engine', resting, target, release, book, -, -, -, hResult, -⟩
  · exact hUnmoved
  · rw [hResult] at hRejected
    exact absurd rfl hRejected

omit [JournalSink J] in
/-- A refused amendment leaves the books alone unless the order is lost. -/
theorem Reinstates.bookFor_iff {target : OrderBook} {instrument : InstrumentId} {previous : Order}
    {id : OrderId} {reason : RejectReason}
    (hReinstates : Reinstates engine engine' target instrument previous reason)
    (hTarget : engine.bookFor instrument = some target) (hKept : target.Kept)
    (hPrevious : target.find id = some previous) :
    (∀ other, engine'.bookFor other = engine.bookFor other) ↔ reason ≠ .postOnlyWouldCross := by
  obtain ⟨⟨book, hBooks, ⟨rfl, hReason⟩ | ⟨hLost, hReason⟩⟩, -⟩ := hReinstates
  · refine iff_of_true (fun other => ?_) ?_
    · rw [bookFor_of_books hBooks]
      split
      · next h => rw [h, hTarget]
      · rfl
    · rcases hReason with h | h <;> rw [h] <;> simp
  · -- The order was there before and is not there after.
    refine iff_of_false (fun hAll => ?_) (not_not.mpr hReason)
    have hFind := hKept.find_abs hPrevious
    have hBook := hAll instrument
    rw [bookFor_of_books hBooks, if_pos rfl, hTarget] at hBook
    rw [Option.some.inj hBook] at hLost
    have hGone := hKept.valid.find_remove (hKept.valid.mem_queue_of_find hFind)
    rw [← hLost, ((Book.find_eq_some_iff hKept.valid.ids).mp hFind).2, hFind] at hGone
    contradiction

omit [JournalSink J] in
/-- A refused amendment leaves the record alone if there is none or it covers the order. -/
theorem Reinstates.record_iff {target : OrderBook} {previous : Order} {reason : RejectReason}
    (hReinstates : Reinstates engine engine' target previous.instrument previous reason)
    (hWorded : engine.Worded) :
    (∀ account, engine'.openOrders account = engine.openOrders account ∧
        ∀ instrument, engine'.exposure account instrument = engine.exposure account instrument) ↔
      ¬ (engine.risk.isSome ∧ ¬ engine.Covers previous.instrument previous) := by
  have hRisk := hReinstates.risk
  cases hAttached : engine.risk with
  | none =>
    rw [hAttached] at hRisk
    refine iff_of_true (fun account => ?_) (by simp)
    simp [openOrders, exposure, hRisk, hAttached]
  | some risk =>
    rw [hAttached] at hRisk
    have hWords : risk.Worded := fun account instrument side => by
      rw [← exposure_of_risk hAttached]
      exact hWorded account instrument side
    simp only [openOrders_of_risk hRisk, exposure_of_risk hRisk, openOrders_of_risk hAttached,
      exposure_of_risk hAttached, Covers, working, Option.isSome_some, true_and, not_not]
    exact RiskEngine.restate_iff hWords previous

theorem replace_rejected (hHoused : engine.Housed) (hWorded : engine.Worded)
    {command : ReplaceOrder} (hRejected : (engine.replace command now).2.result.reject ≠ .none) :
    Aftermath engine (engine.replace command now).1
      ((engine.replace command now).2.result.reject = .postOnlyWouldCross)
      (Overdrawn engine (.replace command now)) := by
  have hCases := replace_cases engine command now
  generalize engine.replace command now = reply at hCases hRejected ⊢
  cases hCases with
  | turnedAway reason hReason hWhy =>
    refine (Unmoved.of_still (still_clearBuffers engine)).aftermath rfl ?_ fun hOver =>
      Foreign.not_amends _ hWhy hOver.2
    rcases hReason with rfl | rfl <;> simp
  | unrecorded engine' hStill hFills hNumbered =>
    exact (Unmoved.of_still hStill).aftermath hFills (by simp) fun hOver =>
      Numbered.not_amends _ hNumbered hOver.2
  | reached engine' target previous hStill hFills hWithdrawals hNumbered hTarget hPrevious
      hOwner =>
    have hTarget' := (hStill.bookFor _).trans hTarget
    have hReinstates := amend_reinstates (hHoused.still hStill) hFills hWithdrawals hTarget'
      hPrevious hRejected
    obtain ⟨hKept, hId⟩ := hHoused _ _ hTarget
    have hInstrument : previous.instrument = command.instrument :=
      (hKept.valid.rests _ previous
        (hKept.valid.mem_queue_of_find (hKept.find_abs hPrevious))).instrument_eq.trans hId
    have hBooks := hReinstates.bookFor_iff hTarget' hKept hPrevious
    rw [← hInstrument] at hReinstates
    have hRecord := hReinstates.record_iff fun account instrument side => by
      rw [working, hStill.exposure]
      exact hWorded account instrument side
    simp only [Covers, working, hStill.bookFor, hStill.exposure, hStill.openOrders,
      hStill.attached] at hBooks hRecord
    refine ⟨hReinstates.fills, hBooks, hRecord.trans (not_congr ?_)⟩
    rw [Overdrawn, Numbered.amends_iff _ hNumbered hTarget hPrevious hOwner, ← hInstrument]
    rfl

/-- A rejected command reports no fill.  It leaves every book as it was exactly if it is not
an amendment of a post-only order to a crossing price, and every account's record as it was
exactly if it is not an amendment of an order that is short on record. -/
theorem rejected_unchanged (journal : Option J) (risk : Option RiskEngine)
    (kill : Option KillSwitch) (hRisk : ∀ attached, risk = some attached → attached.Worded)
    (events : List Event) (hTicked : ∀ event ∈ events, event.Ticked)
    (hWords : ∀ event ∈ events, event.Words) (event : Event)
    (hRejected : Rejected ((start journal risk kill).run events) event) :
    Aftermath ((start journal risk kill).run events)
      (((start journal risk kill).run events).apply event)
      (LosesOrder ((start journal risk kill).run events) event)
      (Overdrawn ((start journal risk kill).run events) event) := by
  obtain ⟨hHoused, hWorded⟩ := housed_worded_run journal kill hRisk hTicked hWords
  generalize (start journal risk kill).run events = engine at *
  cases event with
  | submit command now =>
    obtain ⟨hUnmoved, hFills⟩ := submit_rejected hHoused hRejected
    exact hUnmoved.aftermath hFills not_false not_false
  | cancel command now =>
    obtain ⟨hUnmoved, hFills⟩ := cancel_rejected hHoused hRejected
    exact hUnmoved.aftermath hFills not_false not_false
  | replace command now =>
    have hAftermath := replace_rejected hHoused hWorded hRejected
    rw [← forfeits_iff hHoused] at hAftermath
    exact hAftermath
  | _ => exact absurd hRejected not_false

end Rejected

/-- A post-only bid below an offer. -/
def postOnlyEvents : List Event :=
  [.addInstrument (sampleListing .cancelIncoming) 0, .submit (sampleNewOrder 1 1 .buy 1 5 true) 0,
    .submit (sampleNewOrder 2 2 .sell 2 5 false) 0]

/-- A bid that rests while its account buys elsewhere in the book, so that risk
has nothing on record for it. -/
def overdrawnEvents : List Event :=
  [.addInstrument (sampleListing .cancelIncoming) 0, .submit (sampleNewOrder 1 1 .buy 1 5 false) 0,
    .submit (sampleNewOrder 2 2 .sell 2 5 false) 0,
    .submit (sampleNewOrder 3 1 .buy 2 5 false) 0]

/-- Amending the post-only bid onto the offer is rejected, and the bid is gone.
Amending the other bid to a price outside the band is rejected, and five lots
appear on record. -/
theorem rejected_replace_changes :
    Rejected ((start (none : Option Empty) none none).run postOnlyEvents)
        (.replace (sampleReplace 1 1 2 5) 0) ∧
      (((start (none : Option Empty) none none).run postOnlyEvents).restingOrder ⟨1⟩ ⟨1⟩).isSome ∧
      ((((start (none : Option Empty) none none).run postOnlyEvents).apply
        (.replace (sampleReplace 1 1 2 5) 0)).restingOrder ⟨1⟩ ⟨1⟩).isNone ∧
      Rejected ((start (none : Option Empty) (some {}) none).run overdrawnEvents)
        (.replace (sampleReplace 1 1 99 5) 0) ∧
      ((start (none : Option Empty) (some {}) none).run overdrawnEvents).working ⟨1⟩ ⟨1⟩ .buy =
        0 ∧
      (((start (none : Option Empty) (some {}) none).run overdrawnEvents).apply
        (.replace (sampleReplace 1 1 99 5) 0)).working ⟨1⟩ ⟨1⟩ .buy = 5 := by
  decide +kernel

/-- Amending the post-only bid to a price outside the band is rejected too, and
here the theorem applies in full. -/
theorem rejected_unchanged_sample :
    Aftermath ((start (none : Option Empty) (some {}) none).run postOnlyEvents)
      (((start (none : Option Empty) (some {}) none).run postOnlyEvents).apply
        (.replace (sampleReplace 1 1 99 5) 0))
      (LosesOrder ((start (none : Option Empty) (some {}) none).run postOnlyEvents)
        (.replace (sampleReplace 1 1 99 5) 0))
      (Overdrawn ((start (none : Option Empty) (some {}) none).run postOnlyEvents)
        (.replace (sampleReplace 1 1 99 5) 0)) := by
  refine rejected_unchanged none (some {}) none (fun attached hAttached => ?_) postOnlyEvents
    (by decide) (fun event hEvent => ?_) _ (by decide +kernel)
  · rw [← Option.some.inj hAttached]
    intro account instrument side
    cases side <;> exact Word64.modulus_pos
  · simp only [postOnlyEvents, List.mem_cons, List.not_mem_nil, or_false] at hEvent
    rcases hEvent with rfl | rfl | rfl <;> trivial

end MatchingEngine
end ExchangeCore
