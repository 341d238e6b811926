import ExchangeCore.Core.Admission

/-!
# What a listener hears

A resting order loses quantity by a fill, a cancellation, an amendment or a
withdrawal by self-trade prevention.  Listeners are called for the first three.
Nothing is called for a withdrawal, nor for an amendment that is refused after
the order has already been taken off its book, so an order that changes in one of
these two ways changes unheard, and in no other way.
-/

namespace ExchangeCore

open PriceTime

/-- The call speaks of an order of an instrument: as the order cancelled, as the
order amended, or as a party of a fill. -/
def Notice.Names (notice : Notice) (instrument : InstrumentId) (id : OrderId) : Prop :=
  match notice with
  | .orderCancelled _ order => order.instrument = instrument ∧ order.id = id
  | .orderReplaced _ previous _ => previous.instrument = instrument ∧ previous.id = id
  | .fills _ printed => ∃ fill ∈ printed, fill.instrument = instrument ∧
      (fill.aggressorOrder = id ∨ fill.restingOrder = id)
  | _ => False

instance (notice : Notice) (instrument : InstrumentId) (id : OrderId) :
    Decidable (notice.Names instrument id) := by
  unfold Notice.Names
  split <;> infer_instance

namespace MatchingEngine

variable {J : Type}

section

variable (engine : MatchingEngine J) (instrument : InstrumentId)

/-- The order has left the book, or has less remaining. -/
def Loses (order : Order) : Prop :=
  ∀ left, engine.Rests instrument left → left.id = order.id → left.remaining < order.remaining

/-- Some call of the command speaks of the order. -/
def Hears (id : OrderId) : Prop :=
  ∃ notice ∈ engine.notices, notice.Names instrument id

/-- A resting order of `resting` gives way to one of `incoming` in this book. -/
def GivesWay (incoming resting : AccountId) : Prop :=
  ∃ book ∈ engine.bookFor instrument, book.instrument.withdraws incoming resting = true

end

/-- What the event takes off the order goes unreported: the order would give way to
the one that comes in, or is itself amended and forfeited. -/
def Silenced [JournalSink J] (engine : MatchingEngine J) (instrument : InstrumentId)
    (order : Order) : Event → Prop
  | .submit command _ => command.instrument = instrument ∧
      engine.GivesWay instrument command.account order.account
  | .replace command now => command.instrument = instrument ∧
      if order.id = command.id then engine.Forfeits command now
      else engine.GivesWay instrument command.account order.account
  | _ => False

/-! ## The calls of each command -/

section Calls

variable {engine : MatchingEngine J}

/-- A fill of a command is named by the call that reports it. -/
theorem hears_of_fill {fill : Fill} (hFill : fill ∈ engine.fills)
    (hCalls : ∀ notice ∈ engine.fillNotices, notice ∈ engine.notices) {instrument : InstrumentId}
    {id : OrderId} (hInstrument : fill.instrument = instrument) (hId : fill.restingOrder = id) :
    engine.Hears instrument id := by
  have hSome : engine.fills.isEmpty = false := by
    cases hFills : engine.fills with
    | nil =>
      rw [hFills] at hFill
      cases hFill
    | cons => rfl
  refine ⟨.fills engine.sequence engine.fills, hCalls _ ?_, fill, hFill, hInstrument, Or.inr hId⟩
  rw [fillNotices, hSome, if_neg Bool.false_ne_true]
  exact List.mem_singleton.mpr rfl

variable {target : OrderBook}

theorem notices_place {command : NewOrder} {now : Int}
    (hAccepted : (engine.place target command now).2.result.reject = .none) :
    ∀ notice ∈ (engine.place target command now).1.fillNotices,
      notice ∈ (engine.place target command now).1.notices := by
  rw [(place_reached ..).result] at hAccepted
  intro notice hNotice
  unfold place at *
  dsimp only at *
  rw [if_neg (not_not.mpr hAccepted)] at *
  exact List.mem_append_right _ (List.mem_cons_of_mem _ hNotice)

theorem notices_withdraw {command : CancelOrder}
    (hAccepted : (engine.withdraw target command).2.result.reject = .none) :
    ∃ sequence, Notice.orderCancelled sequence (engine.withdraw target command).2.result.order ∈
      (engine.withdraw target command).1.notices := by
  rw [(withdraw_reached ..).result] at *
  unfold withdraw
  dsimp only
  rw [if_neg (not_not.mpr hAccepted)]
  exact ⟨_, List.mem_append_right _ (List.mem_singleton.mpr rfl)⟩

theorem notices_amend {previous : Order} {command : ReplaceOrder}
    {now : Int} (hAccepted : (engine.amend target previous command now).2.result.reject = .none) :
    (∀ notice ∈ (engine.amend target previous command now).1.fillNotices,
        notice ∈ (engine.amend target previous command now).1.notices) ∧
      ∃ sequence, Notice.orderCancelled sequence
          (engine.amend target previous command now).2.result.previous ∈
            (engine.amend target previous command now).1.notices ∨
        ∃ order, Notice.orderReplaced sequence
          (engine.amend target previous command now).2.result.previous order ∈
            (engine.amend target previous command now).1.notices := by
  rw [(amend_reached ..).result] at *
  unfold amend
  dsimp only [onRisk]
  rw [if_neg (not_not.mpr hAccepted)]
  refine ⟨fun notice hNotice => ?_, ?_⟩
  · exact List.mem_append_right _ (List.mem_cons_of_mem _ hNotice)
  · split
    · next order hFound =>
        exact ⟨_, Or.inr ⟨order, List.mem_append_right _ List.mem_cons_self⟩⟩
    · exact ⟨_, Or.inl (List.mem_append_right _ List.mem_cons_self)⟩

end Calls

section Commands

variable {engine : MatchingEngine J} [JournalSink J]

theorem submit_notices {command : NewOrder} {now : Int}
    (hAccepted : (engine.submit command now).2.result.reject = .none) :
    ∀ notice ∈ (engine.submit command now).1.fillNotices,
      notice ∈ (engine.submit command now).1.notices := by
  have hCases := submit_cases engine command now
  generalize engine.submit command now = reply at hCases hAccepted ⊢
  cases hCases with
  | turnedAway engine' reason hReason => exact absurd hAccepted hReason
  | unrecorded => cases hAccepted
  | placed => exact notices_place hAccepted

theorem cancel_notices (engine : MatchingEngine J) (command : CancelOrder) (now : Int)
    (hAccepted : (engine.cancel command now).2.result.reject = .none) :
    ∃ sequence, Notice.orderCancelled sequence (engine.cancel command now).2.result.order ∈
      (engine.cancel command now).1.notices := by
  have hCases := cancel_cases engine command now
  generalize engine.cancel command now = reply at hCases hAccepted ⊢
  cases hCases with
  | turnedAway reason hReason => rcases hReason with rfl | rfl <;> cases hAccepted
  | unrecorded => cases hAccepted
  | reached => exact notices_withdraw hAccepted

theorem replace_notices {command : ReplaceOrder} {now : Int}
    (hAccepted : (engine.replace command now).2.result.reject = .none) :
    (∀ notice ∈ (engine.replace command now).1.fillNotices,
        notice ∈ (engine.replace command now).1.notices) ∧
      ∃ sequence, Notice.orderCancelled sequence (engine.replace command now).2.result.previous ∈
          (engine.replace command now).1.notices ∨
        ∃ order, Notice.orderReplaced sequence (engine.replace command now).2.result.previous
          order ∈ (engine.replace command now).1.notices := by
  have hCases := replace_cases engine command now
  generalize engine.replace command now = reply at hCases hAccepted ⊢
  cases hCases with
  | turnedAway reason hReason => rcases hReason with rfl | rfl <;> cases hAccepted
  | unrecorded => cases hAccepted
  | reached => exact notices_amend hAccepted

end Commands

/-! ## Every change that is heard -/

section Changes

variable {engine engine' : MatchingEngine J} {instrument : InstrumentId} {order : Order}

/-- An order that still rests as it was has lost nothing. -/
theorem not_loses_of_rests (hRests : engine.Rests instrument order) :
    ¬ engine.Loses instrument order :=
  fun hLoses => Nat.lt_irrefl _ (hLoses order hRests rfl)

/-- An order of another instrument than the one a command books loses nothing. -/
theorem Booked.not_loses {id : InstrumentId} {after : Book} {fills : List Fill}
    {withdrawals : List Withdrawal} (hBooked : Booked engine engine' id after fills withdrawals)
    (hRests : engine.Rests instrument order) (hLoses : engine'.Loses instrument order) :
    instrument = id ∧ order ∉ after.orders := by
  have hIff := hBooked.rests instrument order
  by_cases hHere : instrument = id
  · rw [if_pos hHere] at hIff
    exact ⟨hHere, fun hMem => not_loses_of_rests (hIff.mpr hMem) hLoses⟩
  · rw [if_neg hHere] at hIff
    exact absurd hLoses (not_loses_of_rests (hIff.mpr hRests))

/-- What was reported of an order is heard, or the order gave way. -/
theorem hears_of_reported (hHoused : engine.Housed) {target : OrderBook} {incoming : Order}
    {after : Book} {fills : List Fill} {withdrawals : List Withdrawal}
    (hTarget : engine.bookFor instrument = some target) (hMem : order ∈ target.abs.orders)
    (hBooked : Booked engine engine' instrument after fills withdrawals)
    (hCalls : ∀ notice ∈ engine'.fillNotices, notice ∈ engine'.notices)
    (hWithdrawn : ∀ withdrawal ∈ withdrawals, Withdrawal.From target.abs.instrument
      incoming (target.abs.queue incoming.side.opposite) withdrawal)
    (hReported : Reported target.abs.instrument.id order.id fills withdrawals) :
    engine'.Hears instrument order.id ∨
      engine.GivesWay instrument incoming.account order.account := by
  obtain ⟨hKept, hId⟩ := hHoused _ _ hTarget
  rcases hReported with ⟨fill, hFill, hInstrument, hResting⟩ | ⟨withdrawal, hTaken, -, hResting⟩
  · rw [← hBooked.fills] at hFill
    exact Or.inl (hears_of_fill hFill hCalls (hInstrument.trans hId) hResting)
  -- The withdrawal names an order of this book, and ids are unique there.
  obtain ⟨hYields, o, ho, hOrder, hAccount⟩ := hWithdrawn withdrawal hTaken
  have hSame : o = order := List.inj_on_of_nodup_map hKept.valid.ids
    (Book.mem_orders.mpr ⟨_, ho⟩) hMem (hOrder.symm.trans hResting)
  rw [hAccount, hSame] at hYields
  exact Or.inr ⟨target, hTarget, hYields⟩

variable [JournalSink J] (hHoused : engine.Housed)
include hHoused

theorem Housed.hears_submit (command : NewOrder) (now : Int)
    (hRests : engine.Rests instrument order)
    (hLoses : (engine.submit command now).1.Loses instrument order) :
    (engine.submit command now).1.Hears instrument order.id ∨
      engine.Silenced instrument order (.submit command now) := by
  rcases submit_booked hHoused command now with ⟨hBooks, -⟩ |
    ⟨target, outcome, hTarget, -, -, hOutcome, hResult, hBooked⟩
  · exact absurd hLoses (not_loses_of_rests ((rests_congr (hBooks instrument) order).mpr hRests))
  obtain ⟨rfl, hGone⟩ := hBooked.not_loses hRests hLoses
  have hMem := (rests_iff_of_bookFor hTarget order).mp hRests
  have hAccepted : outcome.result.reject = .none := by
    by_contra hRefused
    rw [(Book.insert_of_refused hOutcome hRefused).1] at hGone
    exact hGone hMem
  have hTrail := Book.insert_trail hOutcome
  have hReported := (hTrail.untouched order hMem).resolve_left hGone
  exact (hears_of_reported hHoused hTarget hMem hBooked (submit_notices (hResult ▸ hAccepted))
    hTrail.withdrawn hReported).imp_right fun hYields => ⟨rfl, hYields⟩

theorem Housed.hears_cancel (command : CancelOrder) (now : Int)
    (hRests : engine.Rests instrument order)
    (hLoses : (engine.cancel command now).1.Loses instrument order) :
    (engine.cancel command now).1.Hears instrument order.id := by
  rcases cancel_booked hHoused command now with ⟨hBooks, -⟩ |
    ⟨target, resting, hTarget, hResting, -, hResult, hBooked⟩
  · exact absurd hLoses (not_loses_of_rests ((rests_congr (hBooks instrument) order).mpr hRests))
  obtain ⟨rfl, hGone⟩ := hBooked.not_loses hRests hLoses
  obtain ⟨hKept, hBookId⟩ := hHoused _ _ hTarget
  have hMem := (rests_iff_of_bookFor hTarget order).mp hRests
  have hFind := hKept.find_abs hResting
  -- Everything but the cancelled order is still there.
  have hId : order.id = resting.id := by
    by_contra hNe
    exact hGone (Book.mem_remove_of_ne hMem hNe)
  have hInstrument : resting.instrument = command.instrument :=
    (hKept.valid.rests _ resting (hKept.valid.mem_queue_of_find hFind)).instrument_eq.trans hBookId
  obtain ⟨sequence, hNotice⟩ := cancel_notices engine command now (by rw [hResult])
  rw [hResult] at hNotice
  exact ⟨_, hNotice, hInstrument, hId.symm⟩

theorem Housed.hears_replace (command : ReplaceOrder) (now : Int)
    (hRests : engine.Rests instrument order)
    (hLoses : (engine.replace command now).1.Loses instrument order) :
    (engine.replace command now).1.Hears instrument order.id ∨
      engine.Silenced instrument order (.replace command now) := by
  rcases replace_booked hHoused command now with ⟨hBooks, -⟩ |
    ⟨target, previous, outcome, hTarget, hPrevious, hOwner, -, hOutcome, hResult, hBooked⟩
  · exact absurd hLoses (not_loses_of_rests ((rests_congr (hBooks instrument) order).mpr hRests))
  obtain ⟨rfl, hGone⟩ := hBooked.not_loses hRests hLoses
  obtain ⟨hKept, hBookId⟩ := hHoused _ _ hTarget
  have hMem := (rests_iff_of_bookFor hTarget order).mp hRests
  have hFind := hKept.find_abs hPrevious
  have hPreviousId : previous.id = command.id :=
    ((Book.find_eq_some_iff hKept.valid.ids).mp hFind).2
  have hInstrument : previous.instrument = command.instrument :=
    (hKept.valid.rests _ previous (hKept.valid.mem_queue_of_find hFind)).instrument_eq.trans hBookId
  by_cases hAccepted : outcome.result.reject = .none
  · obtain ⟨hCalls, sequence, hNotice⟩ := replace_notices (hResult ▸ hAccepted)
    rw [hResult, ← hOutcome, Book.previous_replace hFind] at hNotice
    by_cases hAmended : order.id = previous.id
    · -- The amended order is named whatever became of it.
      rw [hAmended]
      rcases hNotice with hCancelled | ⟨amended, hReplaced⟩
      · exact Or.inl ⟨_, hCancelled, hInstrument, rfl⟩
      · exact Or.inl ⟨_, hReplaced, hInstrument, rfl⟩
    have hTrail := hKept.valid.replace_trail hFind hOutcome
    have hReported :=
      ((hTrail.untouched order hMem).resolve_left hGone).resolve_left hAmended
    refine (hears_of_reported hHoused hTarget hMem hBooked hCalls hTrail.withdrawn
      hReported).imp_right fun hYields => ⟨rfl, ?_⟩
    rw [if_neg (fun h => hAmended (h.trans hPreviousId.symm)), ← hOwner]
    exact hYields
  · rcases hKept.valid.replace_refused hFind hOutcome hAccepted with hSame | ⟨hReason, hLost⟩
    · rw [hSame] at hGone
      exact absurd hMem hGone
    have hId : order.id = previous.id := by
      by_contra hNe
      rw [hLost] at hGone
      exact hGone (Book.mem_remove_of_ne hMem hNe)
    refine Or.inr ⟨rfl, ?_⟩
    rw [if_pos (hId.trans hPreviousId)]
    exact (forfeits_iff hHoused command now).mpr (hResult ▸ hReason)

/-- Whoever loses is heard of, or was silenced. -/
theorem Housed.hears {event : Event} (hTicked : event.Ticked)
    (hRests : engine.Rests instrument order)
    (hLoses : (engine.apply event).Loses instrument order) :
    (engine.apply event).Hears instrument order.id ∨
      engine.Silenced instrument order event := by
  cases event with
  | submit command now => exact hHoused.hears_submit command now hRests hLoses
  | cancel command now => exact Or.inl (hHoused.hears_cancel command now hRests hLoses)
  | replace command now => exact hHoused.hears_replace command now hRests hLoses
  | _ =>
    exact absurd hLoses (not_loses_of_rests ((rests_apply engine hTicked
      not_false instrument order).mpr hRests))

end Changes

/-- The listener hears of every resting order that loses quantity in this event,
unless the order is one the event silences. -/
def HearsLosses [JournalSink J] (engine : MatchingEngine J) (event : Event) : Prop :=
  ∀ instrument order, engine.Rests instrument order →
    (engine.apply event).Loses instrument order → ¬ engine.Silenced instrument order event →
    (engine.apply event).Hears instrument order.id

/-- In every run of the engine the listener hears of every resting order that
leaves the book or has less remaining, except of an order that gives way to
another one of its own account, and of a post-only order amended onto the other
side. -/
theorem run_hears_losses [JournalSink J] (journal : Option J) (risk : Option RiskEngine)
    (kill : Option KillSwitch) (events : List Event) (hTicked : ∀ event ∈ events, event.Ticked) :
    Machine.Each apply HearsLosses (start journal risk kill) events := by
  refine ((Machine.each_of_forall hTicked).and
    ((housed_start journal risk kill).always hTicked).each).imp ?_
  intro engine event hEvent instrument order hRests hLoses hAudible
  obtain ⟨hTick, hHoused, -⟩ := hEvent
  exact (hHoused.hears hTick hRests hLoses).resolve_right hAudible

/-- Account 1's bid of five rests below account 2's offer. -/
def ownBid (policy : SelfTradePolicy) (postOnly : Bool) : MatchingEngine Empty :=
  (start none none none).run [.addInstrument (sampleListing policy) 0,
      .submit (sampleNewOrder 1 1 .buy 1 5 postOnly) 0,
      .submit (sampleNewOrder 2 2 .sell 2 5 false) 0]

/-- An order of the first instrument loses quantity and no call speaks of it. -/
def LosesUnheard (engine : MatchingEngine Empty) (event : Event) : Prop :=
  ∃ order, engine.Rests ⟨1⟩ order ∧ (engine.apply event).Loses ⟨1⟩ order ∧
    ¬ (engine.apply event).Hears ⟨1⟩ order.id

/-- Account 1 sells into its own bid under each policy by which the bid gives way,
and amends a post-only bid onto the offer. -/
theorem losses_unheard :
    LosesUnheard (ownBid .cancelResting false) (.submit (sampleNewOrder 3 1 .sell 1 5 false) 0) ∧
      LosesUnheard (ownBid .cancelBoth false) (.submit (sampleNewOrder 3 1 .sell 1 5 false) 0) ∧
      LosesUnheard (ownBid .decrementBoth false)
        (.submit (sampleNewOrder 3 1 .sell 1 5 false) 0) ∧
      LosesUnheard (ownBid .cancelResting true) (.replace (sampleReplace 1 1 2 5) 0) := by
  simp only [LosesUnheard, Loses, Hears, rests_iff_mem]
  decide +kernel

/-- Account 2 takes part of account 1's bid, and account 1 amends and cancels the
rest of it. -/
def heardEvents : List Event :=
  [.addInstrument (sampleListing .cancelResting) 0, .submit (sampleNewOrder 1 1 .buy 1 5 false) 0,
    .submit (sampleNewOrder 2 2 .sell 1 3 false) 0,
    .replace (sampleReplace 1 1 1 4) 0,
    .cancel { id := ⟨1⟩, account := ⟨1⟩, instrument := ⟨1⟩ } 0]

theorem run_hears_losses_sample :
    Machine.Each apply HearsLosses (start (none : Option Empty) none none) heardEvents :=
  run_hears_losses none none none heardEvents (by decide)

end MatchingEngine
end ExchangeCore
