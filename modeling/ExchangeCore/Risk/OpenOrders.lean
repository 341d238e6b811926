import ExchangeCore.Core.Admission
import ExchangeCore.Lib.KeyedTotal
import ExchangeCore.Risk.Accounts

/-!
# Open-order counts

Risk counts an account's open orders up when one rests and down when one is
closed; the books say how many there really are.  A command moves both numbers
by the same amounts (`Recount`), with one exception: an amendment refused because
a post-only order would have crossed loses the order and counts it again.

So the count is exact along a run exactly when no command of the account is
refused that way, and in any case it never falls below the truth, which is what
the limit on open orders needs.
-/

namespace ExchangeCore

open PriceTime

namespace RiskEngine

variable (risk : RiskEngine) (other : AccountId)

/-! ## Counts through a settlement -/

theorem openOrders_applyFill (fill : Fill) (account : AccountId) (side : Side) :
    (risk.applyFill fill account side).openOrders other = risk.openOrders other := by
  unfold applyFill
  cases hFind : risk.find account with
  | none => rfl
  | some state =>
    dsimp only
    unfold setExposure
    rw [openOrders_setState]
    split
    · next h => rw [h, openOrders, stateFor_of_find risk account hFind]
    · rfl

theorem openOrders_settleFill (fill : Fill) :
    (risk.settleFill fill).openOrders other = risk.openOrders other -
      if fill.restingFilled = true ∧ fill.restingAccount = other then 1 else 0 := by
  have hFill : (risk.onFill fill).openOrders other = risk.openOrders other := by
    unfold onFill
    rw [openOrders_applyFill, openOrders_applyFill]
  unfold settleFill
  split
  · next hFilled =>
      rw [openOrders_onOrderClosed, hFill]
      simp [hFilled, eq_comm (a := other)]
  next hOpen =>
  rw [hFill]
  simp [hOpen]

theorem openOrders_settleWithdrawal (withdrawal : Withdrawal) :
    (risk.settleWithdrawal withdrawal).openOrders other = risk.openOrders other -
      if withdrawal.fullyRemoved = true ∧ withdrawal.account = other then 1 else 0 := by
  unfold settleWithdrawal
  dsimp only
  split
  · next hGone =>
      rw [openOrders_onOrderClosed, openOrders_onWorkingReleased]
      simp [hGone, eq_comm (a := other)]
  next hStays =>
  rw [openOrders_onWorkingReleased]
  simp [hStays]

/-- A settlement closes what its fills and withdrawals say. -/
theorem openOrders_settle (target : InstrumentId) (fills : List Fill)
    (withdrawals : List Withdrawal) :
    (risk.settle target fills withdrawals).openOrders other =
      risk.openOrders other -
        (Fill.closes other fills + Withdrawal.closes other withdrawals) := by
  have hFills : ∀ risk : RiskEngine, (fills.foldl settleFill risk).openOrders other =
      risk.openOrders other - Fill.closes other fills := by
    induction fills with
    | nil => exact fun _ => rfl
    | cons fill fills ih =>
      intro risk
      rw [List.foldl_cons, ih, openOrders_settleFill, Fill.closes_cons]
      omega
  have hWithdrawals : ∀ risk : RiskEngine,
      (withdrawals.foldl settleWithdrawal risk).openOrders other =
        risk.openOrders other - Withdrawal.closes other withdrawals := by
    clear hFills
    induction withdrawals with
    | nil => exact fun _ => rfl
    | cons withdrawal withdrawals ih =>
      intro risk
      rw [List.foldl_cons, ih, openOrders_settleWithdrawal, Withdrawal.closes_cons]
      omega
  unfold settle
  dsimp only
  split
  · rw [hWithdrawals, hFills]
    omega
  · rw [openOrders_setReferencePrice, hWithdrawals, hFills]
    omega

/-- What rests of an order counts as one more. -/
theorem openOrders_settleOrder {order : Order} {after : Book} {rested : Bool} {rest : Nat}
    (hLeft : Book.Left order after rested rest) (target : InstrumentId) (fills : List Fill)
    (withdrawals : List Withdrawal) :
    (risk.settleOrder target fills withdrawals (after.find order.id)).openOrders other =
      risk.openOrders other -
        (Fill.closes other fills + Withdrawal.closes other withdrawals) +
        if rested = true ∧ order.account = other then 1 else 0 := by
  unfold Book.Left at hLeft
  cases rested with
  | false =>
    obtain ⟨-, hNone⟩ := hLeft
    rw [hNone]
    show (risk.settle target fills withdrawals).openOrders other = _
    rw [openOrders_settle]
    simp
  | true =>
    obtain ⟨resting, hFound, hAccount, -⟩ := hLeft
    rw [hFound]
    show ((risk.settle target fills withdrawals).onOrderRested resting).openOrders other = _
    rw [openOrders_onOrderRested, openOrders_settle, hAccount]
    simp [eq_comm (a := other)]

end RiskEngine

namespace MatchingEngine

variable {J : Type}

/-- How many orders of an account rest across all books. -/
def resting (engine : MatchingEngine J) (account : AccountId) : Nat :=
  Keyed.total (fun book : OrderBook => countOf account book.restingOrders) engine.books

/-- What a command does to the two counts: the books lose `out` and `lost` orders
of each account and gain `back`, and risk counts `out` down and `back` up. -/
structure Recount (engine engine' : MatchingEngine J) (out back lost : AccountId → Nat) :
    Prop where
  room : ∀ a, out a ≤ engine.resting a
  counted : ∀ a, engine'.resting a + out a + lost a = engine.resting a + back a
  recorded : ∀ a, engine'.openOrders a = engine.openOrders a - out a + back a

section Counting

variable {engine engine' : MatchingEngine J} {id : InstrumentId} {target book : OrderBook}

theorem resting_of_books (hTarget : engine.bookFor id = some target)
    (hBooks : engine'.books = engine.books.insert id book) (account : AccountId) :
    engine'.resting account + target.abs.census account =
      engine.resting account + book.abs.census account := by
  have hInsert := Keyed.total_insert
    (fun book : OrderBook => countOf account book.restingOrders) engine.books id book
  have hLookup : engine.books.lookup id = some target := hTarget
  rw [hLookup, Option.map_some, Option.getD_some, ← hBooks] at hInsert
  exact hInsert

theorem census_le_resting (hTarget : engine.bookFor id = some target) (account : AccountId) :
    target.abs.census account ≤ engine.resting account :=
  Keyed.le_total (fun book : OrderBook => countOf account book.restingOrders) hTarget

theorem resting_congr (hBooks : ∀ id, engine'.bookFor id = engine.bookFor id)
    (account : AccountId) : engine'.resting account = engine.resting account :=
  Keyed.total_congr _ hBooks

theorem Unmoved.recount (hUnmoved : Unmoved engine engine') :
    Recount engine engine' (fun _ => 0) (fun _ => 0) fun _ => 0 where
  room := fun _ => Nat.zero_le _
  counted := fun a => resting_congr hUnmoved.bookFor a
  recorded := fun a => hUnmoved.openOrders a

theorem Unmoved.recount_trans {before : MatchingEngine J} (hUnmoved : Unmoved before engine)
    {out back lost : AccountId → Nat} (hRecount : Recount engine engine' out back lost) :
    Recount before engine' out back lost := by
  obtain ⟨hRoom, hCounted, hRecorded⟩ := hRecount
  simp only [resting_congr hUnmoved.bookFor, hUnmoved.openOrders] at *
  exact ⟨hRoom, hCounted, hRecorded⟩

/-- An order that rests is counted. -/
theorem census_pos_of_left {order : Order} {after : Book} {rested : Bool} {rest : Nat}
    (hLeft : Book.Left order after rested rest) (account : AccountId) :
    (if rested = true ∧ order.account = account then 1 else 0) ≤ after.census account := by
  split
  · next hOwn =>
      unfold Book.Left at hLeft
      rw [hOwn.1] at hLeft
      obtain ⟨found, hFind, hAccount, -⟩ := hLeft
      have hMem := List.mem_of_find?_eq_some hFind
      exact List.countP_pos_iff.mpr ⟨found, hMem, decide_eq_true (hAccount.trans hOwn.2)⟩
  · exact Nat.zero_le _

/-- An order that enters: what made room for it and what its prints close go out, and
it counts again if it rests. -/
theorem Settles.recount {order : Order}
    {release : Release order target.abs} {rested : Bool} {rest : Nat}
    (hSettles : Settles engine engine' release book rested rest) (hAttached : engine.risk.isSome) :
    Recount engine engine'
      (fun a => (if order.account = a then release.count else 0) +
        (Fill.closes a engine'.fills + Withdrawal.closes a engine'.withdrawals))
      (fun a => if rested = true ∧ order.account = a then 1 else 0) fun _ => 0 := by
  obtain ⟨risk, hRisk⟩ := Option.isSome_iff_exists.mp hAttached
  have hRisk' := hSettles.risk
  rw [hRisk, Option.map_some] at hRisk'
  refine ⟨fun a => ?_, fun a => ?_, fun a => ?_⟩
  · -- What is closed was there, and the order itself was not.
    have hClosed := hSettles.census a
    have hFreed := release.counted a
    have hWhole := census_le_resting hSettles.target_eq a
    have hThere := census_pos_of_left hSettles.left a
    omega
  · have hChanged := resting_of_books hSettles.target_eq hSettles.books a
    have hClosed := hSettles.census a
    have hFreed := release.counted a
    omega
  · rw [openOrders_of_risk hRisk, openOrders_of_risk hRisk',
      RiskEngine.openOrders_settleOrder _ a hSettles.left, release.openOrders]
    simp only [eq_comm (a := a)]
    omega

/-- A refused amendment counts the order down and up again, lost or not. -/
theorem Reinstates.recount {instrument : InstrumentId} {previous : Order} {reason : RejectReason}
    (hReinstates : Reinstates engine engine' target instrument previous reason)
    (hHoused : engine.Housed) (hAttached : engine.risk.isSome)
    (hTarget : engine.bookFor instrument = some target) {id : OrderId}
    (hPrevious : target.find id = some previous) :
    Recount engine engine' (fun a => if previous.account = a then 1 else 0)
      (fun a => if previous.account = a then 1 else 0)
      fun a => if reason = .postOnlyWouldCross ∧ previous.account = a then 1 else 0 := by
  obtain ⟨hKept, -⟩ := hHoused _ _ hTarget
  obtain ⟨risk, hRisk⟩ := Option.isSome_iff_exists.mp hAttached
  have hMem := hKept.valid.mem_queue_of_find (hKept.find_abs hPrevious)
  have hRemoved := hKept.valid.census_remove hMem
  obtain ⟨⟨book, hBooks, hWhy⟩, hRestated, -⟩ := hReinstates
  rw [hRisk, Option.map_some] at hRestated
  refine ⟨fun a => ?_, fun a => ?_, fun a => ?_⟩
  · have hGone := hRemoved a
    have hBefore := census_le_resting hTarget a
    omega
  · have hChanged := resting_of_books hTarget hBooks a
    have hGone := hRemoved a
    rcases hWhy with ⟨rfl, hReason⟩ | ⟨hLost, hReason⟩
    · have hKeeps : reason ≠ .postOnlyWouldCross := by
        rcases hReason with h | h <;> rw [h] <;> simp
      simp only [hKeeps, false_and, if_false]
      omega
    rw [hLost] at hChanged
    simp only [hReason, true_and]
    omega
  · rw [openOrders_of_risk hRisk, openOrders_of_risk hRestated,
      RiskEngine.openOrders_onOrderRested, RiskEngine.openOrders_onOrderWithdrawn]
    simp only [eq_comm (a := a)]

end Counting

/-- Only commands change what rests: a new book is empty and replaces nothing. -/
theorem resting_apply [JournalSink J] (engine : MatchingEngine J) {event : Event}
    (hTicked : event.Ticked) (hOther : ¬ event.IsCommand) (account : AccountId) :
    (engine.apply event).resting account = engine.resting account := by
  cases event with
  | addInstrument instrument now =>
    show (engine.addInstrument instrument now).1.resting account = _
    rcases addInstrument_cases engine instrument now with hStill | ⟨engine', hStill, hNew, hEq⟩
    · exact resting_congr hStill.bookFor account
    have hInsert := Keyed.total_insert
      (fun book : OrderBook => countOf account book.restingOrders) engine'.books instrument.id
      (OrderBook.create instrument instrument.expectedRestingOrders)
    have hNone : engine'.books.lookup instrument.id = none :=
      (hStill.bookFor instrument.id).trans hNew
    have hEmpty : countOf account (OrderBook.create instrument
        instrument.expectedRestingOrders).restingOrders = 0 :=
      congrArg (Book.census · account)
        (OrderBook.abs_create hTicked instrument.expectedRestingOrders)
    rw [hNone, hEmpty] at hInsert
    rw [hEq]
    exact hInsert.trans (resting_congr hStill.bookFor account)
  | submit command now => exact absurd trivial hOther
  | cancel command now => exact absurd trivial hOther
  | replace command now => exact absurd trivial hOther
  | _ => rfl

/-! ## Exact counts -/

/-- Risk has as many orders open as rest. -/
def Counted (account : AccountId) (engine : MatchingEngine J) : Prop :=
  engine.openOrders account = engine.resting account

/-- No post-only order of the account is amended onto the other side. -/
def KeepsCount [JournalSink J] (account : AccountId) (engine : MatchingEngine J) : Event → Prop
  | .replace command now => command.account = account → ¬ engine.Forfeits command now
  | _ => True

instance [JournalSink J] (account : AccountId) (engine : MatchingEngine J) (event : Event) :
    Decidable (KeepsCount account engine event) := by
  rcases event with _ | _ <;> dsimp only [KeepsCount] <;> infer_instance

section Run

variable {engine : MatchingEngine J} {account : AccountId} [JournalSink J]

/-- What one event does to the counts of an account: it loses an order exactly when it
is an amendment that forfeits one, and adds one only by a submission that passed the
check. -/
theorem recount_apply (hAudited : engine.Audited) {event : Event} (hTicked : event.Ticked)
    (hKeeps : event.KeepsRisk) (account : AccountId) :
    ∃ out back lost, Recount engine (engine.apply event) out back lost ∧
      (lost account = 0 ↔ KeepsCount account engine event) ∧
      (back account ≤ out account ∨ back account ≤ 1 ∧ ∃ command now,
        command.account = account ∧
          ∀ risk, engine.risk = some risk → (risk.check command now).2 = .none) := by
  obtain ⟨hHoused, hAttached, -⟩ := hAudited
  cases event with
  | submit command now =>
    rcases submit_settled hHoused command now with
      ⟨hUnmoved, -⟩ | ⟨engine', target, book, rested, rest, hStill, -, hCheck, hSettles⟩
    · exact ⟨_, _, _, hUnmoved.recount, iff_of_true rfl trivial, Or.inl le_rfl⟩
    have hRecount := (Unmoved.of_still hStill).recount_trans
      (hSettles.recount (hStill.attached ▸ hAttached))
    refine ⟨_, _, _, hRecount, iff_of_true rfl trivial, ?_⟩
    by_cases hOwn : command.account = account
    · refine Or.inr ⟨?_, command, now, hOwn, hCheck⟩
      split <;> omega
    refine Or.inl ?_
    rw [if_neg (fun h => hOwn h.2)]
    exact Nat.zero_le _
  | cancel command now =>
    rcases cancel_settled hHoused command now with ⟨hUnmoved, -⟩ | ⟨engine', resting, target,
      release, book, hStill, -, -, -, -, -, hSettles⟩
    · exact ⟨_, _, _, hUnmoved.recount, iff_of_true rfl trivial, Or.inl le_rfl⟩
    refine ⟨_, _, _, (Unmoved.of_still hStill).recount_trans
      (hSettles.recount (hStill.attached ▸ hAttached)), iff_of_true rfl trivial, Or.inl ?_⟩
    simp
  | replace command now =>
    have hIff : KeepsCount account engine (.replace command now) ↔
        ¬ ((engine.replace command now).2.result.reject = .postOnlyWouldCross ∧
          command.account = account) := by
      show (command.account = account → ¬ engine.Forfeits command now) ↔ _
      rw [forfeits_iff hHoused, not_and']
    rw [hIff]
    rcases replace_settled hHoused command now with ⟨hUnmoved, -, hReason⟩ | ⟨engine', target,
      previous, hStill, hTarget, hPrevious, hOwner, -, hEffect⟩
    · exact ⟨_, _, _, hUnmoved.recount, iff_of_true rfl fun h => hReason h.1, Or.inl le_rfl⟩
    rcases hEffect with ⟨hAccepted, order, release, book, rested, rest, hAccount, -, -, -, -,
      hCount, hSettles⟩ | ⟨-, hReinstates⟩
    · refine ⟨_, _, _, (Unmoved.of_still hStill).recount_trans
        (hSettles.recount (hStill.attached ▸ hAttached)),
        iff_of_true rfl fun h => by rw [hAccepted] at h; exact absurd h.1 (by decide), Or.inl ?_⟩
      -- The order is taken off first and counted again if it rests.
      rw [hCount]
      by_cases hOwn : order.account = account
      · rw [if_pos hOwn]
        split <;> omega
      · rw [if_neg (fun h => hOwn h.2)]
        exact Nat.zero_le _
    · have hRecount := hReinstates.recount (hHoused.still hStill)
        (hStill.attached ▸ hAttached) ((hStill.bookFor _).trans hTarget) hPrevious
      rw [hOwner] at hRecount
      refine ⟨_, _, _, (Unmoved.of_still hStill).recount_trans hRecount, ?_, Or.inl le_rfl⟩
      rw [ite_eq_right_iff]
      simp
  | _ =>
    exact ⟨fun _ => 0, fun _ => 0, fun _ => 0, ⟨fun _ => Nat.zero_le _,
      resting_apply engine hTicked not_false, (quiet_apply engine hTicked hKeeps
        not_false).openOrders⟩, iff_of_true rfl trivial, Or.inl le_rfl⟩

/-- One event keeps the count exact exactly when it loses no order. -/
theorem counted_apply_iff (hAudited : engine.Audited) {event : Event} (hTicked : event.Ticked)
    (hKeeps : event.KeepsRisk) (hCounted : Counted account engine) :
    Counted account (engine.apply event) ↔ KeepsCount account engine event := by
  obtain ⟨out, back, lost, hRecount, hLost, -⟩ := recount_apply hAudited hTicked hKeeps account
  have hRoom := hRecount.room account
  have hBooks := hRecount.counted account
  have hRecord := hRecount.recorded account
  unfold Counted at hCounted ⊢
  rw [← hLost]
  omega

/-- Along every run from an engine without orders, with risk attached throughout,
an account's open-order count is the number of its resting orders after every
event exactly when none of its post-only orders is amended onto the other side. -/
theorem openOrders_eq_resting_iff (journal : Option J) (kill : Option KillSwitch)
    (account : AccountId) (events : List Event)
    (hTicked : ∀ event ∈ events, event.Ticked) (hKeeps : ∀ event ∈ events, event.KeepsRisk) :
    Machine.Always apply (Counted account) (start journal (some {}) kill) events ↔
      Machine.Each apply (KeepsCount account) (start journal (some {}) kill) events := by
  have hAudited : (start journal (some {}) kill).Audited :=
    audited_start journal kill fun _ _ => rfl
  refine Machine.always_iff_each (hAudited.each hTicked hKeeps) rfl ?_
  rintro engine event hCounted ⟨hBefore, hTick, hKeep⟩
  exact counted_apply_iff hBefore hTick hKeep hCounted

end Run

/-- Account 1's post-only bid is amended onto account 2's offer. -/
def leakEvents : List Event :=
  [.addInstrument (sampleListing .cancelIncoming) 0, .submit (sampleNewOrder 1 1 .buy 1 5 true) 0,
    .submit (sampleNewOrder 2 2 .sell 2 5 false) 0,
    .replace (sampleReplace 1 1 2 5) 0]

/-- No order of account 1 rests, and risk has one open. -/
theorem openOrders_leak :
    ((start (none : Option Empty) (some {}) none).run leakEvents).resting ⟨1⟩ = 0 ∧
      ((start (none : Option Empty) (some {}) none).run leakEvents).openOrders ⟨1⟩ = 1 := by
  decide +kernel

theorem openOrders_eq_resting_sample :
    Machine.Always apply (Counted ⟨2⟩) (start (none : Option Empty) (some {}) none)
      leakEvents :=
  (openOrders_eq_resting_iff none none ⟨2⟩ leakEvents (by decide) (by decide)).mpr
    (by decide +kernel)

/-! ## The limit on open orders -/

/-- Risk never has fewer orders open than rest, nor more than the limit. -/
structure WithinCount (account : AccountId) (limits : AccountLimits)
    (engine : MatchingEngine J) : Prop where
  limits_eq : engine.limitsFor account = some limits
  covered : engine.resting account ≤ engine.openOrders account
  bound : engine.openOrders account ≤ limits.maxOpenOrders

section Limit

variable {engine : MatchingEngine J} {account : AccountId} {limits : AccountLimits}

/-- A submission that passes the check finds room for one more order. -/
theorem room_of_submit (hWithin : WithinCount account limits engine) {risk : RiskEngine}
    (hRisk : engine.risk = some risk) {command : NewOrder} {now : Int}
    (hOwn : command.account = account) (hCheck : (risk.check command now).2 = .none) :
    engine.openOrders account < limits.maxOpenOrders := by
  have hLimits := hWithin.limits_eq
  rw [limitsFor_of_risk hRisk, ← hOwn] at hLimits
  obtain ⟨state, hFind, hSame⟩ := Option.map_eq_some_iff.mp hLimits
  have hCount := (RiskEngine.admittedBy_of_check risk hFind hCheck).count
  rw [openOrders_of_risk hRisk, ← hOwn, RiskEngine.openOrders,
    RiskEngine.stateFor_of_find risk _ hFind, ← hSame]
  exact hCount

variable [JournalSink J]

theorem WithinCount.apply (hWithin : WithinCount account limits engine)
    (hAudited : engine.Audited) {event : Event} (hTicked : event.Ticked)
    (hKeeps : event.KeepsRisk) (hLimits : event.KeepsLimits account) :
    WithinCount account limits (engine.apply event) := by
  have hConfigured := limitsFor_apply hAudited hTicked hKeeps hLimits hWithin.limits_eq
  obtain ⟨out, back, lost, hRecount, -, hBack⟩ := recount_apply hAudited hTicked hKeeps account
  have hRoom := hRecount.room account
  have hBooks := hRecount.counted account
  have hRecord := hRecount.recorded account
  have hCovered := hWithin.covered
  have hBound := hWithin.bound
  refine ⟨hConfigured, by omega, ?_⟩
  rcases hBack with hLess | ⟨hOne, command, now, hOwn, hCheck⟩
  · omega
  obtain ⟨risk, hRisk⟩ := Option.isSome_iff_exists.mp hAudited.attached
  have hFree := room_of_submit hWithin hRisk hOwn (hCheck risk hRisk)
  omega

/-- From any engine in which an account is configured and has no order, neither on
a book nor on record, it never has more orders resting than its limit on open
orders; nor does the count that risk keeps pass that limit. -/
theorem resting_le_maxOpenOrders (hAudited : engine.Audited)
    (hConfigured : engine.limitsFor account = some limits)
    (hIdle : engine.resting account = 0 ∧ engine.openOrders account = 0) (events : List Event)
    (hTicked : ∀ event ∈ events, event.Ticked) (hKeeps : ∀ event ∈ events, event.KeepsRisk)
    (hLimits : ∀ event ∈ events, event.KeepsLimits account) :
    Machine.Always apply (fun after => after.resting account ≤ limits.maxOpenOrders ∧
      after.openOrders account ≤ limits.maxOpenOrders) engine events := by
  have hStart : WithinCount account limits engine :=
    ⟨hConfigured, by omega, by omega⟩
  have hEach := (hAudited.each hTicked hKeeps).and (Machine.each_of_forall hLimits)
  have hAlways : Machine.Always MatchingEngine.apply (WithinCount account limits) engine
      events := by
    refine hEach.always hStart ?_
    rintro engine event hWithin ⟨⟨hBefore, hTick, hKeep⟩, hLimit⟩
    exact hWithin.apply hBefore hTick hKeep hLimit
  exact hAlways.imp fun _ hWithin => ⟨hWithin.covered.trans hWithin.bound, hWithin.bound⟩

end Limit

/-- Two open orders. -/
def twoOrders : AccountLimits := { maxOpenOrders := 2 }

def twoOrderRisk : RiskEngine := ({} : RiskEngine).configure ⟨1⟩ twoOrders

/-- Account 1 tries a third order, trades one of its two away, and tries again. -/
def crowdedEvents : List Event :=
  [.addInstrument (sampleListing .cancelIncoming) 0, .submit (sampleNewOrder 1 1 .buy 1 5 false) 0,
    .submit (sampleNewOrder 2 1 .buy 1 5 false) 0,
    .submit (sampleNewOrder 3 1 .buy 1 5 false) 0,
    .submit (sampleNewOrder 4 2 .sell 1 5 false) 0,
    .submit (sampleNewOrder 5 1 .buy 1 5 false) 0]

theorem resting_le_maxOpenOrders_sample :
    Machine.Always apply (fun after => after.resting ⟨1⟩ ≤ twoOrders.maxOpenOrders ∧
        after.openOrders ⟨1⟩ ≤ twoOrders.maxOpenOrders)
      (start (none : Option Empty) (some twoOrderRisk) none) crowdedEvents := by
  exact resting_le_maxOpenOrders (audited_configured none none ⟨1⟩ twoOrders) (by decide)
    (by decide +kernel) crowdedEvents (by decide) (by decide) (by decide)

end MatchingEngine
end ExchangeCore
