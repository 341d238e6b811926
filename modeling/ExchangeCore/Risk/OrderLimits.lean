import ExchangeCore.Risk.OpenOrders

/-!
# Limits on a single order

The check before a new order bounds its size and its notional.  Matching only
takes quantity off an order and a reduction in place makes it smaller, so neither
can lift an order over its limits (`Order.Within.left`).  A re-queued amendment
can: the order comes back at the price and size the client asked for, and nothing
checks them again.

So an account's resting orders stay within its limits along a run in which no
re-queued amendment of the account asks for more.
-/

namespace ExchangeCore

open PriceTime

/-- A price and a size within the limits on one order. -/
def AccountLimits.Allow (limits : AccountLimits) (price : Int) (quantity : Nat) : Prop :=
  quantity ≤ limits.maxOrderQuantity ∧ price * quantity ≤ limits.maxOrderNotional

instance (limits : AccountLimits) (price : Int) (quantity : Nat) :
    Decidable (limits.Allow price quantity) :=
  inferInstanceAs (Decidable (_ ∧ _))

variable {limits : AccountLimits}

/-- A smaller order at an allowed price is allowed.  A price may be negative, and
then the notional is below every limit. -/
theorem AccountLimits.Allow.mono {price : Int} {quantity smaller : Nat}
    (hAllow : limits.Allow price quantity) (hLe : smaller ≤ quantity) :
    limits.Allow price smaller := by
  obtain ⟨hSize, hNotional⟩ := hAllow
  refine ⟨hLe.trans hSize, ?_⟩
  by_cases hPrice : 0 ≤ price
  · calc price * (smaller : Int) ≤ price * (quantity : Int) :=
        mul_le_mul_of_nonneg_left (Int.ofNat_le.mpr hLe) hPrice
      _ ≤ limits.maxOrderNotional := hNotional
  have hNeg : price * (smaller : Int) ≤ 0 :=
    mul_nonpos_of_nonpos_of_nonneg (by omega) (Int.natCast_nonneg _)
  omega

def Order.Within (order : Order) (limits : AccountLimits) : Prop :=
  limits.Allow order.price order.quantity

theorem Order.Within.left {left order : Order}
    (hWithin : order.Within limits) (hLeft : left.LeftOf order) : left.Within limits := by
  unfold Order.Within at *
  rw [(Order.eq_of_terms_eq hLeft.terms).2.2.2.1]
  exact hWithin.mono hLeft.quantity

namespace MatchingEngine

variable {J : Type}

/-- Everything the account has resting is within its limits on one order. -/
def RestsWithin (account : AccountId) (limits : AccountLimits) (engine : MatchingEngine J) : Prop :=
  ∀ id order, engine.Rests id order → order.account = account → order.Within limits

section

variable [JournalSink J] (account : AccountId) (limits : AccountLimits) (engine : MatchingEngine J)

/-- No re-queued amendment of the account asks for more than its limits allow. -/
def AmendsWithin : Event → Prop
  | .replace command now => command.account = account →
      (engine.Amends command now fun target previous =>
        target.abs.Requeues previous command.newPrice command.newQuantity) →
      limits.Allow command.newPrice command.newQuantity
  | _ => True

instance (event : Event) : Decidable (AmendsWithin account limits engine event) := by
  rcases event with _ | _ <;> dsimp only [AmendsWithin] <;> infer_instance

end

section Steps

variable {engine : MatchingEngine J} {account : AccountId}

/-- A new order that rests has passed the check at its price and size. -/
theorem within_of_check {risk : RiskEngine} (hRisk : engine.risk = some risk)
    (hConfigured : engine.limitsFor account = some limits) {command : NewOrder} {now : Int}
    (hOwn : command.account = account) (hLimit : command.type = .limit)
    (hCheck : (risk.check command now).2 = .none) :
    limits.Allow command.price command.quantity := by
  rw [limitsFor_of_risk hRisk, ← hOwn] at hConfigured
  obtain ⟨state, hFind, hSame⟩ := Option.map_eq_some_iff.mp hConfigured
  have hAdmitted := RiskEngine.admittedBy_of_check risk hFind hCheck
  rw [← hSame]
  refine ⟨hAdmitted.size, ?_⟩
  by_cases hPrice : 0 < command.price
  · exact hAdmitted.notional hLimit hPrice
  have hNeg : command.price * (command.quantity : Int) ≤ 0 :=
    mul_nonpos_of_nonpos_of_nonneg (by omega) (Int.natCast_nonneg _)
  omega

variable [JournalSink J]

/-- Matching and in-place amendments take quantity off; what an event brings has been
checked, or is a re-queued amendment. -/
theorem RestsWithin.apply (hWithin : RestsWithin account limits engine)
    (hAudited : engine.Audited) (hConfigured : engine.limitsFor account = some limits)
    {event : Event} (hTicked : event.Ticked) (hAmends : AmendsWithin account limits engine event) :
    RestsWithin account limits (engine.apply event) := by
  obtain ⟨hHoused, hAttached, -⟩ := hAudited
  intro id x hRests hOwn
  rcases hHoused.origin hTicked hRests with ⟨o, ho, hLeft⟩ | ⟨order, hBrings, hLeft⟩
  · exact (hWithin id o ho (hLeft.account_eq.symm.trans hOwn)).left hLeft
  rw [hLeft.account_eq] at hOwn
  refine Order.Within.left ?_ hLeft
  cases event with
  | submit command now =>
    obtain ⟨rfl, hCheck⟩ := hBrings
    obtain ⟨book, -, -, -, hRestable⟩ := (hHoused.apply hTicked).rests hRests
    obtain ⟨risk, hRisk⟩ := Option.isSome_iff_exists.mp hAttached
    have hType : command.type = .limit :=
      (Order.eq_of_terms_eq hLeft.terms).2.2.2.2.2.1.symm.trans hRestable.limit
    exact within_of_check hRisk hConfigured hOwn hType (hCheck risk hRisk)
  | replace command now =>
    obtain ⟨target, hTarget, previous, hPrevious, hOwner, hRecordable, hRequeues, rfl⟩ := hBrings
    exact hAmends (hOwner.symm.trans hOwn)
      ⟨target, hTarget, previous, hPrevious, hOwner, hRecordable, hRequeues⟩
  | _ => exact hBrings.elim

/-- From any engine in which an account is configured and nothing it has resting
breaks its limits on one order, every order it ever has resting keeps to them, as
long as no re-queued amendment asks for more. -/
theorem rests_within_limits (hAudited : engine.Audited)
    (hConfigured : engine.limitsFor account = some limits)
    (hWithin : RestsWithin account limits engine) (events : List Event)
    (hTicked : ∀ event ∈ events, event.Ticked) (hKeeps : ∀ event ∈ events, event.KeepsRisk)
    (hLimits : ∀ event ∈ events, event.KeepsLimits account)
    (hAmends : Machine.Each apply (AmendsWithin account limits) engine events) :
    Machine.Always apply (RestsWithin account limits) engine events := by
  have hEach := ((hAudited.each hTicked hKeeps).and (Machine.each_of_forall hLimits)).and hAmends
  have hAlways : Machine.Always MatchingEngine.apply (fun engine =>
      engine.limitsFor account = some limits ∧ RestsWithin account limits engine) engine
      events := by
    refine hEach.always ⟨hConfigured, hWithin⟩ ?_
    rintro engine event hBoth ⟨⟨⟨hBefore, hTick, hKeep⟩, hLimit⟩, hAmend⟩
    exact ⟨limitsFor_apply hBefore hTick hKeep hLimit hBoth.1,
      hBoth.2.apply hBefore hBoth.1 hTick hAmend⟩
  exact hAlways.imp fun _ hBoth => hBoth.2

end Steps

/-- At most five lots, and at most ten ticks times lots. -/
def fiveLots : AccountLimits := { maxOrderQuantity := 5, maxOrderNotional := 10 }

def fiveLotRisk : RiskEngine := ({} : RiskEngine).configure ⟨1⟩ fiveLots

/-- Account 1 rests an order at its limits and amends it up. -/
def swollenEvents : List Event :=
  [.addInstrument (sampleListing .cancelIncoming) 0, .submit (sampleNewOrder 1 1 .buy 2 5 false) 0,
    .replace (sampleReplace 1 1 3 9) 0]

/-- Nine lots rest at a price of three under a limit of five lots and a notional of
ten. -/
theorem rests_beyond_limits :
    ∃ order, ((start (none : Option Empty) (some fiveLotRisk) none).run swollenEvents).Rests ⟨1⟩
        order ∧ order.account = ⟨1⟩ ∧ fiveLots.maxOrderQuantity < order.quantity ∧
      (fiveLots.maxOrderNotional : Int) < order.price * order.quantity ∧
      ((start (none : Option Empty) (some fiveLotRisk) none).run swollenEvents).limitsFor ⟨1⟩ =
        some fiveLots := by
  have hRun : ∃ order ∈ ((((start (none : Option Empty) (some fiveLotRisk) none).run
        swollenEvents).bookFor ⟨1⟩).map OrderBook.restingOrders).getD [],
      order.account = ⟨1⟩ ∧ fiveLots.maxOrderQuantity < order.quantity ∧
      (fiveLots.maxOrderNotional : Int) < order.price * order.quantity ∧
      ((start (none : Option Empty) (some fiveLotRisk) none).run swollenEvents).limitsFor ⟨1⟩ =
        some fiveLots := by
    decide +kernel
  obtain ⟨order, hMem, hOrder⟩ := hRun
  exact ⟨order, rests_iff_mem.mpr hMem, hOrder⟩

/-- Account 1 amends its order to a higher price and fewer lots, and then down in
place. -/
def modestEvents : List Event :=
  [.addInstrument (sampleListing .cancelIncoming) 0, .submit (sampleNewOrder 1 1 .buy 2 5 false) 0,
    .replace (sampleReplace 1 1 3 3) 0,
    .replace (sampleReplace 1 1 3 2) 0]

theorem rests_within_limits_sample :
    Machine.Always apply (RestsWithin ⟨1⟩ fiveLots)
      (start (none : Option Empty) (some fiveLotRisk) none) modestEvents := by
  refine rests_within_limits (audited_configured none none ⟨1⟩ fiveLots) (by decide) ?_
    modestEvents (by decide) (by decide) (by decide) (by decide +kernel)
  rintro id order ⟨book, hBook, -⟩
  cases hBook

end MatchingEngine
end ExchangeCore
