import ExchangeCore.PriceTime.Sweep

/-!
# Where the lots of single orders go

The ledger of a match, kept by order id: what a resting order lost is what the fills and
withdrawals that name it say, and what an arriving order came with was traded, cancelled
by prevention, or is left.  Every order is named at most once, and the record says whether
it left.
-/

namespace ExchangeCore

/-- The quantity of the fills against a resting order. -/
def Fill.against (id : OrderId) (fills : List Fill) : Nat :=
  (fills.map fun fill => if fill.restingOrder = id then fill.quantity else 0).sum

/-- The quantity of the withdrawals that name an order. -/
def Withdrawal.naming (id : OrderId) (withdrawals : List Withdrawal) : Nat :=
  (withdrawals.map fun withdrawal =>
    if withdrawal.order = id then withdrawal.quantity else 0).sum

/-- What remains of an order on the book, which is nothing when it is not there. -/
def restingOf (find : OrderId → Option Order) (id : OrderId) : Nat :=
  ((find id).map Order.remaining).getD 0

/-- The reports of a command account for the orders that rested before it, where `find` is
what rests afterwards.  Each of them lost what the records naming it say; no two records
name the same order; and a record's flag tells whether its order left, which none does
without a record. -/
structure LotsReported (before : List Order) (find : OrderId → Option Order)
    (fills : List Fill) (withdrawals : List Withdrawal) : Prop where
  moved : ∀ o ∈ before, o.remaining =
    restingOf find o.id + Fill.against o.id fills + Withdrawal.naming o.id withdrawals
  once : (fills.map Fill.restingOrder ++ withdrawals.map Withdrawal.order).Nodup
  filled_iff : ∀ fill ∈ fills, fill.restingFilled = true ↔ find fill.restingOrder = none
  removed_iff : ∀ withdrawal ∈ withdrawals,
    withdrawal.fullyRemoved = true ↔ find withdrawal.order = none
  reported : ∀ o ∈ before, find o.id = none → Touches o.id fills withdrawals

/-- An order of quantity `quantity` is accounted for by what it traded, what prevention
cancelled of it, and what rests of it, or expired when it does not rest. -/
structure LotsBalance (quantity expired : Nat) (id : OrderId) (filled stpCancelled : Nat)
    (rested : Bool) (find : OrderId → Option Order) (fills : List Fill) : Prop where
  filled_eq : filled = Fill.total fills
  rests : rested = (find id).isSome
  balance : quantity = filled + stpCancelled + if rested then restingOf find id else expired

namespace RestingKey

variable {κ : Type} [DecidableEq κ] (key : RestingKey κ) {k : κ}

theorem held_append (queue queue' : List Order) :
    key.held k (queue ++ queue') = key.held k queue + key.held k queue' := by
  simp [held]

theorem held_eq_zero {queue : List Order} (hOther : ∀ o ∈ queue, key.ofOrder o ≠ k) :
    key.held k queue = 0 :=
  sum_ite_eq_zero hOther

theorem traded_eq_zero {fills : List Fill} (hOther : k ∉ fills.map key.ofFill) :
    key.traded k fills = 0 :=
  sum_ite_eq_zero fun _ hFill hSame => hOther (hSame ▸ List.mem_map_of_mem hFill)

theorem withdrawn_eq_zero {withdrawals : List Withdrawal}
    (hOther : k ∉ withdrawals.map key.ofWithdrawal) : key.withdrawn k withdrawals = 0 :=
  sum_ite_eq_zero fun _ hMem hSame => hOther (hSame ▸ List.mem_map_of_mem hMem)

end RestingKey

namespace PriceTime
namespace Book

variable {book : Book} {order : Order} {m : Matching}

theorem held_orders {κ : Type} [DecidableEq κ] (key : RestingKey κ) (k : κ) (book : Book)
    (side : Side) : key.held k book.orders =
      key.held k (book.queue side) + key.held k (book.queue side.opposite) := by
  have hOrders : key.held k book.orders = key.held k book.bids + key.held k book.asks :=
    key.held_append _ _
  cases side with
  | buy => exact hOrders
  | sell => exact hOrders.trans (Nat.add_comm _ _)

/-- Of orders with distinct ids, at most one rests under an id. -/
theorem held_eq_restingOf (hIds : (book.orders.map Order.id).Nodup) (id : OrderId) :
    RestingKey.orderId.held id book.orders = restingOf book.find id := by
  unfold restingOf find
  generalize book.orders = orders at hIds ⊢
  induction orders with
  | nil => rfl
  | cons head rest ih =>
    obtain ⟨hFresh, hRest⟩ := List.nodup_cons.mp hIds
    rw [RestingKey.held_cons]
    by_cases hId : head.id = id
    · have hNone : RestingKey.orderId.held id rest = 0 := by
        refine RestingKey.held_eq_zero _ fun o ho hSame => hFresh ?_
        rw [hId]
        exact hSame ▸ List.mem_map_of_mem ho
      rw [List.find?_cons_of_pos (by simpa using hId), hNone]
      exact if_pos hId
    · rw [List.find?_cons_of_neg (by simpa using hId), ← ih hRest]
      exact (congrArg (· + _) (if_neg hId)).trans (Nat.zero_add _)

section Enters

variable {outcome : Outcome Book SubmitResult} (hEnters : Enters book order outcome m)
include hEnters

/-- Entering takes from the orders of the book what its reports say. -/
theorem Enters.moved (hValid : book.Valid) {o : Order} (ho : o ∈ book.orders) :
    o.remaining = restingOf outcome.book.find o.id + Fill.against o.id m.fills +
      Withdrawal.naming o.id m.withdrawals := by
  have hNe := find_eq_none_iff.mp hEnters.fresh o ho
  have hSame : restingOf outcome.book.find o.id = restingOf (book.matched order m).find o.id := by
    unfold restingOf
    rw [hEnters.find_other o.id hNe.symm]
  have hFound : restingOf book.find o.id = o.remaining := by
    unfold restingOf
    rw [(find_eq_some_iff hValid.ids).mpr ⟨ho, rfl⟩]
    rfl
  have hBefore := held_eq_restingOf hValid.ids o.id
  have hAfter := held_eq_restingOf (hValid.matched hEnters.finish_eq).ids o.id
  -- The order's own side stays, and the match moves what rests on the other.
  obtain ⟨hOwn, hOther⟩ := queue_matched book order m
  have hMoved : RestingKey.orderId.held o.id m.queue + Fill.against o.id m.fills +
      Withdrawal.naming o.id m.withdrawals =
      RestingKey.orderId.held o.id (book.queue order.side.opposite) :=
    hEnters.reaches.tally (RestingKey.orderId.tally o.id)
  rw [held_orders _ _ _ order.side] at hBefore hAfter
  rw [hOwn, hOther] at hAfter
  omega

/-- A record's flag tells whether its order is still found. -/
theorem Enters.flag_iff (hValid : book.Valid)
    {y : Order} (hy : y ∈ book.queue order.side.opposite) {removed used : Bool}
    (hLeaves : Matching.Leaves removed used y.id m.queue) :
    removed = true ↔ outcome.book.find y.id = none := by
  unfold Matching.Leaves at hLeaves
  split at hLeaves
  · next hRemoved => exact ⟨fun _ => hEnters.find_gone hValid hy hLeaves, fun _ => hRemoved⟩
  next hStays =>
  refine ⟨fun hRemoved => absurd hRemoved hStays, fun hNone => ?_⟩
  have hNe := find_eq_none_iff.mp hEnters.fresh y (mem_orders.mpr ⟨_, hy⟩)
  rw [hEnters.find_other y.id hNe.symm, find_eq_none_iff] at hNone
  obtain ⟨x, hx, hId⟩ := List.mem_map.mp (List.mem_of_head? hLeaves.2)
  have hMem : x ∈ (book.matched order m).queue order.side.opposite := by
    rw [(queue_matched book order m).2]
    exact hx
  exact absurd hId (hNone x (mem_orders.mpr ⟨_, hMem⟩))

theorem Enters.lots (hValid : book.Valid) :
    LotsReported book.orders outcome.book.find outcome.fills outcome.withdrawals := by
  have hSwept := hEnters.swept hValid
  have hTrail := hEnters.reaches.trail rfl rfl
  rw [hEnters.fills_eq, hEnters.withdrawals_eq]
  refine ⟨fun o ho => hEnters.moved hValid ho, hSwept.once, fun fill hMem => ?_,
    fun withdrawal hMem => ?_, fun o ho hNone => ?_⟩
  · obtain ⟨y, hy, hId, -⟩ := (hTrail.printed fill hMem).resting
    have hLeaves := hSwept.filled fill hMem
    rw [hId] at hLeaves ⊢
    exact hEnters.flag_iff hValid hy hLeaves
  · obtain ⟨y, hy, hId, -⟩ := (hTrail.withdrawn withdrawal hMem).resting
    have hLeaves := hSwept.withdrawn withdrawal hMem
    rw [hId] at hLeaves ⊢
    exact hEnters.flag_iff hValid hy hLeaves
  · -- An order had something remaining, and a record says where it went.
    by_contra hUntouched
    have hMoved := hEnters.moved hValid ho
    obtain ⟨side, hSide⟩ := mem_orders.mp ho
    have hLive := (hValid.rests side o hSide).live.1
    have hNothing : restingOf outcome.book.find o.id = 0 := by
      unfold restingOf
      rw [hNone]
      rfl
    have hTraded : Fill.against o.id m.fills = 0 :=
      RestingKey.traded_eq_zero .orderId fun hMem => hUntouched (List.mem_append_left _ hMem)
    have hWithdrawn : Withdrawal.naming o.id m.withdrawals = 0 :=
      RestingKey.withdrawn_eq_zero .orderId fun hMem => hUntouched (List.mem_append_right _ hMem)
    omega

theorem Enters.balance (hValid : book.Valid) :
    LotsBalance order.remaining m.incoming.remaining order.id outcome.result.filled
      outcome.result.stpCancelled outcome.result.rested outcome.book.find outcome.fills := by
  obtain ⟨hIncoming, -⟩ := hValid.match_ledger hEnters.finish_eq
  have hFilled := hEnters.filled_eq
  have hStp := hEnters.stpCancelled_eq
  unfold filledBy at hFilled
  have hRest : (if outcome.result.rested then restingOf outcome.book.find order.id
      else m.incoming.remaining) = m.incoming.remaining := by
    unfold restingOf
    rw [hEnters.find_own]
    split
    · rfl
    · rfl
  rw [hEnters.fills_eq]
  refine ⟨by omega, ?_, ?_⟩
  · rw [hEnters.find_own]
    cases outcome.result.rested <;> rfl
  · rw [hRest]
    omega

/-- Only a market or immediate-or-cancel order leaves something over without resting. -/
theorem Enters.expired (hGone : outcome.result.rested = false) (hLeft : m.incoming.remaining ≠ 0) :
    order.type = .market ∨ order.tif = .immediateOrCancel := by
  cases hExpires : expires order with
  | true => exact expires_iff.mp hExpires
  | false =>
    rw [hEnters.rested_iff.mpr ⟨hLeft, hExpires⟩] at hGone
    cases hGone

end Enters

/-- An amendment that is queued again accounts for its order as an arriving one, and for
every other order. -/
theorem Valid.replace_lots (hValid : book.Valid) {id : OrderId} {previous : Order}
    (hFind : book.find id = some previous) {newPrice : Int} {newQuantity newSequence : Nat}
    {now : Int} (hMore : previous.filled < newQuantity)
    (hMoves : ¬ (newPrice = previous.price ∧ newQuantity < previous.quantity))
    {outcome : Outcome Book ReplaceResult}
    (hOutcome : book.replace id newPrice newQuantity newSequence now [] [] = outcome)
    (hAccepted : outcome.result.reject = .none) :
    LotsBalance (newQuantity - previous.filled) 0 id outcome.result.filled
        outcome.result.stpCancelled outcome.result.rested outcome.book.find outcome.fills ∧
      LotsReported (book.orders.filter fun o => decide (o.id ≠ id)) outcome.book.find
        outcome.fills outcome.withdrawals := by
  have hId : previous.id = id := ((find_eq_some_iff hValid.ids).mp hFind).2
  have hRests := hValid.rests _ previous (hValid.mem_queue_of_find hFind)
  cases replacement_of_eq hOutcome with
  | unknown hNone => cases hAccepted
  | refused other reason _ hReason =>
    rcases hReason with ⟨rfl, -⟩ | ⟨rfl, -⟩ <;> cases hAccepted
  | closed other hFind' _ _ hFilled =>
    cases hFind.symm.trans hFind'
    exact absurd hFilled (not_le.mpr hMore)
  | inPlace other hFind' _ _ _ hShrinks =>
    cases hFind.symm.trans hFind'
    exact absurd hShrinks hMoves
  | requeued other hFind' _ _ _ _ inserted hInserted =>
    cases hFind.symm.trans hFind'
    have hRemoved := hValid.remove previous
    rcases insert_enters hInserted.symm with ⟨hRefused, -⟩ | ⟨-, m, hEnters⟩
    · exact absurd hAccepted hRefused
    have hBalance := hEnters.balance hRemoved
    have hLots := hEnters.lots hRemoved
    constructor
    · refine ⟨hBalance.filled_eq, hId ▸ hBalance.rests, hBalance.balance.trans ?_⟩
      -- A resting order is of a kind that does not expire.
      cases hRested : inserted.result.rested with
      | true => rw [if_pos rfl, if_pos rfl, ← hId]; rfl
      | false =>
        have hUsed : m.incoming.remaining = 0 := by
          by_contra hLeft
          rcases hEnters.expired hRested hLeft with hMarket | hImmediate
          · exact absurd (hRests.limit.symm.trans hMarket) (by decide)
          have hTif : previous.tif = .immediateOrCancel := hImmediate
          rcases hRests.tif with hDay | hGtc
          · exact absurd (hDay.symm.trans hTif) (by decide)
          · exact absurd (hGtc.symm.trans hTif) (by decide)
        rw [hUsed]
        rfl
    · have hOthers : ∀ o ∈ book.orders.filter (fun o => decide (o.id ≠ id)),
          o ∈ (book.remove previous).orders := by
        intro o ho
        obtain ⟨hMem, hNe⟩ := List.mem_filter.mp ho
        exact mem_remove_of_ne hMem (hId ▸ of_decide_eq_true hNe)
      exact ⟨fun o ho => hLots.moved o (hOthers o ho), hLots.once, hLots.filled_iff,
        hLots.removed_iff, fun o ho => hLots.reported o (hOthers o ho)⟩

end Book
end PriceTime
end ExchangeCore
