import ExchangeCore.PriceTime.Ledger

/-!
# What a match does to single orders

The ledger of a match speaks of accounts; this module follows one order at a
time.  An order that comes out of a match is what is left of one that went in:
same terms, no more quantity.  Every fill names the incoming order and an order
of the queue that prevention does not protect from it, every withdrawal an order
of the queue that prevention takes quantity off, and an order of the queue that
was touched at all is named by a fill or a withdrawal.

The last part counts the quantity that fills attribute to an order id, which is
what the order's own filled quantity grows by.
-/

namespace ExchangeCore

open List

/-- `left` is `order` after losing quantity, if any. -/
structure Order.LeftOf (left order : Order) : Prop where
  terms : left.terms = order.terms
  quantity : left.quantity ≤ order.quantity
  remaining : left.remaining ≤ order.remaining

namespace Order

theorem LeftOf.refl (order : Order) : order.LeftOf order := ⟨rfl, le_rfl, le_rfl⟩

theorem LeftOf.trans {a b c : Order} (hab : a.LeftOf b) (hbc : b.LeftOf c) : a.LeftOf c :=
  ⟨hab.terms.trans hbc.terms, hab.quantity.trans hbc.quantity, hab.remaining.trans hbc.remaining⟩

theorem leftOf_take (order : Order) (quantity : Nat) : (order.take quantity).LeftOf order :=
  ⟨rfl, le_rfl, Nat.sub_le _ _⟩

theorem leftOf_shrink (order : Order) (quantity : Nat) : (order.shrink quantity).LeftOf order :=
  ⟨rfl, Nat.sub_le _ _, Nat.sub_le _ _⟩

variable {left order : Order}

theorem LeftOf.id_eq (hLeft : left.LeftOf order) : left.id = order.id :=
  (Order.eq_of_terms_eq hLeft.terms).1

theorem LeftOf.account_eq (hLeft : left.LeftOf order) : left.account = order.account :=
  (Order.eq_of_terms_eq hLeft.terms).2.1

end Order

/-- A fill between an order arriving in a book and an order of the queue it meets,
which prevention does not forbid. -/
structure Fill.Between (instrument : Instrument) (order : Order) (queue : List Order)
    (fill : Fill) : Prop where
  instrument_eq : fill.instrument = instrument.id
  aggressor : fill.aggressorOrder = order.id
  account : fill.aggressorAccount = order.account
  free : instrument.prevents order.account fill.restingAccount = false
  resting : ∃ o ∈ queue, fill.restingOrder = o.id ∧ fill.restingAccount = o.account

/-- Prevention takes quantity off the resting order. -/
def Instrument.withdraws (instrument : Instrument) (incoming resting : AccountId) : Bool :=
  instrument.prevents incoming resting && instrument.selfTradePolicy != .cancelIncoming

/-- A withdrawal from an order of the queue that an arriving order meets. -/
structure Withdrawal.From (instrument : Instrument) (order : Order) (queue : List Order)
    (withdrawal : Withdrawal) : Prop where
  yields : instrument.withdraws order.account withdrawal.account = true
  resting : ∃ o ∈ queue, withdrawal.order = o.id ∧ withdrawal.account = o.account

/-- A fill or a withdrawal speaks of a resting order of an instrument. -/
def Reported (instrument : InstrumentId) (id : OrderId) (fills : List Fill)
    (withdrawals : List Withdrawal) : Prop :=
  (∃ fill ∈ fills, fill.instrument = instrument ∧ fill.restingOrder = id) ∨
    ∃ withdrawal ∈ withdrawals, withdrawal.instrument = instrument ∧ withdrawal.order = id

theorem Reported.mono {instrument : InstrumentId} {id : OrderId} {fills fills' : List Fill}
    {withdrawals withdrawals' : List Withdrawal}
    (hReported : Reported instrument id fills withdrawals) (hFills : fills ⊆ fills')
    (hWithdrawals : withdrawals ⊆ withdrawals') :
    Reported instrument id fills' withdrawals' := by
  rcases hReported with ⟨fill, hFill, hId⟩ | ⟨withdrawal, hWithdrawal, hId⟩
  · exact Or.inl ⟨fill, hFills hFill, hId⟩
  · exact Or.inr ⟨withdrawal, hWithdrawals hWithdrawal, hId⟩

namespace PriceTime

namespace Matching

variable {instrument : Instrument} {m m' : Matching}

/-- How far a match has come, seen from each order: it started with `order` on its
way in, `queue` on the other side, and nothing reported. -/
structure Trail (instrument : Instrument) (order : Order) (queue : List Order) (m : Matching) :
    Prop where
  incoming : m.incoming.LeftOf order
  left : ∀ x ∈ m.queue, ∃ o ∈ queue, x.LeftOf o
  printed : ∀ fill ∈ m.fills, Fill.Between instrument order queue fill
  withdrawn : ∀ withdrawal ∈ m.withdrawals, Withdrawal.From instrument order queue withdrawal
  untouched : ∀ o ∈ queue, o ∈ m.queue ∨ Reported instrument.id o.id m.fills m.withdrawals

variable {rest queue : List Order}

theorem mem_settle_of_mem {head : Order} {x : Order} (hMem : x ∈ rest) : x ∈ settle head rest := by
  unfold settle
  split
  · exact hMem
  · exact mem_cons_of_mem _ hMem

/-- One meeting touches the two orders that meet and reports the resting one. -/
theorem Trail.step {order : Order} (hTrail : Trail instrument order queue m)
    (hStep : m.step instrument = some m') : Trail instrument order queue m' := by
  obtain ⟨hIncoming, hLeft, hPrinted, hWithdrawn, hUntouched⟩ := hTrail
  obtain ⟨head, rest, hQueue, -, -, hMeets⟩ := step_cases hStep
  rw [hQueue] at hLeft hUntouched
  obtain ⟨origin, hOrigin, hHead⟩ := hLeft head (by simp)
  have hRest : ∀ x ∈ rest, ∃ o ∈ queue, x.LeftOf o := fun x hx => hLeft x (by simp [hx])
  -- Everything but the head is where it was, and the head gets a report.
  have hOthers : ∀ {queue' : List Order} {fills : List Fill} {withdrawals : List Withdrawal},
      (∀ x ∈ rest, x ∈ queue') → m.fills ⊆ fills → m.withdrawals ⊆ withdrawals →
      Reported instrument.id head.id fills withdrawals →
      ∀ o ∈ queue, o ∈ queue' ∨ Reported instrument.id o.id fills withdrawals := by
    intro queue' fills withdrawals hKeeps hFills hWithdrawals hReported o ho
    rcases hUntouched o ho with hMem | hOld
    · rcases mem_cons.mp hMem with rfl | hMem
      · exact Or.inr hReported
      · exact Or.inl (hKeeps o hMem)
    · exact Or.inr (hOld.mono hFills hWithdrawals)
  -- A withdrawal is written down for the head, under a policy that lets it give way.
  have hTaken : ∀ (x : Order) (quantity : Nat) (removed : Bool), x.id = head.id →
      x.account = head.account → instrument.prevents m.incoming.account head.account = true →
      instrument.selfTradePolicy ≠ .cancelIncoming →
      (∀ withdrawal ∈ m.withdrawals ++ [Withdrawal.ofResting instrument x quantity removed],
        Withdrawal.From instrument order queue withdrawal) ∧
      ∀ queue' : List Order, (∀ x ∈ rest, x ∈ queue') → ∀ o ∈ queue, o ∈ queue' ∨
        Reported instrument.id o.id m.fills
          (m.withdrawals ++ [Withdrawal.ofResting instrument x quantity removed]) := by
    intro x quantity removed hId hAccount hOwn hPolicy
    rw [hIncoming.account_eq, ← hAccount] at hOwn
    refine ⟨forall_mem_append.mpr ⟨hWithdrawn, forall_mem_singleton.mpr
      ⟨by simp [Instrument.withdraws, Withdrawal.ofResting, hOwn, hPolicy], origin, hOrigin,
        hId.trans hHead.id_eq, hAccount.trans hHead.account_eq⟩⟩, fun queue' hKeeps => ?_⟩
    exact hOthers hKeeps (List.Subset.refl _) (subset_append_left _ _)
      (Or.inr ⟨_, mem_append_right _ (mem_singleton.mpr rfl), rfl, hId⟩)
  cases hMeets with
  | trade hFree =>
    refine ⟨(Order.leftOf_take _ _).trans hIncoming,
      forall_mem_settle (fun _ => ⟨origin, hOrigin, (Order.leftOf_take _ _).trans hHead⟩) hRest,
      forall_mem_append.mpr ⟨hPrinted, forall_mem_singleton.mpr ?_⟩, hWithdrawn,
      hOthers (fun x hx => mem_settle_of_mem hx) (subset_append_left _ _)
        (List.Subset.refl _) ?_⟩
    · rw [hIncoming.account_eq] at hFree
      exact ⟨rfl, hIncoming.id_eq, hIncoming.account_eq, hFree, origin, hOrigin, hHead.id_eq,
        hHead.account_eq⟩
    · exact Or.inl ⟨_, mem_append_right _ (mem_singleton.mpr rfl), rfl, rfl⟩
  | cancelIncoming =>
    refine ⟨⟨hIncoming.terms, hIncoming.quantity, Nat.zero_le _⟩, ?_, hPrinted, hWithdrawn, ?_⟩
    · show ∀ x ∈ m.queue, _
      rw [hQueue]
      exact hLeft
    · show ∀ o ∈ queue, o ∈ m.queue ∨ _
      rw [hQueue]
      exact hUntouched
  | cancelResting hOwn hPolicy =>
    obtain ⟨hFrom, hReported⟩ := hTaken head _ _ rfl rfl hOwn (by simp [hPolicy])
    exact ⟨hIncoming, hRest, hPrinted, hFrom, hReported _ fun x hx => hx⟩
  | cancelBoth hOwn hPolicy =>
    obtain ⟨hFrom, hReported⟩ := hTaken head _ _ rfl rfl hOwn (by simp [hPolicy])
    exact ⟨⟨hIncoming.terms, hIncoming.quantity, Nat.zero_le _⟩, hRest, hPrinted, hFrom,
      hReported _ fun x hx => hx⟩
  | decrementBoth hOwn hPolicy =>
    obtain ⟨hFrom, hReported⟩ := hTaken (head.shrink _) _ _ rfl rfl hOwn (by simp [hPolicy])
    exact ⟨(Order.leftOf_shrink _ _).trans hIncoming,
      forall_mem_settle (fun _ => ⟨origin, hOrigin, (Order.leftOf_shrink _ _).trans hHead⟩) hRest,
      hPrinted, hFrom, hReported _ fun x hx => mem_settle_of_mem hx⟩

/-- A whole match, from nothing reported. -/
theorem Reaches.trail (hReaches : Reaches instrument m m') (hFills : m.fills = [])
    (hWithdrawals : m.withdrawals = []) : Trail instrument m.incoming m.queue m' := by
  refine hReaches.invariant (P := Trail instrument m.incoming m.queue)
    (fun a b hTrail hStep => hTrail.step hStep) ?_
  exact ⟨.refl _, fun x hx => ⟨x, hx, .refl x⟩, fun fill hFill => by simp [hFills] at hFill,
    fun withdrawal hMem => by simp [hWithdrawals] at hMem, fun o ho => Or.inl ho⟩

end Matching

namespace Book

/-- What an insertion did, seen from each order. -/
structure Trail (book : Book) (order : Order) (outcome : Outcome Book SubmitResult) : Prop where
  left : ∀ x ∈ outcome.book.orders, (∃ o ∈ book.orders, x.LeftOf o) ∨
    x.LeftOf order ∧ outcome.result.rested = true
  printed : ∀ fill ∈ outcome.fills,
    Fill.Between book.instrument order (book.queue order.side.opposite) fill
  withdrawn : ∀ withdrawal ∈ outcome.withdrawals,
    Withdrawal.From book.instrument order (book.queue order.side.opposite) withdrawal
  untouched : ∀ o ∈ book.orders, o ∈ outcome.book.orders ∨
    Reported book.instrument.id o.id outcome.fills outcome.withdrawals

section Inserting

variable {book : Book} {order : Order}

/-- The two queues after the match itself. -/
theorem trail_matched {m : Matching}
    (hMatch : (book.arrival order [] []).finish book.instrument = m) :
    (∀ x ∈ (book.matched order m).orders, ∃ o ∈ book.orders, x.LeftOf o) ∧
      ∀ o ∈ book.orders, o ∈ (book.matched order m).orders ∨
        Reported book.instrument.id o.id m.fills m.withdrawals := by
  have hTrail := (Matching.reaches_finish book.instrument (book.arrival order [] [])).trail rfl
    rfl
  rw [hMatch] at hTrail
  constructor
  · intro x hx
    rcases mem_orders_matched.mp hx with hMem | hSame
    · obtain ⟨o, ho, hLeft⟩ := hTrail.left x hMem
      exact ⟨o, mem_orders.mpr ⟨_, ho⟩, hLeft⟩
    · exact ⟨x, mem_orders.mpr ⟨_, hSame⟩, .refl x⟩
  · intro o ho
    rw [mem_orders_matched]
    rcases (mem_orders_iff _ order.side).mp ho with hSame | hOther
    · exact Or.inl (Or.inr hSame)
    · exact (hTrail.untouched o hOther).imp_left Or.inl

variable {fillable : Bool} {outcome : Outcome Book SubmitResult}
  (hOutcome : book.insert fillable order [] [] = outcome)
include hOutcome

/-- Inserting an order, refused or not. -/
theorem insert_trail : book.Trail order outcome := by
  cases insertion_of_eq hOutcome with
  | refused =>
    exact ⟨fun x hx => Or.inl ⟨x, hx, .refl x⟩, nofun, nofun, fun o ho => Or.inl ho⟩
  | entered m rested hMatch =>
    obtain ⟨hLeft, hUntouched⟩ := trail_matched hMatch
    have hTrail := (Matching.reaches_of_finish hMatch).trail rfl rfl
    refine ⟨fun x hx => ?_, hTrail.printed, hTrail.withdrawn, fun o ho => ?_⟩
    · rcases mem_orders_entered.mp hx with ⟨hRested, rfl⟩ | hx
      · exact Or.inr ⟨hTrail.incoming, hRested⟩
      · exact Or.inl (hLeft x hx)
    · exact (hUntouched o ho).imp_left fun h => mem_orders_entered.mpr (Or.inr h)

/-- Nothing rests of an order that is refused. -/
theorem reject_of_rested
    (hRested : outcome.result.rested = true) : outcome.result.reject = .none := by
  cases insertion_of_eq hOutcome with
  | refused => cases hRested
  | entered => rfl

/-- An order that is accepted brought a new id. -/
theorem find_of_accepted
    (hAccepted : outcome.result.reject = .none) : book.find order.id = none := by
  cases insertion_of_eq hOutcome with
  | refused reason hReason => exact absurd hAccepted hReason
  | entered m rested _ hAccepts => exact (validate_eq_none_iff.mp hAccepts.1).2.2.2

/-- A post-only order that is accepted met nobody. -/
theorem insert_postOnly (hPost : order.postOnly = true) :
    outcome.fills = [] ∧ outcome.withdrawals = [] := by
  cases insertion_of_eq hOutcome with
  | refused => exact ⟨rfl, rfl⟩
  | entered m rested hMatch hAccepts =>
    -- It does not cross the head of the other queue, so the match ends at once.
    have hClear := hAccepts.2.1 hPost
    have hStop : (book.arrival order [] []).step book.instrument = none := by
      rw [Matching.step_eq_none_iff]
      right
      intro head hHead
      have hHead' : (book.queue order.side.opposite).head? = some head := hHead
      simp only [wouldCross, hHead', Option.any_some, Bool.or_eq_false_iff] at hClear
      exact hClear.2
    rw [Matching.finish, Matching.run_of_step_none hStop] at hMatch
    rw [← hMatch]
    exact ⟨rfl, rfl⟩

end Inserting

/-- What amending `previous` did, seen from each order; `amended` is what would go
back to the tail of the queue. -/
structure AmendTrail (book : Book) (previous amended : Order)
    (outcome : Outcome Book ReplaceResult) : Prop where
  left : ∀ x ∈ outcome.book.orders, (∃ o ∈ book.orders, x.LeftOf o) ∨
    x.LeftOf amended ∧ outcome.result.reject = .none ∧ outcome.result.rested = true ∧
      outcome.result.priorityRetained = false
  printed : ∀ fill ∈ outcome.fills,
    Fill.Between book.instrument amended (book.queue previous.side.opposite) fill
  withdrawn : ∀ withdrawal ∈ outcome.withdrawals,
    Withdrawal.From book.instrument amended (book.queue previous.side.opposite) withdrawal
  untouched : ∀ o ∈ book.orders, o ∈ outcome.book.orders ∨ o.id = previous.id ∨
    Reported book.instrument.id o.id outcome.fills outcome.withdrawals

section Amending

variable {book : Book} {id : OrderId} {previous : Order} {newPrice : Int}
  {newQuantity newSequence : Nat} {now : Int} {order x : Order} {quantity remaining : Nat}
  {outcome : Outcome Book ReplaceResult}

theorem mem_orders_remove (hMem : x ∈ (book.remove order).orders) : x ∈ book.orders := by
  rw [remove, mem_orders_setQueue] at hMem
  exact (mem_orders_iff _ order.side).mpr (hMem.imp_left fun h => (mem_filter.mp h).1)

theorem mem_orders_cancel (hMem : x ∈ (book.cancel id).1.orders) : x ∈ book.orders := by
  unfold cancel at hMem
  split at hMem
  · exact hMem
  · exact mem_orders_remove hMem

/-- Removing an order removes nothing with another id. -/
theorem mem_remove_of_ne (hMem : x ∈ book.orders) (hNe : x.id ≠ order.id) :
    x ∈ (book.remove order).orders := by
  rw [remove, mem_orders_setQueue]
  exact ((mem_orders_iff _ order.side).mp hMem).imp_left fun h =>
    mem_filter.mpr ⟨h, by simpa using hNe⟩

/-- An order of a book whose order `order` was shrunk in place. -/
theorem mem_orders_amendInPlace (hMem : x ∈ (book.amendInPlace order quantity remaining).orders) :
    x ∈ book.orders ∨ ∃ o ∈ book.orders, o.id = order.id ∧
      x = { o with quantity := quantity, remaining := remaining } := by
  rw [amendInPlace, mem_orders_setQueue] at hMem
  rcases hMem with hSide | hOther
  · obtain ⟨o, ho, rfl⟩ := mem_map.mp hSide
    split
    · next hId => exact Or.inr ⟨o, mem_orders.mpr ⟨_, ho⟩, hId, rfl⟩
    · exact Or.inl (mem_orders.mpr ⟨_, ho⟩)
  · exact Or.inl (mem_orders.mpr ⟨_, hOther⟩)

/-- Shrinking an order in place touches nothing with another id. -/
theorem mem_amendInPlace_of_ne (hMem : x ∈ book.orders) (hNe : x.id ≠ order.id) :
    x ∈ (book.amendInPlace order quantity remaining).orders := by
  rw [amendInPlace, mem_orders_setQueue]
  exact ((mem_orders_iff _ order.side).mp hMem).imp_left fun h =>
    mem_map.mpr ⟨x, h, if_neg hNe⟩

/-- Amending an order, refused or not. -/
theorem Valid.replace_trail (hValid : book.Valid) (hFind : book.find id = some previous)
    (hOutcome : book.replace id newPrice newQuantity newSequence now [] [] = outcome) :
    book.AmendTrail previous (amended previous newPrice newQuantity newSequence now) outcome := by
  have hSame : ∀ x ∈ book.orders, x.id = previous.id → x = previous := fun x hx hId =>
    eq_of_find hValid.ids hFind hx (hId.trans ((find_eq_some_iff hValid.ids).mp hFind).2)
  have hMem := hValid.mem_queue_of_find hFind
  have hLive := (hValid.rests _ previous hMem).live
  cases replacement_of_eq hOutcome with
  | unknown => exact ⟨fun x hx => Or.inl ⟨x, hx, .refl x⟩, nofun, nofun, fun o ho => Or.inl ho⟩
  | refused => exact ⟨fun x hx => Or.inl ⟨x, hx, .refl x⟩, nofun, nofun, fun o ho => Or.inl ho⟩
  | closed other hFind' =>
    cases hFind.symm.trans hFind'
    refine ⟨fun x hx => Or.inl ⟨x, mem_orders_remove hx, .refl x⟩, nofun, nofun, fun o ho => ?_⟩
    by_cases hId : o.id = previous.id
    · exact Or.inr (Or.inl hId)
    · exact Or.inl (mem_remove_of_ne ho hId)
  | inPlace other hFind' _ _ hMore hShrinks =>
    cases hFind.symm.trans hFind'
    refine ⟨fun x hx => Or.inl ?_, nofun, nofun, fun o ho => ?_⟩
    · rcases mem_orders_amendInPlace hx with hx | ⟨o, ho, hId, rfl⟩
      · exact ⟨x, hx, .refl x⟩
      refine ⟨o, ho, rfl, ?_, ?_⟩ <;> rw [hSame o ho hId]
      · exact hShrinks.2.le
      · show newQuantity - previous.filled ≤ previous.remaining
        unfold Order.filled
        omega
    · by_cases hId : o.id = previous.id
      · exact Or.inr (Or.inl hId)
      · exact Or.inl (mem_amendInPlace_of_ne ho hId)
  | requeued other hFind' _ _ _ _ inserted hInserted =>
    cases hFind.symm.trans hFind'
    have hTrail := insert_trail hInserted.symm
    have hQueue : (book.remove previous).queue previous.side.opposite =
        book.queue previous.side.opposite := queue_setQueue_opposite _ _ _
    refine ⟨fun x hx => ?_, fun fill hFill => ?_, fun withdrawal hMem => ?_, fun o ho => ?_⟩
    · rcases hTrail.left x hx with ⟨o, ho, hLeft⟩ | ⟨hLeft, hRested⟩
      · exact Or.inl ⟨o, mem_orders_remove ho, hLeft⟩
      · refine Or.inr ⟨hLeft, ?_, hRested, rfl⟩
        exact reject_of_rested hInserted.symm hRested
    · have hBetween := hTrail.printed fill hFill
      rw [instrument_remove] at hBetween
      exact hQueue ▸ hBetween
    · have hFrom := hTrail.withdrawn withdrawal hMem
      rw [instrument_remove] at hFrom
      exact hQueue ▸ hFrom
    · by_cases hId : o.id = previous.id
      · exact Or.inr (Or.inl hId)
      have hReported := hTrail.untouched o (mem_remove_of_ne ho hId)
      rw [instrument_remove] at hReported
      exact hReported.imp_right Or.inr

/-- Amending a post-only order prints nothing. -/
theorem fills_replace_postOnly (hFind : book.find id = some previous)
    (hPost : previous.postOnly = true)
    (hOutcome : book.replace id newPrice newQuantity newSequence now [] [] = outcome) :
    outcome.fills = [] := by
  cases replacement_of_eq hOutcome with
  | unknown => rfl
  | refused => rfl
  | closed => rfl
  | inPlace => rfl
  | requeued other hFind' _ _ _ _ inserted hInserted =>
    cases hFind.symm.trans hFind'
    exact (insert_postOnly hInserted.symm hPost).1

/-- An amendment that is refused leaves the book as it was, or has lost the order
because it is post-only and would have crossed. -/
theorem Valid.replace_refused (hValid : book.Valid) (hFind : book.find id = some previous)
    (hOutcome : book.replace id newPrice newQuantity newSequence now [] [] = outcome)
    (hRefused : outcome.result.reject ≠ .none) :
    outcome.book = book ∨
      outcome.result.reject = .postOnlyWouldCross ∧ outcome.book = book.remove previous := by
  cases replacement_of_eq hOutcome with
  | unknown => exact Or.inl rfl
  | refused => exact Or.inl rfl
  | closed => exact absurd rfl hRefused
  | inPlace => exact absurd rfl hRefused
  | requeued other hFind' hPrice hQuantity _ _ inserted hInserted =>
    cases hFind.symm.trans hFind'
    obtain ⟨rfl, -⟩ := hValid.insert_amended hFind hPrice hQuantity hInserted.symm hRefused
    exact Or.inr ⟨rfl, rfl⟩

end Amending

end Book
end PriceTime
end ExchangeCore
