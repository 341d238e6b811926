import ExchangeCore.PriceTime.Ledger

/-!
# How many orders an account has resting

The companion of the ledger of quantities: a match takes an order off its queue
exactly when it prints a fill that says the resting order is filled, or a
withdrawal that says it was fully removed.  So the number of an account's orders
and the number of closes reported for it add up, through a meeting, a match, an
insertion and an amendment.
-/

namespace ExchangeCore

/-- How many orders of a list belong to an account. -/
def countOf (account : AccountId) (orders : List Order) : Nat :=
  orders.countP fun order => decide (order.account = account)

/-- How many resting orders of an account these fills used up. -/
def Fill.closes (account : AccountId) (fills : List Fill) : Nat :=
  fills.countP fun fill => fill.restingFilled && decide (fill.restingAccount = account)

/-- How many resting orders of an account these withdrawals removed. -/
def Withdrawal.closes (account : AccountId) (withdrawals : List Withdrawal) : Nat :=
  withdrawals.countP fun withdrawal =>
    withdrawal.fullyRemoved && decide (withdrawal.account = account)

section Counts

variable (account : AccountId)

@[simp] theorem countOf_nil : countOf account [] = 0 := rfl

@[simp] theorem countOf_cons (order : Order) (orders : List Order) :
    countOf account (order :: orders) =
      countOf account orders + if order.account = account then 1 else 0 := by
  simp [countOf, List.countP_cons]

@[simp] theorem countOf_append (orders orders' : List Order) :
    countOf account (orders ++ orders') = countOf account orders + countOf account orders' := by
  simp [countOf]

theorem countOf_perm {orders orders' : List Order} (hPerm : orders.Perm orders') :
    countOf account orders = countOf account orders' :=
  hPerm.countP_eq _

@[simp] theorem Fill.closes_nil : Fill.closes account [] = 0 := rfl

theorem Fill.closes_cons (fill : Fill) (fills : List Fill) :
    Fill.closes account (fill :: fills) = Fill.closes account fills +
      if fill.restingFilled = true ∧ fill.restingAccount = account then 1 else 0 := by
  simp [Fill.closes, List.countP_cons]

@[simp] theorem Withdrawal.closes_nil : Withdrawal.closes account [] = 0 := rfl

theorem Withdrawal.closes_cons (withdrawal : Withdrawal) (withdrawals : List Withdrawal) :
    Withdrawal.closes account (withdrawal :: withdrawals) =
      Withdrawal.closes account withdrawals +
        if withdrawal.fullyRemoved = true ∧ withdrawal.account = account then 1 else 0 := by
  simp [Withdrawal.closes, List.countP_cons]

end Counts

namespace PriceTime
namespace Matching

variable {instrument : Instrument} {m m' : Matching}

theorem countP_eq_sum {α : Type} (p : α → Bool) (l : List α) :
    l.countP p = (l.map fun a => if p a = true then 1 else 0).sum := by
  induction l with
  | nil => rfl
  | cons a l ih => rw [List.countP_cons, List.map_cons, List.sum_cons, ih, Nat.add_comm]

/-- An order counts once, until a report says it is gone. -/
def censusTally (account : AccountId) : Tally where
  ofOrder order := if order.account = account then 1 else 0
  ofFill fill := if fill.restingFilled = true ∧ fill.restingAccount = account then 1 else 0
  ofWithdrawal withdrawal :=
    if withdrawal.fullyRemoved = true ∧ withdrawal.account = account then 1 else 0
  trade instrument id price quantity incoming resting hLe := by
    by_cases hLeft : resting.remaining - quantity = 0 <;> simp [Order.take, Fill.between, hLeft]
    rfl
  cancel instrument resting := by simp only [Withdrawal.ofResting, true_and]
  decrement instrument quantity removed resting hLe hRemoved := by
    by_cases hLeft : resting.remaining - quantity = 0 <;>
      simp [hRemoved, Order.shrink, Withdrawal.ofResting, hLeft]
    rfl

/-- A whole match closes what it takes off the queue. -/
theorem Reaches.census (hReaches : Reaches instrument m m') (account : AccountId) :
    countOf account m'.queue + Fill.closes account m'.fills +
        Withdrawal.closes account m'.withdrawals =
      countOf account m.queue + Fill.closes account m.fills +
        Withdrawal.closes account m.withdrawals := by
  simpa [Tally.of, censusTally, countOf, Fill.closes, Withdrawal.closes, countP_eq_sum] using
    hReaches.tally (censusTally account)

end Matching

namespace Book

/-- How many orders of an account rest in a book. -/
def census (book : Book) (account : AccountId) : Nat := countOf account book.orders

variable {book : Book} {order : Order}

theorem census_eq (book : Book) (account : AccountId) (side : Side) :
    book.census account =
      countOf account (book.queue side) + countOf account (book.queue side.opposite) := by
  unfold census orders
  rw [countOf_append]
  cases side with
  | buy => rfl
  | sell => exact Nat.add_comm _ _

/-- Inserting an order adds it if it rests, and takes off what it closes. -/
theorem insert_census {fillable : Bool} {outcome : Outcome Book SubmitResult}
    (hOutcome : book.insert fillable order [] [] = outcome)
    (hAccepted : outcome.result.reject = .none) (account : AccountId) :
    outcome.book.census account + Fill.closes account outcome.fills +
        Withdrawal.closes account outcome.withdrawals =
      book.census account +
        if outcome.result.rested = true ∧ order.account = account then 1 else 0 := by
  cases insertion_of_eq hOutcome with
  | refused reason hReason => exact absurd hAccepted hReason
  | entered m rested hMatch =>
    have hReaches := Matching.reaches_of_finish hMatch
    have hClosed : countOf account m.queue + Fill.closes account m.fills +
        Withdrawal.closes account m.withdrawals =
          countOf account (book.queue order.side.opposite) := by
      simpa [arrival] using hReaches.census account
    have hAccount : m.incoming.account = order.account :=
      (Order.eq_of_terms_eq hReaches.terms.1).2.1
    obtain ⟨hOwn, hOther⟩ := queue_entered book order m rested
    rw [census_eq _ account order.side, census_eq book account order.side, hOwn, hOther]
    cases rested with
    | false =>
      simp only [Bool.false_eq_true, false_and, if_false]
      omega
    | true =>
      simp only [if_true, true_and, countOf_perm account (perm_enqueue _ _), countOf_cons, hAccount]
      omega

theorem Valid.census_remove (hValid : book.Valid) (hMem : order ∈ book.queue order.side)
    (account : AccountId) :
    (book.remove order).census account + (if order.account = account then 1 else 0) =
      book.census account := by
  rw [census_eq _ account order.side, census_eq book account order.side, Book.remove,
    queue_setQueue, queue_setQueue_opposite,
    countOf_perm account (perm_cons_filter_id (hValid.nodup_queue order.side) hMem),
    countOf_cons]
  omega

theorem census_amendInPlace (book : Book) (order : Order) (quantity remaining : Nat)
    (account : AccountId) :
    (book.amendInPlace order quantity remaining).census account = book.census account := by
  rw [census_eq _ account order.side, census_eq book account order.side, Book.amendInPlace,
    queue_setQueue, queue_setQueue_opposite]
  congr 1
  unfold countOf
  rw [List.countP_map]
  refine List.countP_congr fun other _ => ?_
  simp only [Function.comp_apply]
  split <;> rfl

/-- An accepted amendment takes the order off and adds it again if it rests. -/
theorem Valid.replace_census (hValid : book.Valid) {id : OrderId} {previous : Order}
    (hFind : book.find id = some previous) {newPrice : Int} {newQuantity newSequence : Nat}
    {now : Int} {outcome : Outcome Book ReplaceResult}
    (hOutcome : book.replace id newPrice newQuantity newSequence now [] [] = outcome)
    (hAccepted : outcome.result.reject = .none) (account : AccountId) :
    outcome.book.census account + Fill.closes account outcome.fills +
        Withdrawal.closes account outcome.withdrawals +
        (if previous.account = account then 1 else 0) =
      book.census account +
        if outcome.result.rested = true ∧ previous.account = account then 1 else 0 := by
  have hMem := hValid.mem_queue_of_find hFind
  have hRemoved := hValid.census_remove hMem account
  have hCases := replacement_of_eq hOutcome
  clear hOutcome
  cases hCases with
  | unknown hNone => cases hAccepted
  | refused other reason hFind' hReason =>
    rcases hReason with ⟨rfl, -⟩ | ⟨rfl, -⟩ <;> cases hAccepted
  | closed other hFind' =>
    cases hFind.symm.trans hFind'
    simpa using hRemoved
  | inPlace other hFind' =>
    cases hFind.symm.trans hFind'
    simp [census_amendInPlace]
  | requeued other hFind' _ _ _ _ inserted hInserted =>
    cases hFind.symm.trans hFind'
    have hEntered := insert_census hInserted.symm hAccepted account
    have hSame : (amended previous newPrice newQuantity newSequence now).account =
        previous.account := rfl
    rw [hSame] at hEntered
    dsimp only
    omega

end Book
end PriceTime
end ExchangeCore
