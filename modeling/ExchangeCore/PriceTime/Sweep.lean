import ExchangeCore.PriceTime.Priority
import ExchangeCore.PriceTime.Timing

/-!
# How a match sweeps the other side

A match takes the orders of the other queue from its front.  Each one it meets is
reported once, by a fill or by a withdrawal, and leaves, unless the incoming order is
used up on it; then the match is over.  So the reports name different orders, all of
them gone but the last, and nothing stands in front of an order that was reported
(`Swept`).

The last part reads this off whole insertions and amendments: fills print at the resting
orders' own prices, and nobody ahead of an order that was reported is still there.
-/

namespace ExchangeCore

open List

/-- A fill or a withdrawal names the order. -/
def Touches (id : OrderId) (fills : List Fill) (withdrawals : List Withdrawal) : Prop :=
  id ∈ fills.map Fill.restingOrder ++ withdrawals.map Withdrawal.order

instance (id : OrderId) (fills : List Fill) (withdrawals : List Withdrawal) :
    Decidable (Touches id fills withdrawals) :=
  inferInstanceAs (Decidable (id ∈ _))

/-- Matching order on one side: a better price, or the same price and an earlier
sequence number. -/
def Order.precedes (y x : Order) : Prop :=
  (if x.isBuy then x.price < y.price else y.price < x.price) ∨
    y.price = x.price ∧ y.sequence < x.sequence

/-- The price is within the limit of a limit order. -/
def Order.allows (order : Order) (price : Int) : Prop :=
  order.type = .limit → if order.isBuy then price ≤ order.price else order.price ≤ price

/-- What the reports of a command say about the `queue` that an order met, where `find`
is what rests afterwards: they name orders of that queue, it traded at the resting orders'
own prices and within its limit, nobody ahead of a reported order is left, and every fill
but the last took its resting order off. -/
structure SweepsInOrder (queue : List Order) (order : Order) (find : OrderId → Option Order)
    (fills : List Fill) (withdrawals : List Withdrawal) : Prop where
  priced : ∀ fill ∈ fills, ∃ resting ∈ queue,
    resting.id = fill.restingOrder ∧ fill.price = resting.price ∧ order.allows fill.price
  withdrawn : ∀ withdrawal ∈ withdrawals, ∃ resting ∈ queue, resting.id = withdrawal.order
  noneBypassed : ∀ x ∈ queue, Touches x.id fills withdrawals →
    ∀ y ∈ queue, y.precedes x → find y.id = none
  last : ∀ fill ∈ fills.dropLast, fill.restingFilled = true

namespace PriceTime
namespace Matching

variable {instrument : Instrument} {m m' : Matching}

/-- The record names an order that left the queue, or else the order at its front, on
which the incoming order was used up. -/
def Leaves (removed used : Bool) (id : OrderId) (queue : List Order) : Prop :=
  if removed then id ∉ queue.map Order.id
  else used = true ∧ (queue.map Order.id).head? = some id

structure Swept (m : Matching) : Prop where
  once : (m.fills.map Fill.restingOrder ++ m.withdrawals.map Withdrawal.order).Nodup
  filled : ∀ fill ∈ m.fills,
    Leaves fill.restingFilled (m.incoming.remaining == 0) fill.restingOrder m.queue
  withdrawn : ∀ withdrawal ∈ m.withdrawals,
    Leaves withdrawal.fullyRemoved (m.incoming.remaining == 0) withdrawal.order m.queue
  last : ∀ fill ∈ m.fills.dropLast, fill.restingFilled = true

variable {removed used : Bool} {queue queue' : List Order} {head : Order}

/-- While the incoming order lasts, whoever was reported is gone. -/
theorem Leaves.gone {id : OrderId} (hLeaves : Leaves removed used id queue) (hLeft : used = false) :
    removed = true ∧ id ∉ queue.map Order.id := by
  unfold Leaves at hLeaves
  split at hLeaves
  · next hRemoved => exact ⟨hRemoved, hLeaves⟩
  · rw [hLeft] at hLeaves
    exact absurd hLeaves.1 Bool.false_ne_true

theorem leaves_of_gone {id : OrderId} (hRemoved : removed = true) (hGone : id ∉ queue.map Order.id)
    (hSub : queue'.map Order.id ⊆ queue.map Order.id) : Leaves removed used id queue' := by
  unfold Leaves
  rw [if_pos hRemoved]
  exact fun hMem => hGone (hSub hMem)

/-- The order at the front after it lost quantity: it left, or the incoming order was
used up. -/
theorem leaves_settle {rest : List Order}
    (hFresh : head.id ∉ rest.map Order.id) (hUsed : head.remaining ≠ 0 → used = true) :
    Leaves (head.remaining == 0) used head.id (settle head rest) := by
  unfold Leaves settle
  by_cases hZero : head.remaining = 0
  · rw [if_pos (beq_iff_eq.mpr hZero), if_pos hZero]
    exact hFresh
  · rw [if_neg (by simpa using hZero), if_neg hZero]
    exact ⟨hUsed hZero, rfl⟩

theorem ids_settle_subset (head : Order) (rest : List Order) :
    (settle head rest).map Order.id ⊆ head.id :: rest.map Order.id := by
  unfold settle
  split
  · exact subset_cons_self _ _
  · exact List.Subset.refl _

section

variable (hSwept : m.Swept) (hLeft : m.incoming.remaining ≠ 0)
include hSwept hLeft

/-- While the incoming order lasts, the reports so far stay right whatever part of the
queue is left. -/
theorem Swept.keep (hSub : queue'.map Order.id ⊆ m.queue.map Order.id) (used : Bool) :
    (∀ fill ∈ m.fills, Leaves fill.restingFilled used fill.restingOrder queue') ∧
      ∀ withdrawal ∈ m.withdrawals,
        Leaves withdrawal.fullyRemoved used withdrawal.order queue' := by
  have hOpen : (m.incoming.remaining == 0) = false := by simpa using hLeft
  refine ⟨fun fill hMem => ?_, fun withdrawal hMem => ?_⟩
  · obtain ⟨hRemoved, hGone⟩ := (hSwept.filled fill hMem).gone hOpen
    exact leaves_of_gone hRemoved hGone hSub
  · obtain ⟨hRemoved, hGone⟩ := (hSwept.withdrawn withdrawal hMem).gone hOpen
    exact leaves_of_gone hRemoved hGone hSub

/-- Nor is there a report of the order at the front yet, so one more keeps the reports
apart. -/
theorem Swept.once_more (hHead : head ∈ m.queue) :
    ((m.fills.map Fill.restingOrder ++ m.withdrawals.map Withdrawal.order) ++
      [head.id]).Nodup := by
  have hOpen : (m.incoming.remaining == 0) = false := by simpa using hLeft
  have hId : head.id ∈ m.queue.map Order.id := mem_map_of_mem hHead
  rw [← concat_eq_append]
  refine hSwept.once.concat fun hMem => ?_
  rcases mem_append.mp hMem with hMem | hMem
  · obtain ⟨fill, hFill, hSame⟩ := mem_map.mp hMem
    exact ((hSwept.filled fill hFill).gone hOpen).2 (hSame ▸ hId)
  · obtain ⟨withdrawal, hWithdrawal, hSame⟩ := mem_map.mp hMem
    exact ((hSwept.withdrawn withdrawal hWithdrawal).gone hOpen).2 (hSame ▸ hId)

/-- A withdrawal of the order at the front is one more report. -/
theorem Swept.withdraw
    (hHead : head ∈ m.queue) (withdrawal : Withdrawal) (hId : withdrawal.order = head.id)
    (hSub : queue'.map Order.id ⊆ m.queue.map Order.id)
    (hLeaves : Leaves withdrawal.fullyRemoved used withdrawal.order queue') :
    (m.fills.map Fill.restingOrder ++
        (m.withdrawals ++ [withdrawal]).map Withdrawal.order).Nodup ∧
      (∀ fill ∈ m.fills, Leaves fill.restingFilled used fill.restingOrder queue') ∧
      ∀ other ∈ m.withdrawals ++ [withdrawal],
        Leaves other.fullyRemoved used other.order queue' := by
  obtain ⟨hFills, hWithdrawals⟩ := hSwept.keep hLeft hSub used
  refine ⟨?_, hFills, fun other hMem => ?_⟩
  · rw [map_append, ← append_assoc, map_singleton, hId]
    exact hSwept.once_more hLeft hHead
  · rcases mem_append.mp hMem with hOld | hLast
    · exact hWithdrawals other hOld
    · rw [mem_singleton.mp hLast]
      exact hLeaves

end

theorem Swept.step (hSwept : m.Swept) (hIds : (m.queue.map Order.id).Nodup)
    (hStep : m.step instrument = some m') : m'.Swept := by
  obtain ⟨head, rest, hQueue, hLeft, -, hMeets⟩ := step_cases hStep
  have hHead : head ∈ m.queue := by simp [hQueue]
  have hFresh : head.id ∉ rest.map Order.id := by
    rw [hQueue, map_cons] at hIds
    exact (nodup_cons.mp hIds).1
  have hSettled : ∀ order : Order, order.id = head.id →
      (settle order rest).map Order.id ⊆ m.queue.map Order.id := by
    intro order hId
    rw [hQueue, map_cons, ← hId]
    exact ids_settle_subset order rest
  have hRest : rest.map Order.id ⊆ m.queue.map Order.id := by
    rw [hQueue]
    exact subset_cons_self _ _
  cases hMeets with
  | trade =>
    generalize hTraded : min m.incoming.remaining head.remaining = traded
    obtain ⟨hFills, hWithdrawals⟩ := hSwept.keep hLeft.ne'
      (hSettled (head.take traded) rfl) ((m.incoming.take traded).remaining == 0)
    simp only [trade, hTraded]
    refine ⟨?_, fun fill hMem => ?_, hWithdrawals, fun fill hMem => ?_⟩
    · -- The new fill stands between the others and the withdrawals.
      have hPerm : ((m.fills.map Fill.restingOrder ++ [head.id]) ++
          m.withdrawals.map Withdrawal.order).Perm
          ((m.fills.map Fill.restingOrder ++ m.withdrawals.map Withdrawal.order) ++ [head.id]) := by
        rw [append_assoc, append_assoc]
        exact perm_append_comm.append_left _
      rw [map_append, map_singleton]
      exact hPerm.nodup_iff.mpr (hSwept.once_more hLeft.ne' hHead)
    · rcases mem_append.mp hMem with hOld | hLast
      · exact hFills fill hOld
      rw [mem_singleton.mp hLast]
      refine leaves_settle hFresh fun hMore => ?_
      simp only [Order.take] at hMore ⊢
      rw [beq_iff_eq]
      omega
    · rw [dropLast_concat] at hMem
      exact ((hSwept.filled fill hMem).gone (by simpa using hLeft.ne')).1
  | cancelIncoming =>
    obtain ⟨hFills, hWithdrawals⟩ := hSwept.keep hLeft.ne' (List.Subset.refl _) true
    exact ⟨hSwept.once, hFills, hWithdrawals, hSwept.last⟩
  | cancelResting =>
    obtain ⟨hOnce, hFills, hWithdrawals⟩ := hSwept.withdraw hLeft.ne' hHead
      (Withdrawal.ofResting instrument head head.remaining true) rfl hRest hFresh
    exact ⟨hOnce, hFills, hWithdrawals, hSwept.last⟩
  | cancelBoth =>
    obtain ⟨hOnce, hFills, hWithdrawals⟩ := hSwept.withdraw hLeft.ne' hHead
      (Withdrawal.ofResting instrument head head.remaining true) rfl hRest hFresh
    exact ⟨hOnce, hFills, hWithdrawals, hSwept.last⟩
  | decrementBoth =>
    generalize hOverlap : min m.incoming.remaining head.remaining = overlap
    simp only [decrementBoth, hOverlap]
    have hLeaves : Leaves ((head.shrink overlap).remaining == 0)
        ((m.incoming.shrink overlap).remaining == 0) (head.shrink overlap).id
        (settle (head.shrink overlap) rest) := by
      refine leaves_settle hFresh fun hMore => ?_
      simp only [Order.shrink] at hMore ⊢
      rw [beq_iff_eq]
      omega
    obtain ⟨hOnce, hFills, hWithdrawals⟩ := hSwept.withdraw hLeft.ne' hHead
      (Withdrawal.ofResting instrument (head.shrink overlap) overlap
        ((head.shrink overlap).remaining == 0)) rfl (hSettled (head.shrink overlap) rfl) hLeaves
    exact ⟨hOnce, hFills, hWithdrawals, hSwept.last⟩

theorem Reaches.swept (hReaches : Reaches instrument m m')
    (hIds : (m.queue.map Order.id).Nodup) (hFills : m.fills = [])
    (hWithdrawals : m.withdrawals = []) : m'.Swept := by
  induction hReaches with
  | refl =>
    refine ⟨?_, fun fill hMem => ?_, fun withdrawal hMem => ?_, fun fill hMem => ?_⟩
    · rw [hFills, hWithdrawals]
      exact nodup_nil
    · rw [hFills] at hMem
      cases hMem
    · rw [hWithdrawals] at hMem
      cases hMem
    · rw [hFills] at hMem
      cases hMem
  | tail hEarlier hNext ih =>
    have hSub := Book.ids_sublist_of_terms (Reaches.terms hEarlier).2.sublist
    exact ih.step (hSub.nodup hIds) hNext

/-- Every fill prints at the price of an order of the queue that the incoming one
crosses. -/
theorem Reaches.priced (hReaches : Reaches instrument m m') :
    ∀ fill ∈ m'.fills, fill ∈ m.fills ∨
      ∃ o ∈ m.queue, o.id = fill.restingOrder ∧ fill.price = o.price ∧
        m.incoming.crosses o.price = true := by
  induction hReaches with
  | refl => exact fun fill hMem => Or.inl hMem
  | @tail a b hEarlier hNext ih =>
    obtain ⟨hIncoming, hQueue⟩ := Reaches.terms hEarlier
    obtain ⟨head, rest, hHead, -, hCrosses, hMeets⟩ := step_cases hNext
    cases hMeets with
    | trade =>
      intro fill hMem
      rcases mem_append.mp hMem with hOld | hNew
      · exact ih fill hOld
      have hMemHead : head ∈ a.queue := hHead ▸ mem_cons_self
      obtain ⟨o, ho, hTerms⟩ := Book.exists_of_terms_sublist hQueue.sublist hMemHead
      obtain ⟨hId, -, -, hPrice, -⟩ := Order.eq_of_terms_eq hTerms
      rw [Order.crosses_congr hIncoming, hPrice] at hCrosses
      rw [mem_singleton.mp hNew]
      exact Or.inr ⟨o, ho, hId.symm, hPrice, hCrosses⟩
    | cancelIncoming => exact ih
    | cancelResting => exact ih
    | cancelBoth => exact ih
    | decrementBoth => exact ih

/-- Two elements of which the first is in the tail of a list without repetitions are
both there. -/
theorem pair_sublist_tail {α : Type} {gone tail : List α} {y x : α}
    (hNodup : (gone ++ tail).Nodup) (hPair : [y, x].Sublist (gone ++ tail)) (hy : y ∈ tail) :
    [y, x].Sublist tail := by
  obtain ⟨front, back, hSplit, hGone, hTail⟩ := sublist_append_iff.mp hPair
  cases front with
  | nil =>
    rw [nil_append] at hSplit
    exact hSplit ▸ hTail
  | cons first front =>
    obtain ⟨rfl, -⟩ := List.cons.inj hSplit
    have hMem : y ∈ gone := hGone.subset mem_cons_self
    exact absurd rfl ((nodup_append.mp hNodup).2.2 y hMem y hy)

/-- Nobody who stood in front of a reported order is left. -/
theorem Swept.gone_ahead (hSwept : m.Swept) (hIds : (queue.map Order.id).Nodup)
    (hSuffix : m.queue.map Order.id <:+ queue.map Order.id) {y x : OrderId}
    (hAhead : Ahead y x queue) (hTouched : Touches x m.fills m.withdrawals) :
    y ∉ m.queue.map Order.id := by
  intro hy
  have hNodup : (m.queue.map Order.id).Nodup := hSuffix.sublist.nodup hIds
  obtain ⟨gone, hGone⟩ := hSuffix
  unfold Ahead at hAhead
  rw [← hGone] at hAhead hIds
  have hPair := pair_sublist_tail hIds hAhead hy
  have hx : x ∈ m.queue.map Order.id := hPair.subset (by simp)
  -- The report of `x` did not remove it, so `x` is at the front.
  have hFront : (m.queue.map Order.id).head? = some x := by
    have hLeaves : ∀ removed, Leaves removed (m.incoming.remaining == 0) x m.queue →
        (m.queue.map Order.id).head? = some x := by
      intro removed hLeaves
      unfold Leaves at hLeaves
      split at hLeaves
      · exact absurd hx hLeaves
      · exact hLeaves.2
    rcases mem_append.mp hTouched with hMem | hMem
    · obtain ⟨fill, hFill, rfl⟩ := mem_map.mp hMem
      exact hLeaves _ (hSwept.filled fill hFill)
    · obtain ⟨withdrawal, hWithdrawal, rfl⟩ := mem_map.mp hMem
      exact hLeaves _ (hSwept.withdrawn withdrawal hWithdrawal)
  obtain ⟨rest, hRest⟩ := List.head?_eq_some_iff.mp hFront
  rw [hRest] at hPair hNodup
  cases hPair with
  | cons _ hLater => exact (nodup_cons.mp hNodup).1 (hLater.subset (by simp))
  | cons_cons _ hLater => exact (nodup_cons.mp hNodup).1 (hLater.subset (by simp))

end Matching

namespace Book

variable {book : Book} {order : Order} {m : Matching}

/-- Nothing was reported. -/
theorem sweepsInOrder_nil (queue : List Order) (order : Order) (find : OrderId → Option Order) :
    SweepsInOrder queue order find [] [] where
  priced := fun fill hMem => by cases hMem
  withdrawn := fun withdrawal hMem => by cases hMem
  noneBypassed := fun x _ hTouched => by cases hTouched
  last := fun fill hMem => by cases hMem

theorem pair_sublist_or {α : Type} {l : List α} {y x : α} (hy : y ∈ l) (hx : x ∈ l)
    (hNe : y ≠ x) : [y, x].Sublist l ∨ [x, y].Sublist l := by
  induction l with
  | nil => cases hy
  | cons a l ih =>
    rcases mem_cons.mp hy with rfl | hy'
    · have hLater := (mem_cons.mp hx).resolve_left hNe.symm
      exact Or.inl ((singleton_sublist.mpr hLater).cons_cons _)
    rcases mem_cons.mp hx with rfl | hx'
    · exact Or.inr ((singleton_sublist.mpr hy').cons_cons _)
    · exact (ih hy' hx').imp (·.cons _) (·.cons _)

variable {bound : Nat} {outcome : Outcome Book SubmitResult}

/-- Whoever precedes an order by price and sequence number stands in front of it. -/
theorem Valid.ahead_of_precedes (hValid : book.Valid) (hTimed : book.Timed bound)
    {side : Side} {y x : Order} (hy : y ∈ book.queue side) (hx : x ∈ book.queue side)
    (hPrecedes : y.precedes x) : Ahead y.id x.id (book.queue side) := by
  have hNe : y ≠ x := by
    rintro rfl
    unfold Order.precedes at hPrecedes
    split at hPrecedes <;> omega
  rcases pair_sublist_or hy hx hNe with hPair | hPair
  · exact hPair.map Order.id
  -- Behind `x` nobody has a better price, or the same price and an earlier number.
  have hYields := pairwise_iff_forall_sublist.mp (hValid.sorted side) hPair
  have hLater := pairwise_iff_forall_sublist.mp (hTimed.ordered side) hPair
  have hBuy : y.isBuy = x.isBuy := by
    unfold Order.isBuy
    rw [hValid.side_eq side y hy, hValid.side_eq side x hx]
  unfold Order.yieldsTo at hYields
  unfold Order.precedes at hPrecedes
  rw [hBuy] at hYields
  split at hPrecedes
  · next hIsBuy =>
      rw [if_pos hIsBuy, decide_eq_true_eq] at hYields
      omega
  next hIsSell =>
  rw [if_neg hIsSell, decide_eq_true_eq] at hYields
  omega

/-- Looking up another id passes over an order that joined a queue. -/
theorem find_enqueue_of_ne (book : Book) {id : OrderId} (hNe : order.id ≠ id) (side : Side) :
    (book.setQueue side (enqueue order (book.queue side))).find id = book.find id := by
  have hQueue : ∀ queue : List Order, (enqueue order queue).find? (fun o => decide (o.id = id)) =
        queue.find? fun o => decide (o.id = id) := by
    intro queue
    have hSkip : ∀ rest, (order :: rest).find? (fun o => decide (o.id = id)) =
        rest.find? fun o => decide (o.id = id) := fun rest =>
      List.find?_cons_of_neg (by simpa using hNe)
    unfold enqueue
    rw [List.find?_append, hSkip, ← List.find?_append, takeWhile_append_dropWhile]
  unfold find orders
  cases side with
  | buy =>
    show (enqueue order book.bids ++ book.asks).find? _ = _
    rw [List.find?_append, List.find?_append, hQueue]
  | sell =>
    show (book.bids ++ enqueue order book.asks).find? _ = _
    rw [List.find?_append, List.find?_append, hQueue]

/-- An order that joined a queue under a free id is found there. -/
theorem find_enqueue_self (hFresh : book.find order.id = none) (side : Side) :
    (book.setQueue side (enqueue order (book.queue side))).find order.id = some order := by
  have hMem : order ∈ (book.setQueue side (enqueue order (book.queue side))).orders :=
    mem_orders_enqueue.mpr (Or.inl rfl)
  cases hFind : (book.setQueue side (enqueue order (book.queue side))).find order.id with
  | none => exact absurd rfl (find_eq_none_iff.mp hFind order hMem)
  | some other =>
    -- Nobody else has the id.
    have hId : other.id = order.id := by simpa using List.find?_some hFind
    rcases mem_orders_enqueue.mp (mem_of_find?_eq_some hFind) with rfl | hOld
    · rfl
    · exact absurd hId (find_eq_none_iff.mp hFresh other hOld)

/-- An accepted order: the match it started, and what is found afterwards under the other
ids and under its own. -/
structure Enters (book : Book) (order : Order) (outcome : Outcome Book SubmitResult)
    (m : Matching) : Prop where
  finish_eq : (book.arrival order [] []).finish book.instrument = m
  fresh : book.find order.id = none
  fills_eq : outcome.fills = m.fills
  withdrawals_eq : outcome.withdrawals = m.withdrawals
  filled_eq : outcome.result.filled = filledBy order m
  stpCancelled_eq : outcome.result.stpCancelled = m.stpCancelled
  find_other : ∀ id, order.id ≠ id → outcome.book.find id = (book.matched order m).find id
  find_own : outcome.book.find order.id =
    if outcome.result.rested then some m.incoming else none
  rested_iff : outcome.result.rested = true ↔ m.incoming.remaining ≠ 0 ∧ expires order = false

/-- An insertion is refused and reports nothing, or the order enters. -/
theorem insert_enters {fillable : Bool} (hOutcome : book.insert fillable order [] [] = outcome) :
    (outcome.result.reject ≠ .none ∧ outcome.fills = [] ∧ outcome.withdrawals = []) ∨
      outcome.result.reject = .none ∧ ∃ m, Enters book order outcome m := by
  cases insertion_of_eq hOutcome with
  | refused reason hReason => exact Or.inl ⟨hReason, rfl, rfl⟩
  | entered m rested hMatch hAccepts hRested =>
    have hFresh := (validate_eq_none_iff.mp hAccepts.1).2.2.2
    have hReaches := Matching.reaches_of_finish hMatch
    have hId : m.incoming.id = order.id := (Order.eq_of_terms_eq hReaches.terms.1).1
    have hMatched := find_matched_none hMatch hFresh
    refine Or.inr ⟨rfl, m, hMatch, hFresh, rfl, rfl, rfl, rfl, fun id hNe => ?_, ?_, hRested⟩
    · cases rested with
      | false => rfl
      | true => exact find_enqueue_of_ne _ (hId ▸ hNe) order.side
    · cases rested with
      | false => exact hMatched
      | true =>
        rw [← hId] at hMatched ⊢
        exact find_enqueue_self hMatched order.side

/-- An order that left the other queue is not found anywhere. -/
theorem Valid.find_matched_gone (hValid : book.Valid) {y : Order}
    (hy : y ∈ book.queue order.side.opposite) (hGone : y.id ∉ m.queue.map Order.id) :
    (book.matched order m).find y.id = none := by
  obtain ⟨hOwn, hOther⟩ := queue_matched book order m
  rw [find_eq_none_iff]
  intro o ho hId
  obtain ⟨side, hSide⟩ := mem_orders.mp ho
  rcases queue_cases order.side side with rfl | rfl
  · rw [hOwn] at hSide
    have hFind : book.find y.id = some y :=
      (find_eq_some_iff hValid.ids).mpr ⟨mem_orders.mpr ⟨_, hy⟩, rfl⟩
    have hSame : o = y := eq_of_find hValid.ids hFind (mem_orders.mpr ⟨_, hSide⟩) hId
    have hSides := hValid.side_eq _ o hSide
    rw [hSame, hValid.side_eq _ y hy] at hSides
    exact Side.opposite_ne order.side hSides
  · rw [hOther] at hSide
    exact hGone (hId ▸ mem_map_of_mem hSide)

/-- Ids on the two sides differ, and the order's own id was free, so what left the other
queue is not found after the order entered. -/
theorem Enters.find_gone (hEnters : Enters book order outcome m) (hValid : book.Valid) {y : Order}
    (hy : y ∈ book.queue order.side.opposite) (hGone : y.id ∉ m.queue.map Order.id) :
    outcome.book.find y.id = none := by
  have hNe := find_eq_none_iff.mp hEnters.fresh y (mem_orders.mpr ⟨_, hy⟩)
  rw [hEnters.find_other y.id hNe.symm]
  exact hValid.find_matched_gone hy hGone

theorem Enters.reaches (hEnters : Enters book order outcome m) :
    Matching.Reaches book.instrument (book.arrival order [] []) m := by
  have hReaches := Matching.reaches_finish book.instrument (book.arrival order [] [])
  rwa [hEnters.finish_eq] at hReaches

theorem Enters.swept (hEnters : Enters book order outcome m) (hValid : book.Valid) : m.Swept :=
  hEnters.reaches.swept (hValid.nodup_queue order.side.opposite) rfl rfl

theorem Valid.insert_sweeps (hValid : book.Valid) (hTimed : book.Timed bound) {fillable : Bool}
    (hOutcome : book.insert fillable order [] [] = outcome) :
    SweepsInOrder (book.queue order.side.opposite) order outcome.book.find outcome.fills
      outcome.withdrawals := by
  rcases insert_enters hOutcome with ⟨-, hFills, hWithdrawals⟩ | ⟨-, m, hEnters⟩
  · rw [hFills, hWithdrawals]
    exact sweepsInOrder_nil _ _ _
  have hReaches := hEnters.reaches
  have hSwept := hEnters.swept hValid
  rw [hEnters.fills_eq, hEnters.withdrawals_eq]
  refine ⟨fun fill hMem => ?_, fun withdrawal hMem => ?_,
    fun x hx hTouched y hy hPrecedes => ?_, hSwept.last⟩
  · rcases hReaches.priced fill hMem with hOld | ⟨o, ho, hId, hPrice, hCrosses⟩
    · cases hOld
    refine ⟨o, ho, hId, hPrice, fun hLimit => ?_⟩
    have hCrosses' : order.crosses o.price = true := hCrosses
    unfold Order.crosses at hCrosses'
    rw [hLimit] at hCrosses'
    rw [hPrice]
    cases hBuy : order.isBuy with
    | true => simpa [hBuy] using hCrosses'
    | false => simpa [hBuy] using hCrosses'
  · obtain ⟨o, ho, hId, -⟩ := ((hReaches.trail rfl rfl).withdrawn withdrawal hMem).resting
    exact ⟨o, ho, hId.symm⟩
  · have hSuffix : m.queue.map Order.id <:+ (book.queue order.side.opposite).map Order.id := by
      have hTerms := hReaches.terms.2.map Order.id
      rw [map_map, map_map] at hTerms
      exact hTerms
    exact hEnters.find_gone hValid hy (hSwept.gone_ahead
      (hValid.nodup_queue order.side.opposite) hSuffix
      (hValid.ahead_of_precedes hTimed hy hx hPrecedes) hTouched)

theorem Valid.replace_sweeps (hValid : book.Valid) (hTimed : book.Timed bound)
    {id : OrderId} {previous : Order} (hFind : book.find id = some previous) {newPrice : Int}
    {newQuantity newSequence : Nat} {now : Int} {outcome : Outcome Book ReplaceResult}
    (hOutcome : book.replace id newPrice newQuantity newSequence now [] [] = outcome) :
    SweepsInOrder (book.queue previous.side.opposite)
      (amended previous newPrice newQuantity newSequence now) outcome.book.find outcome.fills
      outcome.withdrawals := by
  cases replacement_of_eq hOutcome with
  | unknown hNone => exact sweepsInOrder_nil _ _ _
  | refused other reason hFind' hReason => exact sweepsInOrder_nil _ _ _
  | closed => exact sweepsInOrder_nil _ _ _
  | inPlace => exact sweepsInOrder_nil _ _ _
  | requeued other hFind' _ _ _ _ inserted hInserted =>
    cases hFind.symm.trans hFind'
    have hSweeps := (hValid.remove previous).insert_sweeps (hTimed.remove previous) hInserted.symm
    have hQueue : (book.remove previous).queue previous.side.opposite =
        book.queue previous.side.opposite := queue_setQueue_opposite _ _ _
    have hSide : (amended previous newPrice newQuantity newSequence now).side =
        previous.side := rfl
    rw [hSide, hQueue] at hSweeps
    exact hSweeps

end Book
end PriceTime
end ExchangeCore
