import ExchangeCore.PriceTime.Book

/-!
# Time priority

Commands carry sequence numbers.  While these increase, the orders at one price
stand in the queue in the order they were stamped: `Timed book bound` says so,
and that every stamp so far is below `bound`.
-/

namespace ExchangeCore
namespace PriceTime
namespace Book

structure Timed (book : Book) (bound : Nat) : Prop where
  before : ∀ side, ∀ order ∈ book.queue side, order.sequence < bound
  ordered : ∀ side, (book.queue side).Pairwise fun ahead behind =>
    ahead.price = behind.price → ahead.sequence < behind.sequence

theorem timed_empty (instrument : Instrument) (bound : Nat) :
    Timed { instrument := instrument } bound where
  before := fun side order hMem => by cases side <;> simp [queue] at hMem
  ordered := fun side => by cases side <;> simp [queue]

variable {book : Book} {bound : Nat} (hTimed : book.Timed bound)
include hTimed

theorem Timed.mono {bound' : Nat} (hLe : bound ≤ bound') : book.Timed bound' :=
  ⟨fun side order hMem => lt_of_lt_of_le (hTimed.before side order hMem) hLe, hTimed.ordered⟩

/-- A queue that only loses orders and quantity stays timed. -/
theorem Timed.shrink (side : Side) {q : List Order}
    (hSub : (q.map Order.terms).Sublist ((book.queue side).map Order.terms)) :
    (book.setQueue side q).Timed bound := by
  constructor
  · intro s order hMem
    rcases queue_cases side s with rfl | rfl
    · rw [queue_setQueue] at hMem
      obtain ⟨o, ho, hTerms⟩ := exists_of_terms_sublist hSub hMem
      rw [(Order.eq_of_terms_eq hTerms).2.2.2.2.2.2.2.2.1]
      exact hTimed.before s o ho
    · rw [queue_setQueue_opposite] at hMem
      exact hTimed.before _ order hMem
  · intro s
    rcases queue_cases side s with rfl | rfl
    · rw [queue_setQueue]
      -- Prices and stamps are terms, and the terms are a sublist.
      have hTerms : ((book.queue s).map Order.terms).Pairwise fun ahead behind =>
          ahead.price = behind.price → ahead.sequence < behind.sequence := by
        rw [List.pairwise_map]
        exact hTimed.ordered s
      have hPair := hTerms.sublist hSub
      rw [List.pairwise_map] at hPair
      exact hPair
    · rw [queue_setQueue_opposite]
      exact hTimed.ordered _

theorem Timed.setNextTradeId (nextTradeId : Nat) :
    Timed { book with nextTradeId := nextTradeId } bound :=
  ⟨hTimed.before, hTimed.ordered⟩

/-- A newcomer goes behind everything at its price. -/
theorem Timed.enqueue (hValid : book.Valid) (order : Order) (hLate : bound ≤ order.sequence) :
    (book.setQueue order.side (Book.enqueue order (book.queue order.side))).Timed
      (order.sequence + 1) := by
  have hBefore := hTimed.before order.side
  have hOrdered := hTimed.ordered order.side
  constructor
  · intro s x hMem
    rcases queue_cases order.side s with rfl | rfl
    · rw [queue_setQueue, mem_enqueue] at hMem
      rcases hMem with rfl | hMem
      · exact Nat.lt_succ_self _
      · have := hBefore x hMem
        omega
    rw [queue_setQueue_opposite] at hMem
    have := hTimed.before _ x hMem
    omega
  · intro s
    rcases queue_cases order.side s with rfl | rfl
    · rw [queue_setQueue]
      have hAfter := not_yieldsTo_of_mem_dropWhile (hValid.sorted order.side)
        (hValid.side_eq order.side)
      have hSplit := List.takeWhile_append_dropWhile (p := order.yieldsTo)
        (l := book.queue order.side)
      rw [← hSplit, List.pairwise_append] at hOrdered
      obtain ⟨hTake, hDrop, hCross⟩ := hOrdered
      rw [Book.enqueue, List.pairwise_append, List.pairwise_cons]
      refine ⟨hTake, ⟨fun x hx hPrice => ?_, hDrop⟩, fun x hx y hy hPrice => ?_⟩
      · -- Whatever stands behind the newcomer has a worse price.
        have hNot := hAfter x hx
        simp [Order.yieldsTo, hPrice] at hNot
      · rcases List.mem_cons.mp hy with rfl | hy
        · have := hBefore x ((List.takeWhile_prefix _).subset hx)
          omega
        · exact hCross x hx y hy hPrice
    · rw [queue_setQueue_opposite]
      exact hTimed.ordered _

theorem Timed.matched {order : Order} {fills : List Fill} {withdrawals : List Withdrawal}
    {m : Matching} (hMatch : (book.arrival order fills withdrawals).finish book.instrument = m) :
    (book.matched order m).Timed bound := by
  have hReaches := Matching.reaches_of_finish hMatch
  exact (hTimed.shrink _ hReaches.terms.2.sublist).setNextTradeId _

/-- Inserting an order stamped after all others. -/
theorem Timed.insert (hValid : book.Valid) {order : Order}
    (hLate : bound ≤ order.sequence) (fillable : Bool) (fills : List Fill)
    (withdrawals : List Withdrawal) :
    (book.insert fillable order fills withdrawals).book.Timed (order.sequence + 1) := by
  have hCases := insert_cases book fillable order fills withdrawals
  generalize book.insert fillable order fills withdrawals = outcome at hCases ⊢
  cases hCases with
  | refused => exact hTimed.mono (by omega)
  | entered m rested hMatch =>
    cases rested with
    | false => exact (hTimed.matched hMatch).mono (by omega)
    | true =>
    have hReaches := Matching.reaches_of_finish hMatch
    obtain ⟨-, -, -, -, hSide, -, -, -, hSequence, -⟩ :=
      Order.eq_of_terms_eq hReaches.terms.1
    have hSide' : m.incoming.side = order.side := hSide
    have hSequence' : m.incoming.sequence = order.sequence := hSequence
    have hRested := (hTimed.matched hMatch).enqueue (hValid.matched hMatch) m.incoming (by omega)
    rw [hSide', hSequence'] at hRested
    exact hRested

theorem Timed.remove (order : Order) : (book.remove order).Timed bound :=
  hTimed.shrink _ (terms_remove_sublist book order)

theorem Timed.cancel (id : OrderId) : (book.cancel id).1.Timed bound := by
  unfold Book.cancel
  split
  · exact hTimed
  · exact hTimed.remove _

/-- Amending keeps an order's stamp when it shrinks in place and gives it the
newest one otherwise. -/
theorem Timed.replace (hValid : book.Valid) (id : OrderId)
    (newPrice : Int) (newQuantity : Nat) {newSequence : Nat} (hLate : bound ≤ newSequence)
    (now : Int) (fills : List Fill) (withdrawals : List Withdrawal) :
    (book.replace id newPrice newQuantity newSequence now fills withdrawals).book.Timed
      (newSequence + 1) := by
  have hCases := replace_cases book id newPrice newQuantity newSequence now fills withdrawals
  generalize book.replace id newPrice newQuantity newSequence now fills withdrawals = outcome
    at hCases ⊢
  cases hCases with
  | unknown => exact hTimed.mono (by omega)
  | refused => exact hTimed.mono (by omega)
  | closed previous => exact (hTimed.remove previous).mono (by omega)
  | inPlace previous =>
    have hSame := hTimed.shrink previous.side
      (by rw [terms_amendInPlace book previous newQuantity (newQuantity - previous.filled)])
    exact hSame.mono (by omega)
  | requeued previous hFind _ _ _ _ outcome hOutcome =>
    subst hOutcome
    exact (hTimed.remove previous).insert (hValid.remove previous)
      (show bound ≤ (amended previous newPrice newQuantity newSequence now).sequence from hLate)
      true fills withdrawals

end Book
end PriceTime
end ExchangeCore
