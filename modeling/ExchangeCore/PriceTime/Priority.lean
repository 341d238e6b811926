import ExchangeCore.PriceTime.Trail

/-!
# Places in a queue

`Ahead y x` says that one id stands before another in a queue.  A match only
takes orders off the other queue's front, a removal takes one out and a new
arrival joins behind its price, so the ids of a queue before and after an
operation are sublists of one another, and two orders that both stay keep their
order.  Only an order that is itself taken off and queued again can change its
place, and then it stands behind everyone at its price.
-/

namespace ExchangeCore

open List

namespace PriceTime

/-- Two elements of a list without repetitions keep their order in every sublist
that has both. -/
theorem pair_sublist_of_sublist {α : Type} {l l' : List α} {y x : α} (hNodup : l.Nodup)
    (hSub : l'.Sublist l) (hPair : [y, x].Sublist l) (hy : y ∈ l') (hx : x ∈ l') :
    [y, x].Sublist l' := by
  induction hSub with
  | slnil => cases hy
  | @cons l' l a hSub ih =>
    obtain ⟨hHead, hTail⟩ := nodup_cons.mp hNodup
    have hNe : y ≠ a := fun h => hHead (h ▸ hSub.subset hy)
    refine ih hTail ?_ hy hx
    cases hPair with
    | cons _ hPair => exact hPair
    | cons_cons _ hPair => exact absurd rfl hNe
  | @cons_cons l' l a hSub ih =>
    obtain ⟨hHead, hTail⟩ := nodup_cons.mp hNodup
    have hLast : x ≠ a → x ∈ l' := fun hNe => (mem_cons.mp hx).resolve_left hNe
    cases hPair with
    | cons _ hPair =>
      have hMem := hPair.subset
      have hyNe : y ≠ a := fun h => hHead (h ▸ hMem (by simp))
      have hxNe : x ≠ a := fun h => hHead (h ▸ hMem (by simp))
      exact (ih hTail hPair ((mem_cons.mp hy).resolve_left hyNe) (hLast hxNe)).cons _
    | cons_cons _ hPair =>
      have hxNe : x ≠ y := fun h => hHead (h ▸ hPair.subset (by simp))
      exact (singleton_sublist.mpr (hLast hxNe)).cons_cons _

/-- The order with id `y` stands before the one with id `x`. -/
def Ahead (y x : OrderId) (queue : List Order) : Prop := [y, x].Sublist (queue.map Order.id)

instance (y x : OrderId) (queue : List Order) : Decidable (Ahead y x queue) :=
  inferInstanceAs (Decidable (List.Sublist _ _))

section Ahead

variable {y x : OrderId} {queue queue' : List Order}

/-- Orders leave the queue, but not these two. -/
theorem Ahead.shrink (hAhead : Ahead y x queue) (hIds : (queue.map Order.id).Nodup)
    (hSub : (queue'.map Order.id).Sublist (queue.map Order.id)) (hy : y ∈ queue'.map Order.id)
    (hx : x ∈ queue'.map Order.id) : Ahead y x queue' :=
  pair_sublist_of_sublist hIds hSub hAhead hy hx

theorem sublist_enqueue (order : Order) (queue : List Order) :
    queue.Sublist (Book.enqueue order queue) := by
  unfold Book.enqueue
  nth_rewrite 1 [← takeWhile_append_dropWhile (p := order.yieldsTo) (l := queue)]
  exact (List.Sublist.refl _).append (sublist_cons_self _ _)

/-- An order joins the queue. -/
theorem Ahead.enqueue (hAhead : Ahead y x queue) (order : Order) :
    Ahead y x (Book.enqueue order queue) :=
  hAhead.trans ((sublist_enqueue order queue).map _)

/-- Whoever stands at the price of an arriving order stands ahead of it. -/
theorem ahead_of_enqueue {order resting : Order} (hSides : ∀ o ∈ queue, o.side = order.side)
    (hSorted : queue.Pairwise fun ahead behind => behind.yieldsTo ahead = true)
    (hMem : resting ∈ queue) (hPrice : resting.price = order.price) :
    Ahead resting.id order.id (Book.enqueue order queue) := by
  have hYields : order.yieldsTo resting = true := by
    simp [Order.yieldsTo, hPrice]
  have hFront : resting ∈ queue.takeWhile order.yieldsTo := by
    rw [← takeWhile_append_dropWhile (p := order.yieldsTo) (l := queue)] at hMem
    rcases mem_append.mp hMem with hFront | hBack
    · exact hFront
    have hNot := Book.not_yieldsTo_of_mem_dropWhile hSorted hSides resting hBack
    rw [hYields] at hNot
    contradiction
  have hPair : [resting, order].Sublist (Book.enqueue order queue) :=
    (singleton_sublist.mpr hFront).append (singleton_sublist.mpr mem_cons_self)
  exact hPair.map Order.id

end Ahead

namespace Book

/-- An order with this id rests on a side at a price. -/
def RestsAt (book : Book) (side : Side) (price : Int) (id : OrderId) : Prop :=
  ∃ order ∈ book.queue side, order.id = id ∧ order.price = price

theorem RestsAt.mem {book : Book} {side : Side} {price : Int} {id : OrderId}
    (hRests : book.RestsAt side price id) : id ∈ (book.queue side).map Order.id := by
  obtain ⟨order, hMem, rfl, -⟩ := hRests
  exact mem_map_of_mem hMem

section Places

variable {book : Book} {y x : OrderId} {side : Side} {order : Order} {fillable : Bool}
  {outcome : Outcome Book SubmitResult}

/-- The queues after an insertion: the other side has only lost orders, and on its
own side the order joined or nothing changed. -/
theorem insert_queues (hOutcome : book.insert fillable order [] [] = outcome) :
    ((outcome.book.queue order.side.opposite).map Order.id).Sublist
        ((book.queue order.side.opposite).map Order.id) ∧
      (outcome.book.queue order.side = book.queue order.side ∨
        ∃ left : Order, left.terms = order.terms ∧
          outcome.book.queue order.side = enqueue left (book.queue order.side)) := by
  cases insertion_of_eq hOutcome with
  | refused => exact ⟨List.Sublist.refl _, Or.inl rfl⟩
  | entered m rested hMatch =>
    have hReaches := Matching.reaches_of_finish hMatch
    obtain ⟨hOwn, hOther⟩ := queue_entered book order m rested
    refine ⟨hOther.symm ▸ ids_sublist_of_terms hReaches.terms.2.sublist, ?_⟩
    cases rested with
    | false => exact Or.inl hOwn
    | true => exact Or.inr ⟨m.incoming, hReaches.terms.1, hOwn⟩

/-- Two orders that rest before and after an insertion keep their order. -/
theorem insert_ahead (hOutcome : book.insert fillable order [] [] = outcome)
    (hIds : ((book.queue side).map Order.id).Nodup) (hAhead : Ahead y x (book.queue side))
    (hy : y ∈ (outcome.book.queue side).map Order.id)
    (hx : x ∈ (outcome.book.queue side).map Order.id) : Ahead y x (outcome.book.queue side) := by
  obtain ⟨hOther, hOwn⟩ := insert_queues hOutcome
  rcases queue_cases order.side side with rfl | rfl
  · rcases hOwn with hSame | ⟨left, -, hJoined⟩
    · rw [hSame]
      exact hAhead
    · rw [hJoined]
      exact hAhead.enqueue left
  · exact hAhead.shrink hIds hOther hy hx

theorem ids_remove (book : Book) (order : Order) (side : Side) :
    (((book.remove order).queue side).map Order.id).Sublist ((book.queue side).map Order.id) := by
  rcases queue_cases order.side side with rfl | rfl
  · rw [remove, queue_setQueue]
    exact (filter_sublist).map _
  · rw [remove, queue_setQueue_opposite]

theorem ids_cancel (book : Book) (id : OrderId) (side : Side) :
    (((book.cancel id).1.queue side).map Order.id).Sublist ((book.queue side).map Order.id) := by
  unfold cancel
  split
  · exact List.Sublist.refl _
  · exact ids_remove book _ side

theorem not_mem_ids_remove (hValid : book.Valid)
    (hMem : order ∈ book.queue order.side) (side : Side) :
    order.id ∉ ((book.remove order).queue side).map Order.id := by
  intro hId
  obtain ⟨o, ho, hSame⟩ := mem_map.mp hId
  exact find_eq_none_iff.mp (hValid.find_remove hMem) o (mem_orders.mpr ⟨side, ho⟩) hSame

theorem mem_ids_remove {other : OrderId}
    (hMem : other ∈ (book.queue side).map Order.id) (hNe : other ≠ order.id) :
    other ∈ ((book.remove order).queue side).map Order.id := by
  obtain ⟨o, ho, rfl⟩ := mem_map.mp hMem
  refine mem_map_of_mem ?_
  rcases queue_cases order.side side with rfl | rfl
  · rw [remove, queue_setQueue]
    exact mem_filter.mpr ⟨ho, by simpa using hNe⟩
  · rw [remove, queue_setQueue_opposite]
    exact ho

theorem ids_amendInPlace (book : Book) (order : Order) (quantity remaining : Nat) (side : Side) :
    ((book.amendInPlace order quantity remaining).queue side).map Order.id =
      (book.queue side).map Order.id := by
  rcases queue_cases order.side side with rfl | rfl
  · rw [amendInPlace, queue_setQueue, map_map]
    refine map_congr_left fun o _ => ?_
    simp only [Function.comp_apply]
    split <;> rfl
  · rw [amendInPlace, queue_setQueue_opposite]

variable {id : OrderId} {newPrice : Int} {newQuantity newSequence : Nat} {now : Int}

/-- An order that was not there before rests at its own price. -/
theorem price_of_restsAt (hOutcome : book.insert fillable order [] [] = outcome)
    (hFresh : order.id ∉ (book.queue order.side).map Order.id) {price : Int}
    (hRests : outcome.book.RestsAt order.side price order.id) : price = order.price := by
  obtain ⟨o, ho, hId, rfl⟩ := hRests
  obtain ⟨-, hSame | ⟨left, hTerms, hJoined⟩⟩ := insert_queues hOutcome
  · rw [hSame] at ho
    exact absurd (hId ▸ mem_map_of_mem ho) hFresh
  rw [hJoined, mem_enqueue] at ho
  rcases ho with rfl | ho
  · exact (Order.eq_of_terms_eq hTerms).2.2.2.1
  · exact absurd (hId ▸ mem_map_of_mem ho) hFresh

variable (hValid : book.Valid)
include hValid

/-- A re-queued order stands behind everyone at its price. -/
theorem Valid.ahead_of_requeued (hOutcome : book.insert fillable order [] [] = outcome)
    (hFresh : order.id ∉ (book.queue order.side).map Order.id) {resting : Order}
    (hRests : outcome.book.RestsAt order.side order.price order.id)
    (hMem : resting ∈ outcome.book.queue order.side) (hPrice : resting.price = order.price)
    (hNe : resting.id ≠ order.id) :
    Ahead resting.id order.id (outcome.book.queue order.side) := by
  obtain ⟨-, hSame | ⟨left, hTerms, hJoined⟩⟩ := insert_queues hOutcome
  · -- It did not join, so it would have to be an order that was there before.
    have hThere := hRests.mem
    rw [hSame] at hThere
    exact absurd hThere hFresh
  obtain ⟨hId, -, -, hLeftPrice, hSide, -⟩ := Order.eq_of_terms_eq hTerms
  rw [hJoined, mem_enqueue] at hMem
  rw [hJoined, ← hId]
  refine ahead_of_enqueue (fun o ho => ?_) (hValid.sorted _) (hMem.resolve_left ?_)
    (hPrice.trans hLeftPrice.symm)
  · rw [hSide]
    exact hValid.side_eq _ o ho
  · rintro rfl
    exact hNe hId

/-- Two orders that rest at one price before and after an amendment keep their
order, unless the one ahead is queued again. -/
theorem Valid.replace_ahead {price : Int} {outcome : Outcome Book ReplaceResult}
    (hOutcome : book.replace id newPrice newQuantity newSequence now [] [] = outcome)
    (hAhead : Ahead y x (book.queue side)) (hy : outcome.book.RestsAt side price y)
    (hx : outcome.book.RestsAt side price x)
    (hStays : id = y → outcome.result.reject = .none → ∀ previous, book.find y = some previous →
      newPrice = previous.price ∧ newQuantity < previous.quantity) :
    Ahead y x (outcome.book.queue side) := by
  have hIds := hValid.nodup_queue side
  cases replacement_of_eq hOutcome with
  | unknown => exact hAhead
  | refused => exact hAhead
  | closed previous => exact hAhead.shrink hIds (ids_remove book previous side) hy.mem hx.mem
  | inPlace previous =>
    unfold Ahead
    rw [ids_amendInPlace]
    exact hAhead
  | requeued previous hFind hPrice hQuantity _ hMoves inserted hInserted =>
    have hId : previous.id = id := ((find_eq_some_iff hValid.ids).mp hFind).2
    have hMem := hValid.mem_queue_of_find hFind
    have hGone := not_mem_ids_remove hValid hMem
    have hValid' := hValid.remove previous
    by_cases hOwn : id = y
    · -- The order ahead moved, which is excluded, or was dropped and is gone.
      by_cases hAccepted : inserted.result.reject = .none
      · exact absurd (hStays hOwn hAccepted previous (hOwn ▸ hFind)) hMoves
      obtain ⟨rfl, -⟩ := hValid.insert_amended hFind hPrice hQuantity hInserted.symm hAccepted
      have hThere := hy.mem
      rw [← hOwn, ← hId] at hThere
      exact absurd hThere (hGone side)
    · by_cases hBehind : id = x
      · -- The order behind was queued again, so it is behind everyone.
        obtain rfl : previous.id = x := hId.trans hBehind
        rcases queue_cases previous.side side with rfl | rfl
        · obtain rfl := price_of_restsAt hInserted.symm (hGone _) hx
          obtain ⟨o, ho, rfl, hPrice⟩ := hy
          exact hValid'.ahead_of_requeued hInserted.symm (hGone _) hx ho hPrice
            fun h => hOwn (hId.symm.trans h.symm)
        · exact absurd ((insert_queues hInserted.symm).1.subset hx.mem) (hGone _)
      · -- It was another order: the two keep their places while it is taken out,
        -- and while it joins again.
        have hMembers := hAhead.subset
        have hRemoved := hAhead.shrink hIds (ids_remove book previous side)
          (mem_ids_remove (hMembers (by simp)) fun h => hOwn (hId.symm.trans h.symm))
          (mem_ids_remove (hMembers (by simp)) fun h => hBehind (hId.symm.trans h.symm))
        exact insert_ahead hInserted.symm (hValid'.nodup_queue side) hRemoved hy.mem hx.mem

variable {outcome : Outcome Book ReplaceResult}
  (hOutcome : book.replace id newPrice newQuantity newSequence now [] [] = outcome)
include hOutcome

/-- An order that an amendment made larger or moved to another price, or that rests
without having retained its priority, stands behind everyone at its price. -/
theorem Valid.replace_behind {previous amended other : Order} (hFind : book.find id = some previous)
    (hMem : amended ∈ outcome.book.queue side) (hId : amended.id = id)
    (hMoves : previous.remaining < amended.remaining ∨ previous.price ≠ amended.price ∨
      outcome.result.rested = true ∧ outcome.result.priorityRetained = false)
    (hOther : other ∈ outcome.book.queue side) (hPrice : other.price = amended.price)
    (hNe : other.id ≠ id) : Ahead other.id id (outcome.book.queue side) := by
  have hPrevious := (find_eq_some_iff hValid.ids).mp hFind
  have hPreviousMem := hValid.mem_queue_of_find hFind
  have hLive := (hValid.rests _ previous hPreviousMem).live
  have hSame : ∀ o ∈ book.orders, o.id = id → o = previous := fun o ho hoId =>
    eq_of_find hValid.ids hFind ho hoId
  cases replacement_of_eq hOutcome with
  | unknown hNone =>
    rw [hNone] at hFind
    contradiction
  | refused =>
    rw [hSame amended (mem_orders.mpr ⟨side, hMem⟩) hId] at hMoves
    rcases hMoves with hMore | hMoved | ⟨hRested, -⟩
    · exact absurd hMore (Nat.lt_irrefl _)
    · exact absurd rfl hMoved
    · cases hRested
  | closed previous' hFind' =>
    cases hFind.symm.trans hFind'
    have hGone := not_mem_ids_remove hValid hPreviousMem side
    rw [hPrevious.2, ← hId] at hGone
    exact absurd (mem_map_of_mem hMem) hGone
  | inPlace previous' hFind' _ _ _ hShrinks =>
    cases hFind.symm.trans hFind'
    -- It has become smaller where it stood.
    have hLess : amended.remaining ≤ previous.remaining ∧ amended.price = previous.price := by
      rcases mem_orders_amendInPlace (mem_orders.mpr ⟨side, hMem⟩) with
        hThere | ⟨o, ho, hoId, rfl⟩
      · rw [hSame amended hThere hId]
        exact ⟨le_rfl, rfl⟩
      rw [hSame o ho (hoId.trans hPrevious.2)]
      refine ⟨?_, rfl⟩
      show newQuantity - previous.filled ≤ previous.remaining
      unfold Order.filled
      omega
    rcases hMoves with hMore | hMoved | ⟨-, hRetained⟩
    · omega
    · exact absurd hLess.2.symm hMoved
    · cases hRetained
  | requeued previous' hFind' _ _ _ _ inserted hInserted =>
    cases hFind.symm.trans hFind'
    have hGone := not_mem_ids_remove hValid hPreviousMem
    have hRests : inserted.book.RestsAt side amended.price previous.id :=
      ⟨amended, hMem, hId.trans hPrevious.2.symm, rfl⟩
    rw [← hPrevious.2] at hNe ⊢
    rcases queue_cases previous.side side with rfl | rfl
    · have hOwnPrice := price_of_restsAt hInserted.symm (hGone _) hRests
      rw [hOwnPrice] at hRests
      exact (hValid.remove previous).ahead_of_requeued hInserted.symm (hGone _) hRests hOther
        (hPrice.trans hOwnPrice) hNe
    · exact absurd ((insert_queues hInserted.symm).1.subset hRests.mem) (hGone _)

/-- An amendment that retained its order's priority changed that order's size and
remainder, and nothing else. -/
theorem Valid.replace_retained (hRetained : outcome.result.priorityRetained = true) :
    (∀ side, outcome.book.queue side = (book.queue side).map fun order =>
        if order.id = id then
          { order with quantity := newQuantity, remaining := newQuantity - order.filled }
        else order) ∧
      outcome.book.nextTradeId = book.nextTradeId ∧ outcome.fills = [] ∧
      outcome.withdrawals = [] := by
  cases replacement_of_eq hOutcome with
  | unknown => cases hRetained
  | refused => cases hRetained
  | closed => cases hRetained
  | requeued => cases hRetained
  | inPlace previous hFind =>
    have hPrevious := (find_eq_some_iff hValid.ids).mp hFind
    have hSame : ∀ o ∈ book.orders, o.id = id → o = previous := fun o ho hoId =>
      eq_of_find hValid.ids hFind ho hoId
    refine ⟨fun side => ?_, ?_, rfl, rfl⟩
    · rcases queue_cases previous.side side with rfl | rfl
      · rw [Book.amendInPlace, queue_setQueue]
        refine map_congr_left fun o ho => ?_
        rw [hPrevious.2]
        split
        · next hoId => rw [hSame o (mem_orders.mpr ⟨_, ho⟩) hoId]
        · rfl
      · -- The id rests on the other side.
        rw [Book.amendInPlace, queue_setQueue_opposite]
        refine (map_id _).symm.trans (map_congr_left fun o ho => (if_neg ?_).symm)
        intro hoId
        have hSide := hValid.side_eq _ o ho
        rw [hSame o (mem_orders.mpr ⟨_, ho⟩) hoId] at hSide
        exact Side.opposite_ne previous.side hSide.symm
    · rw [Book.amendInPlace, nextTradeId_setQueue]

end Places

end Book

end PriceTime
end ExchangeCore
