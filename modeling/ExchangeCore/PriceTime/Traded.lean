import ExchangeCore.PriceTime.Trail

/-!
# What the fills say an order traded

`Fill.tradedBy` adds up the fills that name an order on either side.  A match
moves it and the order's own filled quantity by the same amount: a trade takes
from what remains and prints, and prevention takes from size and remainder alike
and prints nothing.

An order keeps its filled quantity through an amendment, so the same holds of the
book's operations: what rests afterwards has the filled quantity it had before
plus what the fills of the operation say.
-/

namespace ExchangeCore

/-- The quantity of the fills in which an order took part, as aggressor or as
resting order. -/
def Fill.tradedBy (id : OrderId) (fills : List Fill) : Nat :=
  (fills.map fun fill =>
    if fill.aggressorOrder = id ∨ fill.restingOrder = id then fill.quantity else 0).sum

section TradedBy

variable (id : OrderId)

@[simp] theorem Fill.tradedBy_nil : Fill.tradedBy id [] = 0 := rfl

@[simp] theorem Fill.tradedBy_append (fills fills' : List Fill) :
    Fill.tradedBy id (fills ++ fills') = Fill.tradedBy id fills + Fill.tradedBy id fills' := by
  simp [Fill.tradedBy]

/-- A trade counts for its two parties. -/
theorem Fill.tradedBy_between (instrument : Instrument) (trade : Nat) (price : Int)
    (quantity : Nat) (incoming resting : Order) :
    Fill.tradedBy id [Fill.between instrument trade price quantity incoming resting] =
      if incoming.id = id ∨ resting.id = id then quantity else 0 :=
  List.sum_singleton

/-- An order no fill names has not traded. -/
theorem Fill.tradedBy_eq_zero {id : OrderId} {fills : List Fill}
    (hOther : ∀ fill ∈ fills, fill.aggressorOrder ≠ id ∧ fill.restingOrder ≠ id) :
    Fill.tradedBy id fills = 0 :=
  sum_ite_eq_zero fun fill hFill => not_or.mpr (hOther fill hFill)

end TradedBy

namespace Order

variable {order : Order} {quantity : Nat}

variable (hLe : order.remaining ≤ order.quantity) (hRoom : quantity ≤ order.remaining)
include hLe hRoom

theorem filled_take : (order.take quantity).filled = order.filled + quantity := by
  unfold Order.filled Order.take
  dsimp only
  omega

/-- Withdrawn quantity does not count as filled. -/
theorem filled_shrink : (order.shrink quantity).filled = order.filled := by
  unfold Order.filled Order.shrink
  dsimp only
  omega

end Order

namespace PriceTime

namespace Matching

variable {instrument : Instrument} {m m' : Matching}

/-- `x` has filled what `o` had filled and what the fills give it since. -/
def Carries (fills : List Fill) (x o : Order) : Prop :=
  x.id = o.id ∧ x.filled = o.filled + Fill.tradedBy x.id fills

/-- What keeps the two counts together in one match: ids are distinct, and no
order has more remaining than its size. -/
structure Distinct (m : Matching) : Prop where
  ids : (m.queue.map Order.id).Nodup
  fresh : ∀ o ∈ m.queue, o.id ≠ m.incoming.id
  live : ∀ o ∈ m.queue, o.Live
  le : m.incoming.remaining ≤ m.incoming.quantity

theorem Distinct.reaches (hDistinct : m.Distinct) (hReaches : Reaches instrument m m') :
    m'.Distinct := by
  obtain ⟨hIncoming, hQueue⟩ := hReaches.terms
  refine ⟨?_, fun o ho => ?_, hReaches.live hDistinct.live, hReaches.remaining_le hDistinct.le⟩
  · exact (Book.ids_sublist_of_terms hQueue.sublist).nodup hDistinct.ids
  · obtain ⟨o', ho', hTerms⟩ := Book.exists_of_terms_sublist hQueue.sublist ho
    rw [(Order.eq_of_terms_eq hTerms).1, (Order.eq_of_terms_eq hIncoming).1]
    exact hDistinct.fresh o' ho'

/-- Both parties' filled quantities follow the fills; the incoming order's as long
as prevention has not cancelled what was left of it. -/
structure Accounted (order : Order) (queue : List Order) (m : Matching) : Prop where
  incoming : m.incoming.remaining ≠ 0 → Carries m.fills m.incoming order
  queue : ∀ x ∈ m.queue, ∃ o ∈ queue, Carries m.fills x o

theorem Accounted.step {order : Order} {queue : List Order} (hAccounted : Accounted order queue m)
    (hDistinct : m.Distinct) (hStep : m.step instrument = some m') :
    Accounted order queue m' := by
  obtain ⟨head, rest, hQueue, hLeft, -, hMeets⟩ := step_cases hStep
  obtain ⟨hIds, hFresh, hLive, hLe⟩ := hDistinct
  obtain ⟨hIncoming, hCarried⟩ := hAccounted
  rw [hQueue] at hIds hFresh hLive hCarried
  obtain ⟨hIncomingId, hIncomingFilled⟩ := hIncoming (by omega)
  obtain ⟨origin, hOrigin, hHeadId, hHeadFilled⟩ := hCarried head (by simp)
  have hRest : ∀ x ∈ rest, ∃ o ∈ queue, Carries m.fills x o := fun x hx => hCarried x (by simp [hx])
  have hHeadLive := hLive head (by simp)
  have hHeadFresh := hFresh head (by simp)
  rw [List.map_cons, List.nodup_cons] at hIds
  cases hMeets with
  | trade =>
    generalize hTraded : min m.incoming.remaining head.remaining = traded
    have hRoom : traded ≤ m.incoming.remaining := hTraded ▸ Nat.min_le_left _ _
    have hHeadRoom : traded ≤ head.remaining := hTraded ▸ Nat.min_le_right _ _
    simp only [trade, hTraded]
    refine ⟨fun _ => ⟨hIncomingId, ?_⟩,
      forall_mem_settle (fun _ => ⟨origin, hOrigin, hHeadId, ?_⟩) ?_⟩
    · rw [Order.filled_take hLe hRoom, hIncomingFilled, Fill.tradedBy_append,
        Fill.tradedBy_between, if_pos (Or.inl rfl), Nat.add_assoc]
      rfl
    · rw [Order.filled_take hHeadLive.2 hHeadRoom, hHeadFilled, Fill.tradedBy_append,
        Fill.tradedBy_between, if_pos (Or.inr rfl), Nat.add_assoc]
      rfl
    · -- Neither party is an order further back.
      intro x hx
      obtain ⟨o, ho, hId, hFilled⟩ := hRest x hx
      refine ⟨o, ho, hId, ?_⟩
      have hNotHead : (head.take traded).id ≠ x.id := fun h =>
        hIds.1 (h ▸ List.mem_map_of_mem hx)
      have hNotIncoming : (m.incoming.take traded).id ≠ x.id := fun h =>
        hFresh x (by simp [hx]) h.symm
      rw [hFilled, Fill.tradedBy_append, Fill.tradedBy_between,
        if_neg (not_or.mpr ⟨hNotIncoming, hNotHead⟩), Nat.add_zero]
  | cancelIncoming =>
    refine ⟨fun hAgain => absurd rfl hAgain, ?_⟩
    show ∀ x ∈ m.queue, _
    rw [hQueue]
    exact hCarried
  | cancelResting => exact ⟨hIncoming, hRest⟩
  | cancelBoth => exact ⟨fun hAgain => absurd rfl hAgain, hRest⟩
  | decrementBoth =>
    generalize hOverlap : min m.incoming.remaining head.remaining = overlap
    have hRoom : overlap ≤ m.incoming.remaining := hOverlap ▸ Nat.min_le_left _ _
    have hHeadRoom : overlap ≤ head.remaining := hOverlap ▸ Nat.min_le_right _ _
    simp only [decrementBoth, hOverlap]
    refine ⟨fun _ => ⟨hIncomingId, ?_⟩,
      forall_mem_settle (fun _ => ⟨origin, hOrigin, hHeadId, ?_⟩) hRest⟩
    · rw [Order.filled_shrink hLe hRoom]
      exact hIncomingFilled
    · rw [Order.filled_shrink hHeadLive.2 hHeadRoom]
      exact hHeadFilled

/-- A whole match, from nothing printed. -/
theorem Reaches.accounted (hReaches : Reaches instrument m m') (hFills : m.fills = [])
    (hDistinct : m.Distinct) : Accounted m.incoming m.queue m' := by
  induction hReaches with
  | refl =>
    have hSelf : ∀ x : Order, Carries m.fills x x := fun x => ⟨rfl, by simp [hFills]⟩
    exact ⟨fun _ => hSelf _, fun x hx => ⟨x, hx, hSelf x⟩⟩
  | tail hPrefix hNext ih => exact ih.step (hDistinct.reaches hPrefix) hNext

end Matching

namespace Book

variable {book : Book}

/-- What rests of an accepted order has filled what it came with and what the fills
give it; every other order, what it had filled and what the fills give it. -/
theorem Valid.insert_carries (hValid : book.Valid) {order : Order}
    (hLe : order.remaining ≤ order.quantity) {fillable : Bool} {outcome : Outcome Book SubmitResult}
    (hOutcome : book.insert fillable order [] [] = outcome) :
    ∀ x ∈ outcome.book.orders, (∃ o ∈ book.orders, Matching.Carries outcome.fills x o) ∨
      outcome.result.reject = .none ∧ Matching.Carries outcome.fills x order := by
  have hTrail := insert_trail hOutcome
  have hCases := insertion_of_eq hOutcome
  have hSelf : ∀ x : Order, Matching.Carries [] x x := fun x => ⟨rfl, rfl⟩
  -- The orders on its own side are named by no fill.
  have hOwn : book.validate order = .none → ∀ x ∈ book.queue order.side,
      Fill.tradedBy x.id outcome.fills = 0 := by
    intro hValidated x hx
    obtain ⟨-, -, -, hFresh⟩ := validate_eq_none_iff.mp hValidated
    refine Fill.tradedBy_eq_zero fun fill hFill => ?_
    have hBetween := hTrail.printed fill hFill
    obtain ⟨o, ho, hResting, -⟩ := hBetween.resting
    rw [hBetween.aggressor, hResting]
    refine ⟨fun h => find_eq_none_iff.mp hFresh x (mem_orders.mpr ⟨_, hx⟩) h.symm, fun h => ?_⟩
    have hxSide := hValid.side_eq _ x hx
    have hoSide := hValid.side_eq _ o ho
    have hFind := (find_eq_some_iff hValid.ids).mpr ⟨mem_orders.mpr ⟨_, ho⟩, (rfl : o.id = o.id)⟩
    rw [eq_of_find hValid.ids hFind (mem_orders.mpr ⟨_, hx⟩) h.symm, hoSide] at hxSide
    exact Side.opposite_ne order.side hxSide
  have hMatched : ∀ {m : Matching}, (book.arrival order [] []).finish book.instrument = m →
      m.fills = outcome.fills → book.validate order = .none →
      Matching.Accounted order (book.queue order.side.opposite) m ∧
        ∀ x ∈ (book.matched order m).orders,
          ∃ o ∈ book.orders, Matching.Carries outcome.fills x o := by
    intro m hMatch hFills hValidated
    obtain ⟨-, -, -, hFresh⟩ := validate_eq_none_iff.mp hValidated
    have hDistinct : (book.arrival order [] []).Distinct :=
      ⟨hValid.nodup_queue _, fun o ho => find_eq_none_iff.mp hFresh o (mem_orders.mpr ⟨_, ho⟩),
        fun o ho => (hValid.rests _ o ho).live, hLe⟩
    have hAccounted := (Matching.reaches_finish book.instrument
      (book.arrival order [] [])).accounted rfl hDistinct
    rw [hMatch] at hAccounted
    refine ⟨hAccounted, fun x hx => ?_⟩
    rcases mem_orders_matched.mp hx with hLeft | hSame
    · obtain ⟨o, ho, hCarries⟩ := hAccounted.queue x hLeft
      exact ⟨o, mem_orders.mpr ⟨_, ho⟩, hFills ▸ hCarries⟩
    · exact ⟨x, mem_orders.mpr ⟨_, hSame⟩, rfl, by rw [hOwn hValidated x hSame, Nat.add_zero]⟩
  cases hCases with
  | refused => exact fun x hx => Or.inl ⟨x, hx, hSelf x⟩
  | entered m rested hMatch hAccepts hRested =>
    obtain ⟨hAccounted, hOthers⟩ := hMatched hMatch rfl hAccepts.1
    intro x hx
    rcases mem_orders_entered.mp hx with ⟨hRests, rfl⟩ | hx
    · exact Or.inr ⟨rfl, hAccounted.incoming (hRested.mp hRests).1⟩
    · exact Or.inl (hOthers x hx)

/-- Through an amendment every order that rests keeps what it had filled. -/
theorem Valid.replace_carries (hValid : book.Valid) {id : OrderId} {newPrice : Int}
    {newQuantity newSequence : Nat} {now : Int} {outcome : Outcome Book ReplaceResult}
    (hOutcome : book.replace id newPrice newQuantity newSequence now [] [] = outcome) :
    ∀ x ∈ outcome.book.orders, ∃ o ∈ book.orders, Matching.Carries outcome.fills x o := by
  have hSelf : ∀ x : Order, Matching.Carries [] x x := fun x => ⟨rfl, rfl⟩
  cases replacement_of_eq hOutcome with
  | unknown => exact fun x hx => ⟨x, hx, hSelf x⟩
  | refused => exact fun x hx => ⟨x, hx, hSelf x⟩
  | closed => exact fun x hx => ⟨x, mem_orders_remove hx, hSelf x⟩
  | inPlace previous hFind _ _ hMore hShrinks =>
    intro x hx
    rcases mem_orders_amendInPlace hx with hx | ⟨o, ho, hId, rfl⟩
    · exact ⟨x, hx, hSelf x⟩
    refine ⟨o, ho, rfl, ?_⟩
    rw [eq_of_find hValid.ids hFind ho (hId.trans ((find_eq_some_iff hValid.ids).mp hFind).2)]
    show newQuantity - (newQuantity - previous.filled) = previous.filled + 0
    omega
  | requeued previous hFind _ _ hMore _ inserted hInserted =>
    have hMem := hValid.mem_queue_of_find hFind
    have hAmended : (amended previous newPrice newQuantity newSequence now).filled =
        previous.filled := by
      show newQuantity - (newQuantity - previous.filled) = previous.filled
      omega
    intro x hx
    rcases (hValid.remove previous).insert_carries (Nat.sub_le _ _) hInserted.symm x hx with
      ⟨o, ho, hCarries⟩ | ⟨-, hId, hFilled⟩
    · exact ⟨o, mem_orders_remove ho, hCarries⟩
    · exact ⟨previous, mem_orders.mpr ⟨_, hMem⟩, hId, hAmended ▸ hFilled⟩

end Book
end PriceTime
end ExchangeCore
