import Mathlib.Data.List.Nodup
import Mathlib.Data.List.Perm.Basic
import Mathlib.Data.List.TakeWhile
import ExchangeCore.PriceTime.Matching

/-!
# The abstract book

Two queues in matching order and a trade counter.  Submitting, cancelling and
amending are stated on the queues alone, and `Valid` is what every reachable
book satisfies: sides and prices in order, distinct ids, only restable orders,
and no bid at or above an ask.

A fill-or-kill order is accepted on a verdict supplied by the caller.  A book
computes that verdict from its own bookkeeping; nothing `Valid` says depends on
what it is.
-/

namespace ExchangeCore

open List

/-- `order` stands behind `resting` at an equal price, and behind any better
one. -/
def Order.yieldsTo (order resting : Order) : Bool :=
  if order.isBuy then decide (order.price ≤ resting.price)
  else decide (resting.price ≤ order.price)

/-- An order that may rest in a book of this instrument. -/
structure Order.Rests (order : Order) (instrument : Instrument) : Prop where
  instrument_eq : order.instrument = instrument.id
  limit : order.type = .limit
  tif : order.tif = .day ∨ order.tif = .goodTilCancelled
  price : instrument.isValidPrice order.price = true
  live : order.Live

namespace PriceTime

structure Book where
  instrument : Instrument
  bids : List Order := []
  asks : List Order := []
  nextTradeId : Nat := 1

namespace Book

variable (book : Book)

def queue : Side → List Order
  | .buy => book.bids
  | .sell => book.asks

def setQueue (side : Side) (queue : List Order) : Book :=
  match side with
  | .buy => { book with bids := queue }
  | .sell => { book with asks := queue }

/-- Every resting order in matching order, bids before asks. -/
def orders : List Order := book.bids ++ book.asks

def find (id : OrderId) : Option Order :=
  book.orders.find? fun order => decide (order.id = id)

section

variable (order : Order)

def validate : RejectReason :=
  if order.instrument ≠ book.instrument.id then .unknownInstrument
  else if !book.instrument.isValidQuantity order.quantity then .invalidQuantity
  else if order.type == .limit && !book.instrument.isValidPrice order.price then .invalidPrice
  else if (book.find order.id).isSome then .duplicateOrderId
  else .none

/-- The order would take liquidity on arrival. -/
def wouldCross : Bool :=
  order.type == .market ||
    (book.queue order.side.opposite).head?.any fun head => order.crosses head.price

/-- Join the queue behind everything at least as good. -/
def enqueue (queue : List Order) : List Order :=
  queue.takeWhile order.yieldsTo ++ order :: queue.dropWhile order.yieldsTo

/-- The match an accepted order starts. -/
def arrival (fills : List Fill) (withdrawals : List Withdrawal) : Matching :=
  { incoming := order
    queue := book.queue order.side.opposite
    nextTradeId := book.nextTradeId
    fills := fills
    withdrawals := withdrawals }

/-- The remainder of an order expires instead of resting. -/
def expires : Bool :=
  order.type == .market || order.tif == .immediateOrCancel

/-- The book after a match, before any remainder rests. -/
def matched (m : Matching) : Book :=
  { book.setQueue order.side.opposite m.queue with nextTradeId := m.nextTradeId }

/-- What a match fills: neither left over nor withdrawn by prevention. -/
def filledBy (m : Matching) : Nat :=
  order.remaining - m.incoming.remaining - m.stpCancelled

/-- The whole order would fill on arrival. -/
def canFill : Bool :=
  decide (order.remaining ≤ filledBy order ((book.arrival order [] []).finish book.instrument))

end

section

variable (fillable : Bool) (order : Order) (fills : List Fill) (withdrawals : List Withdrawal)

/-- Match an order and rest what its time in force permits. -/
def insert : Outcome Book SubmitResult :=
  if book.validate order ≠ .none then
    ⟨book, { reject := book.validate order }, fills, withdrawals⟩
  else if order.postOnly && book.wouldCross order then
    ⟨book, { reject := .postOnlyWouldCross }, fills, withdrawals⟩
  else if order.tif == .fillOrKill && !fillable then
    ⟨book, { reject := .fillOrKillUnfillable }, fills, withdrawals⟩
  else
    let m := (book.arrival order fills withdrawals).finish book.instrument
    let after := book.matched order m
    let result : SubmitResult :=
      { filled := filledBy order m, stpCancelled := m.stpCancelled }
    if m.incoming.remaining = 0 || expires order then
      ⟨after, result, m.fills, m.withdrawals⟩
    else
      ⟨after.setQueue order.side (enqueue m.incoming (after.queue order.side)),
        { result with rested := true }, m.fills, m.withdrawals⟩

def submit : Outcome Book SubmitResult :=
  book.insert fillable { order with remaining := order.quantity } fills withdrawals

end

/-- Take an order out of its queue. -/
def remove (order : Order) : Book :=
  book.setQueue order.side
    ((book.queue order.side).filter fun other => decide (other.id ≠ order.id))

def cancel (id : OrderId) : Book × CancelResult :=
  match book.find id with
  | none => (book, { reject := .unknownOrder })
  | some order => (book.remove order, { order := order })

/-- Shrink an order where it stands. -/
def amendInPlace (order : Order) (quantity remaining : Nat) : Book :=
  book.setQueue order.side ((book.queue order.side).map fun other =>
      if other.id = order.id then { other with quantity := quantity, remaining := remaining }
      else other)

/-- The order an amendment sends back to the tail of the queue. -/
def amended (previous : Order) (newPrice : Int) (newQuantity newSequence : Nat) (now : Int) :
    Order :=
  { previous with
    price := newPrice
    quantity := newQuantity
    remaining := newQuantity - previous.filled
    sequence := newSequence
    acceptedAt := now }

def replace (id : OrderId) (newPrice : Int) (newQuantity newSequence : Nat)
    (now : Int) (fills : List Fill) (withdrawals : List Withdrawal) : Outcome Book ReplaceResult :=
  match book.find id with
  | none => ⟨book, { reject := .unknownOrder }, fills, withdrawals⟩
  | some previous =>
    if !book.instrument.isValidPrice newPrice then
      ⟨book, { reject := .invalidPrice, previous := previous }, fills, withdrawals⟩
    else if !book.instrument.isValidQuantity newQuantity then
      ⟨book, { reject := .invalidQuantity, previous := previous }, fills, withdrawals⟩
    else if newQuantity ≤ previous.filled then
      ⟨book.remove previous, { previous := previous }, fills, withdrawals⟩
    else if newPrice = previous.price ∧ newQuantity < previous.quantity then
      ⟨book.amendInPlace previous newQuantity (newQuantity - previous.filled),
        { previous := previous, priorityRetained := true, rested := true }, fills, withdrawals⟩
    else
      let outcome := (book.remove previous).insert true
        (amended previous newPrice newQuantity newSequence now) fills withdrawals
      ⟨outcome.book,
        { reject := outcome.result.reject
          previous := previous
          filled := outcome.result.filled
          stpCancelled := outcome.result.stpCancelled
          rested := outcome.result.rested },
        outcome.fills, outcome.withdrawals⟩

/-! ## What each operation does -/

/-- A new order is taken in; `fillable` is the verdict on a fill-or-kill order. -/
def Accepts (fillable : Bool) (order : Order) : Prop :=
  book.validate order = .none ∧ (order.postOnly = true → book.wouldCross order = false) ∧
    (order.tif = .fillOrKill → fillable = true)

instance (fillable : Bool) (order : Order) : Decidable (book.Accepts fillable order) :=
  inferInstanceAs (Decidable (_ ∧ _))

/-- The book after a match, with what is left of the order in its own queue if it rests. -/
def entered (order : Order) (m : Matching) (rested : Bool) : Book :=
  if rested then (book.matched order m).setQueue order.side
    (enqueue m.incoming ((book.matched order m).queue order.side))
  else book.matched order m

section Insertion

variable (fillable : Bool) (order : Order) (fills : List Fill) (withdrawals : List Withdrawal)

/-- The two ways an insertion ends. -/
inductive Insertion : Outcome Book SubmitResult → Prop
  | refused (reason : RejectReason) (hReason : reason ≠ .none)
      (hWhy : book.validate order = reason ∨
        (reason = .postOnlyWouldCross ∧ order.postOnly = true ∧ book.wouldCross order = true) ∨
        (reason = .fillOrKillUnfillable ∧ order.tif = .fillOrKill ∧ fillable = false)) :
      Insertion ⟨book, { reject := reason }, fills, withdrawals⟩
  | entered (m : Matching) (rested : Bool)
      (hMatch : (book.arrival order fills withdrawals).finish book.instrument = m)
      (hAccepts : book.Accepts fillable order)
      (hRested : rested = true ↔ m.incoming.remaining ≠ 0 ∧ expires order = false) :
      Insertion ⟨book.entered order m rested,
        { filled := filledBy order m, stpCancelled := m.stpCancelled, rested := rested },
        m.fills, m.withdrawals⟩

theorem insert_cases :
    Insertion book fillable order fills withdrawals
      (book.insert fillable order fills withdrawals) := by
  unfold insert
  split
  · next hReject => exact .refused _ hReject (Or.inl rfl)
  next hValidated =>
  split
  · next hPost =>
      refine .refused _ (by decide) (Or.inr (Or.inl ⟨rfl, ?_⟩))
      simpa using hPost
  next hPost =>
  split
  · next hKill =>
      refine .refused _ (by decide) (Or.inr (Or.inr ⟨rfl, ?_⟩))
      simpa using hKill
  next hKill =>
  have hAccepts : book.Accepts fillable order := by
    refine ⟨not_not.mp hValidated, fun h => ?_, fun h => ?_⟩
    · simpa [h] using hPost
    · simpa [h] using hKill
  dsimp only
  split
  · next hDone =>
      refine .entered _ false rfl hAccepts (iff_of_false Bool.false_ne_true ?_)
      rintro ⟨hLeft, hStays⟩
      simp [hLeft, hStays] at hDone
  next hRest => exact .entered _ true rfl hAccepts (iff_of_true rfl (by simpa using hRest))

end Insertion

section Replacement

variable (id : OrderId) (newPrice : Int) (newQuantity newSequence : Nat) (now : Int)
  (fills : List Fill) (withdrawals : List Withdrawal)

/-- What amending an order does, one case per way out of `replace`. -/
inductive Replacement : Outcome Book ReplaceResult → Prop
  | unknown (hFind : book.find id = none) :
      Replacement ⟨book, { reject := .unknownOrder }, fills, withdrawals⟩
  | refused (previous : Order) (reason : RejectReason) (hFind : book.find id = some previous)
      (hReason : (reason = .invalidPrice ∧ book.instrument.isValidPrice newPrice = false) ∨
        (reason = .invalidQuantity ∧ book.instrument.isValidPrice newPrice = true ∧
          book.instrument.isValidQuantity newQuantity = false)) :
      Replacement ⟨book, { reject := reason, previous := previous }, fills, withdrawals⟩
  | closed (previous : Order) (hFind : book.find id = some previous)
      (hPrice : book.instrument.isValidPrice newPrice = true)
      (hQuantity : book.instrument.isValidQuantity newQuantity = true)
      (hFilled : newQuantity ≤ previous.filled) :
      Replacement ⟨book.remove previous, { previous := previous }, fills, withdrawals⟩
  | inPlace (previous : Order) (hFind : book.find id = some previous)
      (hPrice : book.instrument.isValidPrice newPrice = true)
      (hQuantity : book.instrument.isValidQuantity newQuantity = true)
      (hMore : ¬ newQuantity ≤ previous.filled)
      (hShrinks : newPrice = previous.price ∧ newQuantity < previous.quantity) :
      Replacement ⟨book.amendInPlace previous newQuantity (newQuantity - previous.filled),
          { previous := previous, priorityRetained := true, rested := true }, fills, withdrawals⟩
  | requeued (previous : Order) (hFind : book.find id = some previous)
      (hPrice : book.instrument.isValidPrice newPrice = true)
      (hQuantity : book.instrument.isValidQuantity newQuantity = true)
      (hMore : ¬ newQuantity ≤ previous.filled)
      (hMoves : ¬ (newPrice = previous.price ∧ newQuantity < previous.quantity))
      (outcome : Outcome Book SubmitResult)
      (hOutcome : outcome = (book.remove previous).insert true
        (amended previous newPrice newQuantity newSequence now) fills withdrawals) :
      Replacement ⟨outcome.book,
          { reject := outcome.result.reject
            previous := previous
            filled := outcome.result.filled
            stpCancelled := outcome.result.stpCancelled
            rested := outcome.result.rested },
          outcome.fills, outcome.withdrawals⟩

theorem replace_cases :
    Replacement book id newPrice newQuantity newSequence now fills withdrawals
      (book.replace id newPrice newQuantity newSequence now fills withdrawals) := by
  unfold replace
  cases hFind : book.find id with
  | none => exact .unknown hFind
  | some previous =>
    dsimp only
    cases hPrice : book.instrument.isValidPrice newPrice with
    | false => exact .refused previous _ hFind (Or.inl ⟨rfl, hPrice⟩)
    | true =>
      cases hQuantity : book.instrument.isValidQuantity newQuantity with
      | false => exact .refused previous _ hFind (Or.inr ⟨rfl, hPrice, hQuantity⟩)
      | true =>
        simp only [Bool.not_true, Bool.false_eq_true, if_false]
        split
        · next hFilled => exact .closed previous hFind hPrice hQuantity hFilled
        next hMore =>
        split
        · next hShrinks =>
            exact .inPlace previous hFind hPrice hQuantity hMore hShrinks
        · next hMoves =>
            exact .requeued previous hFind hPrice hQuantity hMore hMoves _ rfl

end Replacement

variable {order : Order} {q q' : List Order} {book} {id : OrderId} {fills : List Fill}
  {withdrawals : List Withdrawal}

theorem expires_iff :
    expires order = true ↔ order.type = .market ∨ order.tif = .immediateOrCancel := by
  simp [expires]

/-! ## Queues of the two sides -/

section Queues

variable (book) (side : Side) (q)

@[simp] theorem queue_setQueue : (book.setQueue side q).queue side = q := by
  cases side <;> rfl

@[simp] theorem queue_setQueue_opposite :
    (book.setQueue side q).queue side.opposite = book.queue side.opposite := by
  cases side <;> rfl

@[simp] theorem instrument_setQueue : (book.setQueue side q).instrument = book.instrument := by
  cases side <;> rfl

@[simp] theorem nextTradeId_setQueue : (book.setQueue side q).nextTradeId = book.nextTradeId := by
  cases side <;> rfl

theorem setQueue_self : book.setQueue side (book.queue side) = book := by
  cases side <;> rfl

theorem mem_orders {book : Book} {order : Order} :
    order ∈ book.orders ↔ ∃ side, order ∈ book.queue side := by
  rw [orders, mem_append]
  constructor
  · intro h
    rcases h with h | h
    · exact ⟨.buy, h⟩
    · exact ⟨.sell, h⟩
  · intro ⟨side, h⟩
    cases side
    · exact Or.inl h
    · exact Or.inr h

theorem mem_orders_iff {x : Order} :
    x ∈ book.orders ↔ x ∈ book.queue side ∨ x ∈ book.queue side.opposite := by
  rw [orders, mem_append]
  cases side with
  | buy => exact Iff.rfl
  | sell => exact or_comm

theorem mem_orders_setQueue {x : Order} :
    x ∈ (book.setQueue side q).orders ↔ x ∈ q ∨ x ∈ book.queue side.opposite := by
  rw [mem_orders_iff _ side, queue_setQueue, queue_setQueue_opposite]

theorem queue_cases (other : Side) : other = side ∨ other = side.opposite := by
  cases side <;> cases other <;> simp [Side.opposite]

end Queues

/-! ## The invariant of every book -/

structure Valid (book : Book) : Prop where
  side_eq : ∀ side, ∀ order ∈ book.queue side, order.side = side
  sorted : ∀ side, (book.queue side).Pairwise fun ahead behind => behind.yieldsTo ahead = true
  ids : (book.orders.map Order.id).Nodup
  rests : ∀ side, ∀ order ∈ book.queue side, order.Rests book.instrument
  uncrossed : ∀ bid ∈ book.bids, ∀ ask ∈ book.asks, bid.price < ask.price

theorem valid_empty (instrument : Instrument) : Valid { instrument := instrument } where
  side_eq := fun side order hMem => by cases side <;> simp [queue] at hMem
  sorted := fun side => by cases side <;> simp [queue]
  ids := by simp [orders]
  rests := fun side order hMem => by cases side <;> simp [queue] at hMem
  uncrossed := fun bid hBid => by simp at hBid

theorem yieldsTo_congr {a b a' b' : Order} (ha : a.terms = a'.terms) (hb : b.terms = b'.terms) :
    a.yieldsTo b = a'.yieldsTo b' := by
  obtain ⟨-, -, -, hPrice, hSide, -⟩ := Order.eq_of_terms_eq ha
  obtain ⟨-, -, -, hPrice', -⟩ := Order.eq_of_terms_eq hb
  simp [Order.yieldsTo, Order.isBuy, hPrice, hPrice', hSide]

theorem rests_of_terms {order' : Order} {instrument : Instrument}
    (hTerms : order'.terms = order.terms) (hRests : order.Rests instrument)
    (hLive : order'.Live) : order'.Rests instrument := by
  obtain ⟨-, -, hInstrument, hPrice, -, hType, hTif, -⟩ := Order.eq_of_terms_eq hTerms
  exact
    { instrument_eq := hInstrument.trans hRests.instrument_eq
      limit := hType.trans hRests.limit
      tif := by rw [hTif]; exact hRests.tif
      price := by rw [hPrice]; exact hRests.price
      live := hLive }

/-- Two lists of which one has a sublist of the other's terms: each order of the
smaller one has its terms in the larger. -/
theorem exists_of_terms_sublist (hSub : (q'.map Order.terms).Sublist (q.map Order.terms))
    (hMem : order ∈ q') : ∃ o ∈ q, order.terms = o.terms := by
  obtain ⟨o, ho, hTerms⟩ := mem_map.mp (hSub.subset (mem_map_of_mem hMem))
  exact ⟨o, ho, hTerms.symm⟩

theorem ids_sublist_of_terms (hSub : (q'.map Order.terms).Sublist (q.map Order.terms)) :
    (q'.map Order.id).Sublist (q.map Order.id) := by
  have hMap := hSub.map Order.id
  simpa [map_map, Function.comp_def, Order.terms] using hMap

/-- A book stays valid when one queue loses orders and quantity but nothing
else about its orders changes. -/
theorem Valid.shrink (hValid : book.Valid) (side : Side)
    (hSub : (q.map Order.terms).Sublist ((book.queue side).map Order.terms))
    (hLive : ∀ order ∈ q, order.Live) : (book.setQueue side q).Valid := by
  have hFrom : ∀ s, ∀ order ∈ (book.setQueue side q).queue s,
      order.Live ∧ ∃ o ∈ book.queue s, order.terms = o.terms := by
    intro s order hMem
    rcases queue_cases side s with rfl | rfl
    · rw [queue_setQueue] at hMem
      exact ⟨hLive order hMem, exists_of_terms_sublist hSub hMem⟩
    · rw [queue_setQueue_opposite] at hMem
      exact ⟨(hValid.rests _ order hMem).live, order, hMem, rfl⟩
  constructor
  · intro s order hMem
    obtain ⟨-, o, ho, hTerms⟩ := hFrom s order hMem
    rw [(Order.eq_of_terms_eq hTerms).2.2.2.2.1]
    exact hValid.side_eq s o ho
  · intro s
    rcases queue_cases side s with rfl | rfl
    · rw [queue_setQueue]
      -- Being sorted is a property of the terms, which are a sublist.
      have hTerms : ((book.queue s).map Order.terms).Pairwise
          fun ahead behind => behind.yieldsTo ahead = true := by
        rw [pairwise_map]
        exact (hValid.sorted s).imp fun h => (yieldsTo_congr rfl rfl).trans h
      have hPair := hTerms.sublist hSub
      rw [pairwise_map] at hPair
      exact hPair.imp fun h => (yieldsTo_congr rfl rfl).trans h
    · rw [queue_setQueue_opposite]
      exact hValid.sorted _
  · refine hValid.ids.sublist ?_
    have hIds := ids_sublist_of_terms hSub
    cases side with
    | buy => simpa [orders, setQueue, queue] using hIds
    | sell => simpa [orders, setQueue, queue] using hIds
  · intro s order hMem
    obtain ⟨hAlive, o, ho, hTerms⟩ := hFrom s order hMem
    rw [instrument_setQueue]
    exact rests_of_terms hTerms (hValid.rests s o ho) hAlive
  · intro bid hBid ask hAsk
    obtain ⟨-, b, hb, hBidTerms⟩ := hFrom .buy bid hBid
    obtain ⟨-, a, ha, hAskTerms⟩ := hFrom .sell ask hAsk
    rw [(Order.eq_of_terms_eq hBidTerms).2.2.2.1, (Order.eq_of_terms_eq hAskTerms).2.2.2.1]
    exact hValid.uncrossed b hb a ha

theorem Valid.setNextTradeId (hValid : book.Valid) (nextTradeId : Nat) :
    Valid { book with nextTradeId := nextTradeId } :=
  ⟨hValid.side_eq, hValid.sorted, hValid.ids, hValid.rests, hValid.uncrossed⟩

/-! ### Resting an order -/

section Enqueue

variable {a b c : Order}

theorem yieldsTo_trans (hSide : b.side = a.side) (hab : a.yieldsTo b = true)
    (hbc : b.yieldsTo c = true) : a.yieldsTo c = true := by
  cases hCase : a.side <;> simp [Order.yieldsTo, Order.isBuy, hSide, hCase] at * <;> omega

theorem yieldsTo_of_not (hSide : b.side = a.side) (hNot : a.yieldsTo b = false) :
    b.yieldsTo a = true := by
  cases hCase : a.side <;> simp [Order.yieldsTo, Order.isBuy, hSide, hCase] at * <;> omega

/-- In a sorted queue, nothing past the first worse order is at least as
good. -/
theorem not_yieldsTo_of_mem_dropWhile
    (hSorted : q.Pairwise fun ahead behind => behind.yieldsTo ahead = true)
    (hSide : ∀ x ∈ q, x.side = order.side) :
    ∀ x ∈ q.dropWhile order.yieldsTo, order.yieldsTo x = false := by
  induction q with
  | nil => simp
  | cons head rest ih =>
    rw [pairwise_cons] at hSorted
    rw [dropWhile_cons]
    split
    · exact ih hSorted.2 fun x hx => hSide x (by simp [hx])
    next hHead =>
    intro x hx
    rcases mem_cons.mp hx with rfl | hx
    · simpa using hHead
    by_contra hYields
    refine hHead (yieldsTo_trans (b := x) (hSide x (by simp [hx])) ?_ (hSorted.1 x hx))
    simpa using hYields

theorem mem_enqueue {x : Order} : x ∈ enqueue order q ↔ x = order ∨ x ∈ q := by
  have hSplit := takeWhile_append_dropWhile (p := order.yieldsTo) (l := q)
  conv_rhs => rw [← hSplit]
  simp only [enqueue, mem_append, mem_cons]
  exact or_left_comm

theorem perm_enqueue (order : Order) (q : List Order) : (enqueue order q).Perm (order :: q) := by
  have hSplit := takeWhile_append_dropWhile (p := order.yieldsTo) (l := q)
  conv_rhs => rw [← hSplit]
  exact perm_middle

theorem sorted_enqueue (hSorted : q.Pairwise fun ahead behind => behind.yieldsTo ahead = true)
    (hSide : ∀ x ∈ q, x.side = order.side) :
    (enqueue order q).Pairwise fun ahead behind => behind.yieldsTo ahead = true := by
  have hSplit := takeWhile_append_dropWhile (p := order.yieldsTo) (l := q)
  have hAfter := not_yieldsTo_of_mem_dropWhile hSorted hSide
  have hParts := hSorted
  rw [← hSplit, pairwise_append] at hParts
  obtain ⟨hTake, hDrop, hCross⟩ := hParts
  rw [enqueue, pairwise_append, pairwise_cons]
  refine ⟨hTake, ⟨fun x hx => ?_, hDrop⟩, fun x hx y hy => ?_⟩
  · have hMem : x ∈ q := (dropWhile_suffix order.yieldsTo).subset hx
    exact yieldsTo_of_not (hSide x hMem) (hAfter x hx)
  · rcases mem_cons.mp hy with rfl | hy
    · exact mem_takeWhile_imp hx
    · exact hCross x hx y hy

end Enqueue

theorem Valid.enqueue (hValid : book.Valid) (hRests : order.Rests book.instrument)
    (hFresh : ∀ other ∈ book.orders, other.id ≠ order.id)
    (hFree : ∀ other ∈ book.queue order.side.opposite, order.crosses other.price = false) :
    (book.setQueue order.side (enqueue order (book.queue order.side))).Valid := by
  have hFrom : ∀ s, ∀ x ∈ (book.setQueue order.side
      (Book.enqueue order (book.queue order.side))).queue s,
      (x = order ∧ s = order.side) ∨ x ∈ book.queue s := by
    intro s x hMem
    rcases queue_cases order.side s with rfl | rfl
    · rw [queue_setQueue, mem_enqueue] at hMem
      exact hMem.imp_left fun h => ⟨h, rfl⟩
    · rw [queue_setQueue_opposite] at hMem
      exact Or.inr hMem
  constructor
  · intro s x hMem
    rcases hFrom s x hMem with ⟨rfl, rfl⟩ | hOld
    · rfl
    · exact hValid.side_eq s x hOld
  · intro s
    rcases queue_cases order.side s with rfl | rfl
    · rw [queue_setQueue]
      exact sorted_enqueue (hValid.sorted _) (hValid.side_eq _)
    · rw [queue_setQueue_opposite]
      exact hValid.sorted _
  · have hPerm : (book.setQueue order.side
        (Book.enqueue order (book.queue order.side))).orders.Perm (order :: book.orders) := by
      cases hSide : order.side with
      | buy => exact (perm_enqueue order book.bids).append_right book.asks
      | sell =>
        refine ((perm_enqueue order book.asks).append_left book.bids).trans ?_
        exact perm_middle
    rw [(hPerm.map Order.id).nodup_iff, map_cons, nodup_cons]
    refine ⟨fun hMem => ?_, hValid.ids⟩
    obtain ⟨x, hx, hId⟩ := mem_map.mp hMem
    exact hFresh x hx hId
  · intro s x hMem
    rw [instrument_setQueue]
    rcases hFrom s x hMem with ⟨rfl, -⟩ | hOld
    · exact hRests
    · exact hValid.rests s x hOld
  · intro bid hBid ask hAsk
    rcases hFrom .buy bid hBid with ⟨rfl, hBuy⟩ | hBid'
    · rcases hFrom .sell ask hAsk with ⟨rfl, hSell⟩ | hAsk'
      · rw [← hBuy] at hSell
        contradiction
      have hNot := hFree ask (by rw [← hBuy]; exact hAsk')
      simp [Order.crosses, Order.isBuy, hRests.limit, ← hBuy] at hNot
      exact hNot
    · rcases hFrom .sell ask hAsk with ⟨rfl, hSell⟩ | hAsk'
      · have hNot := hFree bid (by rw [← hSell]; exact hBid')
        simp [Order.crosses, Order.isBuy, hRests.limit, ← hSell] at hNot
        exact hNot
      · exact hValid.uncrossed bid hBid' ask hAsk'

/-! ### Looking an order up -/

theorem find_eq_some_iff (hIds : (book.orders.map Order.id).Nodup) :
    book.find id = some order ↔ order ∈ book.orders ∧ order.id = id := by
  unfold find
  constructor
  · intro hFind
    exact ⟨mem_of_find?_eq_some hFind, by simpa using List.find?_some hFind⟩
  · intro ⟨hMem, hId⟩
    cases hFind : book.orders.find? fun other => decide (other.id = id) with
    | none =>
      have := List.find?_eq_none.mp hFind order hMem
      simp [hId] at this
    | some other =>
      -- Two orders with one id would be one order.
      have hOther : other.id = id := by simpa using List.find?_some hFind
      rw [inj_on_of_nodup_map hIds (mem_of_find?_eq_some hFind) hMem
        (hOther.trans hId.symm)]

/-- The order an id finds is the only one with that id. -/
theorem eq_of_find (hIds : (book.orders.map Order.id).Nodup)
    {found : Order} (hFind : book.find id = some found) (hMem : order ∈ book.orders)
    (hId : order.id = id) : order = found :=
  Option.some.inj (((find_eq_some_iff hIds).mpr ⟨hMem, hId⟩).symm.trans hFind)

theorem find_eq_none_iff : book.find id = none ↔ ∀ order ∈ book.orders, order.id ≠ id := by
  simp [find, List.find?_eq_none]

theorem Valid.mem_queue_of_find (hValid : book.Valid)
    (hFind : book.find id = some order) : order ∈ book.queue order.side := by
  obtain ⟨side, hMem⟩ := mem_orders.mp ((find_eq_some_iff hValid.ids).mp hFind).1
  rw [hValid.side_eq side order hMem]
  exact hMem

theorem validate_eq_none_iff :
    book.validate order = .none ↔
      order.instrument = book.instrument.id ∧
      book.instrument.isValidQuantity order.quantity = true ∧
      (order.type = .limit → book.instrument.isValidPrice order.price = true) ∧
      book.find order.id = none := by
  unfold validate
  by_cases hInstrument : order.instrument = book.instrument.id <;>
    cases hQuantity : book.instrument.isValidQuantity order.quantity <;>
    cases hPrice : book.instrument.isValidPrice order.price <;>
    cases hType : order.type <;>
    cases hFind : book.find order.id <;>
    simp [hInstrument]

theorem insertion_of_eq {fillable : Bool} {outcome : Outcome Book SubmitResult}
    (hOutcome : book.insert fillable order fills withdrawals = outcome) :
    Insertion book fillable order fills withdrawals outcome :=
  hOutcome ▸ insert_cases ..

/-- Nothing in a sorted queue crosses when its head does not. -/
theorem not_crosses_of_head (side : Side)
    (hSide : ∀ x ∈ q, x.side = side.opposite) (hOrder : order.side = side)
    (hSorted : q.Pairwise fun ahead behind => behind.yieldsTo ahead = true)
    (hHead : ∀ head ∈ q.head?, order.crosses head.price = false) :
    ∀ x ∈ q, order.crosses x.price = false := by
  cases q with
  | nil => simp
  | cons head rest =>
    have hFirst := hHead head (by simp)
    rw [pairwise_cons] at hSorted
    intro x hx
    rcases mem_cons.mp hx with rfl | hx
    · exact hFirst
    have hYields := hSorted.1 x hx
    have hSideX := hSide x (by simp [hx])
    cases side <;>
      simp [Order.crosses, Order.yieldsTo, Order.isBuy, hOrder, hSideX, Side.opposite]
        at hFirst hYields ⊢ <;> exact ⟨hFirst.1, by omega⟩

/-- Only a fill-or-kill order asks for the verdict. -/
theorem insert_verdict (book : Book) (hTif : order.tif ≠ .fillOrKill)
    (verdict verdict' : Bool) (fills : List Fill) (withdrawals : List Withdrawal) :
    book.insert verdict order fills withdrawals = book.insert verdict' order fills withdrawals := by
  have hKill : ∀ v : Bool, (order.tif == .fillOrKill && !v) = false := by
    intro v
    simp [hTif]
  unfold insert
  rw [hKill verdict, hKill verdict']

theorem replacement_of_eq {newPrice : Int} {newQuantity newSequence : Nat} {now : Int}
    {outcome : Outcome Book ReplaceResult}
    (hOutcome : book.replace id newPrice newQuantity newSequence now fills withdrawals = outcome) :
    Replacement book id newPrice newQuantity newSequence now fills withdrawals outcome :=
  hOutcome ▸ replace_cases ..

/-- The answer to an amendment carries the order as it stood. -/
theorem previous_replace {previous : Order} (hFind : book.find id = some previous) (newPrice : Int)
    (newQuantity newSequence : Nat) (now : Int) : (book.replace id newPrice newQuantity newSequence
      now fills withdrawals).result.previous = previous := by
  rw [replace, hFind]
  dsimp only
  split_ifs <;> rfl

section Validity

variable {m : Matching}

/-- The other side after a match: its orders kept their terms and are live. -/
theorem Valid.matched (hValid : book.Valid)
    (hMatch : (book.arrival order fills withdrawals).finish book.instrument = m) :
    (book.matched order m).Valid := by
  have hReaches := Matching.reaches_of_finish hMatch
  refine Valid.setNextTradeId (hValid.shrink _ hReaches.terms.2.sublist ?_) _
  exact hReaches.live fun o ho => (hValid.rests _ o ho).live

theorem queue_matched (book : Book) (order : Order) (m : Matching) :
    (book.matched order m).queue order.side = book.queue order.side ∧
      (book.matched order m).queue order.side.opposite = m.queue := by
  unfold Book.matched
  cases order.side <;> exact ⟨rfl, rfl⟩

@[simp] theorem instrument_matched (book : Book) (order : Order) (m : Matching) :
    (book.matched order m).instrument = book.instrument := by
  unfold Book.matched
  simp

theorem mem_orders_matched {x : Order} :
    x ∈ (book.matched order m).orders ↔ x ∈ m.queue ∨ x ∈ book.queue order.side := by
  rw [mem_orders_iff _ order.side, (queue_matched book order m).1, (queue_matched book order m).2]
  exact or_comm

theorem queue_entered (book : Book) (order : Order) (m : Matching) (rested : Bool) :
    (book.entered order m rested).queue order.side =
        (if rested then enqueue m.incoming (book.queue order.side) else book.queue order.side) ∧
      (book.entered order m rested).queue order.side.opposite = m.queue := by
  obtain ⟨hOwn, hOther⟩ := queue_matched book order m
  cases rested with
  | false => exact ⟨hOwn, hOther⟩
  | true =>
    exact ⟨(queue_setQueue ..).trans (hOwn ▸ rfl), (queue_setQueue_opposite ..).trans hOther⟩

@[simp] theorem instrument_entered (book : Book) (order : Order) (m : Matching) (rested : Bool) :
    (book.entered order m rested).instrument = book.instrument := by
  cases rested with
  | false => exact instrument_matched book order m
  | true => exact (instrument_setQueue ..).trans (instrument_matched book order m)

/-- The members of a book after an order joined one of its queues. -/
theorem mem_orders_enqueue {x : Order} {side : Side} :
    x ∈ (book.setQueue side (Book.enqueue order (book.queue side))).orders ↔
      x = order ∨ x ∈ book.orders := by
  rw [mem_orders_setQueue, mem_enqueue, mem_orders_iff _ side, or_assoc]

theorem mem_orders_entered {x : Order} {rested : Bool} :
    x ∈ (book.entered order m rested).orders ↔
      rested = true ∧ x = m.incoming ∨ x ∈ (book.matched order m).orders := by
  cases rested with
  | false => exact (or_iff_right (fun h => Bool.false_ne_true h.1)).symm
  | true => exact mem_orders_enqueue.trans (or_congr_left (and_iff_right rfl).symm)

/-- The ids of a matched book are ids of the book. -/
theorem mem_ids_matched
    (hMatch : (book.arrival order fills withdrawals).finish book.instrument = m) {x : Order}
    (hMem : x ∈ (book.matched order m).orders) : ∃ o ∈ book.orders, x.terms = o.terms := by
  rcases mem_orders_matched.mp hMem with hLeft | hSame
  · obtain ⟨o, ho, hTerms⟩ := exists_of_terms_sublist
      (Matching.reaches_of_finish hMatch).terms.2.sublist hLeft
    exact ⟨o, mem_orders.mpr ⟨_, ho⟩, hTerms⟩
  · exact ⟨x, mem_orders.mpr ⟨_, hSame⟩, rfl⟩

/-- A remainder that rests may rest, and crosses nothing. -/
theorem Valid.rest_matched (hValid : book.Valid)
    (hMatch : (book.arrival order fills withdrawals).finish book.instrument = m)
    (hValidated : book.validate order = .none) (hLe : order.remaining ≤ order.quantity)
    (hKill : order.tif ≠ .fillOrKill) (hLeft : m.incoming.remaining ≠ 0)
    (hStays : expires order = false) :
    ((book.matched order m).setQueue order.side
      (Book.enqueue m.incoming ((book.matched order m).queue order.side))).Valid := by
  have hReaches := Matching.reaches_finish book.instrument (book.arrival order fills withdrawals)
  have hStop := Matching.step_finish book.instrument (book.arrival order fills withdrawals)
  rw [hMatch] at hReaches hStop
  have hTerms : m.incoming.terms = order.terms := hReaches.terms.1
  obtain ⟨hId, -, hInstrument, hPrice, hSide, hType, hTif, -⟩ := Order.eq_of_terms_eq hTerms
  obtain ⟨hBookInstrument, -, hBand, hFresh⟩ := validate_eq_none_iff.mp hValidated
  have hAfter := hValid.matched hMatch
  have hLimit : order.type = .limit := by
    cases hCase : order.type with
    | limit => rfl
    | market => simp [expires, hCase] at hStays
  have hRests : m.incoming.Rests (book.matched order m).instrument := by
    rw [instrument_matched]
    refine
      { instrument_eq := hInstrument.trans hBookInstrument
        limit := hType.trans hLimit
        tif := ?_
        price := by rw [hPrice]; exact hBand hLimit
        live := ⟨by omega, hReaches.remaining_le hLe⟩ }
    rw [hTif]
    cases hCase : order.tif with
    | day => exact Or.inl rfl
    | goodTilCancelled => exact Or.inr rfl
    | immediateOrCancel => simp [expires, hCase] at hStays
    | fillOrKill => exact absurd hCase hKill
  rw [← hSide]
  refine hAfter.enqueue hRests ?_ ?_
  · intro other hOther
    obtain ⟨o, ho, hSame⟩ := mem_ids_matched hMatch hOther
    rw [(Order.eq_of_terms_eq hSame).1, hId]
    exact find_eq_none_iff.mp hFresh o ho
  · -- The match stopped with quantity left, so its head does not cross.
    rw [hSide, (queue_matched book order m).2]
    refine not_crosses_of_head order.side (fun x hx => ?_) hSide ?_ ?_
    · have hx' : x ∈ (book.matched order m).queue order.side.opposite := by
        rw [(queue_matched book order m).2]
        exact hx
      exact hAfter.side_eq _ x hx'
    · have hSorted := hAfter.sorted order.side.opposite
      rw [(queue_matched book order m).2] at hSorted
      exact hSorted
    · exact (Matching.step_eq_none_iff.mp hStop).resolve_left hLeft

/-- Inserting keeps the book valid, whatever the order, as long as a
fill-or-kill order is only accepted when it fills. -/
theorem Valid.insert (hValid : book.Valid) {fillable : Bool}
    (hLe : order.remaining ≤ order.quantity) (hVerdict : order.tif = .fillOrKill → fillable = true →
      ((book.arrival order fills withdrawals).finish book.instrument).incoming.remaining = 0) :
    (book.insert fillable order fills withdrawals).book.Valid := by
  have hCases := insert_cases book fillable order fills withdrawals
  generalize book.insert fillable order fills withdrawals = outcome at hCases ⊢
  cases hCases with
  | refused => exact hValid
  | entered m rested hMatch hAccepts hRested =>
    cases rested with
    | false => exact hValid.matched hMatch
    | true =>
      obtain ⟨hLeft, hStays⟩ := hRested.mp rfl
      refine hValid.rest_matched hMatch hAccepts.1 hLe (fun hKill => hLeft ?_) hLeft hStays
      rw [← hMatch]
      exact hVerdict hKill (hAccepts.2.2 hKill)

theorem terms_remove_sublist (book : Book) (order : Order) :
    (((book.queue order.side).filter fun other => decide (other.id ≠ order.id)).map
      Order.terms).Sublist ((book.queue order.side).map Order.terms) :=
  filter_sublist.map _

theorem Valid.remove (hValid : book.Valid) (order : Order) : (book.remove order).Valid :=
  hValid.shrink _ (terms_remove_sublist book order) fun o ho =>
    (hValid.rests _ o (mem_filter.mp ho).1).live

theorem Valid.cancel (hValid : book.Valid) (id : OrderId) : (book.cancel id).1.Valid := by
  unfold Book.cancel
  split
  · exact hValid
  · exact hValid.remove _

theorem terms_amendInPlace (book : Book) (order : Order) (quantity remaining : Nat) :
    (((book.queue order.side).map fun other =>
      if other.id = order.id then { other with quantity := quantity, remaining := remaining }
      else other).map Order.terms) = (book.queue order.side).map Order.terms := by
  rw [map_map]
  refine map_congr_left fun o _ => ?_
  simp only [Function.comp]
  split <;> rfl

theorem Valid.amendInPlace (hValid : book.Valid) (order : Order) {quantity remaining : Nat}
    (hPos : 0 < remaining) (hLe : remaining ≤ quantity) :
    (book.amendInPlace order quantity remaining).Valid := by
  refine hValid.shrink _ ?_ fun o ho => ?_
  · rw [terms_amendInPlace]
  · obtain ⟨other, hOther, rfl⟩ := mem_map.mp ho
    split
    · exact ⟨hPos, hLe⟩
    · exact (hValid.rests _ other hOther).live

theorem Valid.replace (hValid : book.Valid) (id : OrderId) (newPrice : Int)
    (newQuantity newSequence : Nat) (now : Int) :
    (book.replace id newPrice newQuantity newSequence now fills withdrawals).book.Valid := by
  have hCases := replace_cases book id newPrice newQuantity newSequence now fills withdrawals
  generalize book.replace id newPrice newQuantity newSequence now fills withdrawals = outcome
    at hCases ⊢
  cases hCases with
  | unknown => exact hValid
  | refused => exact hValid
  | closed previous => exact hValid.remove previous
  | inPlace previous hFind _ _ hMore =>
    exact hValid.amendInPlace previous (by omega) (by unfold Order.filled at *; omega)
  | requeued previous hFind _ _ hMore _ outcome hOutcome =>
    subst hOutcome
    have hRests := hValid.rests _ previous (hValid.mem_queue_of_find hFind)
    refine (hValid.remove previous).insert (by simp [amended]) fun hKill => ?_
    rcases hRests.tif with hTif | hTif <;> simp [amended, hTif] at hKill

end Validity

/-! ## The instrument never changes -/

section Instrument

variable (book) (fills) (withdrawals)

@[simp] theorem instrument_insert (fillable : Bool) (order : Order) :
    (book.insert fillable order fills withdrawals).book.instrument = book.instrument := by
  have hCases := insert_cases book fillable order fills withdrawals
  generalize book.insert fillable order fills withdrawals = outcome at hCases ⊢
  cases hCases <;> simp

@[simp] theorem instrument_remove (order : Order) :
    (book.remove order).instrument = book.instrument := by
  simp [remove]

@[simp] theorem instrument_cancel (id : OrderId) :
    (book.cancel id).1.instrument = book.instrument := by
  unfold cancel
  split <;> simp

@[simp] theorem instrument_replace (id : OrderId) (newPrice : Int)
    (newQuantity newSequence : Nat) (now : Int) :
    (book.replace id newPrice newQuantity newSequence now fills withdrawals).book.instrument =
      book.instrument := by
  have hCases := replace_cases book id newPrice newQuantity newSequence now fills withdrawals
  generalize book.replace id newPrice newQuantity newSequence now fills withdrawals = outcome
    at hCases ⊢
  cases hCases with
  | requeued previous _ _ _ _ _ outcome hOutcome =>
    subst hOutcome
    simp
  | _ => simp [amendInPlace]

end Instrument

end Book
end PriceTime
end ExchangeCore
