import ExchangeCore.PriceTime.Timing

/-!
# Sequence numbers do not steer a book

A book compares prices, accounts and ids, and moves quantities.  The sequence
number of an order is carried along and shown in results, and nothing is decided
by it: the queue itself is the priority.  So giving every order another number,
by any function at all, commutes with every operation.
-/

namespace ExchangeCore

open List

def Order.renumber (f : Nat → Nat) (order : Order) : Order :=
  { order with sequence := f order.sequence }

def CancelResult.renumber (f : Nat → Nat) (result : CancelResult) : CancelResult :=
  { result with order := result.order.renumber f }

def ReplaceResult.renumber (f : Nat → Nat) (result : ReplaceResult) : ReplaceResult :=
  { result with previous := result.previous.renumber f }

/-- What an operation leaves behind, with its book and its result translated. -/
def Outcome.map {B B' R R' : Type} (onBook : B → B') (onResult : R → R') (outcome : Outcome B R) :
    Outcome B' R' :=
  ⟨onBook outcome.book, onResult outcome.result, outcome.fills, outcome.withdrawals⟩

theorem Order.renumber_congr {f g : Nat → Nat} {order : Order}
    (hAgree : f order.sequence = g order.sequence) : order.renumber f = order.renumber g := by
  rw [Order.renumber, Order.renumber, hAgree]

theorem Order.renumber_default {f : Nat → Nat} (hZero : f 0 = 0) :
    ({} : Order).renumber f = {} := by
  rw [Order.renumber, hZero]

namespace PriceTime

namespace Matching

variable {instrument : Instrument} (f : Nat → Nat)

def renumber (m : Matching) : Matching :=
  { m with
    incoming := m.incoming.renumber f
    queue := m.queue.map (Order.renumber f) }

theorem settle_renumber (head : Order) (rest : List Order) :
    settle (head.renumber f) (rest.map (Order.renumber f)) =
      (settle head rest).map (Order.renumber f) :=
  (map_settle (Order.renumber f) (fun _ => rfl) head rest).symm

section

variable (m : Matching) (head : Order) (rest : List Order)

theorem renumber_trade :
    (m.renumber f).trade instrument (head.renumber f) (rest.map (Order.renumber f)) =
      (m.trade instrument head rest).renumber f := by
  have hSettle := settle_renumber f (head.take (min m.incoming.remaining head.remaining)) rest
  unfold renumber trade
  dsimp only
  rw [← hSettle]
  rfl

theorem renumber_decrementBoth :
    (m.renumber f).decrementBoth instrument (head.renumber f) (rest.map (Order.renumber f)) =
      (m.decrementBoth instrument head rest).renumber f := by
  have hSettle := settle_renumber f (head.shrink (min m.incoming.remaining head.remaining)) rest
  unfold renumber decrementBoth
  dsimp only
  rw [← hSettle]
  rfl

theorem renumber_prevent :
    (m.renumber f).prevent instrument (head.renumber f) (rest.map (Order.renumber f)) =
      (m.prevent instrument head rest).renumber f := by
  unfold prevent
  split
  · rfl
  · rfl
  · rfl
  · rfl
  · exact renumber_decrementBoth f m head rest

end

theorem step_renumber (m : Matching) :
    (m.renumber f).step instrument = (m.step instrument).map (renumber f) := by
  have hRemaining : (m.renumber f).incoming.remaining = m.incoming.remaining := rfl
  have hAccount : (m.renumber f).incoming.account = m.incoming.account := rfl
  unfold step
  rw [hRemaining, hAccount]
  split
  · rfl
  cases hQueue : m.queue with
  | nil =>
    have hMapped : (m.renumber f).queue = [] := by rw [renumber, hQueue, map_nil]
    rw [hMapped]
    rfl
  | cons head rest =>
    have hMapped : (m.renumber f).queue = head.renumber f :: rest.map (Order.renumber f) := by
      rw [renumber, hQueue, map_cons]
    have hCrosses : (m.renumber f).incoming.crosses (head.renumber f).price =
        m.incoming.crosses head.price := rfl
    have hOther : (head.renumber f).account = head.account := rfl
    rw [hMapped]
    dsimp only
    rw [hCrosses, hOther]
    split
    · rfl
    split
    · exact congrArg some (renumber_prevent f m head rest)
    · exact congrArg some (renumber_trade f m head rest)

theorem run_renumber (fuel : Nat) (m : Matching) :
    (m.renumber f).run instrument fuel = (m.run instrument fuel).renumber f := by
  induction fuel generalizing m with
  | zero => rfl
  | succ fuel ih =>
    rw [run, run, step_renumber]
    cases m.step instrument with
    | none => rfl
    | some m' => exact ih m'

theorem finish_renumber (instrument : Instrument) (m : Matching) :
    (m.renumber f).finish instrument = (m.finish instrument).renumber f := by
  have hLength : (m.renumber f).queue.length = m.queue.length := length_map _
  rw [finish, finish, hLength]
  exact run_renumber f _ m

end Matching

namespace Book

def renumber (f : Nat → Nat) (book : Book) : Book :=
  { book with
    bids := book.bids.map (Order.renumber f)
    asks := book.asks.map (Order.renumber f) }

theorem renumber_id (book : Book) : book.renumber id = book := by
  have hMap : ∀ queue : List Order, queue.map (Order.renumber id) = queue :=
    fun queue => map_id queue
  rw [renumber, hMap, hMap]

section Operations

variable (f : Nat → Nat) (book : Book)

theorem queue_renumber (side : Side) :
    (book.renumber f).queue side = (book.queue side).map (Order.renumber f) := by
  cases side <;> rfl

theorem orders_renumber : (book.renumber f).orders = book.orders.map (Order.renumber f) :=
  (map_append ..).symm

theorem setQueue_renumber (side : Side) (queue : List Order) :
    (book.renumber f).setQueue side (queue.map (Order.renumber f)) =
      (book.setQueue side queue).renumber f := by
  cases side <;> rfl

theorem find_renumber (id : OrderId) :
    (book.renumber f).find id = (book.find id).map (Order.renumber f) := by
  rw [find, orders_renumber, List.find?_map]
  rfl

/-- Renumbering asks for nothing but agreement on the numbers that are there. -/
theorem renumber_congr {f g : Nat → Nat} {book : Book}
    (hAgree : ∀ side, ∀ order ∈ book.queue side, f order.sequence = g order.sequence) :
    book.renumber f = book.renumber g := by
  have hSide : ∀ side, (book.queue side).map (Order.renumber f) =
      (book.queue side).map (Order.renumber g) := fun side =>
    map_congr_left fun order hMem => Order.renumber_congr (hAgree side order hMem)
  have hBids : book.bids.map (Order.renumber f) = book.bids.map (Order.renumber g) := hSide .buy
  have hAsks : book.asks.map (Order.renumber f) = book.asks.map (Order.renumber g) := hSide .sell
  rw [renumber, renumber, hBids, hAsks]

variable (fillable : Bool) (order : Order) (fills : List Fill) (withdrawals : List Withdrawal)

theorem validate_renumber :
    (book.renumber f).validate (order.renumber f) = book.validate order := by
  have hFind : ((book.renumber f).find order.id).isSome = (book.find order.id).isSome := by
    rw [find_renumber, Option.isSome_map]
  unfold validate
  rw [show (order.renumber f).id = order.id from rfl, hFind]
  rfl

theorem wouldCross_renumber :
    (book.renumber f).wouldCross (order.renumber f) = book.wouldCross order := by
  unfold wouldCross
  rw [show (order.renumber f).side = order.side from rfl, queue_renumber, List.head?_map,
    Option.any_map]
  rfl

theorem arrival_renumber :
    (book.renumber f).arrival (order.renumber f) fills withdrawals =
      (book.arrival order fills withdrawals).renumber f := by
  unfold arrival
  rw [show (order.renumber f).side = order.side from rfl, queue_renumber]
  rfl

theorem enqueue_renumber (queue : List Order) :
    enqueue (order.renumber f) (queue.map (Order.renumber f)) =
      (enqueue order queue).map (Order.renumber f) := by
  unfold enqueue
  rw [takeWhile_map, dropWhile_map, map_append, map_cons]
  rfl

theorem matched_renumber (m : Matching) :
    (book.renumber f).matched (order.renumber f) (m.renumber f) =
      (book.matched order m).renumber f := by
  unfold matched
  rw [show (order.renumber f).side = order.side from rfl,
    show (m.renumber f).queue = m.queue.map (Order.renumber f) from rfl, setQueue_renumber]
  rfl

/-- Inserting under another number inserts into the book with the other numbers. -/
theorem insert_renumber :
    (book.renumber f).insert fillable (order.renumber f) fills withdrawals =
      (book.insert fillable order fills withdrawals).map (renumber f) id := by
  have hFinish := Matching.finish_renumber f book.instrument (book.arrival order fills withdrawals)
  have hPost : (order.renumber f).postOnly = order.postOnly := rfl
  have hTif : (order.renumber f).tif = order.tif := rfl
  unfold insert
  rw [validate_renumber, wouldCross_renumber, arrival_renumber, hPost, hTif,
    show (book.renumber f).instrument = book.instrument from rfl, hFinish]
  generalize (book.arrival order fills withdrawals).finish book.instrument = m
  have hLeft : (m.renumber f).incoming.remaining = m.incoming.remaining := rfl
  have hExpires : expires (order.renumber f) = expires order := rfl
  have hSide : (order.renumber f).side = order.side := rfl
  dsimp only
  rw [matched_renumber, hLeft, hExpires, hSide]
  split
  · rfl
  split
  · rfl
  split
  · rfl
  split
  · rfl
  -- What is left joins the queue of its own side, which has its numbers changed too.
  have hQueue := enqueue_renumber f m.incoming ((book.matched order m).queue order.side)
  have hSet := setQueue_renumber f (book.matched order m) order.side
    (enqueue m.incoming ((book.matched order m).queue order.side))
  rw [← hQueue, ← queue_renumber] at hSet
  exact congrArg (fun after => (⟨after, _, _, _⟩ : Outcome Book SubmitResult)) hSet

theorem remove_renumber :
    (book.renumber f).remove (order.renumber f) = (book.remove order).renumber f := by
  unfold remove
  rw [← setQueue_renumber, show (order.renumber f).side = order.side from rfl, queue_renumber,
    filter_map]
  rfl

theorem amendInPlace_renumber (quantity remaining : Nat) :
    (book.renumber f).amendInPlace (order.renumber f) quantity remaining =
      (book.amendInPlace order quantity remaining).renumber f := by
  unfold amendInPlace
  rw [← setQueue_renumber, show (order.renumber f).side = order.side from rfl, queue_renumber,
    map_map, map_map]
  congr 1
  refine map_congr_left fun other _ => ?_
  simp only [Function.comp_apply]
  rw [show (other.renumber f).id = other.id from rfl,
    show (order.renumber f).id = order.id from rfl]
  split <;> rfl

section Results

-- A command that finds no order shows an order of default values, numbered zero.
variable {f} (hZero : f 0 = 0)

include hZero

theorem cancel_renumber (id : OrderId) :
    (book.renumber f).cancel id =
      ((book.cancel id).1.renumber f, (book.cancel id).2.renumber f) := by
  unfold cancel
  rw [find_renumber]
  cases book.find id with
  | none =>
    rw [Option.map_none]
    dsimp only [CancelResult.renumber]
    rw [Order.renumber_default hZero]
  | some order =>
    dsimp only [Option.map_some]
    rw [remove_renumber]
    rfl

theorem replace_renumber (id : OrderId) (newPrice : Int) (newQuantity newSequence : Nat)
    (now : Int) (fills : List Fill) (withdrawals : List Withdrawal) :
    (book.renumber f).replace id newPrice newQuantity (f newSequence) now fills withdrawals =
      (book.replace id newPrice newQuantity newSequence now fills withdrawals).map (renumber f)
        (ReplaceResult.renumber f) := by
  unfold replace
  rw [find_renumber]
  cases book.find id with
  | none =>
    rw [Option.map_none]
    dsimp only [Outcome.map, ReplaceResult.renumber]
    rw [Order.renumber_default hZero]
  | some previous =>
    have hFilled : (previous.renumber f).filled = previous.filled := rfl
    have hPrice : (previous.renumber f).price = previous.price := rfl
    have hQuantity : (previous.renumber f).quantity = previous.quantity := rfl
    have hAmended : amended (previous.renumber f) newPrice newQuantity (f newSequence) now =
        (amended previous newPrice newQuantity newSequence now).renumber f := rfl
    dsimp only [Option.map_some]
    rw [hFilled, hPrice, hQuantity, hAmended, remove_renumber, amendInPlace_renumber,
      insert_renumber, show (book.renumber f).instrument = book.instrument from rfl]
    split
    · rfl
    split
    · rfl
    split
    · rfl
    · split <;> rfl

end Results

end Operations

end Book

end PriceTime
end ExchangeCore
