import ExchangeCore.PriceTime.Trail

/-!
# Order ids do not steer a match

A match compares prices and accounts and moves quantities; the ids of the orders
it meets only appear in its prints.  `blur` forgets the ids in the queue and the
prints, and a meeting of two matches that look alike when blurred leaves them
looking alike.  So the answer to an order depends on the book only through its
blurred queues and through whether the order's own id is taken.
-/

namespace ExchangeCore

/-- An order without its id. -/
def Order.anonymous (order : Order) : Order := { order with id := {} }

/-- An order as another account than its own sees it. -/
def Order.seenBy (account : AccountId) (order : Order) : Order :=
  if order.account = account then order else order.anonymous

theorem Order.anonymous_seenBy (account : AccountId) (order : Order) :
    (order.seenBy account).anonymous = order.anonymous := by
  unfold Order.seenBy
  split <;> rfl

namespace PriceTime

/-- Queues that are the same to an account are the same up to ids. -/
theorem map_anonymous_of_seenBy {account : AccountId} {queue queue' : List Order}
    (hSeen : queue.map (Order.seenBy account) = queue'.map (Order.seenBy account)) :
    queue.map Order.anonymous = queue'.map Order.anonymous := by
  have hBlur : ∀ l : List Order,
      l.map Order.anonymous = (l.map (Order.seenBy account)).map Order.anonymous := by
    intro l
    rw [List.map_map]
    exact List.map_congr_left fun order _ => (Order.anonymous_seenBy account order).symm
  rw [hBlur queue, hBlur queue', hSeen]

namespace Matching

variable {instrument : Instrument} {m m' : Matching}

/-- What a match looks like without the ids it meets and without its prints. -/
def blur (m : Matching) : Matching :=
  { incoming := m.incoming
    queue := m.queue.map Order.anonymous
    nextTradeId := 0
    stpCancelled := m.stpCancelled }

theorem settle_anonymous (head : Order) (rest : List Order) :
    (settle head rest).map Order.anonymous =
      settle head.anonymous (rest.map Order.anonymous) :=
  map_settle Order.anonymous (fun _ => rfl) head rest

section

variable (m) (head : Order) (rest : List Order)

theorem blur_trade :
    (m.trade instrument head rest).blur =
      (m.blur.trade instrument head.anonymous (rest.map Order.anonymous)).blur := by
  simp only [blur, trade, settle_anonymous, List.map_map]
  rfl

theorem blur_decrementBoth :
    (m.decrementBoth instrument head rest).blur =
      (m.blur.decrementBoth instrument head.anonymous (rest.map Order.anonymous)).blur := by
  simp only [blur, decrementBoth, settle_anonymous, List.map_map]
  rfl

theorem blur_cancelResting :
    (m.cancelResting instrument head rest).blur =
      (m.blur.cancelResting instrument head.anonymous (rest.map Order.anonymous)).blur := by
  simp only [blur, cancelResting, List.map_map]
  rfl

end

theorem blur_blur (m : Matching) : m.blur.blur = m.blur := by
  simp only [blur, List.map_map]
  rfl

theorem blur_prevent (m : Matching) (head : Order) (rest : List Order) :
    (m.prevent instrument head rest).blur =
      (m.blur.prevent instrument head.anonymous (rest.map Order.anonymous)).blur := by
  unfold prevent
  split
  · exact (blur_blur m).symm
  · exact (blur_blur m.cancelIncoming).symm
  · exact blur_cancelResting m head rest
  · exact blur_cancelResting m.cancelIncoming head rest
  · exact blur_decrementBoth m head rest

/-- Blurring before or after a meeting makes no difference. -/
theorem step_blur (instrument : Instrument) (m : Matching) :
    (m.step instrument).map blur = (m.blur.step instrument).map blur := by
  have hIncoming : m.blur.incoming = m.incoming := rfl
  unfold step
  rw [hIncoming]
  split
  · rfl
  cases hQueue : m.queue with
  | nil =>
    have hBlurred : m.blur.queue = [] := by rw [blur, hQueue, List.map_nil]
    rw [hBlurred]
  | cons head rest =>
    have hBlurred : m.blur.queue = head.anonymous :: rest.map Order.anonymous := by
      rw [blur, hQueue, List.map_cons]
    rw [hBlurred]
    dsimp only
    have hPrice : head.anonymous.price = head.price := rfl
    have hAccount : head.anonymous.account = head.account := rfl
    rw [hPrice, hAccount]
    split
    · rfl
    split
    · exact congrArg some (blur_prevent m head rest)
    · exact congrArg some (blur_trade m head rest)

theorem step_congr (instrument : Instrument) (hBlur : m.blur = m'.blur) :
    (m.step instrument).map blur = (m'.step instrument).map blur := by
  rw [step_blur, step_blur instrument m', hBlur]

/-- Matches that look alike when blurred go alike. -/
theorem run_congr (hBlur : m.blur = m'.blur) (fuel : Nat) :
    (m.run instrument fuel).blur = (m'.run instrument fuel).blur := by
  induction fuel generalizing m m' with
  | zero => exact hBlur
  | succ fuel ih =>
    have hStep := step_congr instrument hBlur
    rw [run, run]
    cases hNext : m.step instrument with
    | none =>
      rw [hNext, Option.map_none, eq_comm, Option.map_eq_none_iff] at hStep
      rw [hStep]
      exact hBlur
    | some next =>
      rw [hNext, Option.map_some, eq_comm, Option.map_eq_some_iff] at hStep
      obtain ⟨next', hNext', hBlur'⟩ := hStep
      rw [hNext']
      exact ih hBlur'.symm

theorem finish_congr (instrument : Instrument) (hBlur : m.blur = m'.blur) :
    (m.finish instrument).blur = (m'.finish instrument).blur := by
  have hLength : m.queue.length = m'.queue.length := by
    have hQueue : m.queue.map Order.anonymous = m'.queue.map Order.anonymous :=
      congrArg Matching.queue hBlur
    simpa using congrArg List.length hQueue
  rw [finish, finish, hLength]
  exact run_congr hBlur _

end Matching

namespace Book

/-- The answer to an order depends on the book only through the other queue without
its ids and through whether the order's id is taken. -/
theorem insert_result_congr {book book' : Book} {order : Order} (fillable : Bool)
    (hInstrument : book.instrument = book'.instrument)
    (hQueue : (book.queue order.side.opposite).map Order.anonymous =
      (book'.queue order.side.opposite).map Order.anonymous)
    (hTaken : (book.find order.id).isSome = (book'.find order.id).isSome) :
    (book.insert fillable order [] []).result = (book'.insert fillable order [] []).result := by
  have hValidate : book.validate order = book'.validate order := by
    rw [validate, validate, hInstrument, hTaken]
  have hCross : book.wouldCross order = book'.wouldCross order := by
    have hHead : ∀ queue : List Order, (queue.head?.any fun head => order.crosses head.price) =
        ((queue.map Order.anonymous).head?.any fun head => order.crosses head.price) := by
      intro queue
      cases queue <;> rfl
    rw [wouldCross, wouldCross, hHead, hHead (book'.queue _), hQueue]
  have hBlur : (book.arrival order [] []).blur = (book'.arrival order [] []).blur := by
    simp only [Matching.blur, arrival, hQueue]
  have hFinish := Matching.finish_congr book.instrument hBlur
  have hIncoming : ((book.arrival order [] []).finish book.instrument).incoming =
      ((book'.arrival order [] []).finish book'.instrument).incoming := by
    rw [← hInstrument]
    have hSame := congrArg Matching.incoming hFinish
    exact hSame
  have hStp : ((book.arrival order [] []).finish book.instrument).stpCancelled =
      ((book'.arrival order [] []).finish book'.instrument).stpCancelled := by
    rw [← hInstrument]
    have hSame := congrArg Matching.stpCancelled hFinish
    exact hSame
  unfold insert filledBy
  rw [hValidate, hCross]
  dsimp only
  rw [hIncoming, hStp]
  split
  · rfl
  split
  · rfl
  split
  · rfl
  · split <;> rfl

/-- An order that nothing else is wrong with is a duplicate when its id is taken. -/
theorem reject_of_taken {book : Book} {order : Order}
    (hInstrument : order.instrument = book.instrument.id)
    (hQuantity : book.instrument.isValidQuantity order.quantity = true)
    (hPrice : order.type = .limit → book.instrument.isValidPrice order.price = true)
    (hTaken : (book.find order.id).isSome) (fillable : Bool) :
    (book.insert fillable order [] []).result.reject = .duplicateOrderId := by
  have hValidate : book.validate order = .duplicateOrderId := by
    unfold validate
    by_cases hLimit : order.type = .limit <;> simp_all
  simp [insert, hValidate]

/-- An order is called a duplicate only when its id is taken. -/
theorem find_of_duplicate {book : Book} {order : Order} {fillable : Bool}
    (hDuplicate : (book.insert fillable order [] []).result.reject = .duplicateOrderId) :
    (book.find order.id).isSome := by
  unfold insert at hDuplicate
  dsimp only at hDuplicate
  split at hDuplicate
  · -- Of the checks only the one of the index has this answer.
    change book.validate order = .duplicateOrderId at hDuplicate
    unfold validate at hDuplicate
    repeat' split at hDuplicate
    all_goals first | assumption | cases hDuplicate
  split at hDuplicate
  · cases hDuplicate
  split at hDuplicate
  · cases hDuplicate
  split at hDuplicate <;> cases hDuplicate

end Book

end PriceTime
end ExchangeCore
