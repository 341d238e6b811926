import ExchangeCore.Core.Types

/-!
# Price-time matching, one order at a time

The purpose of a limit order book, free of any data structure: the incoming
order meets the head of the opposite queue again and again until it is used up,
the queue is empty, or the head no longer crosses.  `step` is one meeting;
`run` repeats it.  Every book of this development simulates this machine, and
facts about a whole match are proved once, from what one meeting can do
(`step_cases`).
-/

namespace ExchangeCore

/-- Whether an order is willing to trade at a price.  A market order always
is. -/
def Order.crosses (order : Order) (price : Int) : Bool :=
  order.type == .market ||
    (if order.isBuy then decide (price ≤ order.price) else decide (order.price ≤ price))

/-- Self-trade prevention applies between these two accounts. -/
def Instrument.prevents (instrument : Instrument) (incoming resting : AccountId) : Bool :=
  (instrument.selfTradePolicy != .allow && incoming.valid) && decide (resting = incoming)

/-- The trade between an incoming order and a resting one, as both stand after
`quantity` has been taken off them. -/
def Fill.between (instrument : Instrument) (id : Nat) (price : Int) (quantity : Nat)
    (incoming resting : Order) : Fill :=
  { id := ⟨id⟩
    instrument := instrument.id
    price := price
    quantity := quantity
    aggressorOrder := incoming.id
    restingOrder := resting.id
    aggressorAccount := incoming.account
    restingAccount := resting.account
    aggressorSide := incoming.side
    restingFilled := resting.remaining == 0
    timestamp := incoming.acceptedAt }

/-- A resting order losing quantity to prevention. -/
def Withdrawal.ofResting (instrument : Instrument) (resting : Order) (quantity : Nat)
    (fullyRemoved : Bool) : Withdrawal :=
  { order := resting.id
    account := resting.account
    instrument := instrument.id
    side := resting.side
    quantity := quantity
    fullyRemoved := fullyRemoved
    reason := .selfTrade }

/-- Everything about an order but its two quantities, which is all that matching
can change. -/
def Order.terms (order : Order) : Order := { order with quantity := 0, remaining := 0 }

/-- Some of the order is still to trade, and no more than was asked for. -/
def Order.Live (order : Order) : Prop := 0 < order.remaining ∧ order.remaining ≤ order.quantity

section

variable (order : Order) (quantity : Nat)

/-- Quantity that trades. -/
def Order.take : Order :=
  { order with remaining := order.remaining - quantity }

/-- Quantity that is withdrawn: the original size shrinks with the remainder, so
that `filled` keeps meaning "traded". -/
def Order.shrink : Order :=
  { order with
    remaining := order.remaining - quantity
    quantity := order.quantity - quantity }

@[simp] theorem Order.terms_take : (order.take quantity).terms = order.terms := rfl

@[simp] theorem Order.terms_shrink : (order.shrink quantity).terms = order.terms := rfl

end

variable {a b order : Order}

/-- Orders with the same terms agree on every field matching cannot change. -/
theorem Order.eq_of_terms_eq (hTerms : a.terms = b.terms) :
    a.id = b.id ∧ a.account = b.account ∧ a.instrument = b.instrument ∧ a.price = b.price ∧
      a.side = b.side ∧ a.type = b.type ∧ a.tif = b.tif ∧ a.acceptedAt = b.acceptedAt ∧
      a.sequence = b.sequence ∧ a.postOnly = b.postOnly := by
  simpa [Order.terms] using hTerms

theorem Order.crosses_congr (hTerms : a.terms = b.terms) (price : Int) :
    a.crosses price = b.crosses price := by
  obtain ⟨-, -, -, hPrice, hSide, hType, -⟩ := Order.eq_of_terms_eq hTerms
  simp [Order.crosses, Order.isBuy, hPrice, hSide, hType]

theorem Order.Live.take {quantity : Nat} (hLive : order.Live)
    (hLeft : (order.take quantity).remaining ≠ 0) : (order.take quantity).Live := by
  unfold Order.Live Order.take at *
  dsimp only at *
  omega

theorem Order.Live.shrink {quantity : Nat} (hLive : order.Live)
    (hLeft : (order.shrink quantity).remaining ≠ 0) : (order.shrink quantity).Live := by
  unfold Order.Live Order.shrink at *
  dsimp only at *
  omega

namespace PriceTime

/-- A match in progress. -/
structure Matching where
  incoming : Order
  queue : List Order
  nextTradeId : Nat
  fills : List Fill := []
  withdrawals : List Withdrawal := []
  stpCancelled : Nat := 0

namespace Matching

variable (instrument : Instrument)

/-- The head without what it lost, and off the queue once nothing is left. -/
def settle (head : Order) (rest : List Order) : List Order :=
  if head.remaining = 0 then rest else head :: rest

def trade (m : Matching) (head : Order) (rest : List Order) : Matching :=
  let quantity := min m.incoming.remaining head.remaining
  let incoming := m.incoming.take quantity
  let head := head.take quantity
  { m with
    incoming := incoming
    queue := settle head rest
    nextTradeId := m.nextTradeId + 1
    fills := m.fills ++
      [Fill.between instrument m.nextTradeId head.price quantity incoming head] }

/-- The aggressor gives way. -/
def cancelIncoming (m : Matching) : Matching :=
  { m with
    stpCancelled := m.stpCancelled + m.incoming.remaining
    incoming := { m.incoming with remaining := 0 } }

section

variable (m : Matching) (head : Order) (rest : List Order)

/-- The resting order gives way. -/
def cancelResting : Matching :=
  { m with
    queue := rest
    withdrawals := m.withdrawals ++
      [Withdrawal.ofResting instrument head head.remaining true] }

def cancelBoth : Matching :=
  cancelResting instrument (cancelIncoming m) head rest

/-- Both sides shrink by the overlap and no trade prints. -/
def decrementBoth : Matching :=
  let overlap := min m.incoming.remaining head.remaining
  let head := head.shrink overlap
  { m with
    incoming := m.incoming.shrink overlap
    queue := settle head rest
    stpCancelled := m.stpCancelled + overlap
    withdrawals := m.withdrawals ++
      [Withdrawal.ofResting instrument head overlap (head.remaining == 0)] }

/-- What prevention does when the head belongs to the aggressor. -/
def prevent : Matching :=
  match instrument.selfTradePolicy with
  | .allow => m
  | .cancelIncoming => m.cancelIncoming
  | .cancelResting => m.cancelResting instrument head rest
  | .cancelBoth => m.cancelBoth instrument head rest
  | .decrementBoth => m.decrementBoth instrument head rest

end

/-- One meeting of the incoming order with the head of the queue, or `none` when
the match is over. -/
def step (m : Matching) : Option Matching :=
  if m.incoming.remaining = 0 then
    none
  else
    match m.queue with
    | [] => none
    | head :: rest =>
      if !m.incoming.crosses head.price then
        none
      else if instrument.prevents m.incoming.account head.account then
        some (m.prevent instrument head rest)
      else
        some (m.trade instrument head rest)

def run : Nat → Matching → Matching
  | 0, m => m
  | fuel + 1, m =>
    match m.step instrument with
    | none => m
    | some m' => run fuel m'

/-- Enough meetings for any match: each one uses up the incoming order or takes
the head off the queue. -/
def finish (m : Matching) : Matching := m.run instrument (m.queue.length + 1)

theorem settle_of_zero {head : Order} (hZero : head.remaining = 0) (rest : List Order) :
    settle head rest = rest := by
  rw [settle, if_pos hZero]

/-- Settling looks at nothing but what remains of the head. -/
theorem map_settle (g : Order → Order) (hSame : ∀ order, (g order).remaining = order.remaining)
    (head : Order) (rest : List Order) :
    (settle head rest).map g = settle (g head) (rest.map g) := by
  unfold settle
  rw [hSame]
  split
  · rfl
  · exact List.map_cons

/-! ## What one meeting can do -/

variable {instrument} {m m' : Matching}

section Meets

variable (instrument) (m) (head : Order) (rest : List Order)

/-- The ways a meeting can end. -/
inductive Meets : Matching → Prop
  | trade (hFree : instrument.prevents m.incoming.account head.account = false) :
      Meets (m.trade instrument head rest)
  | cancelIncoming (hOwn : instrument.prevents m.incoming.account head.account = true)
      (hPolicy : instrument.selfTradePolicy = .cancelIncoming) : Meets m.cancelIncoming
  | cancelResting (hOwn : instrument.prevents m.incoming.account head.account = true)
      (hPolicy : instrument.selfTradePolicy = .cancelResting) :
      Meets (m.cancelResting instrument head rest)
  | cancelBoth (hOwn : instrument.prevents m.incoming.account head.account = true)
      (hPolicy : instrument.selfTradePolicy = .cancelBoth) :
      Meets (m.cancelBoth instrument head rest)
  | decrementBoth (hOwn : instrument.prevents m.incoming.account head.account = true)
      (hPolicy : instrument.selfTradePolicy = .decrementBoth) :
      Meets (m.decrementBoth instrument head rest)

end Meets

/-- A step is a meeting with the head of the queue, which crosses. -/
theorem step_cases (hStep : m.step instrument = some m') :
    ∃ head rest, m.queue = head :: rest ∧ 0 < m.incoming.remaining ∧
      m.incoming.crosses head.price = true ∧ Meets instrument m head rest m' := by
  unfold step at hStep
  split at hStep
  · contradiction
  next hLeft =>
  split at hStep
  · contradiction
  next head rest hQueue =>
  split at hStep
  · contradiction
  next hCrosses =>
  refine ⟨head, rest, hQueue, by omega, by simpa using hCrosses, ?_⟩
  split at hStep
  · next hOwn =>
      cases hStep
      unfold prevent
      split
      · next hPolicy => simp [Instrument.prevents, hPolicy] at hOwn
      · next hPolicy => exact .cancelIncoming hOwn hPolicy
      · next hPolicy => exact .cancelResting hOwn hPolicy
      · next hPolicy => exact .cancelBoth hOwn hPolicy
      · next hPolicy => exact .decrementBoth hOwn hPolicy
  · next hFree =>
      cases hStep
      exact .trade (by simpa using hFree)

/-- The match is over: the order is used up, or nothing is left that it
crosses. -/
theorem step_eq_none_iff :
    m.step instrument = none ↔
      m.incoming.remaining = 0 ∨ ∀ head ∈ m.queue.head?, m.incoming.crosses head.price = false := by
  unfold step
  split
  · next hZero => simp [hZero]
  next hLeft =>
  split
  · next hQueue => simp [hQueue]
  next head rest hQueue =>
  cases hCrosses : m.incoming.crosses head.price with
  | false => simp [hQueue, hCrosses]
  | true => simp [hQueue, hCrosses, hLeft]; split <;> simp

theorem step_of_used (instrument : Instrument) (hUsed : m.incoming.remaining = 0) :
    m.step instrument = none :=
  step_eq_none_iff.mpr (Or.inl hUsed)

/-- Every meeting uses up the incoming order or takes the head off. -/
theorem step_progress (hStep : m.step instrument = some m') :
    m'.queue.length ≤ m.queue.length ∧
      (m'.incoming.remaining = 0 ∨ m'.queue.length + 1 = m.queue.length) := by
  have hSettle : ∀ (head : Order) (rest : List Order) (p : Prop), (head.remaining ≠ 0 → p) →
      (settle head rest).length ≤ rest.length + 1 ∧
        (p ∨ (settle head rest).length + 1 = rest.length + 1) := by
    intro head rest p hp
    unfold settle
    split
    · simp
    · next hLeft => exact ⟨by simp, Or.inl (hp hLeft)⟩
  obtain ⟨head, rest, hQueue, -, -, hMeets⟩ := step_cases hStep
  rw [hQueue, List.length_cons]
  cases hMeets with
  | trade =>
    refine hSettle _ _ _ fun hLeft => ?_
    simp only [trade, Order.take] at hLeft ⊢
    omega
  | cancelIncoming => simp [cancelIncoming, hQueue]
  | cancelResting => simp [cancelResting]
  | cancelBoth => simp [cancelBoth, cancelResting]
  | decrementBoth =>
    refine hSettle _ _ _ fun hLeft => ?_
    simp only [decrementBoth, Order.shrink] at hLeft ⊢
    omega

/-! ## Whole matches -/

/-- `m'` is reached from `m` by meetings. -/
def Reaches (instrument : Instrument) : Matching → Matching → Prop :=
  Relation.ReflTransGen fun m m' => m.step instrument = some m'

theorem run_of_step_none (hStop : m.step instrument = none) (fuel : Nat) :
    m.run instrument fuel = m := by
  cases fuel with
  | zero => rfl
  | succ fuel => simp [run, hStop]

/-- A match that stops, stops where `finish` does. -/
theorem Reaches.finish_eq (hReaches : Reaches instrument m m')
    (hStop : m'.step instrument = none) : m.finish instrument = m' := by
  have hRun : ∀ fuel, m.queue.length < fuel → m.run instrument fuel = m' := by
    induction hReaches using Relation.ReflTransGen.head_induction_on with
    | refl => exact fun fuel _ => run_of_step_none hStop fuel
    | head hStep hRest ih =>
      intro fuel hFuel
      obtain ⟨hLe, hProgress⟩ := step_progress hStep
      cases fuel with
      | zero => omega
      | succ fuel =>
        rw [run, hStep]
        rcases hProgress with hZero | hShorter
        · -- The order is used up, so nothing more happens.
          have hDone := step_of_used instrument hZero
          rcases hRest.cases_head with rfl | ⟨next, hNext, -⟩
          · exact run_of_step_none hStop fuel
          · rw [hDone] at hNext
            contradiction
        · exact ih fuel (by omega)
  exact hRun _ (Nat.lt_succ_self _)

theorem reaches_run (m : Matching) (fuel : Nat) : Reaches instrument m (m.run instrument fuel) := by
  induction fuel generalizing m with
  | zero => exact .refl
  | succ fuel ih =>
    rw [run]
    cases hStep : m.step instrument with
    | none => exact .refl
    | some m' => exact .head hStep (ih m')

theorem step_run_eq_none (m : Matching) {fuel : Nat} (hFuel : m.queue.length < fuel) :
    (m.run instrument fuel).step instrument = none := by
  induction fuel generalizing m with
  | zero => omega
  | succ fuel ih =>
    rw [run]
    cases hStep : m.step instrument with
    | none => exact hStep
    | some m' =>
      obtain ⟨-, hZero | hShorter⟩ := step_progress hStep
      · have hDone := step_of_used instrument hZero
        show (m'.run instrument fuel).step instrument = none
        rw [run_of_step_none hDone]
        exact hDone
      · exact ih m' (by omega)

/-- The match is over when `finish` returns. -/
theorem step_finish (instrument : Instrument) (m : Matching) :
    (m.finish instrument).step instrument = none :=
  step_run_eq_none m (Nat.lt_succ_self _)

theorem reaches_finish (instrument : Instrument) (m : Matching) :
    Reaches instrument m (m.finish instrument) :=
  reaches_run m _

theorem reaches_of_finish (hMatch : m.finish instrument = m') : Reaches instrument m m' :=
  hMatch ▸ reaches_finish instrument m

/-- What every meeting preserves, a whole match preserves. -/
theorem Reaches.invariant {P : Matching → Prop} (hReaches : Reaches instrument m m')
    (hStep : ∀ a b, P a → a.step instrument = some b → P b) (hStart : P m) : P m' := by
  induction hReaches with
  | refl => exact hStart
  | tail _ hNext ih => exact hStep _ _ ih hNext

/-! ### What a match leaves alone -/

theorem terms_settle (head : Order) (rest : List Order) :
    (settle head rest).map Order.terms <:+ head.terms :: rest.map Order.terms := by
  unfold settle
  split
  · exact List.suffix_cons _ _
  · exact List.suffix_refl _

theorem step_terms (hStep : m.step instrument = some m') :
    m'.incoming.terms = m.incoming.terms ∧
      m'.queue.map Order.terms <:+ m.queue.map Order.terms := by
  obtain ⟨head, rest, hQueue, -, -, hMeets⟩ := step_cases hStep
  rw [hQueue, List.map_cons]
  cases hMeets with
  | trade => exact ⟨rfl, terms_settle (head.take _) rest⟩
  | cancelIncoming => exact ⟨rfl, by simp [cancelIncoming, hQueue]⟩
  | cancelResting => exact ⟨rfl, List.suffix_cons _ _⟩
  | cancelBoth => exact ⟨rfl, List.suffix_cons _ _⟩
  | decrementBoth => exact ⟨rfl, terms_settle (head.shrink _) rest⟩

/-- Matching changes quantities and takes orders off the front, nothing else. -/
theorem Reaches.terms (hReaches : Reaches instrument m m') :
    m'.incoming.terms = m.incoming.terms ∧
      m'.queue.map Order.terms <:+ m.queue.map Order.terms := by
  refine hReaches.invariant (P := fun x => x.incoming.terms = m.incoming.terms ∧
    x.queue.map Order.terms <:+ m.queue.map Order.terms) ?_ ⟨rfl, List.suffix_refl _⟩
  intro a b ⟨hIncoming, hQueue⟩ hStep
  obtain ⟨hIncoming', hQueue'⟩ := step_terms hStep
  exact ⟨hIncoming'.trans hIncoming, hQueue'.trans hQueue⟩

theorem forall_mem_settle {P : Order → Prop} {head : Order} {rest : List Order}
    (hHead : head.remaining ≠ 0 → P head) (hRest : ∀ o ∈ rest, P o) :
    ∀ o ∈ settle head rest, P o := by
  unfold settle
  split
  · exact hRest
  · next hLeft => exact List.forall_mem_cons.mpr ⟨hHead hLeft, hRest⟩

/-- The orders left in the queue are still live. -/
theorem Reaches.live (hReaches : Reaches instrument m m') (hLive : ∀ o ∈ m.queue, o.Live) :
    ∀ o ∈ m'.queue, o.Live := by
  refine hReaches.invariant (P := fun x => ∀ o ∈ x.queue, o.Live) ?_ hLive
  intro a b ha hStep
  obtain ⟨head, rest, hQueue, -, -, hMeets⟩ := step_cases hStep
  rw [hQueue] at ha
  have hHead := ha head (by simp)
  have hRest : ∀ o ∈ rest, o.Live := fun o ho => ha o (by simp [ho])
  cases hMeets with
  | trade => exact forall_mem_settle (fun hLeft => hHead.take hLeft) hRest
  | cancelIncoming => simpa [cancelIncoming, hQueue] using ha
  | cancelResting => exact hRest
  | cancelBoth => exact hRest
  | decrementBoth => exact forall_mem_settle (fun hLeft => hHead.shrink hLeft) hRest

/-- The incoming order never works more than it asked for. -/
theorem Reaches.remaining_le (hReaches : Reaches instrument m m')
    (hLe : m.incoming.remaining ≤ m.incoming.quantity) :
    m'.incoming.remaining ≤ m'.incoming.quantity := by
  refine hReaches.invariant (P := fun x => x.incoming.remaining ≤ x.incoming.quantity) ?_ hLe
  intro a b ha hStep
  obtain ⟨head, rest, -, -, -, hMeets⟩ := step_cases hStep
  cases hMeets with
  | trade => simp only [trade, Order.take]; omega
  | cancelIncoming => exact Nat.zero_le _
  | cancelResting => exact ha
  | cancelBoth => exact Nat.zero_le _
  | decrementBoth => simp only [decrementBoth, Order.shrink]; omega

end Matching

end PriceTime
end ExchangeCore
