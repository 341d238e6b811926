import ExchangeCore.PriceTime.Book

/-!
# How much an order would fill

Two ways to know what a match will fill without running it.  Without prevention
it is the crossing quantity, capped by what is asked for.  With prevention each
policy diverts quantity in its own way, and `fillableFrom` walks the queue as
the matching machine would.  `filledBy_finish` and `filledBy_finish_prevented`
say that both agree with the match itself, so they depend on nothing but the
queue and the order's terms.
-/

namespace ExchangeCore
namespace PriceTime

/-- What crosses at the front of a queue. -/
def crossing (order : Order) (queue : List Order) : List Order :=
  queue.takeWhile fun resting => order.crosses resting.price

def crossingQuantity (order : Order) (queue : List Order) : Nat :=
  ((crossing order queue).map Order.remaining).sum

/-- What is left to allocate is handed out along the queue; the second number is
what will fill. -/
def fillableFrom (policy : SelfTradePolicy) (account : AccountId) (crosses : Int → Bool) :
    List Order → Nat → Nat → Nat
  | [], _, willFill => willFill
  | resting :: rest, unallocated, willFill =>
    if !crosses resting.price then
      willFill
    else
      match if resting.account = account then policy else .allow with
      | .cancelIncoming => willFill
      | .cancelBoth => willFill
      | .cancelResting => fillableFrom policy account crosses rest unallocated willFill
      | .decrementBoth =>
        let left := unallocated - min unallocated resting.remaining
        if left = 0 then willFill
        else fillableFrom policy account crosses rest left willFill
      | .allow =>
        let traded := min unallocated resting.remaining
        if unallocated - traded = 0 then willFill + traded
        else
          fillableFrom policy account crosses rest (unallocated - traded) (willFill + traded)

namespace Matching

variable {instrument : Instrument} {m m' : Matching}

/-- What the machine has still to fill from here. -/
def toFill (instrument : Instrument) (m : Matching) : Nat :=
  m.incoming.remaining - (m.finish instrument).incoming.remaining -
    ((m.finish instrument).stpCancelled - m.stpCancelled)

theorem finish_of_step (hStep : m.step instrument = some m') :
    m.finish instrument = m'.finish instrument :=
  Reaches.finish_eq (.head hStep (reaches_finish instrument m')) (step_finish instrument m')

theorem finish_of_stop (hStop : m.step instrument = none) : m.finish instrument = m :=
  Reaches.finish_eq .refl hStop

/-- A step takes quantity off the incoming order only by filling or
withdrawing it. -/
theorem step_remaining (hStep : m.step instrument = some m') :
    m.stpCancelled ≤ m'.stpCancelled ∧
      m'.incoming.remaining + (m'.stpCancelled - m.stpCancelled) ≤ m.incoming.remaining := by
  obtain ⟨head, rest, -, -, -, hMeets⟩ := step_cases hStep
  cases hMeets with
  | trade => simp only [trade, Order.take]; omega
  | cancelIncoming => simp only [cancelIncoming]; omega
  | cancelResting => simp only [cancelResting]; omega
  | cancelBoth => simp only [cancelBoth, cancelResting, cancelIncoming]; omega
  | decrementBoth => simp only [decrementBoth, Order.shrink]; omega

theorem Reaches.remaining (hReaches : Reaches instrument m m') :
    m.stpCancelled ≤ m'.stpCancelled ∧
      m'.incoming.remaining + (m'.stpCancelled - m.stpCancelled) ≤ m.incoming.remaining := by
  refine hReaches.invariant (P := fun x => m.stpCancelled ≤ x.stpCancelled ∧
    x.incoming.remaining + (x.stpCancelled - m.stpCancelled) ≤ m.incoming.remaining) ?_
    ⟨le_refl _, by omega⟩
  intro a b ⟨hMono, hLe⟩ hStep
  obtain ⟨hMono', hLe'⟩ := step_remaining hStep
  omega

/-- What is to fill before a step is what the step fills and what is to fill
after it. -/
theorem toFill_of_step (hStep : m.step instrument = some m') :
    m.toFill instrument =
      m.incoming.remaining - m'.incoming.remaining - (m'.stpCancelled - m.stpCancelled) +
        m'.toFill instrument := by
  obtain ⟨hMono, hLe⟩ := step_remaining hStep
  obtain ⟨hMono', hLe'⟩ := (reaches_finish instrument m').remaining
  unfold toFill
  rw [finish_of_step hStep]
  omega

theorem toFill_of_stop (hStop : m.step instrument = none) : m.toFill instrument = 0 := by
  unfold toFill
  rw [finish_of_stop hStop]
  omega

theorem toFill_of_used (hZero : m.incoming.remaining = 0) : m.toFill instrument = 0 :=
  toFill_of_stop (step_eq_none_iff.mpr (Or.inl hZero))

section Walk

variable (policy : SelfTradePolicy) (account : AccountId) (crosses : Int → Bool)

theorem fillableFrom_zero (queue : List Order) (willFill : Nat) :
    fillableFrom policy account crosses queue 0 willFill = willFill := by
  induction queue with
  | nil => rfl
  | cons head rest ih =>
    rw [fillableFrom]
    split
    · rfl
    · cases (if head.account = account then policy else .allow) <;> simp [ih]

/-- One order of the walk; nothing is handed out once nothing is left. -/
theorem fillableFrom_cons {head : Order} (hCrosses : crosses head.price = true)
    (rest : List Order) (unallocated willFill : Nat) :
    fillableFrom policy account crosses (head :: rest) unallocated willFill =
      match if head.account = account then policy else .allow with
      | .cancelIncoming | .cancelBoth => willFill
      | .cancelResting => fillableFrom policy account crosses rest unallocated willFill
      | .decrementBoth => fillableFrom policy account crosses rest
          (unallocated - min unallocated head.remaining) willFill
      | .allow => fillableFrom policy account crosses rest
          (unallocated - min unallocated head.remaining)
          (willFill + min unallocated head.remaining) := by
  rw [fillableFrom, hCrosses, Bool.not_true, if_neg Bool.false_ne_true]
  cases (if head.account = account then policy else .allow) with
  | decrementBoth | allow =>
    dsimp only
    split
    · next hNone => rw [hNone, fillableFrom_zero]
    · rfl
  | _ => rfl

/-- Without prevention everything that crosses trades. -/
theorem fillableFrom_allow (order : Order) (queue : List Order) (unallocated willFill : Nat) :
    fillableFrom .allow account order.crosses queue unallocated willFill =
      willFill + min unallocated (crossingQuantity order queue) := by
  induction queue generalizing unallocated willFill with
  | nil => simp [fillableFrom, crossingQuantity, crossing]
  | cons head rest ih =>
    cases hCrosses : order.crosses head.price with
    | false => simp [fillableFrom, crossingQuantity, crossing, hCrosses]
    | true =>
      have hSum : crossingQuantity order (head :: rest) =
          head.remaining + crossingQuantity order rest := by
        simp [crossingQuantity, crossing, hCrosses]
      rw [fillableFrom_cons _ _ _ hCrosses, ite_self, hSum]
      dsimp only
      rw [ih]
      omega

end Walk

/-- The walk counts what the machine fills, if it applies to the order's own account the
policy that prevention applies. -/
theorem fillableFrom_eq (instrument : Instrument) (policy : SelfTradePolicy) (m : Matching)
    (willFill : Nat)
    (hPolicy : ∀ account, (if account = m.incoming.account then policy else .allow) =
      if instrument.prevents m.incoming.account account then instrument.selfTradePolicy
      else .allow) :
    fillableFrom policy m.incoming.account m.incoming.crosses m.queue m.incoming.remaining
      willFill = willFill + m.toFill instrument := by
  -- The queue shrinks with every meeting that does not use the order up.
  induction hQueue : m.queue generalizing m willFill with
  | nil =>
    rw [toFill_of_stop (step_eq_none_iff.mpr (Or.inr (by simp [hQueue])))]
    rfl
  | cons head rest ih =>
    by_cases hLeft : m.incoming.remaining = 0
    · rw [toFill_of_used hLeft, hLeft, fillableFrom_zero, Nat.add_zero]
    cases hCrosses : m.incoming.crosses head.price with
    | false =>
      rw [toFill_of_stop (step_eq_none_iff.mpr (Or.inr (by simp [hQueue, hCrosses])))]
      simp [fillableFrom, hCrosses]
    | true =>
      obtain ⟨m₁, hStep⟩ : ∃ m₁, m.step instrument = some m₁ :=
        Option.ne_none_iff_exists'.mp (by simp [step_eq_none_iff, hLeft, hQueue, hCrosses])
      have hTerms := (step_terms hStep).1
      have hCross : m₁.incoming.crosses = m.incoming.crosses :=
        funext fun price => Order.crosses_congr hTerms price
      have hOwner : m₁.incoming.account = m.incoming.account := (Order.eq_of_terms_eq hTerms).2.1
      have hNext : (m₁.incoming.remaining ≠ 0 → m₁.queue = rest) → ∀ willFill,
          fillableFrom policy m.incoming.account m.incoming.crosses rest m₁.incoming.remaining
            willFill = willFill + m₁.toFill instrument := by
        intro hRest willFill
        by_cases hUsed : m₁.incoming.remaining = 0
        · rw [toFill_of_used hUsed, hUsed, fillableFrom_zero, Nat.add_zero]
        · have hWalk := ih m₁ willFill (by rwa [hOwner]) (hRest hUsed)
          rwa [hCross, hOwner] at hWalk
      obtain ⟨head', rest', hQueue', -, -, hMeets⟩ := step_cases hStep
      cases hQueue.symm.trans hQueue'
      rw [fillableFrom_cons _ _ _ hCrosses, hPolicy, toFill_of_step hStep]
      cases hMeets with
      | trade hFree =>
        rw [hFree]
        refine (hNext (fun hLeft' => settle_of_zero ?_ rest) _).trans ?_
        · simp only [trade, Order.take] at hLeft' ⊢
          omega
        · simp only [trade, Order.take]
          omega
      | cancelIncoming hOwn hCancel =>
        rw [if_pos hOwn, hCancel, toFill_of_used rfl]
        simp only [cancelIncoming]
        omega
      | cancelBoth hOwn hCancel =>
        rw [if_pos hOwn, hCancel, toFill_of_used rfl]
        simp only [cancelBoth, cancelResting, cancelIncoming]
        omega
      | cancelResting hOwn hCancel =>
        rw [if_pos hOwn, hCancel]
        refine (hNext (fun _ => rfl) _).trans ?_
        simp only [cancelResting]
        omega
      | decrementBoth hOwn hDecrement =>
        rw [if_pos hOwn, hDecrement]
        refine (hNext (fun hLeft' => settle_of_zero ?_ rest) _).trans ?_
        · simp only [decrementBoth, Order.shrink] at hLeft' ⊢
          omega
        · simp only [decrementBoth, Order.shrink]
          omega

end Matching

namespace Book

variable (book : Book) (order : Order) (fills : List Fill) (withdrawals : List Withdrawal)

theorem filledBy_arrival :
    filledBy order ((book.arrival order fills withdrawals).finish book.instrument) =
      (book.arrival order fills withdrawals).toFill book.instrument := by
  simp [filledBy, Matching.toFill, arrival]

/-- Prevention can come between the order and the book. -/
def preventionActive : Bool :=
  book.instrument.selfTradePolicy != .allow && order.account.valid

/-- What a match fills, read off the queue. -/
def fillableQuantity : Nat :=
  if preventionActive book order then
    fillableFrom book.instrument.selfTradePolicy order.account order.crosses
      (book.queue order.side.opposite) order.remaining 0
  else
    min order.remaining (crossingQuantity order (book.queue order.side.opposite))

/-- The match fills exactly the fillable quantity, whatever has been traded
before. -/
theorem filledBy_eq :
    filledBy order ((book.arrival order fills withdrawals).finish book.instrument) =
      book.fillableQuantity order := by
  have hWalk := fun policy => Matching.fillableFrom_eq book.instrument policy
    (book.arrival order fills withdrawals) 0
  rw [filledBy_arrival, fillableQuantity]
  simp only [Nat.zero_add] at hWalk
  split
  · next hActive =>
      refine (hWalk _ fun account => ?_).symm
      rw [preventionActive] at hActive
      by_cases hOwn : account = order.account <;>
        simp [Instrument.prevents, arrival, hActive, hOwn]
  next hInactive =>
  refine (hWalk .allow fun account => ?_).symm.trans ?_
  · rw [preventionActive, Bool.not_eq_true] at hInactive
    rw [ite_self, Instrument.prevents]
    simp [arrival, hInactive]
  · exact (Matching.fillableFrom_allow ..).trans (Nat.zero_add _)

theorem canFill_eq :
    book.canFill order = decide (order.remaining ≤ book.fillableQuantity order) := by
  rw [canFill, filledBy_eq]

/-- An order that can fill leaves nothing over. -/
theorem remaining_of_canFill (hCan : book.canFill order = true) :
    ((book.arrival order fills withdrawals).finish book.instrument).incoming.remaining = 0 := by
  rw [canFill_eq, decide_eq_true_eq, ← filledBy_eq book order fills withdrawals] at hCan
  have hRemaining := (Matching.reaches_finish book.instrument
    (book.arrival order fills withdrawals)).remaining.2
  have hStart : (book.arrival order fills withdrawals).incoming.remaining = order.remaining := rfl
  unfold filledBy at hCan
  omega

end Book
end PriceTime
end ExchangeCore
