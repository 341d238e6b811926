import ExchangeCore.PriceTime.Foresight

/-!
# Reading a book's next trade id off its prints

A book shows its next trade id only in a print.  Two orders of accounts that have
nothing in the book make it print: a sale at a price the instrument allows, and a
purchase at the same price.  The sale meets a bid, or rests where the purchase
reaches it.  A book that no order can rest in never prints, and its next trade id
stays the first one.
-/

namespace ExchangeCore

/-- Some order of the instrument could rest and trade. -/
def Instrument.Tradable (instrument : Instrument) (price : Int) (quantity : Nat) : Prop :=
  instrument.isValidPrice price = true ∧ instrument.isValidQuantity quantity = true ∧ 0 < quantity

namespace PriceTime

namespace Matching

variable {instrument : Instrument} {m m' : Matching}

/-- Prints are only added to. -/
theorem Reaches.fills_extend (hReaches : Reaches instrument m m') : m.fills <+: m'.fills := by
  refine hReaches.invariant (P := fun m' => m.fills <+: m'.fills) ?_ (List.prefix_refl _)
  intro x x' hPrefix hStep
  obtain ⟨head, rest, -, -, -, hMeets⟩ := step_cases hStep
  cases hMeets with
  | trade => exact hPrefix.trans (List.prefix_append _ _)
  | cancelIncoming => exact hPrefix
  | cancelResting => exact hPrefix
  | cancelBoth => exact hPrefix
  | decrementBoth => exact hPrefix

end Matching

namespace Book

/-- A match that is over before it begins leaves the book as it is. -/
theorem matched_arrival (book : Book) (order : Order) (fills : List Fill)
    (withdrawals : List Withdrawal) :
    book.matched order (book.arrival order fills withdrawals) = book := by
  show { book.setQueue order.side.opposite (book.queue order.side.opposite) with
    nextTradeId := book.nextTradeId } = book
  rw [setQueue_self]

/-- A day order at a price and for a quantity that the instrument allows, of an account
that has nothing in the book, under an id that is free. -/
structure Probes (order : Order) (book : Book) : Prop where
  terms : book.instrument.Tradable order.price order.quantity
  instrument_eq : order.instrument = book.instrument.id
  limit : order.type = .limit
  day : order.tif = .day
  takes : order.postOnly = false
  whole : order.remaining = order.quantity
  id_free : ∀ resting ∈ book.orders, resting.id ≠ order.id
  stranger : ∀ resting ∈ book.orders, resting.account ≠ order.account

section Probes

variable {book : Book} {order : Order}

theorem Probes.validate (hProbes : Probes order book) : book.validate order = .none :=
  validate_eq_none_iff.mpr ⟨hProbes.instrument_eq, hProbes.terms.2.1,
    fun _ => hProbes.terms.1, find_eq_none_iff.mpr hProbes.id_free⟩

theorem Probes.accepts (hProbes : Probes order book) (verdict : Bool) :
    book.Accepts verdict order := by
  refine ⟨hProbes.validate, fun hPostOnly => ?_, fun hKill => ?_⟩
  · rw [hProbes.takes] at hPostOnly
    contradiction
  · rw [hProbes.day] at hKill
    contradiction

/-- A probe prints under the next trade id, or nothing crosses and it rests as it is. -/
theorem Probes.insert (hProbes : Probes order book) (verdict : Bool) :
    (book.insert verdict order [] []).fills.head?.map Fill.id = some ⟨book.nextTradeId⟩ ∨
      ((book.insert verdict order [] []).fills = [] ∧
        (book.insert verdict order [] []).book =
          book.setQueue order.side (enqueue order (book.queue order.side)) ∧
        ∀ head ∈ (book.queue order.side.opposite).head?, order.crosses head.price = false) := by
  have hPositive : 0 < order.remaining := hProbes.whole ▸ hProbes.terms.2.2
  have hStays : expires order = false := by simp [expires, hProbes.limit, hProbes.day]
  have hAccepted := reject_insert_iff.mpr (hProbes.accepts verdict)
  have hCases := insert_cases book verdict order [] []
  generalize book.insert verdict order [] [] = outcome at hAccepted hCases ⊢
  cases hStep : (book.arrival order [] []).step book.instrument with
  | none =>
    -- Nothing crosses, so the match is over before it begins.
    have hFinish := Matching.finish_of_stop hStep
    have hClear : ∀ head ∈ (book.queue order.side.opposite).head?,
        order.crosses head.price = false :=
      (Matching.step_eq_none_iff.mp hStep).resolve_left hPositive.ne'
    have hMatched := matched_arrival book order [] []
    refine Or.inr ?_
    cases hCases with
    | refused reason hReason => exact absurd hAccepted hReason
    | entered m rested hMatch _ hRested =>
      rw [hFinish] at hMatch
      subst hMatch
      obtain rfl := hRested.mpr ⟨hPositive.ne', hStays⟩
      refine ⟨rfl, ?_, hClear⟩
      show (book.matched order _).setQueue order.side
        (enqueue order ((book.matched order _).queue order.side)) = _
      rw [hMatched]
  | some m' =>
    -- The head belongs to somebody else, so the first meeting is a trade.
    obtain ⟨head, rest, hQueue, -, -, hMeets⟩ := Matching.step_cases hStep
    have hHead : head ∈ book.orders :=
      mem_orders.mpr ⟨order.side.opposite, by
        rw [show book.queue order.side.opposite = head :: rest from hQueue]
        exact List.mem_cons_self⟩
    have hForeign : ¬ book.instrument.prevents order.account head.account = true :=
      fun hOwn => hProbes.stranger head hHead (Matching.account_of_prevents hOwn)
    have hFirst : m' = (book.arrival order [] []).trade book.instrument head rest := by
      cases hMeets with
      | trade => rfl
      | cancelIncoming hOwn => exact absurd hOwn hForeign
      | cancelResting hOwn => exact absurd hOwn hForeign
      | cancelBoth hOwn => exact absurd hOwn hForeign
      | decrementBoth hOwn => exact absurd hOwn hForeign
    have hPrint : ∀ m, (book.arrival order [] []).finish book.instrument = m →
        m.fills.head?.map Fill.id = some ⟨book.nextTradeId⟩ := by
      rintro m rfl
      rw [Matching.finish_of_step hStep]
      obtain ⟨later, hLater⟩ :=
        (Matching.reaches_finish book.instrument m').fills_extend
      rw [← hLater, hFirst]
      rfl
    refine Or.inl ?_
    cases hCases with
    | refused reason hReason => exact absurd hAccepted hReason
    | entered m rested hMatch => exact hPrint m hMatch

/-- A sale and a purchase at one price, by strangers, print under the next trade id. -/
theorem Valid.probe (hValid : book.Valid) {sale purchase : Order} (hSale : Probes sale book)
    (hPurchase : Probes purchase book) (hSell : sale.side = .sell) (hBuy : purchase.side = .buy)
    (hPrice : purchase.price = sale.price) (hIds : sale.id ≠ purchase.id)
    (hAccounts : sale.account ≠ purchase.account) (verdict verdict' : Bool) :
    ((book.insert verdict sale [] []).fills ++
        ((book.insert verdict sale [] []).book.insert verdict' purchase [] []).fills).head?.map
          Fill.id = some ⟨book.nextTradeId⟩ := by
  rcases hSale.insert verdict with hPrint | ⟨hNone, hRested, -⟩
  · -- The sale has met a bid.
    cases hFills : (book.insert verdict sale [] []).fills with
    | nil =>
      rw [hFills] at hPrint
      contradiction
    | cons fill fills =>
      rw [hFills] at hPrint
      exact hPrint
  · rw [hNone, hRested, List.nil_append]
    have hAfter : (book.setQueue sale.side (Book.enqueue sale (book.queue sale.side))).Valid := by
      have hInserted : (book.insert verdict sale [] []).book.Valid :=
        hValid.insert hSale.whole.le fun hKill => by rw [hSale.day] at hKill; contradiction
      rw [hRested] at hInserted
      exact hInserted
    have hMember : ∀ x, x ∈ (book.setQueue sale.side
        (Book.enqueue sale (book.queue sale.side))).orders ↔ x = sale ∨ x ∈ book.orders :=
      fun x => mem_orders_enqueue
    have hMeets : Probes purchase
        (book.setQueue sale.side (Book.enqueue sale (book.queue sale.side))) :=
      { hPurchase with
        terms := by rw [instrument_setQueue]; exact hPurchase.terms
        instrument_eq := by rw [instrument_setQueue]; exact hPurchase.instrument_eq
        id_free := fun x hx => by
          rcases (hMember x).mp hx with rfl | hOld
          · exact hIds
          · exact hPurchase.id_free x hOld
        stranger := fun x hx => by
          rcases (hMember x).mp hx with rfl | hOld
          · exact hAccounts
          · exact hPurchase.stranger x hOld }
    rcases hMeets.insert verdict' with hPrint | ⟨-, -, hClear⟩
    · rw [nextTradeId_setQueue] at hPrint
      exact hPrint
    -- The sale rests on the side the purchase meets, and it crosses.
    have hOpposite : purchase.side.opposite = sale.side := by rw [hBuy, hSell]; rfl
    have hCrosses : purchase.crosses sale.price = true := by
      simp [Order.crosses, Order.isBuy, hBuy, hPrice]
    have hNothing := not_crosses_of_head purchase.side (hAfter.side_eq purchase.side.opposite)
      rfl (hAfter.sorted purchase.side.opposite) hClear sale (by
        rw [hOpposite, queue_setQueue]
        exact mem_enqueue.mpr (Or.inl rfl))
    rw [hCrosses] at hNothing
    contradiction

end Probes

/-! ## Books nothing can rest in -/

/-- Unless the instrument can be traded at all, the book is as it was created. -/
def Inert (book : Book) : Prop :=
  (∀ price quantity, ¬ book.instrument.Tradable price quantity) →
    book.orders = [] ∧ book.nextTradeId = 1

theorem inert_empty (instrument : Instrument) : Inert { instrument := instrument } :=
  fun _ => ⟨rfl, rfl⟩

section Inert

variable {book : Book}

variable (hInert : book.Inert)
  (hNever : ∀ price quantity, ¬ book.instrument.Tradable price quantity)
include hInert hNever

theorem Inert.find (id : OrderId) : book.find id = none := by
  rw [find_eq_none_iff, (hInert hNever).1]
  exact fun order hMem => absurd hMem List.not_mem_nil

/-- An order is refused, or has nothing to trade and nothing to rest with. -/
theorem Inert.insert {order : Order}
    (hLe : order.remaining ≤ order.quantity) (verdict : Bool) (fills : List Fill)
    (withdrawals : List Withdrawal) :
    (book.insert verdict order fills withdrawals).book = book := by
  have hEmpty : book.queue order.side.opposite = [] := by
    rw [List.eq_nil_iff_forall_not_mem]
    intro resting hMem
    have hOrder := mem_orders.mpr ⟨_, hMem⟩
    rw [(hInert hNever).1] at hOrder
    exact absurd hOrder List.not_mem_nil
  have hStop : (book.arrival order fills withdrawals).step book.instrument = none := by
    refine Matching.step_eq_none_iff.mpr (Or.inr fun head hHead => ?_)
    rw [show (book.arrival order fills withdrawals).queue = [] from hEmpty] at hHead
    contradiction
  have hFinish := Matching.finish_of_stop hStop
  have hCases := insert_cases book verdict order fills withdrawals
  generalize book.insert verdict order fills withdrawals = outcome at hCases ⊢
  cases hCases with
  | refused => rfl
  | entered m rested hMatch hAccepts hRested =>
    rw [hFinish] at hMatch
    subst hMatch
    cases rested with
    | false => exact matched_arrival book order fills withdrawals
    | true =>
    -- It would have a valid price and a positive valid quantity.
    obtain ⟨hLeft, hStays⟩ := hRested.mp rfl
    obtain ⟨-, hQuantity, hPrice, -⟩ := validate_eq_none_iff.mp hAccepts.1
    have hLimit : order.type = .limit := by
      cases hType : order.type with
      | limit => rfl
      | market => simp [expires, hType] at hStays
    have hPositive : 0 < order.remaining := Nat.pos_of_ne_zero hLeft
    exact absurd ⟨hPrice hLimit, hQuantity, hPositive.trans_le hLe⟩
      (hNever order.price order.quantity)

end Inert

end Book

end PriceTime
end ExchangeCore
