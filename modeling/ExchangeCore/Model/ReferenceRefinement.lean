import ExchangeCore.Model.ReferenceBook

/-!
# The reference book simulates the abstract book

`Mirrors book a` says that the flat list holds the orders of the abstract book,
in whatever order.  A scan of the list finds the head of the opposite queue,
because the head is better than everything behind it in price or, at equal
prices, in its sequence number; so each pass of the matching loop is one meeting
of the abstract machine, and the trial match of a fill-or-kill order is the
abstract verdict.
-/

namespace ExchangeCore

open PriceTime Book List

namespace ReferenceBook

structure Mirrors (book : ReferenceBook) (a : Book) : Prop where
  instrument : book.instrument = a.instrument
  nextTradeId : book.nextTradeId = a.nextTradeId
  orders : book.orders.Perm a.orders

section Lists

theorem orders_setQueue_cons (a : Book) (side : Side) (order : Order) (queue : List Order) :
    (a.setQueue side (order :: queue)).orders.Perm (order :: (a.setQueue side queue).orders) := by
  cases side with
  | buy => exact List.Perm.refl _
  | sell => exact perm_middle

theorem orders_setQueue_congr (a : Book) (side : Side) {queue queue' : List Order}
    (hPerm : queue.Perm queue') :
    (a.setQueue side queue).orders.Perm (a.setQueue side queue').orders := by
  cases side with
  | buy => exact hPerm.append_right _
  | sell => exact hPerm.append_left _

variable {book : ReferenceBook} {slot : Nat} {resting : Order} {orders : List Order}

variable (hPerm : book.orders.Perm (resting :: orders)) (hAt : book.orders[slot]? = some resting)
include hPerm hAt

/-- Removing an order by its place. -/
theorem perm_remove : (book.remove slot).orders.Perm orders := by
  obtain ⟨hLt, hGet⟩ := List.getElem?_eq_some_iff.mp hAt
  have hSplit := getElem_cons_eraseIdx_perm hLt
  rw [hGet] at hSplit
  exact (hSplit.trans hPerm).cons_inv

/-- Overwriting an order at its place. -/
theorem perm_set (order : Order) : (book.orders.set slot order).Perm (order :: orders) := by
  obtain ⟨hLt, -⟩ := List.getElem?_eq_some_iff.mp hAt
  exact (set_perm_cons_eraseIdx hLt order).trans ((perm_remove hPerm hAt).cons order)

end Lists

/-! ## The scan -/

section Scan

variable {book : ReferenceBook} {a : Book} {bound : Nat}

theorem preferred_asymm {side : Side} {x y : Order} (hPreferred : preferred side x y = true) :
    preferred side y x = false := by
  cases side <;> simp [preferred] at * <;> omega

theorem preferred_irrefl (side : Side) (x : Order) : preferred side x x = false := by
  cases side <;> simp [preferred]

/-- In a valid, timed queue every order is preferred to those behind it. -/
theorem pairwise_preferred (hValid : a.Valid) (hTimed : a.Timed bound) (side : Side) :
    (a.queue side.opposite).Pairwise fun ahead behind => preferred side ahead behind = true := by
  have hSides := hValid.side_eq side.opposite
  have hBoth := (hValid.sorted side.opposite).and (hTimed.ordered side.opposite)
  refine hBoth.imp_of_mem fun {x y} _ hy hOrder => ?_
  obtain ⟨hYields, hStamps⟩ := hOrder
  have hSide := hSides y hy
  cases side <;>
    simp [Order.yieldsTo, Order.isBuy, hSide, Side.opposite, preferred] at * <;> omega

/-- Eligible are exactly the live orders of the other side that cross. -/
theorem eligible_iff (incoming candidate : Order) :
    eligible incoming.side incoming.price (incoming.type == .market) candidate = true ↔
      candidate.side ≠ incoming.side ∧ candidate.remaining ≠ 0 ∧
        incoming.crosses candidate.price = true := by
  unfold eligible Order.crosses Order.isBuy
  by_cases hSide : candidate.side = incoming.side
  · simp [hSide]
  by_cases hLive : candidate.remaining = 0
  · simp [hLive]
  · cases incoming.type <;> cases incoming.side <;> simp [hLive]

variable {incoming : Order}

variable (hMirrors : book.Mirrors a) (hValid : a.Valid)
include hMirrors hValid

/-- Only orders of the opposite queue are eligible. -/
theorem Mirrors.mem_queue_of_eligible {candidate : Order} (hMem : candidate ∈ book.orders)
    (hEligible : eligible incoming.side incoming.price (incoming.type == .market) candidate =
      true) :
    candidate ∈ a.queue incoming.side.opposite ∧ incoming.crosses candidate.price = true := by
  obtain ⟨hSide, -, hCrosses⟩ := (eligible_iff incoming candidate).mp hEligible
  obtain ⟨side, hQueue⟩ := mem_orders.mp (hMirrors.orders.subset hMem)
  rcases queue_cases incoming.side side with rfl | rfl
  · exact absurd (hValid.side_eq _ candidate hQueue) hSide
  · exact ⟨hQueue, hCrosses⟩

theorem Mirrors.bestCounterparty_none
    (hHead : ∀ head ∈ (a.queue incoming.side.opposite).head?, incoming.crosses head.price = false) :
    book.bestCounterparty incoming.side incoming.price (incoming.type == .market) = none := by
  apply LinearScan.select_eq_none
  intro candidate hMem
  rw [← Bool.not_eq_true]
  intro hEligible
  obtain ⟨hQueue, hCrosses⟩ := hMirrors.mem_queue_of_eligible hValid
    (fst_mem_of_mem_zipIdx hMem) hEligible
  have hNone := not_crosses_of_head incoming.side (hValid.side_eq _) rfl
    (hValid.sorted _) hHead candidate.1 hQueue
  rw [hCrosses] at hNone
  contradiction

/-- The scan finds the head of the opposite queue. -/
theorem Mirrors.bestCounterparty_some (hTimed : a.Timed bound) {head : Order} {rest : List Order}
    (hQueue : a.queue incoming.side.opposite = head :: rest)
    (hCrosses : incoming.crosses head.price = true) :
    ∃ slot, book.bestCounterparty incoming.side incoming.price (incoming.type == .market) =
        some (head, slot) ∧
      book.orders[slot]? = some head := by
  have hHeadMem : head ∈ a.queue incoming.side.opposite := by simp [hQueue]
  have hIn : head ∈ book.orders :=
    hMirrors.orders.symm.subset (mem_orders.mpr ⟨_, hHeadMem⟩)
  obtain ⟨slot, hAt⟩ := mem_iff_getElem?.mp hIn
  have hNodup : book.orders.Nodup :=
    (hMirrors.orders.nodup_iff.mpr hValid.ids.of_map)
  have hPreferred := pairwise_preferred hValid hTimed incoming.side
  rw [hQueue, pairwise_cons] at hPreferred
  refine ⟨slot, ?_, hAt⟩
  apply LinearScan.select_eq_some (mem_zipIdx_iff_getElem?.mpr hAt)
  · rw [eligible_iff]
    refine ⟨?_, ?_, hCrosses⟩
    · rw [hValid.side_eq _ head hHeadMem]
      exact Side.opposite_ne _
    · exact (hValid.rests _ head hHeadMem).live.1.ne'
  · exact preferred_irrefl _ _
  · intro candidate hMem hEligible hNe
    have hAtCandidate := mem_zipIdx_iff_getElem?.mp hMem
    obtain ⟨hCandidate, -⟩ := hMirrors.mem_queue_of_eligible hValid
      (fst_mem_of_mem_zipIdx hMem) hEligible
    -- The same order at two places would be a duplicate.
    have hOther : candidate.1 ≠ head := by
      intro hEq
      rw [hEq, ← hAt] at hAtCandidate
      have hLt := (List.getElem?_eq_some_iff.mp hAt).1
      have hSlot := (List.getElem?_inj hLt hNodup).mp hAtCandidate.symm
      exact hNe (Prod.ext hEq hSlot.symm)
    rw [hQueue, mem_cons] at hCandidate
    have hBetter := hPreferred.1 candidate.1 (hCandidate.resolve_left hOther)
    exact ⟨hBetter, preferred_asymm hBetter⟩

end Scan

/-! ## The matching loop -/

/-- The loop's state stands for the machine's. -/
structure Sim (a : Book) (order : Order) (s : MatchState) (m : Matching) : Prop where
  mirrors : s.book.Mirrors (a.matched order m)
  incoming : s.incoming = m.incoming
  fills : s.fills = m.fills
  stpCancelled : s.stpCancelled = m.stpCancelled

/-- One pass over the selected order. -/
def MatchState.pass (s : MatchState) (slot : Nat) (resting : Order) : MatchState :=
  if s.book.instrument.prevents s.incoming.account resting.account then s.prevent slot resting
  else s.trade slot resting

variable (book : ReferenceBook) (next : Nat) (slot : Nat) (resting : Order)

section Loop

variable {a : Book} {order head : Order} {s : MatchState} {m m' : Matching} {slot}
  {rest : List Order}

theorem orders_matched_cons (hQueue : m.queue = head :: rest) :
    (a.matched order m).orders.Perm (head :: (a.setQueue order.side.opposite rest).orders) := by
  show (a.setQueue order.side.opposite m.queue).orders.Perm _
  rw [hQueue]
  exact orders_setQueue_cons a _ head rest

section

variable (hSim : Sim a order s m) (hQueue : m.queue = head :: rest)
  (hAt : s.book.orders[slot]? = some head)
include hSim hQueue hAt

/-- The selected order leaves the list. -/
theorem Sim.removed :
    (s.book.remove slot).orders.Perm (a.setQueue order.side.opposite rest).orders :=
  perm_remove (hSim.mirrors.orders.trans (orders_matched_cons hQueue)) hAt

/-- The selected order shrinks, and leaves once nothing is left. -/
theorem Sim.settled (resting : Order) :
    (s.book.settle slot resting).orders.Perm
      (a.setQueue order.side.opposite (Matching.settle resting rest)).orders := by
  unfold settle Matching.settle
  split
  · exact hSim.removed hQueue hAt
  · exact (perm_set (hSim.mirrors.orders.trans (orders_matched_cons hQueue)) hAt resting).trans
      (orders_setQueue_cons a _ resting rest).symm

end

theorem instrument_settle : (book.settle slot resting).instrument = book.instrument := by
  unfold settle
  split <;> rfl

theorem nextTradeId_settle : (book.settle slot resting).nextTradeId = book.nextTradeId := by
  unfold settle
  split <;> rfl

theorem orders_settle_bump :
    ({ book with nextTradeId := next }.settle slot resting).orders =
      (book.settle slot resting).orders := by
  unfold settle
  split <;> rfl

/-- A pass over the head of the queue is one meeting. -/
theorem Sim.pass (hSim : Sim a order s m) (hQueue : m.queue = head :: rest)
    (hAt : s.book.orders[slot]? = some head) (hMeets : Matching.Meets a.instrument m head rest m') :
    Sim a order (s.pass slot head) m' := by
  have hInstrument : s.book.instrument = a.instrument := by
    rw [hSim.mirrors.instrument, instrument_matched]
  have hTrade : s.book.nextTradeId = m.nextTradeId := hSim.mirrors.nextTradeId
  have hIncoming := hSim.incoming
  have hStp := hSim.stpCancelled
  unfold MatchState.pass
  rw [hInstrument, hIncoming]
  cases hMeets with
  | trade hFree =>
    rw [if_neg (by simp [hFree])]
    unfold MatchState.trade
    rw [hInstrument, hIncoming, hTrade]
    refine ⟨⟨?_, ?_, ?_⟩, rfl, ?_, hStp⟩
    · rw [instrument_settle, instrument_matched]
      exact hInstrument
    · rw [nextTradeId_settle]
      rfl
    · rw [orders_settle_bump]
      exact hSim.settled hQueue hAt _
    · rw [hSim.fills]
      rfl
  | cancelIncoming hOwn hPolicy =>
    rw [if_pos hOwn]
    unfold MatchState.prevent
    rw [hInstrument, hPolicy]
    exact ⟨hSim.mirrors, by rw [hIncoming]; rfl, hSim.fills, by rw [hIncoming, hStp]; rfl⟩
  | cancelResting hOwn hPolicy =>
    rw [if_pos hOwn]
    unfold MatchState.prevent
    rw [hInstrument, hPolicy]
    refine ⟨⟨?_, hTrade, hSim.removed hQueue hAt⟩, hIncoming, hSim.fills, hStp⟩
    rw [instrument_matched]
    exact hInstrument
  | cancelBoth hOwn hPolicy =>
    rw [if_pos hOwn]
    unfold MatchState.prevent
    rw [hInstrument, hPolicy]
    refine ⟨⟨?_, hTrade, hSim.removed hQueue hAt⟩, by rw [hIncoming]; rfl, hSim.fills,
      by rw [hIncoming, hStp]; rfl⟩
    rw [instrument_matched]
    exact hInstrument
  | decrementBoth hOwn hPolicy =>
    rw [if_pos hOwn]
    unfold MatchState.prevent
    rw [hInstrument, hPolicy, hIncoming]
    refine ⟨⟨?_, ?_, hSim.settled hQueue hAt _⟩, rfl, hSim.fills, by rw [hStp]; rfl⟩
    · rw [instrument_settle, instrument_matched]
      exact hInstrument
    · rw [nextTradeId_settle]
      exact hTrade

/-- The loop follows the machine to its end. -/
theorem loop_sim {bound : Nat} (hValid : a.Valid) (hTimed : a.Timed bound) (fills : List Fill)
    (withdrawals : List Withdrawal) (fuel : Nat) (s : MatchState) (m : Matching)
    (hReaches : Matching.Reaches a.instrument (a.arrival order fills withdrawals) m)
    (hSim : Sim a order s m) (hFuel : m.queue.length < fuel) :
    ∃ m', Matching.Reaches a.instrument m m' ∧ m'.step a.instrument = none ∧
      Sim a order (s.loop fuel) m' := by
  -- The induction is on the fuel, which the queue's length bounds.
  induction fuel generalizing s m with
  | zero => omega
  | succ fuel ih =>
    have hSub := hReaches.terms.2.sublist
    have hValidNow : (a.matched order m).Valid :=
      (hValid.shrink _ hSub (hReaches.live fun o ho => (hValid.rests _ o ho).live)).setNextTradeId _
    have hTimedNow : (a.matched order m).Timed bound :=
      (hTimed.shrink _ hSub).setNextTradeId _
    have hSide : m.incoming.side = order.side :=
      (Order.eq_of_terms_eq hReaches.terms.1).2.2.2.2.1
    have hQueueNow : (a.matched order m).queue m.incoming.side.opposite = m.queue := by
      rw [hSide]
      exact (queue_matched a order m).2
    rw [MatchState.loop]
    by_cases hUsed : s.incoming.remaining = 0
    · rw [if_pos hUsed]
      rw [hSim.incoming] at hUsed
      exact ⟨m, .refl, Matching.step_of_used _ hUsed, hSim⟩
    rw [if_neg hUsed, hSim.incoming]
    rw [hSim.incoming] at hUsed
    cases hStep : m.step a.instrument with
    | none =>
      have hHead := (Matching.step_eq_none_iff.mp hStep).resolve_left hUsed
      rw [← hQueueNow] at hHead
      rw [hSim.mirrors.bestCounterparty_none hValidNow hHead]
      exact ⟨m, .refl, hStep, hSim⟩
    | some m' =>
      obtain ⟨head, rest, hQueue, -, hCrosses, hMeets⟩ := Matching.step_cases hStep
      obtain ⟨slot, hBest, hAt⟩ := hSim.mirrors.bestCounterparty_some hValidNow hTimedNow
        (hQueueNow.trans hQueue) hCrosses
      rw [hBest]
      have hPass := hSim.pass hQueue hAt hMeets
      have hNext : (if (s.book.instrument.selfTradePolicy != .allow &&
            m.incoming.account.valid) && decide (head.account = m.incoming.account) then
            MatchState.loop fuel (s.prevent slot head)
          else MatchState.loop fuel (s.trade slot head)) =
            MatchState.loop fuel (s.pass slot head) := by
        unfold MatchState.pass Instrument.prevents
        rw [hSim.incoming]
        split <;> rfl
      dsimp only
      rw [hNext]
      obtain ⟨hLe, hProgress⟩ := Matching.step_progress hStep
      rcases hProgress with hZero | hShorter
      · -- Used up: the loop stops at its next test.
        have hStop : (s.pass slot head).loop fuel = s.pass slot head := by
          cases fuel with
          | zero => rfl
          | succ fuel =>
            rw [MatchState.loop, if_pos (by rw [hPass.incoming]; exact hZero)]
        rw [hStop]
        exact ⟨m', .single hStep, Matching.step_of_used _ hZero, hPass⟩
      · obtain ⟨m'', hRest, hStop, hEnd⟩ :=
          ih (s.pass slot head) m' (hReaches.tail hStep) hPass (by omega)
        exact ⟨m'', .head hStep hRest, hStop, hEnd⟩

end Loop

section Commands

variable {book} {a : Book} {bound : Nat}

/-- Matching ends where the machine does. -/
theorem Mirrors.match_sim (hMirrors : book.Mirrors a) (hValid : a.Valid)
    (hTimed : a.Timed bound) (order : Order) (fills : List Fill) (withdrawals : List Withdrawal) :
    Sim a order (book.match order fills)
      ((a.arrival order fills withdrawals).finish a.instrument) := by
  have hStart : Sim a order { book := book, incoming := order, fills := fills }
      (a.arrival order fills withdrawals) := by
    refine ⟨?_, rfl, rfl, rfl⟩
    have hSame : a.matched order (a.arrival order fills withdrawals) = a := by
      show { a.setQueue order.side.opposite (a.queue order.side.opposite) with
        nextTradeId := a.nextTradeId } = a
      rw [Book.setQueue_self]
    rw [hSame]
    exact hMirrors
  have hLength : (a.queue order.side.opposite).length ≤ book.orders.length := by
    rw [hMirrors.orders.length_eq, Book.orders, List.length_append]
    cases order.side <;> simp [Side.opposite, Book.queue]
  obtain ⟨m, hReaches, hStop, hSim⟩ := loop_sim hValid hTimed fills withdrawals
    (book.orders.length + 1) _ _ .refl hStart (Nat.lt_succ_of_le hLength)
  rw [hReaches.finish_eq hStop]
  exact hSim

theorem Mirrors.wouldCross_eq (hMirrors : book.Mirrors a) (hValid : a.Valid)
    (hTimed : a.Timed bound) (order : Order) : book.wouldCross order = a.wouldCross order := by
  unfold wouldCross Book.wouldCross
  cases hType : order.type with
  | market => simp
  | limit =>
    have hFlag : (order.type == .market) = false := by rw [hType]; rfl
    rw [if_neg (by simp), ← hFlag]
    cases hQueue : a.queue order.side.opposite with
    | nil =>
      rw [hMirrors.bestCounterparty_none hValid (by simp [hQueue])]
      simp
    | cons head rest =>
      cases hCrosses : order.crosses head.price with
      | false =>
        rw [hMirrors.bestCounterparty_none hValid (by simp [hQueue, hCrosses])]
        simp [hCrosses]
      | true =>
        obtain ⟨slot, hBest, -⟩ :=
          hMirrors.bestCounterparty_some hValid hTimed hQueue hCrosses
        rw [hBest]
        simp [hCrosses]

/-- Where an id stands in the list. -/
theorem Mirrors.find_spec (hMirrors : book.Mirrors a) (hValid : a.Valid) (id : OrderId) :
    (book.find id = none ∧ a.find id = none) ∨
      ∃ index order, book.find id = some index ∧ a.find id = some order ∧
        book.orders[index]? = some order ∧ book.orderAt index = order := by
  cases hFind : book.find id with
  | none =>
    left
    refine ⟨rfl, find_eq_none_iff.mpr fun order hMem hId => ?_⟩
    have hNone := List.findIdx?_eq_none_iff.mp hFind order (hMirrors.orders.symm.subset hMem)
    simp [hId] at hNone
  | some index =>
    right
    obtain ⟨hLt, hId, -⟩ := List.findIdx?_eq_some_iff_getElem.mp hFind
    have hAt : book.orders[index]? = some book.orders[index] := List.getElem?_eq_getElem hLt
    refine ⟨index, book.orders[index], rfl, ?_, hAt, by rw [orderAt, hAt]; rfl⟩
    rw [find_eq_some_iff hValid.ids]
    exact ⟨hMirrors.orders.subset (getElem_mem hLt), by simpa using hId⟩

/-- An answer of the reference book stands for an abstract outcome. -/
structure Agrees {R : Type} (answer : Answer R) (spec : Outcome Book R) : Prop where
  mirrors : answer.book.Mirrors spec.book
  result : answer.result = spec.result
  fills : answer.fills = spec.fills

/-- Resting appends to the list and enqueues in the book. -/
theorem Mirrors.rest (hMirrors : book.Mirrors a) (order : Order) :
    Mirrors { book with orders := book.orders ++ [order] }
      (a.setQueue order.side (enqueue order (a.queue order.side))) := by
  refine ⟨by rw [instrument_setQueue]; exact hMirrors.instrument,
    by rw [nextTradeId_setQueue]; exact hMirrors.nextTradeId, ?_⟩
  have hQueue := orders_setQueue_congr a order.side (perm_enqueue order (a.queue order.side))
  have hCons := orders_setQueue_cons a order.side order (a.queue order.side)
  rw [setQueue_self] at hCons
  exact ((perm_append_singleton order book.orders).trans
    (hMirrors.orders.cons order)).trans (hQueue.trans hCons).symm

/-- Submitting an order whose remainder is set. -/
theorem Mirrors.submit (hMirrors : book.Mirrors a) (hValid : a.Valid) (hTimed : a.Timed bound)
    (order : Order) (hSet : order.remaining = 0 → order.quantity = 0) (fills : List Fill)
    (withdrawals : List Withdrawal) :
    Agrees (book.submit order fills) (a.insert (a.canFill order) order fills withdrawals) := by
  have hOrder : (if order.remaining = 0 then { order with remaining := order.quantity }
      else order) = order := by
    split
    · next hZero => exact Order.setRemaining_eq (hZero.trans (hSet hZero).symm)
    · rfl
  have hFound : (book.find order.id).isSome = (a.find order.id).isSome := by
    rcases hMirrors.find_spec hValid order.id with ⟨h, h'⟩ | ⟨index, o, h, h', -⟩ <;>
      rw [h, h'] <;> rfl
  unfold ReferenceBook.submit Book.insert Book.validate
  rw [hMirrors.instrument, hFound]
  by_cases hInstrument : order.instrument ≠ a.instrument.id
  · rw [if_pos hInstrument, if_pos hInstrument, if_pos (by decide)]
    exact ⟨hMirrors, rfl, rfl⟩
  rw [if_neg hInstrument, if_neg hInstrument]
  by_cases hQuantity : (!a.instrument.isValidQuantity order.quantity) = true
  · rw [if_pos hQuantity, if_pos hQuantity, if_pos (by decide)]
    exact ⟨hMirrors, rfl, rfl⟩
  rw [if_neg hQuantity, if_neg hQuantity]
  by_cases hPrice : (order.type == .limit && !a.instrument.isValidPrice order.price) = true
  · rw [if_pos hPrice, if_pos hPrice, if_pos (by decide)]
    exact ⟨hMirrors, rfl, rfl⟩
  rw [if_neg hPrice, if_neg hPrice]
  by_cases hDuplicate : (a.find order.id).isSome = true
  · rw [if_pos hDuplicate, if_pos hDuplicate, if_pos (by decide)]
    exact ⟨hMirrors, rfl, rfl⟩
  rw [if_neg hDuplicate, if_neg hDuplicate,
    if_neg (show ¬ (RejectReason.none ≠ RejectReason.none) by simp), hOrder]
  dsimp only
  rw [hMirrors.wouldCross_eq hValid hTimed]
  by_cases hPost : (order.postOnly && a.wouldCross order) = true
  · rw [if_pos hPost, if_pos hPost]
    exact ⟨hMirrors, rfl, rfl⟩
  rw [if_neg hPost, if_neg hPost]
  -- The trial match is the abstract one, with nothing else in its buffers.
  have hTrial := hMirrors.match_sim hValid hTimed order [] []
  have hFilled : ((book.match order []).result order.remaining).filled =
      Book.filledBy order ((a.arrival order [] []).finish a.instrument) := by
    rw [MatchState.result, hTrial.incoming, hTrial.stpCancelled]
    rfl
  have hKillIff : (order.tif = .fillOrKill ∧
      ((book.match order []).result order.remaining).filled < order.remaining) ↔
      (order.tif == .fillOrKill && !a.canFill order) = true := by
    rw [hFilled]
    simp [Book.canFill]
  by_cases hKill : order.tif = .fillOrKill ∧
      ((book.match order []).result order.remaining).filled < order.remaining
  · rw [if_pos hKill, if_pos (hKillIff.mp hKill)]
    exact ⟨hMirrors, rfl, rfl⟩
  rw [if_neg hKill, if_neg fun h => hKill (hKillIff.mpr h)]
  have hMatch := hMirrors.match_sim hValid hTimed order fills withdrawals
  set s := book.match order fills with hs
  set m := (a.arrival order fills withdrawals).finish a.instrument with hm
  have hResult : s.result order.remaining =
      { filled := Book.filledBy order m, stpCancelled := m.stpCancelled } := by
    rw [MatchState.result, hMatch.incoming, hMatch.stpCancelled]
    rfl
  rw [hResult]
  by_cases hUsed : s.incoming.remaining = 0
  · rw [if_pos hUsed, if_pos (by rw [← hMatch.incoming]; simp [hUsed])]
    exact ⟨hMatch.mirrors, rfl, hMatch.fills⟩
  rw [if_neg hUsed]
  rw [hMatch.incoming] at hUsed
  by_cases hExpires : order.type = .market ∨ order.tif = .immediateOrCancel
  · rw [if_pos hExpires, if_pos (by simp [Book.expires_iff.mpr hExpires])]
    exact ⟨hMatch.mirrors, rfl, hMatch.fills⟩
  rw [if_neg hExpires, if_neg (by simp [hUsed, mt Book.expires_iff.mp hExpires])]
  have hReaches := Matching.reaches_finish a.instrument (a.arrival order fills withdrawals)
  have hSide : m.incoming.side = order.side :=
    (Order.eq_of_terms_eq hReaches.terms.1).2.2.2.2.1
  have hRested := hMatch.mirrors.rest m.incoming
  rw [hSide] at hRested
  rw [hMatch.incoming]
  exact ⟨hRested, rfl, hMatch.fills⟩

/-- An order singled out of its queue. -/
theorem perm_of_find (hValid : a.Valid) {id : OrderId} {order : Order}
    (hFind : a.find id = some order) :
    a.orders.Perm (order :: (a.remove order).orders) ∧
      ∀ quantity remaining, (a.amendInPlace order quantity remaining).orders.Perm
        ({ order with quantity := quantity, remaining := remaining } ::
          (a.remove order).orders) := by
  have hMem := hValid.mem_queue_of_find hFind
  obtain ⟨front, back, hSplit⟩ := List.append_of_mem hMem
  have hNodup : ((a.queue order.side).map Order.id).Nodup := by
    have hIds := hValid.ids
    rw [Book.orders, List.map_append] at hIds
    cases order.side with
    | buy => exact hIds.of_append_left
    | sell => exact hIds.of_append_right
  rw [hSplit, List.map_append, List.map_cons, List.nodup_middle, List.nodup_cons,
    ← List.map_append] at hNodup
  have hNe : ∀ x ∈ front ++ back, x.id ≠ order.id := by
    intro x hx hId
    exact hNodup.1 (List.mem_map.mpr ⟨x, hx, hId⟩)
  have hFiltered : (a.queue order.side).filter (fun other => decide (other.id ≠ order.id)) =
      front ++ back := by
    rw [hSplit, List.filter_append, List.filter_cons_of_neg (by simp), ← List.filter_append,
      List.filter_eq_self]
    intro x hx
    exact decide_eq_true (hNe x hx)
  have hRemoved : a.remove order = a.setQueue order.side (front ++ back) := by
    rw [Book.remove, hFiltered]
  rw [hRemoved]
  constructor
  · have hQueue := orders_setQueue_congr a order.side
      (List.perm_middle : (front ++ order :: back).Perm (order :: (front ++ back)))
    rw [← hSplit, Book.setQueue_self] at hQueue
    exact hQueue.trans (orders_setQueue_cons a _ _ _)
  · intro quantity remaining
    have hMapped : ((a.queue order.side).map fun other =>
        if other.id = order.id then { other with quantity := quantity, remaining := remaining }
        else other) =
          front ++ { order with quantity := quantity, remaining := remaining } :: back := by
      rw [hSplit, List.map_append, List.map_cons, if_pos rfl]
      congr 1
      · conv_rhs => rw [← List.map_id front]
        exact List.map_congr_left fun x hx => if_neg (hNe x (by simp [hx]))
      · congr 1
        conv_rhs => rw [← List.map_id back]
        exact List.map_congr_left fun x hx => if_neg (hNe x (by simp [hx]))
    rw [Book.amendInPlace, hMapped]
    exact (orders_setQueue_congr a order.side List.perm_middle).trans (orders_setQueue_cons a _ _ _)

variable (hMirrors : book.Mirrors a) (hValid : a.Valid)
include hMirrors hValid

theorem Mirrors.remove {id : OrderId} {order : Order} {index : Nat} (hFind : a.find id = some order)
    (hAt : book.orders[index]? = some order) : (book.remove index).Mirrors (a.remove order) :=
  ⟨by rw [Book.instrument_remove]; exact hMirrors.instrument,
    by rw [Book.remove, Book.nextTradeId_setQueue]; exact hMirrors.nextTradeId,
    perm_remove (hMirrors.orders.trans (perm_of_find hValid hFind).1) hAt⟩

theorem Mirrors.cancel (id : OrderId) :
    (book.cancel id).1.Mirrors (a.cancel id).1 ∧ (book.cancel id).2 = (a.cancel id).2 := by
  unfold ReferenceBook.cancel Book.cancel
  rcases hMirrors.find_spec hValid id with
    ⟨hNone, hNone'⟩ | ⟨index, order, hFind, hFind', hAt, hGet⟩
  · rw [hNone, hNone']
    exact ⟨hMirrors, rfl⟩
  rw [hFind, hFind']
  refine ⟨hMirrors.remove hValid hFind' hAt, ?_⟩
  show ({ order := book.orderAt index } : CancelResult) = { order := order }
  rw [hGet]

theorem Mirrors.replace (hTimed : a.Timed bound)
    (id : OrderId) (newPrice : Int) (newQuantity newSequence : Nat) (now : Int)
    (fills : List Fill) (withdrawals : List Withdrawal) :
    Agrees (book.replace id newPrice newQuantity newSequence now fills)
      (a.replace id newPrice newQuantity newSequence now fills withdrawals) := by
  unfold ReferenceBook.replace Book.replace
  rcases hMirrors.find_spec hValid id with
    ⟨hNone, hNone'⟩ | ⟨index, previous, hFind, hFind', hAt, hGet⟩
  · rw [hNone, hNone']
    exact ⟨hMirrors, rfl, rfl⟩
  rw [hFind, hFind']
  simp only [hGet, hMirrors.instrument]
  by_cases hPrice : (!a.instrument.isValidPrice newPrice) = true
  · rw [if_pos hPrice, if_pos hPrice]
    exact ⟨hMirrors, rfl, rfl⟩
  rw [if_neg hPrice, if_neg hPrice]
  by_cases hQuantity : (!a.instrument.isValidQuantity newQuantity) = true
  · rw [if_pos hQuantity, if_pos hQuantity]
    exact ⟨hMirrors, rfl, rfl⟩
  rw [if_neg hQuantity, if_neg hQuantity]
  have hRemoved := hMirrors.remove hValid hFind' hAt
  by_cases hFilled : newQuantity ≤ previous.filled
  · rw [if_pos hFilled, if_pos hFilled]
    exact ⟨hRemoved, rfl, rfl⟩
  rw [if_neg hFilled, if_neg hFilled]
  obtain ⟨hOut, hAmended⟩ := perm_of_find hValid hFind'
  by_cases hInPlace : newPrice = previous.price ∧ newQuantity < previous.quantity
  · rw [if_pos hInPlace, if_pos hInPlace]
    refine ⟨⟨?_, ?_, ?_⟩, rfl, rfl⟩
    · rw [Book.amendInPlace, Book.instrument_setQueue]
    · rw [Book.amendInPlace, Book.nextTradeId_setQueue]
      exact hMirrors.nextTradeId
    · exact (perm_set (hMirrors.orders.trans hOut) hAt _).trans (hAmended _ _).symm
  · rw [if_neg hInPlace, if_neg hInPlace]
    have hRests := hValid.rests _ previous (hValid.mem_queue_of_find hFind')
    have hTif : (Book.amended previous newPrice newQuantity newSequence now).tif ≠
        .fillOrKill := by
      intro hKill
      have hSame : previous.tif = .fillOrKill := hKill
      rcases hRests.tif with h | h <;> rw [h] at hSame <;> contradiction
    have hSubmit := hRemoved.submit (hValid.remove previous) (hTimed.remove previous)
      (Book.amended previous newPrice newQuantity newSequence now)
      (fun hZero => by
        simp only [Book.amended] at hZero
        omega) fills withdrawals
    rw [Book.insert_verdict _ hTif _ true] at hSubmit
    refine ⟨hSubmit.mirrors, ?_, hSubmit.fills⟩
    have hResult := hSubmit.result
    simp only [Book.amended] at hResult ⊢
    rw [hResult]

end Commands

end ReferenceBook
end ExchangeCore
