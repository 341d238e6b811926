import ExchangeCore.Core.Representation

/-!
# The matching loops follow the abstract machine

`match` walks the best level of the opposite ladder with two nested loops.
Every pass of the inner loop is one meeting of `PriceTime.Matching`; erasing an
emptied level is no meeting at all.  `Sim` relates the loops' state to the
machine's, and `match_sim` concludes that the loops end exactly where the
machine does.  `MatchRun` is the loops as the source has them, without fuel.
-/

namespace ExchangeCore

open SummaryBitmap LinkedList PriceLevel PriceTime List

namespace OrderBook

/-! ## The view across mutations -/

section View

variable {book : OrderBook} {q : Queues} {free : List OrderHandle} {side : Side} {i : Nat}
  {l r : List OrderHandle} {h : OrderHandle}

/-- No level ahead of this one has orders. -/
def Front (q : Queues) (side : Side) (i : Nat) : Prop :=
  ∀ j, Before (side == .buy) j i → q side j = []

/-- The front level heads its side. -/
theorem Front.handles (hFront : Front q side i) {n : Nat} (hLt : i < n) :
    ∃ behind, (∀ hs, (q.set side i hs).handles n side = hs ++ behind) ∧
      q.handles n side = q side i ++ behind := by
  obtain ⟨ahead, behind, hSet, hOld, hAhead, -⟩ := q.handles_split side hLt
  have hNil : ahead = [] := by
    rw [eq_nil_iff_forall_not_mem]
    intro h hh
    obtain ⟨j, -, hBefore, hMem⟩ := hAhead h hh
    rw [hFront j hBefore] at hMem
    simp at hMem
  subst hNil
  exact ⟨behind, fun hs => by rw [hSet]; rfl, by rw [hOld]; rfl⟩

theorem Front.set (hFront : Front q side i) (hs : List OrderHandle) :
    Front (q.set side i hs) side i := by
  intro j hBefore
  rw [Queues.set_of_ne q hs]
  · exact hFront j hBefore
  · rintro ⟨-, rfl⟩
    exact Before.irrefl hBefore

variable (order : Order) (quantity : Nat)

theorem pool_reduceResting :
    (book.reduceResting side i h order quantity).pool = book.pool.setOrder h order := rfl

theorem instrument_reduceResting :
    (book.reduceResting side i h order quantity).instrument = book.instrument := by
  simp [reduceResting]

theorem instrument_dropResting : (book.dropResting side i h).instrument = book.instrument := by
  simp [dropResting]

theorem nextTradeId_reduceResting :
    (book.reduceResting side i h order quantity).nextTradeId = book.nextTradeId := by
  simp [reduceResting]

theorem nextTradeId_dropResting : (book.dropResting side i h).nextTradeId = book.nextTradeId := by
  simp [dropResting]

/-- Dropping a node moves no order. -/
theorem Rep.order_dropResting (hRep : Rep book q free) (hSplit : q side i = l ++ h :: r)
    (x : OrderHandle) : (book.dropResting side i h).pool.order x = book.pool.order x := by
  have hMem : h ∈ q side i := by simp [hSplit]
  have hHolds := hRep.holds side i (hRep.lt_tickCount hMem)
  rw [hSplit] at hHolds
  have hSame := hHolds.unlink_sameOrders
  show ((((book.ladder side).level i).unlink book.pool h).2.release h).order x = _
  rw [OrderPool.order_release _ ((hRep.lt_size hMem).trans_eq hSame.size_eq.symm), hSame.order_eq]

/-- The view of a side that does not queue the shrunken order. -/
theorem viewQueue_reduceResting_off (hSize : h < book.pool.size) (order : Order)
    (quantity : Nat) {side' : Side} (hNot : h ∉ q.handles book.instrument.tickCount side') :
    viewQueue (book.reduceResting side i h order quantity) q side' = viewQueue book q side' := by
  unfold viewQueue
  rw [instrument_reduceResting, pool_reduceResting]
  refine map_congr_left fun x hx => ?_
  rw [OrderPool.order_setOrder _ hSize, if_neg]
  rintro rfl
  exact hNot hx

/-- The side the shrunken order is queued on. -/
theorem Rep.viewQueue_reduceResting (hRep : Rep book q free) (front : List OrderHandle)
    {back : List OrderHandle}
    (hHandles : q.handles book.instrument.tickCount side = front ++ h :: back)
    (hMem : h ∈ q side i) (order : Order) (quantity : Nat) :
    viewQueue (book.reduceResting side i h order quantity) q side =
      front.map book.pool.order ++ order :: back.map book.pool.order := by
  have hSize := hRep.lt_size hMem
  have hNodup := hRep.nodup_handles side
  rw [hHandles, nodup_middle, nodup_cons, mem_append, not_or] at hNodup
  have hOff : ∀ x, x ≠ h → (book.pool.setOrder h order).order x = book.pool.order x :=
    fun x hx => by rw [OrderPool.order_setOrder _ hSize, if_neg hx]
  unfold viewQueue
  rw [instrument_reduceResting, pool_reduceResting, hHandles, map_append, map_cons,
    OrderPool.order_setOrder _ hSize, if_pos rfl]
  congr 1
  · exact map_congr_left fun x hx => hOff x (by rintro rfl; exact hNodup.1.1 hx)
  · congr 1
    exact map_congr_left fun x hx => hOff x (by rintro rfl; exact hNodup.1.2 hx)

theorem Rep.viewQueue_dropResting (hRep : Rep book q free) (hSplit : q side i = l ++ h :: r)
    (q' : Queues) (side' : Side) :
    viewQueue (book.dropResting side i h) q' side' =
      (q'.handles book.instrument.tickCount side').map book.pool.order := by
  unfold viewQueue
  rw [instrument_dropResting]
  exact map_congr_left fun x _ => hRep.order_dropResting hSplit x

end View

/-! ## One meeting -/

/-- The loops' state stands for the machine's. -/
structure Sim (side : Side) (a : Book) (s : MatchState) (m : Matching) (q : Queues)
    (free : List OrderHandle) : Prop where
  rep : Rep s.book q free
  instrument : s.book.instrument = a.instrument
  incoming : s.incoming = m.incoming
  queue : viewQueue s.book q side = m.queue
  other : viewQueue s.book q side.opposite = a.queue side.opposite
  nextTradeId : s.book.nextTradeId = m.nextTradeId
  fills : s.fills = m.fills
  withdrawals : s.withdrawals = m.withdrawals
  stpCancelled : s.stpCancelled = m.stpCancelled

/-- Outside the level's own queue and node, a pass leaves the ladders alone. -/
structure SameLadders (book book' : OrderBook) : Prop where
  test : ∀ side j, (book'.ladder side).test j = (book.ladder side).test j
  occupied : ∀ side, (book'.ladder side).occupied = (book.ladder side).occupied

theorem SameLadders.refl (book : OrderBook) : SameLadders book book :=
  ⟨fun _ _ => rfl, fun _ => rfl⟩

theorem SameLadders.trans {b₁ b₂ b₃ : OrderBook} (h₁ : SameLadders b₁ b₂)
    (h₂ : SameLadders b₂ b₃) : SameLadders b₁ b₃ :=
  ⟨fun side j => (h₂.test side j).trans (h₁.test side j),
    fun side => (h₂.occupied side).trans (h₁.occupied side)⟩

section

variable (book : OrderBook) (side : Side) (i : Nat)

theorem occupied_setLevel (level : PriceLevel) (side' : Side) :
    ((book.setLevel side i level).ladder side').occupied = (book.ladder side').occupied := by
  cases side <;> cases side' <;> rfl

theorem sameLadders_reduceResting (h : OrderHandle) (order : Order) (quantity : Nat) :
    SameLadders book (book.reduceResting side i h order quantity) :=
  ⟨fun side' j => by rw [reduceResting, ladder_setStore, test_setLevel],
    fun side' => by rw [reduceResting, ladder_setStore, occupied_setLevel]⟩

theorem sameLadders_dropResting (h : OrderHandle) : SameLadders book (book.dropResting side i h) :=
  ⟨fun side' j => by rw [dropResting, ladder_setStore, test_setLevel],
    fun side' => by rw [dropResting, ladder_setStore, occupied_setLevel]⟩

end

theorem sameLadders_bumpTradeId (book : OrderBook) : SameLadders book book.bumpTradeId :=
  ⟨fun side' j => by rw [ladder_bumpTradeId], fun side' => by rw [ladder_bumpTradeId]⟩

/-- What a pass does to the front order of a side: the representation survives,
the view's head is replaced or leaves, and the rest of the book stays. -/
structure Settled (book : OrderBook) (q : Queues) (side : Side) (i : Nat) (head : Order)
    (queue : List Order → List Order) (book' : OrderBook) (q' : Queues)
    (free' : List OrderHandle) : Prop where
  rep : Rep book' q' free'
  front : Front q' side i
  ladders : SameLadders book book'
  instrument : book'.instrument = book.instrument
  nextTradeId : book'.nextTradeId = book.nextTradeId
  view : ∃ rest, viewQueue book q side = head :: rest ∧ viewQueue book' q' side = queue rest
  other : viewQueue book' q' side.opposite = viewQueue book q side.opposite
  elsewhere : ∀ side' j, ¬ (side' = side ∧ j = i) → q' side' j = q side' j

section Front

variable {book : OrderBook} {q : Queues} {free : List OrderHandle} {side : Side} {i : Nat}
  {h : OrderHandle} {t : List OrderHandle} (hRep : Rep book q free)
include hRep

theorem Rep.view_front (hFront : Front q side i) (hSplit : q side i = h :: t) :
    ∃ behind, (∀ hs, (q.set side i hs).handles book.instrument.tickCount side = hs ++ behind) ∧
      q.handles book.instrument.tickCount side = h :: (t ++ behind) ∧
      viewQueue book q side = book.pool.order h :: (t ++ behind).map book.pool.order ∧
      h ∉ q.handles book.instrument.tickCount side.opposite := by
  have hMem : h ∈ q side i := by simp [hSplit]
  obtain ⟨behind, hSet, hHandles⟩ := hFront.handles (hRep.lt_tickCount hMem)
  rw [hSplit, cons_append] at hHandles
  refine ⟨behind, hSet, hHandles, by rw [viewQueue, hHandles, map_cons], fun hIn => ?_⟩
  have hSide := hRep.side_of_mem_handles hIn
  rw [(hRep.placed side i h hMem).1] at hSide
  exact Side.opposite_ne side hSide.symm

/-- Dropping the front order. -/
theorem Rep.dropFront (hFront : Front q side i) (hSplit : q side i = h :: t) :
    Settled book q side i (book.pool.order h) (fun rest => rest) (book.dropResting side i h)
      (q.set side i t) (h :: free) := by
  obtain ⟨behind, hSet, hHandles, hView, hNotOther⟩ := hRep.view_front hFront hSplit
  refine
    { rep := hRep.dropResting (l := []) hSplit
      front := hFront.set t
      ladders := sameLadders_dropResting _ _ _ _
      instrument := instrument_dropResting
      nextTradeId := nextTradeId_dropResting
      view := ⟨_, hView, ?_⟩
      other := ?_
      elsewhere := fun side' j hNe => Queues.set_of_ne q t hNe }
  · rw [hRep.viewQueue_dropResting (l := []) hSplit, hSet]
  · rw [hRep.viewQueue_dropResting (l := []) hSplit,
      Queues.handles_set_other q _ i t (Side.opposite_ne side)]
    rfl

variable (hFront : Front q side i) (hSplit : q side i = h :: t) (order : Order) (quantity : Nat)
  (hTerms : order.terms = (book.pool.order h).terms)
  (hRemaining : (book.pool.order h).remaining = order.remaining + quantity)
include hFront hSplit hTerms hRemaining

/-- Shrinking the front order. -/
theorem Rep.reduceFront :
    Settled book q side i (book.pool.order h) (fun rest => order :: rest)
      (book.reduceResting side i h order quantity) q free := by
  have hMem : h ∈ q side i := by simp [hSplit]
  obtain ⟨behind, -, hHandles, hView, hNotOther⟩ := hRep.view_front hFront hSplit
  exact
    { rep := hRep.reduceResting (l := []) hSplit order quantity hTerms hRemaining
      front := hFront
      ladders := sameLadders_reduceResting _ _ _ _ _ _
      instrument := instrument_reduceResting _ _
      nextTradeId := nextTradeId_reduceResting _ _
      view := ⟨_, hView, hRep.viewQueue_reduceResting [] hHandles hMem order quantity⟩
      other := viewQueue_reduceResting_off (hRep.lt_size hMem) order quantity hNotOther
      elsewhere := fun _ _ _ => rfl }

/-- Taking quantity off the front order, which leaves once nothing is left. -/
theorem Rep.settleFront :
    ∃ q' free', Settled book q side i (book.pool.order h) (Matching.settle order)
      (book.settleResting side i h order quantity) q' free' := by
  have hReduced := hRep.reduceFront hFront hSplit order quantity hTerms hRemaining
  obtain ⟨rest, hOld, hNew⟩ := hReduced.view
  unfold settleResting
  by_cases hZero : order.remaining = 0
  · have hDropped := hReduced.rep.dropFront hReduced.front hSplit
    obtain ⟨rest', hOld', hNew'⟩ := hDropped.view
    simp only [hZero, if_true]
    refine ⟨_, _, { hDropped with
      ladders := hReduced.ladders.trans hDropped.ladders
      instrument := hDropped.instrument.trans hReduced.instrument
      nextTradeId := hDropped.nextTradeId.trans hReduced.nextTradeId
      view := ⟨rest, hOld, ?_⟩
      other := hDropped.other.trans hReduced.other }⟩
    rw [hNew', Matching.settle, if_pos hZero]
    exact (List.cons.inj (hNew.symm.trans hOld')).2.symm
  · simp only [hZero, if_false]
    refine ⟨q, free, { hReduced with view := ⟨rest, hOld, ?_⟩ }⟩
    rw [hNew, Matching.settle, if_neg hZero]

end Front

/-- One pass of the inner loop over the front order. -/
def MatchState.pass (s : MatchState) (side : Side) (i : Nat) (levelPrice : Int)
    (h : OrderHandle) : MatchState :=
  if s.book.instrument.prevents s.incoming.account (s.book.pool.order h).account then
    s.prevent side i h
  else
    s.trade side i levelPrice h

/-- What passes over the front level of a side establish: the simulation stands
where the machine went, and the other levels stay. -/
structure Passed (side : Side) (a : Book) (i : Nat) (s : MatchState) (q : Queues)
    (s' : MatchState) (m' : Matching) (q' : Queues) (free' : List OrderHandle) : Prop where
  sim : Sim side a s' m' q' free'
  front : Front q' side i
  elsewhere : ∀ side' j, ¬ (side' = side ∧ j = i) → q' side' j = q side' j
  ladders : SameLadders s.book s'.book

section Pass

variable {side : Side} {a : Book} {i : Nat} {s : MatchState} {m : Matching} {q : Queues}
  {free : List OrderHandle} {h : OrderHandle} {t : List OrderHandle} (hSim : Sim side a s m q free)
include hSim

/-- The machine's head is the order behind the front handle. -/
theorem Sim.head (hFront : Front q side i) (hSplit : q side i = h :: t) :
    ∃ rest, m.queue = s.book.pool.order h :: rest ∧
      (s.book.pool.order h).price = tickPrice a.instrument i := by
  obtain ⟨behind, -, -, hView, -⟩ := hSim.rep.view_front hFront hSplit
  refine ⟨_, hSim.queue.symm.trans hView, ?_⟩
  rw [← hSim.instrument]
  exact (hSim.rep.placed side i h (by simp [hSplit])).2

/-- The machine follows what is done to its head. -/
theorem Sim.settled {head : Order} {rest : List Order} {queue : List Order → List Order}
    {book' : OrderBook} {q' : Queues} {free' : List OrderHandle}
    (hSettled : Settled s.book q side i head queue book' q' free')
    (hQueue : m.queue = head :: rest) :
    Sim side a { s with book := book' } { m with queue := queue rest } q' free' := by
  obtain ⟨rest', hOld, hNew⟩ := hSettled.view
  rw [hSim.queue, hQueue] at hOld
  obtain ⟨-, rfl⟩ := List.cons.inj hOld
  exact { hSim with
    rep := hSettled.rep
    instrument := hSettled.instrument.trans hSim.instrument
    queue := hNew
    other := hSettled.other.trans hSim.other
    nextTradeId := hSettled.nextTradeId.trans hSim.nextTradeId }

variable (hFront : Front q side i) (hSplit : q side i = h :: t)
  (hLeft : m.incoming.remaining ≠ 0)
  (hCrosses : m.incoming.crosses (tickPrice a.instrument i) = true)
include hFront hSplit hLeft hCrosses

theorem Sim.passTrade
    (hFree : a.instrument.prevents m.incoming.account (s.book.pool.order h).account = false) :
    ∃ m' q' free', m.step a.instrument = some m' ∧
      Passed side a i s q (s.trade side i (tickPrice a.instrument i) h) m' q' free' := by
  obtain ⟨rest, hQueue, hPrice⟩ := hSim.head hFront hSplit
  set head := s.book.pool.order h with hHead
  obtain ⟨q', free', hSettled⟩ := hSim.rep.settleFront hFront hSplit
    (head.take (min m.incoming.remaining head.remaining)) (min m.incoming.remaining head.remaining)
    (by simp [← hHead])
    (by simp only [Order.take, ← hHead]; omega)
  have hMoved := hSim.settled hSettled hQueue
  have hStep : m.step a.instrument = some (m.trade a.instrument head rest) := by
    simp [Matching.step, hLeft, hQueue, hPrice, hCrosses, hFree]
  simp only [MatchState.trade, hSim.incoming, ← hHead]
  refine ⟨_, q', free', hStep, ?_, hSettled.front, hSettled.elsewhere,
    hSettled.ladders.trans (sameLadders_bumpTradeId _)⟩
  exact { hMoved with
    rep := hMoved.rep.bumpTradeId
    incoming := rfl
    nextTradeId := congrArg (· + 1) hMoved.nextTradeId
    fills := by
      simp [Matching.trade, Order.take, hSim.fills, hSim.instrument, hSim.nextTradeId, hPrice] }

theorem Sim.passPrevent
    (hOwn : a.instrument.prevents m.incoming.account (s.book.pool.order h).account = true) :
    ∃ m' q' free', m.step a.instrument = some m' ∧
      Passed side a i s q (s.prevent side i h) m' q' free' := by
  obtain ⟨rest, hQueue, hPrice⟩ := hSim.head hFront hSplit
  have hStep : m.step a.instrument = some (m.prevent a.instrument (s.book.pool.order h) rest) := by
    simp [Matching.step, hLeft, hQueue, hPrice, hCrosses, hOwn]
  have hDropped := hSim.rep.dropFront hFront hSplit
  have hMoved := hSim.settled hDropped hQueue
  simp only [MatchState.prevent, hSim.instrument, hSim.incoming, hSim.withdrawals,
    hSim.stpCancelled]
  cases hPolicy : a.instrument.selfTradePolicy with
  | allow => simp [Instrument.prevents, hPolicy] at hOwn
  | cancelIncoming =>
    simp only [Matching.prevent, hPolicy] at hStep
    refine ⟨_, q, free, hStep, ?_, hFront, fun _ _ _ => rfl, .refl _⟩
    exact { hSim with incoming := rfl, withdrawals := rfl, stpCancelled := rfl }
  | cancelResting =>
    simp only [Matching.prevent, hPolicy] at hStep
    refine ⟨_, _, h :: free, hStep, ?_, hDropped.front, hDropped.elsewhere, hDropped.ladders⟩
    exact { hMoved with incoming := rfl, withdrawals := rfl, stpCancelled := rfl }
  | cancelBoth =>
    simp only [Matching.prevent, hPolicy] at hStep
    refine ⟨_, _, h :: free, hStep, ?_, hDropped.front, hDropped.elsewhere, hDropped.ladders⟩
    exact { hMoved with incoming := rfl, withdrawals := rfl, stpCancelled := rfl }
  | decrementBoth =>
    simp only [Matching.prevent, hPolicy] at hStep
    set head := s.book.pool.order h with hHead
    obtain ⟨q', free', hSettled⟩ := hSim.rep.settleFront hFront hSplit
      (head.shrink (min m.incoming.remaining head.remaining))
      (min m.incoming.remaining head.remaining) (by simp [← hHead])
      (by simp only [Order.shrink, ← hHead]; omega)
    refine ⟨_, q', free', hStep, ?_, hSettled.front, hSettled.elsewhere, hSettled.ladders⟩
    exact { hSim.settled hSettled hQueue with
      incoming := rfl, withdrawals := rfl, stpCancelled := rfl }

/-- Every pass of the inner loop is one meeting. -/
theorem Sim.pass :
    ∃ m' q' free', m.step a.instrument = some m' ∧
      Passed side a i s q (s.pass side i (tickPrice a.instrument i) h) m' q' free' := by
  unfold MatchState.pass
  rw [hSim.instrument, hSim.incoming]
  split
  · next hOwn => exact hSim.passPrevent hFront hSplit hLeft hCrosses hOwn
  · next hFree => exact hSim.passTrade hFront hSplit hLeft hCrosses (by simpa using hFree)

omit hFront hSplit hLeft hCrosses in
/-- The orders of the book are those of the machine and of the other side. -/
theorem Sim.restingOrderCount : s.book.restingOrderCount =
    m.queue.length + (a.queue side.opposite).length := by
  rw [OrderBook.restingOrderCount, hSim.rep.index_size, hSim.rep.live, ← hSim.queue, ← hSim.other]
  cases side <;> simp [viewQueue, Side.opposite, Nat.add_comm]

end Pass

/-! ## The loops without fuel -/

/-- The inner loop, run until its guard fails.  Every iteration finds its level
in the ladder and the nodes it touches off the free list, and takes a resting
order off the book or uses up the incoming one. -/
inductive LevelRun (side : Side) (i : Nat) (levelPrice : Int) : MatchState → MatchState → Prop
  | done {s : MatchState} (hLevel : (s.book.ladder side).test i = true)
      (hGuard : s.incoming.remaining = 0 ∨ ((s.book.ladder side).level i).front = none) :
      LevelRun side i levelPrice s s
  | pass {s s' : MatchState} {h : OrderHandle} (hLevel : (s.book.ladder side).test i = true)
      (hLeft : s.incoming.remaining ≠ 0) (hFront : ((s.book.ladder side).level i).front = some h)
      (hNodes : ∀ x, x = h ∨ s.book.pool.prev h = some x ∨ s.book.pool.next h = some x →
        s.book.pool.Allocated x)
      (hProgress : (s.pass side i levelPrice h).incoming.remaining = 0 ∨
        (s.pass side i levelPrice h).book.restingOrderCount + 1 = s.book.restingOrderCount)
      (hRest : LevelRun side i levelPrice (s.pass side i levelPrice h) s') :
      LevelRun side i levelPrice s s'

/-- The outer loop, run until its guard fails or its best level does not cross.
Every iteration runs the inner loop to its end, and erases its level or leaves
the incoming order used up. -/
inductive MatchRun (side : Side) (crosses : Int → Bool) : MatchState → MatchState → Prop
  | done {s : MatchState} (hGuard : s.incoming.remaining = 0 ∨
      ∀ i ∈ (s.book.ladder side).bestOccupied, crosses ((s.book.ladder side).priceAt i) = false) :
      MatchRun side crosses s s
  | level {s s₁ s' : MatchState} {i : Nat} (hLeft : s.incoming.remaining ≠ 0)
      (hBest : (s.book.ladder side).bestOccupied = some i)
      (hCrosses : crosses ((s.book.ladder side).priceAt i) = true)
      (hLevel : LevelRun side i ((s.book.ladder side).priceAt i) s s₁)
      (hProgress : s₁.incoming.remaining = 0 ∨
        ((s₁.book.closeLevel side i).ladder side).test i = false)
      (hRest : MatchRun side crosses { s₁ with book := s₁.book.closeLevel side i } s') :
      MatchRun side crosses s s'

section Loops

variable {side : Side} {a : Book} {i : Nat} {q : Queues} {free : List OrderHandle}
  {book : OrderBook}

/-- A queued node and its neighbours are off the free list. -/
theorem Rep.allocated (hRep : Rep book q free) {h : OrderHandle} {t : List OrderHandle}
    (hSplit : q side i = h :: t) (x : OrderHandle)
    (hNear : x = h ∨ book.pool.prev h = some x ∨ book.pool.next h = some x) :
    book.pool.Allocated x := by
  have hMem : h ∈ q side i := by simp [hSplit]
  obtain ⟨hPrev, hNext⟩ :=
    (hRep.holds side i (hRep.lt_tickCount hMem)).linked [] h t hSplit
  have hQueued : x ∈ q side i := by
    rcases hNear with rfl | hBefore | hAfter
    · exact hMem
    · simp [hPrev] at hBefore
    · rw [hNext] at hAfter
      rw [hSplit]
      exact mem_cons_of_mem _ (mem_of_head? hAfter)
  exact ⟨hRep.lt_size hQueued, free, hRep.freeList, fun hFree => hRep.disjoint x hFree _ _ hQueued⟩

theorem Sim.front_eq {s : MatchState} {m : Matching}
    (hSim : Sim side a s m q free) (hLt : i < a.instrument.tickCount) :
    ((s.book.ladder side).level i).front = (q side i).head? :=
  (hSim.rep.holds side i (by rw [hSim.instrument]; exact hLt)).head

theorem matchLevel_pass (s : MatchState) (fuel : Nat) (levelPrice : Int) {h : OrderHandle}
    (hLeft : s.incoming.remaining ≠ 0) (hFront : ((s.book.ladder side).level i).front = some h) :
    MatchState.matchLevel side i levelPrice (fuel + 1) s =
      MatchState.matchLevel side i levelPrice fuel (s.pass side i levelPrice h) := by
  rw [MatchState.matchLevel, if_neg hLeft, hFront]
  simp only [MatchState.pass]
  split <;> rfl

/-- The inner loop runs until the incoming order is used up or the level is
empty, and touches nothing but its level. -/
theorem matchLevel_sim (hLt : i < a.instrument.tickCount) (fuel : Nat) (s : MatchState)
    (m : Matching) (q : Queues) (free : List OrderHandle) (hSim : Sim side a s m q free)
    (hFront : Front q side i) (hCrosses : m.incoming.crosses (tickPrice a.instrument i) = true)
    (hSet : (s.book.ladder side).test i = true)
    (hFuel : m.incoming.remaining = 0 ∨ m.queue.length < fuel) :
    ∃ s' m' q' free', MatchState.matchLevel side i (tickPrice a.instrument i) fuel s = s' ∧
      Matching.Reaches a.instrument m m' ∧ Passed side a i s q s' m' q' free' ∧
      LevelRun side i (tickPrice a.instrument i) s s' ∧
      (m'.incoming.remaining = 0 ∨ q' side i = []) := by
  -- The induction is on the fuel, which the machine's queue bounds.
  induction fuel generalizing s m q free with
  | zero =>
    have hUsed := hFuel.resolve_right (by omega)
    exact ⟨s, m, q, free, rfl, .refl, ⟨hSim, hFront, fun _ _ _ => rfl, .refl _⟩,
      .done hSet (Or.inl (by rw [hSim.incoming]; exact hUsed)), Or.inl hUsed⟩
  | succ fuel ih =>
    have hStay : Passed side a i s q s m q free := ⟨hSim, hFront, fun _ _ _ => rfl, .refl _⟩
    by_cases hLeft : s.incoming.remaining = 0
    · rw [MatchState.matchLevel, if_pos hLeft]
      exact ⟨s, m, q, free, rfl, .refl, hStay, .done hSet (Or.inl hLeft),
        Or.inl (by rw [← hSim.incoming]; exact hLeft)⟩
    have hHead := hSim.front_eq hLt
    cases hQueue : q side i with
    | nil =>
      rw [hQueue, List.head?_nil] at hHead
      rw [MatchState.matchLevel, if_neg hLeft, hHead]
      exact ⟨s, m, q, free, rfl, .refl, hStay, .done hSet (Or.inr hHead), Or.inr hQueue⟩
    | cons h t =>
      rw [hQueue, List.head?_cons] at hHead
      rw [matchLevel_pass s fuel _ hLeft hHead]
      have hMachine := hLeft
      rw [hSim.incoming] at hMachine
      obtain ⟨m₁, q₁, free₁, hStep, hPassed⟩ := hSim.pass hFront hQueue hMachine hCrosses
      have hProgress := (Matching.step_progress hStep).2
      have hTerms := (Matching.step_terms hStep).1
      obtain ⟨s₂, m₂, q₂, free₂, hEq, hReaches, hRest, hRun, hEnd⟩ :=
        ih _ m₁ q₁ free₁ hPassed.sim hPassed.front
          (by rw [Order.crosses_congr hTerms]; exact hCrosses)
          (by rw [hPassed.ladders.test]; exact hSet) (by omega)
      refine ⟨s₂, m₂, q₂, free₂, hEq, .head hStep hReaches, ⟨hRest.sim, hRest.front,
        fun side' j hNe => (hRest.elsewhere side' j hNe).trans (hPassed.elsewhere side' j hNe),
        hPassed.ladders.trans hRest.ladders⟩, ?_, hEnd⟩
      refine .pass hSet hLeft hHead (hSim.rep.allocated hQueue) ?_ hRun
      rw [hSim.restingOrderCount, hPassed.sim.restingOrderCount, hPassed.sim.incoming]
      omega

/-- Closing the level a mutation worked on makes the ladders tight again. -/
theorem Rep.closeLevel (hRep : Rep book q free) (hLt : i < book.instrument.tickCount)
    (hSet : (book.ladder side).test i = true) (hTight : Tight book q (some (side, i))) :
    Rep (book.closeLevel side i) q free ∧ Tight (book.closeLevel side i) q none ∧
      (∀ side', viewQueue (book.closeLevel side i) q side' = viewQueue book q side') ∧
      (book.closeLevel side i).instrument = book.instrument ∧
      (book.closeLevel side i).nextTradeId = book.nextTradeId ∧
      (q side i = [] → ((book.closeLevel side i).ladder side).occupied + 1 =
        (book.ladder side).occupied) := by
  have hHolds := hRep.holds side i hLt
  have hValid := (hRep.laid side).valid
  unfold OrderBook.closeLevel
  by_cases hEmpty : q side i = []
  · rw [if_pos (hHolds.empty_iff.mpr hEmpty)]
    refine ⟨hRep.eraseLevel hSet hEmpty, ?_, fun side' => by simp [viewQueue], by simp, by simp,
      fun _ => ?_⟩
    · intro side' j hTest
      left
      by_cases hSide : side' = side
      · subst hSide
        rw [ladder_setLadder, hValid.test_erase (hValid.bounded i hSet), Bool.and_eq_true,
          decide_eq_true_eq] at hTest
        refine (hTight side' j hTest.2).resolve_right fun hEq => ?_
        simp only [Option.some.injEq, Prod.mk.injEq, true_and] at hEq
        exact hTest.1 hEq.symm
      · rw [ladder_setLadder_ne _ _ hSide] at hTest
        refine (hTight side' j hTest).resolve_right fun hEq => ?_
        simp only [Option.some.injEq, Prod.mk.injEq] at hEq
        exact hSide hEq.1.symm
    · rw [ladder_setLadder]
      have hPos : (book.ladder side).occupied ≠ 0 := by
        intro hZero
        rw [hValid.occupied_eq_zero_iff.mp hZero i] at hSet
        contradiction
      show (book.ladder side).occupied - 1 + 1 = _
      omega
  · rw [if_neg fun h => hEmpty (hHolds.empty_iff.mp h)]
    refine ⟨hRep, fun side' j hTest => Or.inl ?_, fun _ => rfl, rfl, rfl, fun h => absurd h hEmpty⟩
    rcases hTight side' j hTest with hQueue | hEq
    · exact hQueue
    simp only [Option.some.injEq, Prod.mk.injEq] at hEq
    rw [← hEq.1, ← hEq.2]
    exact hEmpty

/-- A mutation confined to one level of a tight book leaves the others tight. -/
theorem Tight.working {book' : OrderBook} {q' : Queues} (hTight : Tight book q none)
    (hTest : ∀ side j, (book'.ladder side).test j = (book.ladder side).test j)
    (hOff : ∀ side' j, ¬ (side' = side ∧ j = i) → q' side' j = q side' j) :
    Tight book' q' (some (side, i)) := by
  intro side' j hSet
  by_cases hPlace : side' = side ∧ j = i
  · exact Or.inr (by rw [hPlace.1, hPlace.2])
  left
  rw [hTest] at hSet
  rw [hOff side' j hPlace]
  exact (hTight side' j hSet).resolve_right (by simp)

/-- An emptied level is erased; the machine does not move. -/
theorem Sim.closeLevel {s : MatchState} {m : Matching}
    (hSim : Sim side a s m q free) (hLt : i < a.instrument.tickCount)
    (hSet : (s.book.ladder side).test i = true) (hTight : Tight s.book q (some (side, i))) :
    Sim side a { s with book := s.book.closeLevel side i } m q free ∧
      Tight (s.book.closeLevel side i) q none ∧
      (q side i = [] → ((s.book.closeLevel side i).ladder side).occupied + 1 =
        (s.book.ladder side).occupied) := by
  obtain ⟨hRep, hClosed, hView, hInstrument, hTrade, hFewer⟩ :=
    hSim.rep.closeLevel (by rw [hSim.instrument]; exact hLt) hSet hTight
  exact ⟨{ hSim with
    rep := hRep
    instrument := hInstrument.trans hSim.instrument
    queue := (hView side).trans hSim.queue
    other := (hView side.opposite).trans hSim.other
    nextTradeId := hTrade.trans hSim.nextTradeId }, hClosed, hFewer⟩

/-- The best level of a tight ladder: it has orders, and none are ahead of
it. -/
theorem Rep.best (hRep : Rep book q free) (hTight : Tight book q none)
    (hBest : (book.ladder side).bestOccupied = some i) :
    (book.ladder side).test i = true ∧ i < book.instrument.tickCount ∧ q side i ≠ [] ∧
      Front q side i := by
  have hLaid := hRep.laid side
  have hFinds := hLaid.valid.bestOccupied_finds
  rw [hBest] at hFinds
  obtain ⟨hSet, hFirst⟩ := hFinds
  have hLt := hLaid.valid.bounded i hSet
  rw [hLaid.length] at hLt
  refine ⟨hSet, hLt, (hTight side i hSet).resolve_right (by simp), fun j hBefore => ?_⟩
  by_contra hOrders
  rw [← hLaid.descending] at hBefore
  rcases hFirst j (hRep.marked side j hOrders) with rfl | hLater
  · exact Before.irrefl hBefore
  · exact Before.irrefl (hBefore.trans hLater)

theorem Rep.best_none (hRep : Rep book q free) (hBest : (book.ladder side).bestOccupied = none) :
    viewQueue book q side = [] := by
  have hFinds := (hRep.laid side).valid.bestOccupied_finds
  rw [hBest] at hFinds
  have hNil : q.handles book.instrument.tickCount side = [] := by
    rw [eq_nil_iff_forall_not_mem]
    intro h hMem
    obtain ⟨j, -, hj⟩ := Queues.mem_handles.mp hMem
    exact hFinds j (hRep.marked side j (ne_nil_of_mem hj))
  rw [viewQueue, hNil]
  rfl

/-- The outer loop ends where the machine does. -/
theorem matchLevels_sim (crosses : Int → Bool) (fuel : Nat) (s : MatchState) (m : Matching)
    (q : Queues) (free : List OrderHandle) (hSim : Sim side a s m q free)
    (hTight : Tight s.book q none) (hCrosses : ∀ price, m.incoming.crosses price = crosses price)
    (hFuel : m.incoming.remaining = 0 ∨ (s.book.ladder side).occupied < fuel) :
    ∃ s' m' q' free', MatchState.matchLevels side crosses fuel s = s' ∧
      Matching.Reaches a.instrument m m' ∧ m'.step a.instrument = none ∧
      Sim side a s' m' q' free' ∧ Tight s'.book q' none ∧ MatchRun side crosses s s' := by
  induction fuel generalizing s m q free with
  | zero =>
    have hUsed := hFuel.resolve_right (by omega)
    exact ⟨s, m, q, free, rfl, .refl, Matching.step_of_used _ hUsed, hSim, hTight,
      .done (Or.inl (by rw [hSim.incoming]; exact hUsed))⟩
  | succ fuel ih =>
    rw [MatchState.matchLevels]
    by_cases hLeft : s.incoming.remaining = 0
    · rw [if_pos hLeft]
      exact ⟨s, m, q, free, rfl, .refl, Matching.step_of_used _ (hSim.incoming ▸ hLeft), hSim,
        hTight, .done (Or.inl hLeft)⟩
    rw [if_neg hLeft]
    cases hBest : (s.book.ladder side).bestOccupied with
    | none =>
      refine ⟨s, m, q, free, rfl, .refl, Matching.step_eq_none_iff.mpr (Or.inr ?_), hSim, hTight,
        .done (Or.inr (by simp [hBest]))⟩
      rw [← hSim.queue, hSim.rep.best_none hBest]
      simp
    | some i =>
      obtain ⟨hSet, hLt, hOrders, hFront⟩ := hSim.rep.best hTight hBest
      rw [hSim.instrument] at hLt
      have hLevelPrice : (s.book.ladder side).priceAt i = tickPrice a.instrument i := by
        rw [(hSim.rep.laid side).priceAt, hSim.instrument]
      simp only [hLevelPrice]
      by_cases hCross : crosses (tickPrice a.instrument i) = true
      · rw [if_neg (by simp [hCross])]
        rw [← hSim.incoming] at hFuel
        have hCount := hSim.restingOrderCount
        rw [restingOrderCount, hSim.rep.index_size] at hCount
        obtain ⟨s₁, m₁, q₁, free₁, hEq₁, hReaches₁, hPassed, hRun₁, hEnd₁⟩ :=
          matchLevel_sim hLt (s.book.pool.live + 1) s m q free hSim hFront
            (by rw [hCrosses]; exact hCross) hSet (by omega)
        rw [hEq₁]
        obtain ⟨hSim₂, hTight₂, hErased⟩ := hPassed.sim.closeLevel hLt
          (by rw [hPassed.ladders.test]; exact hSet)
          (hTight.working hPassed.ladders.test hPassed.elsewhere)
        rw [hPassed.ladders.occupied] at hErased
        obtain ⟨s₂, m₂, q₂, free₂, hEq₂, hReaches₂, hStop₂, hSim₃, hTight₃, hRun₂⟩ :=
          ih _ m₁ q₁ free₁ hSim₂ hTight₂
            (fun price => by rw [Order.crosses_congr hReaches₁.terms.1]; exact hCrosses price)
            (hEnd₁.imp_right fun hEmptied => by
              have := hErased hEmptied
              show ((s₁.book.closeLevel side i).ladder side).occupied < _
              omega)
        refine ⟨s₂, m₂, q₂, free₂, hEq₂, hReaches₁.trans hReaches₂, hStop₂, hSim₃, hTight₃,
          .level hLeft hBest (by rw [hLevelPrice]; exact hCross) (by rw [hLevelPrice]; exact hRun₁)
            ?_ hRun₂⟩
        rw [hPassed.sim.incoming]
        refine hEnd₁.imp_right fun hEmptied => Bool.eq_false_iff.mpr fun hTest => ?_
        exact absurd hEmptied ((hTight₂ side i hTest).resolve_right (by simp))
      · rw [if_pos (by simpa using hCross)]
        refine ⟨s, m, q, free, rfl, .refl, Matching.step_eq_none_iff.mpr (Or.inr ?_), hSim, hTight,
          .done (Or.inr (by simpa [hBest, hLevelPrice] using hCross))⟩
        obtain ⟨h, t, hQueue⟩ := exists_cons_of_ne_nil hOrders
        obtain ⟨rest, hHead, hPrice⟩ := hSim.head hFront hQueue
        intro head hMem
        rw [hHead, List.head?_cons, Option.mem_def, Option.some.injEq] at hMem
        rw [← hMem, hPrice, hCrosses]
        simpa using hCross

/-- Matching an order against a sound book ends exactly where the machine
does. -/
theorem match_sim
    (hRep : Rep book q free) (hTight : Tight book q none) (order : Order) (fills : List Fill)
    (withdrawals : List Withdrawal) :
    ∃ q' free', Sim order.side.opposite (view book q)
        (book.match order.side.opposite order fills withdrawals)
        (((view book q).arrival order fills withdrawals).finish book.instrument) q' free' ∧
      Tight (book.match order.side.opposite order fills withdrawals).book q' none ∧
      MatchRun order.side.opposite order.crosses
        { book := book, incoming := order, fills := fills, withdrawals := withdrawals }
        (book.match order.side.opposite order fills withdrawals) := by
  have hStart : Sim order.side.opposite (view book q)
      { book := book, incoming := order, fills := fills, withdrawals := withdrawals }
      ((view book q).arrival order fills withdrawals) q free :=
    { rep := hRep
      instrument := rfl
      incoming := rfl
      queue := (queue_view book q _).symm
      other := (queue_view book q _).symm
      nextTradeId := rfl
      fills := rfl
      withdrawals := rfl
      stpCancelled := rfl }
  obtain ⟨s', m', q', free', hEq, hReaches, hStop, hSim, hTight', hRun⟩ :=
    matchLevels_sim order.crosses ((book.ladder order.side.opposite).occupied + 1) _ _ q free
      hStart hTight (fun _ => rfl) (Or.inr (Nat.lt_succ_self _))
  rw [show book.match order.side.opposite order fills withdrawals = s' from hEq,
    show book.instrument = (view book q).instrument from rfl, hReaches.finish_eq hStop]
  exact ⟨q', free', hSim, hTight', hRun⟩

end Loops

end OrderBook
end ExchangeCore
