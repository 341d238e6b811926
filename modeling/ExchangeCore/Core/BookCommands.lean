import ExchangeCore.Core.BookRefinement

/-!
# The book's commands refine the abstract ones

Cancelling finds an order through the index and takes it out of the middle of a
queue; amending in place rewrites its node; every other amendment is a cancel
followed by an insert.  Each is shown to act on `abs` as its abstract
counterpart, and `create` to start from the empty abstract book.
-/

namespace ExchangeCore

open SummaryBitmap LinkedList PriceLevel PriceTime List

namespace OrderBook

section Locate

variable {book : OrderBook} {q : Queues} {free : List OrderHandle} {h : OrderHandle}

/-- Where an indexed order stands: its level is marked, and the ladder finds it
under the order's own price. -/
structure Located (book : OrderBook) (q : Queues) (id : OrderId) (h : OrderHandle) (i : Nat)
    (l r : List OrderHandle) : Prop where
  queue : q (book.pool.order h).side i = l ++ h :: r
  id_eq : (book.pool.order h).id = id
  lt : i < book.instrument.tickCount
  marked : (book.ladder (book.pool.order h).side).test i = true
  found : (book.ladder (book.pool.order h).side).find (book.pool.order h).price = some i

theorem Rep.locate (hRep : Rep book q free) {id : OrderId}
    (hFind : book.index.find id = some h) : ∃ i l r, Located book q id h i l r := by
  obtain ⟨⟨side, i, hMem⟩, hId⟩ := (hRep.index_find id h).mp hFind
  obtain ⟨hSide, hPrice⟩ := hRep.placed side i h hMem
  obtain ⟨l, r, hSplit⟩ := append_of_mem hMem
  have hLt := hRep.lt_tickCount hMem
  have hLaid := hRep.laid side
  have hMarked := hRep.marked side i (ne_nil_of_mem hMem)
  have hIndex : (book.ladder side).indexOf (book.pool.order h).price = some i :=
    (PriceLadder.indexOf_eq_some_iff hLaid.valid.tick_pos _ _).mpr
      ⟨by rw [hLaid.length]; exact hLt, by rw [hLaid.priceAt]; exact hPrice⟩
  subst hSide
  exact ⟨i, l, r, hSplit, hId, hLt, hMarked, by simp [PriceLadder.find, hIndex, hMarked]⟩

/-- One order singled out of its side. -/
theorem Located.around {id : OrderId} {i : Nat} {l r : List OrderHandle}
    (hAt : Located book q id h i l r) :
    ∃ front back,
      q.handles book.instrument.tickCount (book.pool.order h).side = front ++ h :: back ∧
      (q.set (book.pool.order h).side i (l ++ r)).handles book.instrument.tickCount
        (book.pool.order h).side = front ++ back := by
  obtain ⟨ahead, behind, hSet, hOld, -⟩ := q.handles_split (book.pool.order h).side hAt.lt
  refine ⟨ahead ++ l, r ++ behind, ?_, ?_⟩
  · rw [hOld, hAt.queue]
    simp
  · rw [hSet]
    simp

variable {side : Side} {front back : List OrderHandle}

variable (hRep : Rep book q free)
  (hHandles : q.handles book.instrument.tickCount side = front ++ h :: back)
include hRep hHandles

/-- No other order of the side has the id of the one singled out. -/
theorem Rep.id_ne_of_mem {x : OrderHandle} (hx : x ∈ front ∨ x ∈ back) :
    (book.pool.order x).id ≠ (book.pool.order h).id := by
  have hNodup := hRep.nodup_handles side
  rw [hHandles, nodup_middle, nodup_cons, mem_append] at hNodup
  have hQueued : ∀ y, y ∈ front ++ h :: back → ∃ j, y ∈ q side j := by
    intro y hy
    rw [← hHandles] at hy
    exact hRep.mem_handles_iff.mp hy
  obtain ⟨j, hj⟩ := hQueued h (by simp)
  obtain ⟨k, hk⟩ := hQueued x (by rcases hx with hx | hx <;> simp [hx])
  intro hId
  rw [hRep.handle_of_id hj hk hId] at hx
  exact hNodup.1 hx

theorem Rep.filter_id :
    (viewQueue book q side).filter (fun other => decide (other.id ≠ (book.pool.order h).id)) =
      (front ++ back).map book.pool.order := by
  have hKeep : ∀ hs : List OrderHandle, (∀ x ∈ hs, x ∈ front ∨ x ∈ back) →
      (hs.map book.pool.order).filter (fun other => decide (other.id ≠ (book.pool.order h).id)) =
          hs.map book.pool.order := by
    intro hs hMem
    rw [filter_eq_self]
    intro order hOrder
    obtain ⟨x, hx, rfl⟩ := mem_map.mp hOrder
    exact decide_eq_true (hRep.id_ne_of_mem hHandles (hMem x hx))
  rw [viewQueue, hHandles, map_append, map_cons, filter_append,
    filter_cons_of_neg (by simp), hKeep front fun x hx => Or.inl hx,
    hKeep back fun x hx => Or.inr hx, map_append]

theorem Rep.map_id (change : Order → Order) :
    (viewQueue book q side).map
        (fun other => if other.id = (book.pool.order h).id then change other else other) =
      front.map book.pool.order ++ change (book.pool.order h) :: back.map book.pool.order := by
  have hKeep : ∀ hs : List OrderHandle, (∀ x ∈ hs, x ∈ front ∨ x ∈ back) →
      (hs.map book.pool.order).map
        (fun other => if other.id = (book.pool.order h).id then change other else other) =
          hs.map book.pool.order := by
    intro hs hMem
    rw [map_map]
    refine map_congr_left fun x hx => ?_
    exact if_neg (hRep.id_ne_of_mem hHandles (hMem x hx))
  rw [viewQueue, hHandles, map_append, map_cons, map_append, map_cons,
    hKeep front fun x hx => Or.inl hx, hKeep back fun x hx => Or.inr hx, if_pos rfl]

end Locate

section Cancel

variable {book : OrderBook} {q : Queues} {free : List OrderHandle} {h : OrderHandle}

/-- Unlinking, erasing an emptied level, the index and the slab are independent,
so cancelling is dropping the order and then closing its level. -/
theorem Located.cancel_eq {id : OrderId} {i : Nat} {l r : List OrderHandle}
    (hRep : Rep book q free) (hAt : Located book q id h i l r)
    (hFind : book.index.find id = some h) :
    book.cancel id =
      ((book.dropResting (book.pool.order h).side i h).closeLevel (book.pool.order h).side i,
        { order := book.pool.order h }) := by
  have hLaid := hRep.laid (book.pool.order h).side
  have hLt : i < (book.ladder (book.pool.order h).side).levels.length := by
    rw [hLaid.length]
    exact hAt.lt
  unfold cancel
  simp only [hFind, hAt.found]
  unfold closeLevel dropResting
  rw [hAt.id_eq, ladder_setStore, level_setLevel_same hLaid hAt.lt]
  unfold setLevel
  rw [ladder_setLadder]
  set unlinked := ((book.ladder (book.pool.order h).side).level i).unlink book.pool h
  by_cases hEmpty : unlinked.1.empty = true
  · simp only [hEmpty, if_true]
    cases (book.pool.order h).side <;> rfl
  · simp only [hEmpty]
    rfl

/-- The side opposite to the one a queue was rewritten on. -/
theorem view_eq_setQueue {book' : OrderBook} {q' : Queues} {side : Side} {queue : List Order}
    (hInstrument : book'.instrument = book.instrument)
    (hTrade : book'.nextTradeId = book.nextTradeId) (hSame : viewQueue book' q' side = queue)
    (hOther : viewQueue book' q' side.opposite = viewQueue book q side.opposite) :
    view book' q' = (view book q).setQueue side queue := by
  cases side <;> simp only [Side.opposite] at hOther <;>
    simp [view, Book.setQueue, hSame, hOther, hInstrument, hTrade]

/-- Cancelling takes the order out of its queue and hands it back. -/
theorem Rep.cancel_refines (hRep : Rep book q free) (hTight : Tight book q none) (id : OrderId) :
    (book.cancel id).1.Sound ∧ (book.cancel id).1.abs = ((view book q).cancel id).1 ∧
      (book.cancel id).2 = ((view book q).cancel id).2 := by
  have hFindEq := hRep.find_eq id
  cases hFind : book.index.find id with
  | none =>
    rw [hFind, Option.map_none] at hFindEq
    simp only [cancel, hFind, Book.cancel, ← hFindEq]
    exact ⟨⟨q, free, hRep, hTight⟩, hRep.abs_eq, trivial⟩
  | some h =>
    rw [hFind, Option.map_some] at hFindEq
    obtain ⟨i, l, r, hAt⟩ := hRep.locate hFind
    obtain ⟨front, back, hHandles, hAfter⟩ := hAt.around
    have hDropped := hRep.dropResting hAt.queue
    have hLadders := sameLadders_dropResting book (book.pool.order h).side i h
    have hTight' : Tight (book.dropResting (book.pool.order h).side i h)
        (q.set (book.pool.order h).side i (l ++ r)) (some ((book.pool.order h).side, i)) :=
      hTight.working hLadders.test fun side' j hNe => Queues.set_of_ne q (l ++ r) hNe
    obtain ⟨hClosed, hTightClosed, hView, hInstrument, hTrade, -⟩ := hDropped.closeLevel
      (by rw [instrument_dropResting]; exact hAt.lt)
      (by rw [hLadders.test]; exact hAt.marked) hTight'
    rw [hAt.cancel_eq hRep hFind]
    simp only [Book.cancel, ← hFindEq]
    refine ⟨⟨_, _, hClosed, hTightClosed⟩, ?_, trivial⟩
    rw [hClosed.abs_eq, Book.remove, queue_view, hRep.filter_id hHandles]
    refine view_eq_setQueue (hInstrument.trans instrument_dropResting)
      (hTrade.trans nextTradeId_dropResting) ?_ ?_
    · rw [hView, hRep.viewQueue_dropResting hAt.queue, hAfter]
    · rw [hView, hRep.viewQueue_dropResting hAt.queue,
        Queues.handles_set_other q _ i _ (Side.opposite_ne _)]
      rfl

end Cancel

section Replace

variable {book : OrderBook} {q : Queues} {free : List OrderHandle} {h : OrderHandle}

/-- Amending in place rewrites one node and its level's total. -/
theorem Rep.amend_refines (hRep : Rep book q free) (hTight : Tight book q none) {id : OrderId}
    (hFind : book.index.find id = some h) (newQuantity newRemaining : Nat)
    (hLe : newRemaining ≤ (book.pool.order h).remaining) :
    ∃ i, (book.ladder (book.pool.order h).side).find (book.pool.order h).price = some i ∧
      (book.reduceResting (book.pool.order h).side i h
        { book.pool.order h with quantity := newQuantity, remaining := newRemaining }
        ((book.pool.order h).remaining - newRemaining)).Sound ∧
      (book.reduceResting (book.pool.order h).side i h
        { book.pool.order h with quantity := newQuantity, remaining := newRemaining }
        ((book.pool.order h).remaining - newRemaining)).abs =
          (view book q).amendInPlace (book.pool.order h) newQuantity newRemaining := by
  obtain ⟨i, l, r, hAt⟩ := hRep.locate hFind
  obtain ⟨front, back, hHandles, -⟩ := hAt.around
  have hMem : h ∈ q (book.pool.order h).side i := by simp [hAt.queue]
  set amended : Order :=
    { book.pool.order h with quantity := newQuantity, remaining := newRemaining } with hAmended
  have hReduced := hRep.reduceResting hAt.queue amended
    ((book.pool.order h).remaining - newRemaining) rfl
    (by simp only [hAmended]; omega)
  have hLadders := sameLadders_reduceResting book (book.pool.order h).side i h amended
    ((book.pool.order h).remaining - newRemaining)
  have hNotOther : h ∉ q.handles book.instrument.tickCount (book.pool.order h).side.opposite := by
    intro hIn
    exact Side.opposite_ne _ (hRep.side_of_mem_handles hIn).symm
  refine ⟨i, hAt.found, ⟨q, free, hReduced, fun side j hTest => hTight side j ?_⟩, ?_⟩
  · rw [← hLadders.test]
    exact hTest
  · rw [hReduced.abs_eq, Book.amendInPlace, queue_view, hRep.map_id hHandles fun other =>
        { other with quantity := newQuantity, remaining := newRemaining }]
    exact view_eq_setQueue (instrument_reduceResting _ _) (nextTradeId_reduceResting _ _)
      (hRep.viewQueue_reduceResting front hHandles hMem _ _)
      (viewQueue_reduceResting_off (hRep.lt_size hMem) _ _ hNotOther)

end Replace

/-! ## Sound books -/

section Sound

variable {book : OrderBook}

/-- The verdict a book gives on a fill-or-kill order. -/
def verdict (book : OrderBook) (order : Order) : Bool :=
  decide (order.remaining ≤
    book.fillable order.side.opposite order.crosses order.remaining order.account)

section

variable (hSound : book.Sound)
include hSound

/-- A positive verdict is right. -/
theorem Sound.canFill_of_verdict {order : Order}
    (hVerdict : book.verdict order = true) : book.abs.canFill order = true := by
  obtain ⟨q, free, hRep, hTight⟩ := hSound
  rw [hRep.abs_eq]
  exact (hRep.fillable_spec hTight order).1 (of_decide_eq_true hVerdict)

/-- The verdict is exact while the quantity it adds up fits a word. -/
theorem Sound.verdict_eq {order : Order}
    (hFits : ((book.abs.queue order.side.opposite).map Order.remaining).sum < Word64.modulus) :
    book.verdict order = book.abs.canFill order := by
  obtain ⟨q, free, hRep, hTight⟩ := hSound
  rw [hRep.abs_eq, queue_view] at hFits
  rw [hRep.abs_eq, Bool.eq_iff_iff, ← (hRep.fillable_spec hTight order).2 hFits]
  exact decide_eq_true_iff

theorem Sound.find_eq (id : OrderId) : book.find id = book.abs.find id := by
  obtain ⟨q, free, hRep, -⟩ := hSound
  rw [hRep.abs_eq, ← hRep.find_eq]
  rfl

theorem Sound.insert (order : Order) (fills : List Fill) (withdrawals : List Withdrawal) :
    Refines (book.insert order fills withdrawals)
      (book.abs.insert (book.verdict order) order fills withdrawals) := by
  obtain ⟨q, free, hRep, hTight⟩ := hSound
  rw [hRep.abs_eq]
  exact hRep.insert_refines hTight order fills withdrawals

theorem Sound.submit (order : Order) (fills : List Fill) (withdrawals : List Withdrawal) :
    Refines (book.submit order fills withdrawals)
      (book.abs.submit (book.verdict { order with remaining := order.quantity }) order fills
        withdrawals) :=
  hSound.insert _ fills withdrawals

theorem Sound.cancel (id : OrderId) :
    (book.cancel id).1.Sound ∧ (book.cancel id).1.abs = (book.abs.cancel id).1 ∧
      (book.cancel id).2 = (book.abs.cancel id).2 := by
  obtain ⟨q, free, hRep, hTight⟩ := hSound
  rw [hRep.abs_eq]
  exact hRep.cancel_refines hTight id

/-- Amending, on a book whose resting orders never are fill-or-kill. -/
theorem Sound.replace (hValid : book.abs.Valid) (id : OrderId)
    (newPrice : Int) (newQuantity newSequence : Nat) (now : Int) (fills : List Fill)
    (withdrawals : List Withdrawal) :
    Refines (book.replace id newPrice newQuantity newSequence now fills withdrawals)
      (book.abs.replace id newPrice newQuantity newSequence now fills withdrawals) := by
  have hFindEq := hSound.find_eq id
  obtain ⟨hCancelSound, hCancelAbs, -⟩ := hSound.cancel id
  have hInstrument : book.abs.instrument = book.instrument := rfl
  unfold OrderBook.replace Book.replace
  cases hFind : book.index.find id with
  | none =>
    rw [OrderBook.find, hFind, Option.map_none] at hFindEq
    rw [← hFindEq]
    exact ⟨hSound, rfl, rfl, rfl, rfl⟩
  | some h =>
    rw [OrderBook.find, hFind, Option.map_some] at hFindEq
    rw [← hFindEq]
    set previous := book.pool.order h with hPrevious
    have hRemoved : (book.cancel id).1.abs = book.abs.remove previous := by
      rw [hCancelAbs, Book.cancel, ← hFindEq]
    simp only [hInstrument]
    by_cases hPrice : (!book.instrument.isValidPrice newPrice) = true
    · rw [if_pos hPrice, if_pos hPrice]
      exact ⟨hSound, rfl, rfl, rfl, rfl⟩
    rw [if_neg hPrice, if_neg hPrice]
    by_cases hQuantity : (!book.instrument.isValidQuantity newQuantity) = true
    · rw [if_pos hQuantity, if_pos hQuantity]
      exact ⟨hSound, rfl, rfl, rfl, rfl⟩
    rw [if_neg hQuantity, if_neg hQuantity]
    by_cases hFilled : newQuantity ≤ previous.filled
    · rw [if_pos hFilled, if_pos hFilled]
      exact ⟨hCancelSound, hRemoved, rfl, rfl, rfl⟩
    rw [if_neg hFilled, if_neg hFilled]
    by_cases hInPlace : newPrice = previous.price ∧ newQuantity < previous.quantity
    · rw [if_pos hInPlace, if_pos hInPlace]
      obtain ⟨q, free, hRep, hTight⟩ := hSound
      obtain ⟨i, hAt, hAmendSound, hAmendAbs⟩ := hRep.amend_refines hTight hFind
        newQuantity (newQuantity - previous.filled)
        (by rw [← hPrevious]; simp only [Order.filled] at hFilled ⊢; omega)
      rw [← hPrevious] at hAt hAmendSound hAmendAbs
      rw [hAt]
      refine ⟨hAmendSound, ?_, rfl, rfl, rfl⟩
      rw [hRep.abs_eq]
      exact hAmendAbs
    · rw [if_neg hInPlace, if_neg hInPlace]
      -- Back to the tail: the remainder re-enters through `insert`.
      have hRests := hValid.rests _ previous (hValid.mem_queue_of_find hFindEq.symm)
      have hTif : (Book.amended previous newPrice newQuantity newSequence now).tif ≠
          .fillOrKill := by
        intro hKill
        have hSame : previous.tif = .fillOrKill := hKill
        rcases hRests.tif with hDay | hGtc
        · rw [hDay] at hSame
          contradiction
        · rw [hGtc] at hSame
          contradiction
      have hInsert := hCancelSound.insert
        (Book.amended previous newPrice newQuantity newSequence now) fills withdrawals
      rw [hRemoved, Book.insert_verdict _ hTif _ true] at hInsert
      refine ⟨hInsert.sound, hInsert.book, ?_, hInsert.fills, hInsert.withdrawals⟩
      have hResult := hInsert.result
      simp only [Book.amended] at hResult ⊢
      rw [hResult]

end

/-! ## The empty book -/

variable {instrument : Instrument}

theorem sound_create (hTick : 0 < instrument.tickSize)
    (initialCapacity : Nat) : (create instrument initialCapacity).Sound := by
  have hLadder : ∀ side, (create instrument initialCapacity).ladder side =
      PriceLadder.ofInstrument (side == .buy) instrument := by
    intro side
    cases side <;> rfl
  have hLevel : ∀ side i, ((create instrument initialCapacity).ladder side).level i = {} := by
    intro side i
    rw [hLadder]
    exact PriceLadder.level_configure _ _ _ _ _
  have hTest : ∀ side i, ((create instrument initialCapacity).ladder side).test i = false := by
    intro side i
    rw [hLadder]
    exact PriceLadder.test_configure _ _ _ _ _
  have hHandles : ∀ n side, Queues.handles (fun _ _ => []) n side = [] := by
    intro n side
    simp [Queues.handles]
  refine ⟨fun _ _ => [], [], ?_, fun side i hSet => ?_⟩
  · refine
      { laid := fun side => ?_
        holds := fun side i _ => ?_
        outside := fun _ _ _ => rfl
        placed := fun _ _ h hMem => absurd hMem (by simp)
        marked := fun _ _ hNe => absurd rfl hNe
        freeList := OrderPool.freeList_create initialCapacity
        cover := fun h hh => absurd hh (Nat.not_lt_zero h)
        disjoint := fun h hMem => absurd hMem (by simp)
        index_valid := FlatHashMap.valid_create _
        index_find := fun id h => ?_
        index_size := rfl
        live := by simp only [hHandles]; rfl }
    · rw [hLadder]
      exact laid_ofInstrument hTick side
    · rw [hLevel]
      exact holds_default _
    · have hNone : (create instrument initialCapacity).index.find id = none :=
        FlatHashMap.find_create _ _
      rw [hNone]
      simp
  · rw [hTest] at hSet
    contradiction

theorem abs_create (hTick : 0 < instrument.tickSize) (initialCapacity : Nat) :
    (create instrument initialCapacity).abs = { instrument := instrument } := by
  have hIndices : ∀ side, ((create instrument initialCapacity).ladder side).indices = [] := by
    intro side
    obtain ⟨q, free, hRep, -⟩ := sound_create hTick initialCapacity
    have hLaid := hRep.laid side
    rw [hLaid.valid.indices_eq, PriceLadder.members, filter_eq_nil_iff]
    intro i _
    have hTest : ((create instrument initialCapacity).ladder side).test i = false := by
      cases side <;> exact PriceLadder.test_configure _ _ _ _ _
    simp [hTest]
  have hSide : ∀ side, (create instrument initialCapacity).sideOrders side = [] := by
    intro side
    rw [sideOrders, hIndices]
    rfl
  simp only [abs, hSide]
  rfl

end Sound

end OrderBook
end ExchangeCore
