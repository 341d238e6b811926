import ExchangeCore.Core.OrderBook

/-!
# What the order book's structures represent

`Rep book q free` ties the five structures of a book together: `q side i` is
the queue of handles at tick `i` of a side, `free` the free list.  The slab is
covered by the two without overlap, the index maps exactly the resting ids to
their handles, and every counter counts what it says.  The ladder bits are kept
apart (`Tight`), because the matching loop empties a level before it erases it.

`view book q` reads the represented book off: the queues of all ticks in
traversal order.  The lemmas below say what each mutation of the source does to
the representation and to the view.
-/

namespace ExchangeCore

open SummaryBitmap LinkedList PriceLevel OrderPool List PriceLadder

namespace OrderBook

/-- The handles queued at each tick of each side. -/
abbrev Queues := Side → Nat → List OrderHandle

namespace Queues

variable (q : Queues)

def set (side : Side) (i : Nat) (hs : List OrderHandle) : Queues :=
  fun side' i' => if side' = side ∧ i' = i then hs else q side' i'

/-- All handles of one side in matching order. -/
def handles (n : Nat) (side : Side) : List OrderHandle :=
  (scanAll (side == .buy) n).flatMap (q side)

@[simp] theorem set_same (side : Side) (i : Nat) (hs : List OrderHandle) :
    q.set side i hs side i = hs := by
  simp [set]

variable {side side' : Side} {i i' n : Nat}

theorem set_of_ne (hs : List OrderHandle)
    (hNe : ¬ (side' = side ∧ i' = i)) : q.set side i hs side' i' = q side' i' := by
  simp [set, hNe]

theorem set_self (side : Side) (i : Nat) : q.set side i (q side i) = q := by
  funext side' i'
  by_cases hPlace : side' = side ∧ i' = i
  · rw [hPlace.1, hPlace.2, set_same]
  · exact set_of_ne q _ hPlace

theorem mem_set_append {q : Queues} {h x : OrderHandle} :
    x ∈ q.set side i (q side i ++ [h]) side' i' ↔
      x ∈ q side' i' ∨ (x = h ∧ side' = side ∧ i' = i) := by
  by_cases hPlace : side' = side ∧ i' = i
  · obtain ⟨rfl, rfl⟩ := hPlace
    rw [set_same, mem_append, mem_singleton]
    simp
  · rw [set_of_ne q _ hPlace]
    simp [hPlace]

theorem mem_handles {q : Queues} {h : OrderHandle} :
    h ∈ q.handles n side ↔ ∃ i < n, h ∈ q side i := by
  simp [handles, mem_scanAll]

theorem handles_set_other (n : Nat) (i : Nat) (hs : List OrderHandle) (hNe : side' ≠ side) :
    (q.set side i hs).handles n side' = q.handles n side' := by
  unfold handles
  congr 1
  funext j
  exact set_of_ne q hs fun h => hNe h.1

/-- One side around one tick: what is ahead of it and what is behind it stays
the same whatever the tick itself queues. -/
theorem handles_split (side : Side) (hi : i < n) :
    ∃ ahead behind,
      (∀ hs, (q.set side i hs).handles n side = ahead ++ hs ++ behind) ∧
      q.handles n side = ahead ++ q side i ++ behind ∧
      (∀ h ∈ ahead, ∃ j < n, Before (side == .buy) j i ∧ h ∈ q side j) ∧
      ∀ h ∈ behind, ∃ j < n, Before (side == .buy) i j ∧ h ∈ q side j := by
  obtain ⟨before, later, hSplit, hBefore, hLater⟩ := scanAll_split (side == .buy) hi
  have hLt : ∀ j, j ∈ before ∨ j ∈ later → j < n := by
    intro j hj
    have hMem : j ∈ scanAll (side == .buy) n := by
      rw [hSplit]
      rcases hj with hj | hj <;> simp [hj]
    exact mem_scanAll.mp hMem
  have hOff : ∀ (hs : List OrderHandle) (js : List Nat), (∀ j ∈ js, j ≠ i) →
      js.flatMap (q.set side i hs side) = js.flatMap (q side) := fun hs js hNe =>
    flatMap_congr fun j hj => set_of_ne q hs fun h => hNe j hj h.2
  have hBeforeNe : ∀ j ∈ before, j ≠ i := by
    rintro j hj rfl
    exact Before.irrefl (hBefore j hj)
  have hLaterNe : ∀ j ∈ later, j ≠ i := by
    rintro j hj rfl
    exact Before.irrefl (hLater j hj)
  refine ⟨before.flatMap (q side), later.flatMap (q side), fun hs => ?_, ?_, fun h hh => ?_,
    fun h hh => ?_⟩
  · rw [handles, hSplit, flatMap_append, flatMap_cons, hOff hs before hBeforeNe,
      hOff hs later hLaterNe, set_same, append_assoc]
  · rw [handles, hSplit, flatMap_append, flatMap_cons, append_assoc]
  · obtain ⟨j, hj, hMem⟩ := mem_flatMap.mp hh
    exact ⟨j, hLt j (Or.inl hj), hBefore j hj, hMem⟩
  · obtain ⟨j, hj, hMem⟩ := mem_flatMap.mp hh
    exact ⟨j, hLt j (Or.inr hj), hLater j hj, hMem⟩

/-- What both sides queue, when one tick queues something else. -/
theorem length_handles_set (side : Side) (hi : i < n) (hs : List OrderHandle) :
    ((q.set side i hs).handles n .buy).length + ((q.set side i hs).handles n .sell).length +
        (q side i).length =
      (q.handles n .buy).length + (q.handles n .sell).length + hs.length := by
  obtain ⟨ahead, behind, hSet, hOld, -⟩ := q.handles_split side hi
  have hOwn : ((q.set side i hs).handles n side).length + (q side i).length =
      (q.handles n side).length + hs.length := by
    rw [hSet, hOld]
    simp only [length_append]
    omega
  cases side with
  | buy =>
    rw [handles_set_other q n i hs (by decide : Side.sell ≠ .buy)]
    omega
  | sell =>
    rw [handles_set_other q n i hs (by decide : Side.buy ≠ .sell)]
    omega

end Queues

/-! ## Reading and writing the two ladders -/

variable (level : PriceLevel) (side' : Side) (i' : Nat)

section Ladders

variable (book : OrderBook) (side : Side) (ladder : PriceLadder)

@[simp] theorem ladder_setLadder : (book.setLadder side ladder).ladder side = ladder := by
  cases side <;> rfl

theorem ladder_setLadder_ne {side side' : Side} (hNe : side' ≠ side) :
    (book.setLadder side ladder).ladder side' = book.ladder side' := by
  cases side <;> cases side' <;> first | rfl | exact absurd rfl hNe

@[simp] theorem instrument_setLadder :
    (book.setLadder side ladder).instrument = book.instrument := by
  cases side <;> rfl

@[simp] theorem pool_setLadder : (book.setLadder side ladder).pool = book.pool := by
  cases side <;> rfl

@[simp] theorem index_setLadder : (book.setLadder side ladder).index = book.index := by
  cases side <;> rfl

@[simp] theorem nextTradeId_setLadder :
    (book.setLadder side ladder).nextTradeId = book.nextTradeId := by
  cases side <;> rfl

variable (pool : OrderPool) (index : FlatHashMap OrderId OrderHandle)

@[simp] theorem ladder_setStore : (book.setStore pool index).ladder side' = book.ladder side' := by
  cases side' <;> rfl

@[simp] theorem instrument_setStore :
    (book.setStore pool index).instrument = book.instrument := rfl

@[simp] theorem pool_setStore : (book.setStore pool index).pool = pool := rfl

@[simp] theorem index_setStore : (book.setStore pool index).index = index := rfl

@[simp] theorem nextTradeId_setStore :
    (book.setStore pool index).nextTradeId = book.nextTradeId := rfl

@[simp] theorem ladder_bumpTradeId : book.bumpTradeId.ladder side' = book.ladder side' := by
  cases side' <;> rfl

end Ladders

/-- A side's ladder is laid out for the instrument's band. -/
structure Laid (ladder : PriceLadder) (instrument : Instrument) (side : Side) : Prop where
  valid : ladder.Valid
  descending : ladder.descending = (side == .buy)
  minPrice : ladder.minPrice = instrument.ladderBase
  tick : ladder.tick = instrument.tickSize
  length : ladder.levels.length = instrument.tickCount

/-- The price of a tick. -/
def tickPrice (instrument : Instrument) (i : Nat) : Int :=
  instrument.ladderBase + i * instrument.tickSize

variable {ladder : PriceLadder} {instrument : Instrument} {side : Side}

theorem Laid.priceAt (hLaid : Laid ladder instrument side) (i : Nat) :
    ladder.priceAt i = tickPrice instrument i := by
  rw [PriceLadder.priceAt, hLaid.minPrice, hLaid.tick, tickPrice]

theorem laid_ofInstrument (hTick : 0 < instrument.tickSize) (side : Side) :
    Laid (ofInstrument (side == .buy) instrument) instrument side :=
  ⟨valid_configure _ _ _ hTick, rfl, rfl, rfl, length_replicate⟩

structure Rep (book : OrderBook) (q : Queues) (free : List OrderHandle) : Prop where
  laid : ∀ side, Laid (book.ladder side) book.instrument side
  holds : ∀ side, ∀ i < book.instrument.tickCount,
    Holds book.pool ((book.ladder side).level i) (q side i)
  outside : ∀ side i, book.instrument.tickCount ≤ i → q side i = []
  placed : ∀ side i, ∀ h ∈ q side i,
    (book.pool.order h).side = side ∧ (book.pool.order h).price = tickPrice book.instrument i
  marked : ∀ side i, q side i ≠ [] → (book.ladder side).test i = true
  freeList : OrderPool.FreeList book.pool free
  cover : ∀ h < book.pool.size, h ∈ free ∨ ∃ side i, h ∈ q side i
  disjoint : ∀ h ∈ free, ∀ side i, h ∉ q side i
  index_valid : book.index.Valid
  index_find : ∀ id h, book.index.find id = some h ↔
    (∃ side i, h ∈ q side i) ∧ (book.pool.order h).id = id
  index_size : book.index.size = book.pool.live
  live : book.pool.live = (q.handles book.instrument.tickCount .buy).length +
    (q.handles book.instrument.tickCount .sell).length

variable (book : OrderBook)

/-- Every marked level has orders, except the one a match is working on. -/
def Tight (q : Queues) (working : Option (Side × Nat)) : Prop :=
  ∀ side i, (book.ladder side).test i = true → q side i ≠ [] ∨ working = some (side, i)

theorem Rep.bumpTradeId {book : OrderBook} {q : Queues} {free : List OrderHandle}
    (hRep : Rep book q free) : Rep book.bumpTradeId q free :=
  { hRep with
    laid := fun side => by rw [ladder_bumpTradeId]; exact hRep.laid side
    holds := fun side => by rw [ladder_bumpTradeId]; exact hRep.holds side
    marked := fun side => by rw [ladder_bumpTradeId]; exact hRep.marked side }

/-- The represented orders of one side. -/
def viewQueue (q : Queues) (side : Side) : List Order :=
  (q.handles book.instrument.tickCount side).map book.pool.order

/-- The represented book. -/
def view (q : Queues) : PriceTime.Book :=
  { instrument := book.instrument
    bids := viewQueue book q .buy
    asks := viewQueue book q .sell
    nextTradeId := book.nextTradeId }

theorem queue_view (q : Queues) (side : Side) :
    (view book q).queue side = viewQueue book q side := by
  cases side <;> rfl

namespace Rep

variable {book} {q : Queues} {free : List OrderHandle}

theorem tick_pos (hRep : Rep book q free) : 0 < book.instrument.tickSize := by
  rw [← (hRep.laid .buy).tick]
  exact (hRep.laid .buy).valid.tick_pos

variable {side'} {i'} {i : Nat} {h : OrderHandle} (hRep : Rep book q free)
include hRep

theorem lt_tickCount (hMem : h ∈ q side i) : i < book.instrument.tickCount := by
  by_contra hGe
  rw [hRep.outside side i (by omega)] at hMem
  simp at hMem

theorem lt_size (hMem : h ∈ q side i) : h < book.pool.size :=
  (hRep.holds side i (hRep.lt_tickCount hMem)).bounded h hMem

/-- A handle is queued at one place only: its own side and price. -/
theorem place_unique (hMem : h ∈ q side i) (hMem' : h ∈ q side' i') : side' = side ∧ i' = i := by
  obtain ⟨hSide, hPrice⟩ := hRep.placed side i h hMem
  obtain ⟨hSide', hPrice'⟩ := hRep.placed side' i' h hMem'
  refine ⟨hSide'.symm.trans hSide, ?_⟩
  have hEq : tickPrice book.instrument i' = tickPrice book.instrument i :=
    hPrice'.symm.trans hPrice
  unfold tickPrice at hEq
  have hMul : (i' : Int) * book.instrument.tickSize = i * book.instrument.tickSize := by omega
  exact Int.ofNat_inj.mp (Int.eq_of_mul_eq_mul_right hRep.tick_pos.ne' hMul)

theorem nodup_handles (side : Side) : (q.handles book.instrument.tickCount side).Nodup := by
  unfold Queues.handles
  rw [nodup_flatMap]
  refine ⟨fun i hi => (hRep.holds side i (mem_scanAll.mp hi)).nodup, ?_⟩
  refine (pairwise_scanAll _ _).imp fun {i j} hBefore => ?_
  intro h hi hj
  rw [(hRep.place_unique hi hj).2] at hBefore
  exact Before.irrefl hBefore

theorem side_of_mem_handles
    (hMem : h ∈ q.handles book.instrument.tickCount side) : (book.pool.order h).side = side := by
  obtain ⟨i, -, hi⟩ := Queues.mem_handles.mp hMem
  exact (hRep.placed side i h hi).1

theorem mem_handles_iff : h ∈ q.handles book.instrument.tickCount side ↔ ∃ i, h ∈ q side i := by
  rw [Queues.mem_handles]
  exact ⟨fun ⟨i, _, hi⟩ => ⟨i, hi⟩, fun ⟨i, hi⟩ => ⟨i, hRep.lt_tickCount hi, hi⟩⟩

/-- Two queued handles with one id are one handle. -/
theorem handle_of_id {h' : OrderHandle} (hMem : h ∈ q side i) (hMem' : h' ∈ q side' i')
    (hId : (book.pool.order h').id = (book.pool.order h).id) : h' = h := by
  have hFind := (hRep.index_find _ h).mpr ⟨⟨side, i, hMem⟩, rfl⟩
  have hFind' := (hRep.index_find _ h').mpr ⟨⟨side', i', hMem'⟩, hId⟩
  rw [hFind] at hFind'
  exact (Option.some.inj hFind').symm

/-- The ids of the represented book are distinct. -/
theorem nodup_ids : ((view book q).orders.map Order.id).Nodup := by
  have hNodup : (q.handles book.instrument.tickCount .buy ++
      q.handles book.instrument.tickCount .sell).Nodup := by
    rw [nodup_append]
    refine ⟨hRep.nodup_handles _, hRep.nodup_handles _, fun h hh h' hh' hEq => ?_⟩
    have hBuy := hRep.side_of_mem_handles hh
    have hSell := hRep.side_of_mem_handles hh'
    rw [hEq, hSell] at hBuy
    contradiction
  show ((viewQueue book q .buy ++ viewQueue book q .sell).map Order.id).Nodup
  unfold viewQueue
  rw [← map_append, map_map]
  refine List.Nodup.map_on ?_ hNodup
  intro h hh h' hh' hId
  have hPlaced : ∀ x, x ∈ q.handles book.instrument.tickCount .buy ++
      q.handles book.instrument.tickCount .sell → ∃ side i, x ∈ q side i := by
    intro x hx
    rcases mem_append.mp hx with hx | hx
    · exact ⟨.buy, hRep.mem_handles_iff.mp hx⟩
    · exact ⟨.sell, hRep.mem_handles_iff.mp hx⟩
  obtain ⟨side, i, hi⟩ := hPlaced h hh
  obtain ⟨side', i', hi'⟩ := hPlaced h' hh'
  exact hRep.handle_of_id hi' hi hId

/-- Places a mutation did not touch still hold their queues. -/
theorem holds_off {pool : OrderPool} (hSize : book.pool.size ≤ pool.size)
    (hSame : ∀ x side' i', x ∈ q side' i' → ¬ (side' = side ∧ i' = i) →
      pool.order x = book.pool.order x ∧ pool.prev x = book.pool.prev x ∧
        pool.next x = book.pool.next x) (hNe : ¬ (side' = side ∧ i' = i))
    (hLt : i' < book.instrument.tickCount) :
    Holds pool ((book.ladder side').level i') (q side' i') :=
  (hRep.holds side' i' hLt).frame hSize (fun x hx => (hSame x side' i' hx hNe).1)
    (fun x hx => (hSame x side' i' hx hNe).2.1) fun x hx => (hSame x side' i' hx hNe).2.2

end Rep

/-! ## Mutations of one level -/

theorem Laid.setLevel (hLaid : Laid ladder instrument side) (i : Nat) (level : PriceLevel) :
    Laid (ladder.setLevel i level) instrument side :=
  ⟨hLaid.valid.setLevel level, hLaid.descending, hLaid.minPrice, hLaid.tick,
    (length_setLevel _ _ _).trans hLaid.length⟩

theorem Laid.erase (hLaid : Laid ladder instrument side) {i : Nat} (hSet : ladder.test i = true) :
    Laid (ladder.erase i) instrument side := by
  obtain ⟨hLevels, hMin, hTick, hDir, -⟩ := PriceLadder.clearBit_fields ladder i
  refine ⟨hLaid.valid.erase hSet, hDir.trans hLaid.descending, hMin.trans hLaid.minPrice,
    hTick.trans hLaid.tick, ?_⟩
  rw [← hLaid.length]
  simp [PriceLadder.erase, hLevels]

section SetLevel

variable {book} {i : Nat}

theorem level_setLevel_same (hLaid : Laid (book.ladder side) book.instrument side)
    (hLt : i < book.instrument.tickCount) (level : PriceLevel) :
    ((book.setLevel side i level).ladder side).level i = level := by
  rw [setLevel, ladder_setLadder,
    level_setLevel _ _ (by rw [hLaid.length]; exact hLt), if_pos rfl]

theorem level_setLevel_off {side' : Side} {i' : Nat} (hNe : ¬ (side' = side ∧ i' = i)) :
    ((book.setLevel side i level).ladder side').level i' = (book.ladder side').level i' := by
  by_cases hSide : side' = side
  · subst hSide
    have hi : i' ≠ i := fun h => hNe ⟨rfl, h⟩
    rw [setLevel, ladder_setLadder]
    simp [PriceLadder.level, PriceLadder.setLevel, List.getElem?_set_ne (Ne.symm hi)]
  · rw [setLevel, ladder_setLadder_ne _ _ hSide]

theorem test_setLevel :
    ((book.setLevel side i level).ladder side').test i' = (book.ladder side').test i' := by
  by_cases hSide : side' = side
  · subst hSide
    rw [setLevel, ladder_setLadder]
    rfl
  · rw [setLevel, ladder_setLadder_ne _ _ hSide]

theorem laid_setLevel (hLaid : ∀ side, Laid (book.ladder side) book.instrument side)
    (level : PriceLevel) (side' : Side) :
    Laid ((book.setLevel side i level).ladder side') book.instrument side' := by
  by_cases hSide : side' = side
  · subst hSide
    rw [setLevel, ladder_setLadder]
    exact (hLaid side').setLevel i level
  · rw [setLevel, ladder_setLadder_ne _ _ hSide]
    exact hLaid side'

@[simp] theorem instrument_setLevel :
    (book.setLevel side i level).instrument = book.instrument := by simp [setLevel]

@[simp] theorem nextTradeId_setLevel :
    (book.setLevel side i level).nextTradeId = book.nextTradeId := by simp [setLevel]

end SetLevel

namespace Rep

variable {book} {q : Queues} {free : List OrderHandle} {i : Nat}
  {l r : List OrderHandle} {h : OrderHandle}

/-- A mutation at one level.  The level there queues `hs` afterwards; the other levels, the
bits that were set and the nodes queued elsewhere are as they were. -/
structure LevelChange (book : OrderBook) (q : Queues) (side : Side) (i : Nat)
    (hs : List OrderHandle) (book' : OrderBook) : Prop where
  instrument : book'.instrument = book.instrument
  laid : ∀ side', Laid (book'.ladder side') book.instrument side'
  level : ∀ side' i', ¬ (side' = side ∧ i' = i) →
    (book'.ladder side').level i' = (book.ladder side').level i'
  test : ∀ side' i', (book.ladder side').test i' = true → (book'.ladder side').test i' = true
  marked : hs ≠ [] → (book'.ladder side).test i = true
  holds : Holds book'.pool ((book'.ladder side).level i) hs
  placed : ∀ h ∈ hs, (book'.pool.order h).side = side ∧
    (book'.pool.order h).price = tickPrice book.instrument i
  size_le : book.pool.size ≤ book'.pool.size
  nodes : ∀ x side' i', x ∈ q side' i' → ¬ (side' = side ∧ i' = i) →
    book'.pool.order x = book.pool.order x ∧ book'.pool.prev x = book.pool.prev x ∧
      book'.pool.next x = book.pool.next x

section LevelChange

variable {book' : OrderBook} {hs : List OrderHandle}

/-- The half of the representation that the ladders carry. -/
theorem LevelChange.queues (hChange : LevelChange book q side i hs book')
    (hRep : Rep book q free) (hLt : i < book.instrument.tickCount) :
    (∀ side', Laid (book'.ladder side') book'.instrument side') ∧
      (∀ side', ∀ i' < book'.instrument.tickCount,
        Holds book'.pool ((book'.ladder side').level i') (q.set side i hs side' i')) ∧
      (∀ side' i', book'.instrument.tickCount ≤ i' → q.set side i hs side' i' = []) ∧
      (∀ side' i', ∀ h ∈ q.set side i hs side' i', (book'.pool.order h).side = side' ∧
        (book'.pool.order h).price = tickPrice book'.instrument i') ∧
      ∀ side' i', q.set side i hs side' i' ≠ [] → (book'.ladder side').test i' = true := by
  rw [hChange.instrument]
  refine ⟨hChange.laid, fun side' i' hLt' => ?_, fun side' i' hGe => ?_, fun side' i' x hx => ?_,
    fun side' i' hNe => ?_⟩
  · by_cases hPlace : side' = side ∧ i' = i
    · obtain ⟨rfl, rfl⟩ := hPlace
      rw [Queues.set_same]
      exact hChange.holds
    · rw [Queues.set_of_ne q hs hPlace, hChange.level side' i' hPlace]
      exact hRep.holds_off hChange.size_le hChange.nodes hPlace hLt'
  · rw [Queues.set_of_ne q hs (by rintro ⟨-, rfl⟩; omega)]
    exact hRep.outside side' i' hGe
  · by_cases hPlace : side' = side ∧ i' = i
    · obtain ⟨rfl, rfl⟩ := hPlace
      rw [Queues.set_same] at hx
      exact hChange.placed x hx
    rw [Queues.set_of_ne q hs hPlace] at hx
    rw [(hChange.nodes x side' i' hx hPlace).1]
    exact hRep.placed side' i' x hx
  · by_cases hPlace : side' = side ∧ i' = i
    · obtain ⟨rfl, rfl⟩ := hPlace
      rw [Queues.set_same] at hNe
      exact hChange.marked hNe
    · rw [Queues.set_of_ne q hs hPlace] at hNe
      exact hChange.test side' i' (hRep.marked side' i' hNe)

/-- Writing through a reference to a level that queues something. -/
theorem levelChange_setLevel (hRep : Rep book q free) (hMem : h ∈ q side i) {level : PriceLevel}
    {pool : OrderPool} (index : FlatHashMap OrderId OrderHandle) (hHolds : Holds pool level hs)
    (hPlaced : ∀ x ∈ hs, (pool.order x).side = side ∧
      (pool.order x).price = tickPrice book.instrument i) (hSize : book.pool.size ≤ pool.size)
    (hNodes : ∀ x side' i', x ∈ q side' i' → ¬ (side' = side ∧ i' = i) →
      pool.order x = book.pool.order x ∧ pool.prev x = book.pool.prev x ∧
        pool.next x = book.pool.next x) :
    LevelChange book q side i hs ((book.setLevel side i level).setStore pool index) where
  instrument := by simp
  laid := fun side' => by
    rw [ladder_setStore]
    exact laid_setLevel hRep.laid _ side'
  level := fun side' i' hNe => by
    rw [ladder_setStore, level_setLevel_off _ hNe]
  test := fun side' i' hTest => by
    rw [ladder_setStore, test_setLevel]
    exact hTest
  marked := fun _ => by
    rw [ladder_setStore, test_setLevel]
    exact hRep.marked side i (ne_nil_of_mem hMem)
  holds := by
    rw [ladder_setStore, level_setLevel_same (hRep.laid side) (hRep.lt_tickCount hMem)]
    exact hHolds
  placed := hPlaced
  size_le := hSize
  nodes := hNodes

end LevelChange

variable (hRep : Rep book q free)
include hRep

/-- Shrinking a resting order where it stands keeps the representation. -/
theorem reduceResting (hSplit : q side i = l ++ h :: r)
    (order : Order) (quantity : Nat) (hTerms : order.terms = (book.pool.order h).terms)
    (hRemaining : (book.pool.order h).remaining = order.remaining + quantity) :
    Rep (book.reduceResting side i h order quantity) q free := by
  have hMem : h ∈ q side i := by simp [hSplit]
  have hLt := hRep.lt_tickCount hMem
  have hSize := hRep.lt_size hMem
  obtain ⟨hId, -, -, hPrice, hSide, -⟩ := Order.eq_of_terms_eq hTerms
  have hOrder := order_setOrder book.pool hSize order
  -- Nothing the invariant reads off an order changes, except its quantities.
  have hKept : ∀ x, ((book.pool.setOrder h order).order x).id = (book.pool.order x).id ∧
      ((book.pool.setOrder h order).order x).side = (book.pool.order x).side ∧
      ((book.pool.setOrder h order).order x).price = (book.pool.order x).price := by
    intro x
    rw [hOrder]
    split
    · next hx => rw [hx]; exact ⟨hId, hSide, hPrice⟩
    · exact ⟨rfl, rfl, rfl⟩
  have hHolds := hRep.holds side i hLt
  rw [hSplit] at hHolds
  have hShrunk : Holds (book.pool.setOrder h order)
      (((book.ladder side).level i).reduce quantity) (q side i) := by
    rw [hSplit]
    exact hHolds.shrink hRemaining
  have hChange : LevelChange book q side i (q side i)
      (book.reduceResting side i h order quantity) := by
    refine hRep.levelChange_setLevel hMem book.index hShrunk (fun x hx => ?_) (by simp)
      fun x side' i' hx hNe => ?_
    · rw [(hKept x).2.1, (hKept x).2.2]
      exact hRep.placed side i x hx
    · have hxh : x ≠ h := by
        rintro rfl
        exact hNe (hRep.place_unique hMem hx)
      exact ⟨by rw [hOrder, if_neg hxh], prev_setOrder _ hSize _ _,
        next_setOrder _ hSize _ _⟩
  obtain ⟨hLaid, hQueues, hOutside, hPlaced, hMarked⟩ := hChange.queues hRep hLt
  rw [Queues.set_self] at hQueues hOutside hPlaced hMarked
  exact
    { laid := hLaid
      holds := hQueues
      outside := hOutside
      placed := hPlaced
      marked := hMarked
      freeList := hRep.freeList.frame (freeHead_setOrder _ _ _)
        (size_setOrder _ _ _) fun x _ => next_setOrder _ hSize _ x
      cover := fun x hx => hRep.cover x (by
        rw [← size_setOrder book.pool h order]
        exact hx)
      disjoint := hRep.disjoint
      index_valid := hRep.index_valid
      index_find := fun id x => by
        show book.index.find id = some x ↔ _ ∧ ((book.pool.setOrder h order).order x).id = id
        rw [(hKept x).1]
        exact hRep.index_find id x
      index_size := hRep.index_size
      live := by
        rw [hChange.instrument]
        exact hRep.live }

/-- A queue that loses one handle. -/
theorem mem_set_drop (hSplit : q side i = l ++ h :: r) {side' : Side} {i' : Nat} {x : OrderHandle} :
    x ∈ q.set side i (l ++ r) side' i' ↔ x ∈ q side' i' ∧ x ≠ h := by
  have hMem : h ∈ q side i := by simp [hSplit]
  by_cases hPlace : side' = side ∧ i' = i
  · obtain ⟨rfl, rfl⟩ := hPlace
    have hNodup := (hRep.holds side' i' (hRep.lt_tickCount hMem)).nodup
    rw [hSplit, nodup_middle] at hNodup
    have hNot : x ∈ l ++ r → x ≠ h := by
      rintro hx rfl
      exact (nodup_cons.mp hNodup).1 hx
    rw [Queues.set_same, hSplit]
    simp only [mem_append, mem_cons] at hNot ⊢
    tauto
  · rw [Queues.set_of_ne q _ hPlace]
    refine ⟨fun hx => ⟨hx, ?_⟩, And.left⟩
    rintro rfl
    exact hPlace (hRep.place_unique hMem hx)

/-- Erasing an id leaves the ids of the other handles. -/
theorem index_find_erase (hMem : h ∈ q side i) (id : OrderId) (x : OrderHandle) :
    (book.index.erase (book.pool.order h).id).1.find id = some x ↔
      ((∃ side' i', x ∈ q side' i') ∧ x ≠ h) ∧ (book.pool.order x).id = id := by
  have hFind : book.index.find (book.pool.order h).id = some h :=
    (hRep.index_find _ h).mpr ⟨⟨side, i, hMem⟩, rfl⟩
  rw [(hRep.index_valid.erase hFind).2.1]
  by_cases hId : id = (book.pool.order h).id
  · rw [if_pos hId]
    refine ⟨fun hNone => by simp at hNone, fun ⟨⟨⟨s, j, hx⟩, hNe⟩, hxId⟩ => ?_⟩
    exact absurd (hRep.handle_of_id hMem hx (hxId.trans hId)) hNe
  rw [if_neg hId, hRep.index_find]
  constructor
  · intro ⟨hQueued, hxId⟩
    refine ⟨⟨hQueued, ?_⟩, hxId⟩
    rintro rfl
    exact hId hxId.symm
  · intro ⟨⟨hQueued, _⟩, hxId⟩
    exact ⟨hQueued, hxId⟩

/-- Dropping a resting order: its queue loses it and the free list gains it. -/
theorem dropResting (hSplit : q side i = l ++ h :: r) :
    Rep (book.dropResting side i h) (q.set side i (l ++ r)) (h :: free) := by
  have hMem : h ∈ q side i := by simp [hSplit]
  have hLt := hRep.lt_tickCount hMem
  have hSize := hRep.lt_size hMem
  have hHolds := hRep.holds side i hLt
  rw [hSplit] at hHolds
  have hSame := hHolds.unlink_sameOrders
  have hQueued : ∀ {side' i' x}, x ∈ q.set side i (l ++ r) side' i' ↔ x ∈ q side' i' ∧ x ≠ h :=
    hRep.mem_set_drop hSplit
  have hLeft : ∀ x ∈ l ++ r, x ∈ q side i ∧ x ≠ h := fun x hx =>
    hQueued.mp (by rw [Queues.set_same]; exact hx)
  have hFind : book.index.find (book.pool.order h).id = some h :=
    (hRep.index_find _ h).mpr ⟨⟨side, i, hMem⟩, rfl⟩
  obtain ⟨hErased, -, hEraseSize⟩ := hRep.index_valid.erase hFind
  have hBook : book.dropResting side i h =
      (book.setLevel side i (((book.ladder side).level i).unlink book.pool h).1).setStore
        ((((book.ladder side).level i).unlink book.pool h).2.release h)
        (book.index.erase (book.pool.order h).id).1 := rfl
  -- The slab after unlinking and releasing: orders stay, links change at one level.
  set pool := (((book.ladder side).level i).unlink book.pool h).2 with hPool
  have hInPool : h < pool.size := hSize.trans_eq hSame.size_eq.symm
  have hOrder : ∀ x, (pool.release h).order x = book.pool.order x := by
    intro x
    rw [order_release pool hInPool, hSame.order_eq]
  have hOff : ∀ x ∉ q side i, pool.prev x = book.pool.prev x ∧ pool.next x = book.pool.next x :=
    fun x hx => hHolds.unlink_frame (by rw [← hSplit]; exact hx)
  have hUnlinked : Holds (pool.release h)
      (((book.ladder side).level i).unlink book.pool h).1 (l ++ r) :=
    hHolds.unlink.frame (by rw [size_release]) (fun x _ => by rw [hOrder, hSame.order_eq])
      (fun x hx => prev_release_ne _ hInPool (hLeft x hx).2)
      fun x hx => next_release_ne _ hInPool (hLeft x hx).2
  have hChange : LevelChange book q side i (l ++ r) (book.dropResting side i h) := by
    rw [hBook]
    refine hRep.levelChange_setLevel hMem _ hUnlinked (fun x hx => ?_)
      (by rw [size_release]; exact hSame.size_eq.ge) fun x side' i' hx hNe => ?_
    · rw [hOrder]
      exact hRep.placed side i x (hLeft x hx).1
    · have hNot : x ∉ q side i := fun hIn => hNe (hRep.place_unique hIn hx)
      have hxh : x ≠ h := by
        rintro rfl
        exact hNot hMem
      refine ⟨hOrder x, ?_, ?_⟩
      · rw [prev_release_ne _ hInPool hxh, (hOff x hNot).1]
      · rw [next_release_ne _ hInPool hxh, (hOff x hNot).2]
  obtain ⟨hLaid, hQueues, hOutside, hPlaced, hMarked⟩ := hChange.queues hRep hLt
  have hPoolEq : (book.dropResting side i h).pool = pool.release h := rfl
  have hIndexEq : (book.dropResting side i h).index =
      (book.index.erase (book.pool.order h).id).1 := rfl
  refine
    { laid := hLaid
      holds := hQueues
      outside := hOutside
      placed := hPlaced
      marked := hMarked
      freeList := ?_
      cover := ?_
      disjoint := ?_
      index_valid := hErased
      index_find := ?_
      index_size := ?_
      live := ?_ }
  · exact (hRep.freeList.frame hSame.freeHead_eq hSame.size_eq fun x hx =>
      (hOff x (hRep.disjoint x hx side i)).2).release hInPool fun hFree =>
        hRep.disjoint h hFree side i hMem
  · intro x hx
    rw [hPoolEq, size_release, hSame.size_eq] at hx
    by_cases hxh : x = h
    · exact Or.inl (by simp [hxh])
    rcases hRep.cover x hx with hFree | ⟨s, j, hIn⟩
    · exact Or.inl (by simp [hFree])
    · exact Or.inr ⟨s, j, hQueued.mpr ⟨hIn, hxh⟩⟩
  · intro x hx s j hIn
    obtain ⟨hOld, hNe⟩ := hQueued.mp hIn
    rcases mem_cons.mp hx with rfl | hx
    · exact hNe rfl
    · exact hRep.disjoint x hx s j hOld
  · intro id x
    rw [hIndexEq, hPoolEq, hOrder, hRep.index_find_erase hMem]
    simp only [hQueued, exists_and_right]
  · rw [hIndexEq, hPoolEq, live_release, hSame.live_eq, ← hRep.index_size]
    simp only [FlatHashMap.size]
    omega
  · have hLength := q.length_handles_set side hLt (l ++ r)
    rw [hSplit] at hLength
    rw [hChange.instrument, hPoolEq, live_release, hSame.live_eq, hRep.live]
    simp only [length_append, length_cons] at hLength
    omega

/-- Erasing an emptied level. -/
theorem eraseLevel (hSet : (book.ladder side).test i = true) (hEmpty : q side i = []) :
    Rep (book.setLadder side ((book.ladder side).erase i)) q free := by
  have hValid := (hRep.laid side).valid
  have hLtLevels := hValid.bounded i hSet
  refine
    { laid := ?_
      holds := ?_
      outside := by simpa using hRep.outside
      placed := by simpa using hRep.placed
      marked := ?_
      freeList := by simpa using hRep.freeList
      cover := by simpa using hRep.cover
      disjoint := hRep.disjoint
      index_valid := by simpa using hRep.index_valid
      index_find := by simpa using hRep.index_find
      index_size := by simpa using hRep.index_size
      live := by simpa using hRep.live }
  · intro side'
    rw [instrument_setLadder]
    by_cases hSide : side' = side
    · subst hSide
      rw [ladder_setLadder]
      exact (hRep.laid side').erase hSet
    · rw [ladder_setLadder_ne _ _ hSide]
      exact hRep.laid side'
  · intro side' i' hLt'
    rw [instrument_setLadder] at hLt'
    rw [pool_setLadder]
    by_cases hSide : side' = side
    · subst hSide
      rw [ladder_setLadder, PriceLadder.Valid.level_erase hLtLevels]
      split
      · next hi =>
          rw [hi, hEmpty]
          exact holds_default _
      · exact hRep.holds side' i' hLt'
    · rw [ladder_setLadder_ne _ _ hSide]
      exact hRep.holds side' i' hLt'
  · intro side' i' hNe
    by_cases hSide : side' = side
    · subst hSide
      have hi : i' ≠ i := by
        rintro rfl
        exact hNe hEmpty
      rw [ladder_setLadder, hValid.test_erase hLtLevels]
      simp [hi, hRep.marked side' i' hNe]
    · rw [ladder_setLadder_ne _ _ hSide]
      exact hRep.marked side' i' hNe

end Rep

/-- The level a subscript returns: marked, and otherwise as it was. -/
theorem Laid.subscript
    (hLaid : Laid ladder instrument side) {i : Nat} (hLt : i < instrument.tickCount) :
    (ladder.subscript (tickPrice instrument i)).2 = some i ∧
      Laid (ladder.subscript (tickPrice instrument i)).1 instrument side ∧
      (∀ j, (ladder.subscript (tickPrice instrument i)).1.level j = ladder.level j) ∧
      ∀ j, (ladder.subscript (tickPrice instrument i)).1.test j =
        (decide (j = i) || ladder.test j) := by
  have hLtLevels : i < ladder.levels.length := by rw [hLaid.length]; exact hLt
  have hIndex : ladder.indexOf (tickPrice instrument i) = some i :=
    (PriceLadder.indexOf_eq_some_iff hLaid.valid.tick_pos _ _).mpr
      ⟨hLtLevels, (hLaid.priceAt i).symm⟩
  cases hTest : ladder.test i with
  | true =>
    have hSub : ladder.subscript (tickPrice instrument i) = (ladder, some i) := by
      simp [PriceLadder.subscript, hIndex, hTest]
    rw [hSub]
    refine ⟨rfl, hLaid, fun j => rfl, fun j => ?_⟩
    by_cases hj : j = i <;> simp [hj, hTest]
  | false =>
    have hSub : ladder.subscript (tickPrice instrument i) =
        ({ ladder.set i with occupied := ladder.occupied + 1 }, some i) := by
      simp [PriceLadder.subscript, hIndex, hTest]
    rw [hSub]
    refine ⟨rfl, ⟨hLaid.valid.set hLtLevels hTest, hLaid.descending, hLaid.minPrice,
      hLaid.tick, hLaid.length⟩, fun j => rfl, fun j => ?_⟩
    exact hLaid.valid.test_set hLtLevels j

namespace Rep

variable {book} {q : Queues} {free : List OrderHandle} {i : Nat} {order : Order}

/-- Inserting a new id adds its handle. -/
theorem index_find_insert (hRep : Rep book q free) {h : OrderHandle}
    {orderOf : OrderHandle → Order} (hFresh : book.index.find order.id = none)
    (hNew : orderOf h = order)
    (hOld : ∀ x side' i', x ∈ q side' i' → orderOf x = book.pool.order x) (id : OrderId)
    (x : OrderHandle) :
    (book.index.insert order.id h).1.find id = some x ↔
      ((∃ side' i', x ∈ q side' i') ∨ x = h) ∧ (orderOf x).id = id := by
  obtain ⟨-, hInserted⟩ := hRep.index_valid.insert h hFresh
  rw [hInserted.find_eq]
  by_cases hId : id = order.id
  · rw [if_pos hId]
    constructor
    · intro hEq
      cases hEq
      exact ⟨Or.inr rfl, by rw [hNew, hId]⟩
    · rintro ⟨⟨s, j, hx⟩ | rfl, hxId⟩
      · -- An old handle with the new id would have been found.
        rw [hOld x s j hx, hId] at hxId
        have hFound := (hRep.index_find order.id x).mpr ⟨⟨s, j, hx⟩, hxId⟩
        rw [hFresh] at hFound
        contradiction
      · rfl
  · rw [if_neg hId, hRep.index_find]
    constructor
    · rintro ⟨⟨s, j, hx⟩, hxId⟩
      exact ⟨Or.inl ⟨s, j, hx⟩, by rw [hOld x s j hx]; exact hxId⟩
    · rintro ⟨⟨s, j, hx⟩ | rfl, hxId⟩
      · exact ⟨⟨s, j, hx⟩, by rw [← hOld x s j hx]; exact hxId⟩
      · rw [hNew] at hxId
        exact absurd hxId.symm hId

/-- What `rest` does to the structures: a handle that was free or is new gets the order, goes
to the tail of its level's queue and is indexed. -/
structure Rested (book : OrderBook) (q : Queues) (free : List OrderHandle) (order : Order)
    (i : Nat) (h : OrderHandle) (free' : List OrderHandle) : Prop where
  change : LevelChange book q order.side i (q order.side i ++ [h]) (book.rest order)
  test : ∀ side' j, ((book.rest order).ladder side').test j =
    (decide (side' = order.side ∧ j = i) || (book.ladder side').test j)
  order_new : (book.rest order).pool.order h = order
  order_old : ∀ x side' i', x ∈ q side' i' → (book.rest order).pool.order x = book.pool.order x
  freeList : OrderPool.FreeList (book.rest order).pool free'
  freed : ∀ x, x ∈ free' ↔ x ∈ free ∧ x ≠ h
  covers : ∀ x, x < (book.rest order).pool.size ↔ x < book.pool.size ∨ x = h
  live : (book.rest order).pool.live = book.pool.live + 1
  index : (book.rest order).index = (book.index.insert order.id h).1
  nextTradeId : (book.rest order).nextTradeId = book.nextTradeId

theorem rested (hRep : Rep book q free) (hLt : i < book.instrument.tickCount)
    (hPrice : order.price = tickPrice book.instrument i) :
    ∃ h free', Rested book q free order i h free' := by
  obtain ⟨free', hAcquired⟩ := acquire_spec hRep.freeList order
  set pool := (book.pool.acquire order).1 with hPool
  set h := (book.pool.acquire order).2 with hHandle
  obtain ⟨hSub, hLaid, hLevel, hTest⟩ := (hRep.laid order.side).subscript hLt
  rw [← hPrice] at hSub hLaid hLevel hTest
  set ladder := ((book.ladder order.side).subscript order.price).1 with hLadder
  have hSubEq : (book.ladder order.side).subscript order.price = (ladder, some i) := by
    rw [← hSub]
  have hFreed : ∀ x, x ∈ free' ↔ x ∈ free ∧ x ≠ h := fun x =>
    hAcquired.mem_free_iff hRep.freeList.nodup
  -- The handle was free or is new, so no queue has it.
  have hNotQueued : ∀ s j, h ∉ q s j := by
    intro s j hMem
    rcases hAcquired.source with hFree | ⟨-, -, hNew⟩
    · exact hRep.disjoint h (by simp [hFree]) s j hMem
    have := hRep.lt_size hMem
    rw [hNew] at this
    exact Nat.lt_irrefl _ this
  have hQueuedNe : ∀ {x s j}, x ∈ q s j → x ≠ h := by
    rintro x s j hx rfl
    exact hNotQueued s j hx
  have hHolds : Holds pool ((book.ladder order.side).level i) (q order.side i) :=
    (hRep.holds order.side i hLt).frame hAcquired.size_le
      (fun x hx => hAcquired.order_old x (hQueuedNe hx))
      (fun x hx => hAcquired.prev_old x (hQueuedNe hx))
      fun x hx => hAcquired.next_old x (hQueuedNe hx)
  have hSame := hHolds.pushBack_sameOrders hAcquired.handle_lt
  have hPushed := hHolds.pushBack hAcquired.handle_lt (hNotQueued _ _)
  have hBook : book.rest order = (book.setLadder order.side (ladder.setLevel i
        (((book.ladder order.side).level i).pushBack pool h).1)).setStore
        (((book.ladder order.side).level i).pushBack pool h).2
        (book.index.insert order.id h).1 := by
    simp only [OrderBook.rest, hSubEq, hLevel]
    rfl
  set pool' := (((book.ladder order.side).level i).pushBack pool h).2 with hPool'
  have hPoolEq : (book.rest order).pool = pool' := by rw [hBook]; rfl
  have hOff : ∀ x ∉ q order.side i, x ≠ h →
      pool'.prev x = pool.prev x ∧ pool'.next x = pool.next x := fun x hx hNe =>
    hHolds.pushBack_frame hAcquired.handle_lt hx hNe
  have hOrderNew : pool'.order h = order := by rw [hSame.order_eq, hAcquired.order_new]
  have hOrderOld : ∀ x s j, x ∈ q s j → pool'.order x = book.pool.order x := by
    intro x s j hx
    rw [hSame.order_eq, hAcquired.order_old x (hQueuedNe hx)]
  have hLadderOwn : (book.rest order).ladder order.side = ladder.setLevel i
      (((book.ladder order.side).level i).pushBack pool h).1 := by
    rw [hBook, ladder_setStore, ladder_setLadder]
  have hLadderOther : ∀ side', side' ≠ order.side →
      (book.rest order).ladder side' = book.ladder side' := by
    intro side' hSide
    rw [hBook, ladder_setStore, ladder_setLadder_ne _ _ hSide]
  have hLtLevels : i < ladder.levels.length := by rw [hLaid.length]; exact hLt
  have hTest' : ∀ side' j, ((book.rest order).ladder side').test j =
      (decide (side' = order.side ∧ j = i) || (book.ladder side').test j) := by
    intro side' j
    by_cases hSide : side' = order.side
    · subst hSide
      rw [hLadderOwn]
      show ladder.test j = _
      simpa using hTest j
    · rw [hLadderOther side' hSide]
      simp [hSide]
  refine ⟨h, free',
    { change :=
        { instrument := by rw [hBook]; simp
          laid := fun side' => ?_
          level := fun side' i' hPlace => ?_
          test := fun side' i' hSet => by rw [hTest', hSet, Bool.or_true]
          marked := fun _ => by simp [hTest']
          holds := ?_
          placed := fun x hx => ?_
          size_le := by rw [hPoolEq, hSame.size_eq]; exact hAcquired.size_le
          nodes := fun x side' i' hx hPlace => ?_ }
      test := hTest'
      order_new := by rw [hPoolEq]; exact hOrderNew
      order_old := by rw [hPoolEq]; exact hOrderOld
      freeList := ?_
      freed := hFreed
      covers := fun x => by rw [hPoolEq, hSame.size_eq]; exact hAcquired.covers x
      live := by rw [hPoolEq, hSame.live_eq, hAcquired.live_eq]
      index := by rw [hBook]; rfl
      nextTradeId := by rw [hBook]; simp }⟩
  · by_cases hSide : side' = order.side
    · subst hSide
      rw [hLadderOwn]
      exact hLaid.setLevel i _
    · rw [hLadderOther side' hSide]
      exact hRep.laid side'
  · by_cases hSide : side' = order.side
    · subst hSide
      rw [hLadderOwn, level_setLevel _ _ hLtLevels,
        if_neg fun hi => hPlace ⟨rfl, hi⟩, hLevel]
    · rw [hLadderOther side' hSide]
  · rw [hLadderOwn, level_setLevel _ _ hLtLevels, if_pos rfl, hPoolEq]
    exact hPushed
  · rw [hPoolEq]
    rcases mem_append.mp hx with hx | hx
    · rw [hOrderOld x _ _ hx]
      exact hRep.placed order.side i x hx
    · rw [mem_singleton.mp hx, hOrderNew]
      exact ⟨rfl, hPrice⟩
  · have hNe := hQueuedNe hx
    obtain ⟨hPrev, hNext⟩ := hOff x (fun hIn => hPlace (hRep.place_unique hIn hx)) hNe
    rw [hPoolEq]
    exact ⟨hOrderOld x side' i' hx, hPrev.trans (hAcquired.prev_old x hNe),
      hNext.trans (hAcquired.next_old x hNe)⟩
  · rw [hPoolEq]
    refine hAcquired.freeList.frame hSame.freeHead_eq hSame.size_eq fun x hx => ?_
    obtain ⟨hFree, hNe⟩ := (hFreed x).mp hx
    exact (hOff x (hRep.disjoint x hFree _ _) hNe).2

theorem Rested.rep {h : OrderHandle} {free' : List OrderHandle}
    (hRested : Rested book q free order i h free') (hRep : Rep book q free)
    (hLt : i < book.instrument.tickCount) (hFresh : book.index.find order.id = none) :
    Rep (book.rest order) (q.set order.side i (q order.side i ++ [h])) free' := by
  obtain ⟨hLaid, hQueues, hOutside, hPlaced, hMarked⟩ := hRested.change.queues hRep hLt
  obtain ⟨-, hInserted⟩ := hRep.index_valid.insert h hFresh
  refine
    { laid := hLaid
      holds := hQueues
      outside := hOutside
      placed := hPlaced
      marked := hMarked
      freeList := hRested.freeList
      cover := ?_
      disjoint := ?_
      index_valid := by rw [hRested.index]; exact hInserted.valid
      index_find := ?_
      index_size := ?_
      live := ?_ }
  · intro x hx
    by_cases hxh : x = h
    · exact Or.inr ⟨order.side, i, Queues.mem_set_append.mpr (Or.inr ⟨hxh, rfl, rfl⟩)⟩
    rcases hRep.cover x (((hRested.covers x).mp hx).resolve_right hxh) with hFree | ⟨s, j, hIn⟩
    · exact Or.inl ((hRested.freed x).mpr ⟨hFree, hxh⟩)
    · exact Or.inr ⟨s, j, Queues.mem_set_append.mpr (Or.inl hIn)⟩
  · intro x hx s j hIn
    obtain ⟨hFree, hNe⟩ := (hRested.freed x).mp hx
    rcases Queues.mem_set_append.mp hIn with hIn | ⟨hEq, -, -⟩
    · exact hRep.disjoint x hFree s j hIn
    · exact hNe hEq
  · intro id x
    rw [hRested.index, hRep.index_find_insert hFresh hRested.order_new hRested.order_old]
    refine and_congr_left fun _ => ⟨?_, ?_⟩
    · rintro (⟨s, j, hx⟩ | rfl)
      · exact ⟨s, j, Queues.mem_set_append.mpr (Or.inl hx)⟩
      · exact ⟨order.side, i, Queues.mem_set_append.mpr (Or.inr ⟨rfl, rfl, rfl⟩)⟩
    · rintro ⟨s, j, hx⟩
      exact (Queues.mem_set_append.mp hx).imp (fun hx => ⟨s, j, hx⟩) And.left
  · rw [hRested.index, hRested.live, FlatHashMap.size, hInserted.size_eq, ← hRep.index_size]
    rfl
  · have hLength := q.length_handles_set order.side hLt (q order.side i ++ [h])
    rw [length_append, length_singleton] at hLength
    rw [hRested.change.instrument, hRested.live, hRep.live]
    omega

/-- Resting an order whose id is new: it joins the tail of its price's queue. -/
theorem rest (hRep : Rep book q free) (hLt : i < book.instrument.tickCount)
    (hPrice : order.price = tickPrice book.instrument i)
    (hFresh : book.index.find order.id = none) :
    ∃ h free', Rep (book.rest order)
        (q.set order.side i (q order.side i ++ [h])) free' ∧
      (book.rest order).pool.order h = order ∧
      (∀ x side' i', x ∈ q side' i' → (book.rest order).pool.order x = book.pool.order x) ∧
      (∀ side' j, ((book.rest order).ladder side').test j =
        (decide (side' = order.side ∧ j = i) || (book.ladder side').test j)) ∧
      (book.rest order).instrument = book.instrument ∧
      (book.rest order).nextTradeId = book.nextTradeId := by
  obtain ⟨h, free', hRested⟩ := hRep.rested hLt hPrice
  exact ⟨h, free', hRested.rep hRep hLt hFresh, hRested.order_new, hRested.order_old,
    hRested.test, hRested.change.instrument, hRested.nextTradeId⟩

end Rep

end OrderBook
end ExchangeCore
