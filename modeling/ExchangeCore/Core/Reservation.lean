import ExchangeCore.Core.QueuePriority
import ExchangeCore.Util.FiniteMap

/-!
# What a book allocates

A book is created with a slab for `initialCapacity` orders and an index of twice as many
slots.  The slab grows when it has no free node, the index is rebuilt when its live
entries and its tombstones together reach seven tenths of its slots.  An order that
leaves frees its node, but turns its index entry into a tombstone.  So a book that stays
within its order count never grows its slab, and does rebuild its index in the end.

Matching and cancelling only take entries out, which changes neither the sum of live
entries and tombstones nor the room of the two stores (`Released`).  So the index's load
before a command decides whether an order the command queues causes a rebuild.
-/

namespace ExchangeCore

open LinkedList PriceTime

/-! ## Taking entries out of the index -/

namespace FlatHashMap

variable {K V : Type} [Inhabited K] [Inhabited V] [DecidableEq K] [KeyHash K]

/-- The second table is the first after some entries became tombstones. -/
structure Thinned (map map' : FlatHashMap K V) : Prop where
  valid : map'.Valid
  capacity_eq : map'.capacity = map.capacity
  rehashes_eq : map'.rehashes = map.rehashes
  used_eq : map'.occupied + map'.tombstones = map.occupied + map.tombstones

variable {map map' : FlatHashMap K V}

omit [DecidableEq K] in
theorem Valid.thinned (hValid : map.Valid) : Thinned map map := ⟨hValid, rfl, rfl, rfl⟩

omit [DecidableEq K] in
theorem Thinned.needsGrowth (hThinned : Thinned map map') : map'.needsGrowth = map.needsGrowth := by
  unfold FlatHashMap.needsGrowth
  rw [hThinned.used_eq, hThinned.capacity_eq]

theorem erase_counters (key : K) :
    (map.erase key).1.rehashes = map.rehashes ∧
      (map.find key ≠ none → (map.erase key).1.tombstones = map.tombstones + 1) := by
  unfold FlatHashMap.erase find
  dsimp only
  split
  · exact ⟨rfl, fun hFound => absurd rfl hFound⟩
  · exact ⟨rfl, fun _ => rfl⟩

theorem Thinned.erase (hThinned : Thinned map map') (key : K) : Thinned map (map'.erase key).1 := by
  obtain ⟨hRehashes, hTombstones⟩ := map'.erase_counters key
  cases hFind : map'.find key with
  | none =>
    rw [erase_of_none hFind]
    exact hThinned
  | some value =>
    obtain ⟨hValid, -, hOccupied⟩ := hThinned.valid.erase hFind
    have hOneMore := hTombstones (by rw [hFind]; exact Option.some_ne_none value)
    have hUsed := hThinned.used_eq
    exact
      { valid := hValid
        capacity_eq := (erase_of_some hFind).2.trans hThinned.capacity_eq
        rehashes_eq := hRehashes.trans hThinned.rehashes_eq
        used_eq := by omega }

omit [Inhabited V] in
theorem rehashes_insertWith (grow : FlatHashMap K V → FlatHashMap K V) (key : K) (value : V) :
    (map.insertWith grow key value).1.rehashes =
      (if map.needsGrowth then grow map else map).rehashes := by
  unfold insertWith
  dsimp only
  split <;> split <;> rfl

/-- The entries are put back without a rebuild of the fresh table. -/
theorem rehashes_grow (map : FlatHashMap K V) : map.grow.rehashes = map.rehashes + 1 := by
  unfold grow rebuilt
  refine List.foldlRecOn (motive := fun fresh : FlatHashMap K V =>
    fresh.rehashes = map.rehashes + 1) _ _ rfl fun fresh hFresh i _ => ?_
  split
  · rw [rehashes_insertWith, id, ite_self]
    exact hFresh
  · exact hFresh

/-- A table is rebuilt exactly if it has no room. -/
theorem rehashes_insert (key : K) (value : V) :
    (map.insert key value).1.rehashes = map.rehashes + if map.needsGrowth then 1 else 0 := by
  unfold FlatHashMap.insert
  rw [rehashes_insertWith]
  split
  · exact rehashes_grow map
  · rfl

end FlatHashMap

/-! ## The room of the slab -/

namespace OrderPool

/-- No reallocation happened between the two. -/
structure SameRoom (pool pool' : OrderPool) : Prop where
  capacity_eq : pool'.capacity = pool.capacity
  growthEvents_eq : pool'.growthEvents = pool.growthEvents

variable (level : PriceLevel) (pool : OrderPool) (handle : OrderHandle)

theorem SameRoom.refl : SameRoom pool pool := ⟨rfl, rfl⟩

theorem SameRoom.trans {pool₁ pool₂ pool₃ : OrderPool} (h₁ : SameRoom pool₁ pool₂)
    (h₂ : SameRoom pool₂ pool₃) : SameRoom pool₁ pool₃ :=
  ⟨h₂.capacity_eq.trans h₁.capacity_eq, h₂.growthEvents_eq.trans h₁.growthEvents_eq⟩

theorem sameRoom_unlink : SameRoom pool (level.unlink pool handle).2 := by
  unfold PriceLevel.unlink
  dsimp only
  split <;> split <;> exact ⟨rfl, rfl⟩

theorem sameRoom_pushBack :
    SameRoom pool (level.pushBack pool handle).2 ∧
      (level.pushBack pool handle).2.live = pool.live := by
  unfold PriceLevel.pushBack
  dsimp only
  split <;> exact ⟨⟨rfl, rfl⟩, rfl⟩

theorem live_acquire (order : Order) : (pool.acquire order).1.live = pool.live + 1 := by
  unfold acquire
  dsimp only
  split <;> rfl

end OrderPool

namespace OrderBook

open OrderPool FlatHashMap

/-! ## Matching and cancelling only release -/

/-- Orders have left the first book to give the second, and none was added. -/
structure Released (book book' : OrderBook) : Prop where
  index : Thinned book.index book'.index
  slab : SameRoom book.pool book'.pool

section Released

variable {book book' : OrderBook} {side : Side} {i : Nat} {handle : OrderHandle}

section

variable (hReleased : Released book book')
include hReleased

theorem Released.setLadder (ladder : PriceLadder) :
    Released book (book'.setLadder side ladder) := by
  cases side <;> exact ⟨hReleased.index, hReleased.slab⟩

theorem Released.dropOrder (ladder : PriceLadder) (level : PriceLevel) (id : OrderId) :
    Released book ((book'.setLadder side ladder).setStore
      ((level.unlink book'.pool handle).2.release handle) (book'.index.erase id).1) where
  index := hReleased.index.erase id
  slab := (hReleased.slab.trans (sameRoom_unlink level book'.pool handle)).trans ⟨rfl, rfl⟩

theorem Released.reduceResting (order : Order)
    (quantity : Nat) : Released book (book'.reduceResting side i handle order quantity) :=
  ⟨hReleased.index, hReleased.slab.trans ⟨rfl, rfl⟩⟩

theorem Released.dropResting : Released book (book'.dropResting side i handle) :=
  hReleased.dropOrder _ _ _

theorem Released.settleResting (order : Order)
    (quantity : Nat) : Released book (book'.settleResting side i handle order quantity) := by
  unfold OrderBook.settleResting
  dsimp only
  split
  · exact (hReleased.reduceResting order quantity).dropResting
  · exact hReleased.reduceResting order quantity

theorem Released.closeLevel : Released book (book'.closeLevel side i) := by
  unfold OrderBook.closeLevel
  split
  · exact hReleased.setLadder _
  · exact hReleased

end

variable {s : MatchState}

theorem Released.prevent (hReleased : Released book s.book) :
    Released book (s.prevent side i handle).book := by
  unfold MatchState.prevent
  dsimp only
  split
  · exact hReleased
  · exact hReleased
  · exact hReleased.dropResting
  · exact hReleased.dropResting
  · exact hReleased.settleResting _ _

theorem Released.trade (hReleased : Released book s.book) (levelPrice : Int) :
    Released book (s.trade side i levelPrice handle).book :=
  have hSettled := hReleased.settleResting _ _
  ⟨hSettled.index, hSettled.slab⟩

theorem Released.matchLevel (levelPrice : Int) (fuel : Nat) (hReleased : Released book s.book) :
    Released book (MatchState.matchLevel side i levelPrice fuel s).book := by
  induction fuel generalizing s with
  | zero => exact hReleased
  | succ fuel ih =>
    rw [MatchState.matchLevel]
    split
    · exact hReleased
    split
    · exact hReleased
    split
    · exact ih hReleased.prevent
    · exact ih (hReleased.trade levelPrice)

theorem Released.matchLevels (crosses : Int → Bool) (fuel : Nat)
    (hReleased : Released book s.book) :
    Released book (MatchState.matchLevels side crosses fuel s).book := by
  induction fuel generalizing s with
  | zero => exact hReleased
  | succ fuel ih =>
    rw [MatchState.matchLevels]
    split
    · exact hReleased
    split
    · exact hReleased
    dsimp only
    split
    · exact hReleased
    · exact ih (hReleased.matchLevel _ _).closeLevel

theorem Released.refl (hValid : book.index.Valid) : Released book book :=
  ⟨hValid.thinned, SameRoom.refl _⟩

end Released

/-! ## Queueing an order -/

section Rest

variable {book : OrderBook} {q : Queues} {free : List OrderHandle}

/-- The nodes of the slab are those of the resting orders and the free ones. -/
theorem Rep.size_eq (hRep : Rep book q free) : book.pool.size = book.pool.live + free.length := by
  let handles := q.handles book.instrument.tickCount
  have hNodup : (free ++ (handles .buy ++ handles .sell)).Nodup := by
    refine List.nodup_append.mpr ⟨hRep.freeList.nodup, ?_, ?_⟩
    · refine List.nodup_append.mpr ⟨hRep.nodup_handles .buy, hRep.nodup_handles .sell, ?_⟩
      intro h hBuy h' hSell hSame
      have hSides := hRep.side_of_mem_handles hBuy
      rw [hSame, hRep.side_of_mem_handles hSell] at hSides
      contradiction
    · intro h hFree h' hQueued hSame
      rw [← hSame, List.mem_append] at hQueued
      rcases hQueued with hQueued | hQueued <;>
      · obtain ⟨i, -, hMem⟩ := Queues.mem_handles.mp hQueued
        exact hRep.disjoint h hFree _ i hMem
  have hMembers : ∀ h, h ∈ free ++ (handles .buy ++ handles .sell) ↔
      h ∈ List.range book.pool.size := by
    intro h
    rw [List.mem_range, List.mem_append, List.mem_append]
    constructor
    · rintro (hFree | hQueued | hQueued)
      · exact hRep.freeList.bounded h hFree
      · obtain ⟨i, -, hMem⟩ := Queues.mem_handles.mp hQueued
        exact hRep.lt_size hMem
      · obtain ⟨i, -, hMem⟩ := Queues.mem_handles.mp hQueued
        exact hRep.lt_size hMem
    · intro hLt
      rcases hRep.cover h hLt with hFree | ⟨side, i, hMem⟩
      · exact Or.inl hFree
      have hQueued := hRep.mem_handles_iff.mpr ⟨i, hMem⟩
      cases side with
      | buy => exact Or.inr (Or.inl hQueued)
      | sell => exact Or.inr (Or.inr hQueued)
  have hLength := ((List.perm_ext_iff_of_nodup hNodup List.nodup_range).mpr hMembers).length_eq
  rw [List.length_append, List.length_append, List.length_range] at hLength
  have hLive : book.pool.live = (handles .buy).length + (handles .sell).length := hRep.live
  omega

theorem Sound.index_size (hSound : book.Sound) : book.restingOrderCount = book.pool.live := by
  obtain ⟨q, free, hRep, -⟩ := hSound
  exact hRep.index_size

theorem Sound.index_valid (hSound : book.Sound) : book.index.Valid := by
  obtain ⟨q, free, hRep, -⟩ := hSound
  exact hRep.index_valid

/-- What queueing does to the two stores. -/
theorem rest_stores (book : OrderBook) (order : Order) :
    (book.rest order).index = (book.index.insert order.id (book.pool.acquire order).2).1 ∧
      SameRoom (book.pool.acquire order).1 (book.rest order).pool ∧
      (book.rest order).pool.live = book.pool.live + 1 := by
  rw [← live_acquire book.pool order]
  unfold OrderBook.rest
  dsimp only
  split
  · exact ⟨rfl, .refl _, rfl⟩
  · next ladder i _ =>
      exact ⟨rfl, sameRoom_pushBack (ladder.level i) (book.pool.acquire order).1 _⟩

end Rest

/-! ## Commands -/

/-- The command stores an order: a submission that rests, or an amendment that is queued
again. -/
def queues (book : OrderBook) : BookCommand → Bool
  | .submit order => (book.submit order [] []).result.rested
  | .cancel _ => false
  | .replace id newPrice newQuantity newSequence now =>
    let result := (book.replace id newPrice newQuantity newSequence now [] []).result
    result.rested && !result.priorityRetained

/-- What a command does to the stores: it only releases, or it queues an order after that. -/
inductive Stored (book : OrderBook) : Bool → OrderBook → Prop
  | released {book' : OrderBook} (hReleased : Released book book') : Stored book false book'
  | queued {cleared : OrderBook} (hReleased : Released book cleared) (hSound : cleared.Sound)
      (order : Order) : Stored book true (cleared.rest order)

section Commands

variable {start book book' : OrderBook} {queued : Bool}

/-- A command rebuilds the index once, if it queues an order in one without room, and
else not at all. -/
theorem Stored.rehashes (hStored : Stored book queued book') :
    book'.index.rehashes =
      book.index.rehashes + if queued && book.index.needsGrowth then 1 else 0 := by
  cases hStored with
  | released hReleased => exact hReleased.index.rehashes_eq
  | @queued cleared hReleased hSound order =>
    rw [(cleared.rest_stores order).1, rehashes_insert, hReleased.index.rehashes_eq,
      hReleased.index.needsGrowth, Bool.true_and]

end Commands

end OrderBook
end ExchangeCore
